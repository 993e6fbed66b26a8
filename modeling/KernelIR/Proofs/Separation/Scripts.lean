import KernelIR.Proofs.Actions
import KernelIR.Proofs.Separation.Lockstep
/-!
# Scripts — a script reads and writes no slots but those it names

A term, a statement, a command and an action name slots: their footprint.  When a producer owns all of it, evaluation
alone and evaluation in a workspace that is split with another producer go in lockstep.

Main statements: every command does (`Command.lockstep`), and every action that does not fail while it has the table of
names (`Action.lockstep`).
-/
namespace KernelIR

/-! ## The footprint -/

def LocsTerm.footprint : LocsTerm → List (SlotKind × String)
  | .slot x => [(.locs, x)]
  | .list _ => []

namespace Term

mutual

def footprint : Term → List (SlotKind × String)
  | .slot x => [(.expr, x)]
  | .bvConst _ _ | .bvZero _ | .boolConst _ => []
  | .arrayRef a => [(.array, a)]
  | .varRef v => [(.var, v)]
  | .pointer a o | .load a o => a.footprint ++ o.footprint
  | .call c args => (.callee, c) :: footprintList args
  | .bvExtract e _ _ | .extend _ e _ | .unary _ e => e.footprint
  | .binary _ l r => l.footprint ++ r.footprint

def footprintList : List Term → List (SlotKind × String)
  | [] => []
  | t :: ts => t.footprint ++ footprintList ts

end

end Term

namespace StmtTerm

mutual

def footprint : StmtTerm → List (SlotKind × String)
  | .slot x => [(.stmt, x)]
  | .eval e locs | .assert e _ _ _ locs | .waitGroupEvent e locs => e.footprint ++ locs.footprint
  | .store a o v locs => a.footprint ++ (o.footprint ++ (v.footprint ++ locs.footprint))
  | .varAssign vars values => vars.map (.var, ·) ++ Term.footprintList values
  | .goto _ | .ret => []
  | .assume e _ => e.footprint
  | .badAccess locs | .blockSourceLoc locs => locs.footprint
  | .call c args locs => (.callee, c) :: (Term.footprintList args ++ locs.footprint)
  | .callMemberOf func locs calls => func.footprint ++ (locs.footprint ++ footprintList calls)

def footprintList : List StmtTerm → List (SlotKind × String)
  | [] => []
  | s :: ss => s.footprint ++ footprintList ss

end

end StmtTerm

def FunctionRef.slot : FunctionRef → SlotKind × String
  | .loose x => (.function, x)
  | .nth m _ | .named m _ => (.module, m)

def BlockRef.slot : BlockRef → SlotKind × String
  | .loose x => (.block, x)
  | .ofFunction f _ => f.slot

def StmtRef.slot : StmtRef → SlotKind × String
  | .loose x => (.stmt, x)
  | .ofBlock b _ => b.slot

def HandleKind.slot : HandleKind → SlotKind
  | .var => .var
  | .array => .array
  | .callee => .callee

def ShownKind.slot : ShownKind → SlotKind
  | .expr => .expr
  | .var => .var
  | .array => .array
  | .callee => .callee
  | .stmt => .stmt
  | .block => .block

def DroppedKind.slot : DroppedKind → SlotKind
  | .expr => .expr
  | .var => .var
  | .stmt => .stmt
  | .block => .block
  | .function => .function
  | .module => .module

namespace Command

/-- The slot that a command fills, if it fills one. -/
def target (kind : SlotKind) (into : Option String) : List (SlotKind × String) := into.toList.map (kind, ·)

/-- Every slot that the command names, to read, to fill or to empty. -/
def footprint : Command → List (SlotKind × String)
  | .expr e into => target .expr into ++ e.footprint
  | .operand x _ into => (.expr, x) :: target .expr into
  | .info x | .dump x | .refCount x | .markers x | .preventEval x => [(.expr, x)]
  | .sameNode x y => [(.expr, x), (.expr, y)]
  | .typecheckCall c args => (.callee, c) :: Term.footprintList args
  | .distinct kind xs => xs.map (kind.slot, ·)
  | .debug kind x => [(kind.slot, x)]
  | .drop kind x => [(kind.slot, x)]
  | .locs t into => target .locs into ++ t.footprint
  | .compareLocs x y => [(.locs, x), (.locs, y)]
  | .stmt s into => target .stmt into ++ s.footprint
  | .showStmt s | .sourceLocs s => [s.slot]
  | .block _ _ into => target .block into
  | .addStmt site s => site.slot :: s.footprint
  | .addEval site e t => site.slot :: (e.footprint ++ t.footprint)
  | .showBlock b => [b.slot]
  | .function _ into => target .function into
  | .addVar _ f _ _ into => (.function, f) :: target .var into
  | .addBlock f _ | .addAttribute f _ => [(.function, f)]
  | .addClause _ f e t => (.function, f) :: (e.footprint ++ t.footprint)
  | .hasAttribute f _ | .showFunction f => [f.slot]
  | .callee f into => f.slot :: target .callee into
  | .module _ _ into => target .module into
  | .addArray m _ _ into => (.module, m) :: target .array into
  | .addFunction m f => [(.module, m), (.function, f)]
  | .addAxiom m e => (.module, m) :: e.footprint
  | .showModule m => [(.module, m)]

end Command

/-- All slots of the list are the producer's own. -/
def Owns (mine : SlotKind → String → Prop) (l : List (SlotKind × String)) : Prop := ∀ p ∈ l, mine p.1 p.2

section

variable {α β : Type} {mine : SlotKind → String → Prop} {L : Link}

namespace Owns

variable {p : SlotKind × String} {l l' : List (SlotKind × String)}

theorem left (h : Owns mine (l ++ l')) : Owns mine l := (List.forall_mem_append.1 h).1

theorem right (h : Owns mine (l ++ l')) : Owns mine l' := (List.forall_mem_append.1 h).2

theorem head (h : Owns mine (p :: l)) : mine p.1 p.2 := (List.forall_mem_cons.1 h).1

theorem tail (h : Owns mine (p :: l)) : Owns mine l := (List.forall_mem_cons.1 h).2

theorem all {kind : SlotKind} {xs : List String} (h : Owns mine (xs.map (kind, ·))) : ∀ x ∈ xs, mine kind x :=
  fun x hx => h (kind, x) (List.mem_map_of_mem hx)

end Owns

/-! ## Terms -/

namespace Build.Lockstep

theorem word (n : Int) :
    Lockstep mine L (fun _ i i' => i' = i) (Build.ofExcept (wordOfInt n)) (Build.ofExcept (wordOfInt n)) :=
  ofExcept (.same (fun _ => wordOfInt_alike) fun _ => rfl)

theorem loc (l : LocTerm) : Lockstep mine L SourceLoc.Linked l.build l.build :=
  (intern l.file).bind fun _ hf => (intern l.path).bind fun le₁ hp => (word l.line).bind fun le₂ hl =>
    (word l.column).bind fun le₃ hc => pure fun le₄ =>
      have later := le₂.trans (le₃.trans le₄)
      ⟨Link.le_sym (le₁.trans later) hf, Link.le_sym later hp, hl, hc⟩

theorem locs : ∀ t : LocsTerm, Owns mine t.footprint → Lockstep mine L Locs.Linked t.build t.build
  | .slot _, h => locsSlot h.head
  | .list _, _ => (mapM (fun le hx => hx.imp le) fun _ _ {_} _ => loc _).bind fun _ hl => newLocs hl

end Build.Lockstep

open Build (Lockstep)

namespace Term

mutual

theorem lockstep : ∀ (t : Term) {L : Link}, Owns mine t.footprint → Lockstep mine L (fun L => L.node) t.build t.build
  | .slot _, _, h => .exprSlot h.head
  | .bvConst w v, _, _ => .construct (.bvConst w v)
  | .bvZero w, _, _ => .construct (.bvZero w)
  | .boolConst b, _, _ => .construct (.boolConst b)
  | .arrayRef _, _, h => (Lockstep.arraySlot h.head).bind fun _ ha => .construct (.arrayRef ha)
  | .varRef _, _, h => (Lockstep.varSlot h.head).bind fun _ hv => .construct (.varRef hv)
  | .pointer a o, _, h => (a.lockstep h.left).bind fun _ ha => (o.lockstep h.right).bind fun le ho =>
      .construct (.pointer (Link.le_node le ha) ho)
  | .load a o, _, h => (a.lockstep h.left).bind fun _ ha => (o.lockstep h.right).bind fun le ho =>
      .construct (.load (Link.le_node le ha) ho)
  | .call _ args, _, h => (Lockstep.calleeSlot h.head).bind fun _ hc => (lockstepList args h.tail).bind
      fun le ha => .construct (.call (hc.imp le) ha)
  | .bvExtract e offset width, _, h => (e.lockstep h).bind fun _ he => .construct (.bvExtract he offset width)
  | .extend x e width, _, h => (e.lockstep h).bind fun _ he => .construct (.extend x he width)
  | .unary op e, _, h => (e.lockstep h).bind fun _ he => .construct (.unary op he)
  | .binary op l r, _, h => (l.lockstep h.left).bind fun _ hl => (r.lockstep h.right).bind fun le hr =>
      .construct (.binary op (Link.le_node le hl) hr)

theorem lockstepList : ∀ (ts : List Term) {L : Link}, Owns mine (footprintList ts) →
    Lockstep mine L (fun L => List.Forall₂ L.node) (buildList ts) (buildList ts)
  | [], _, _ => .pure fun _ => .nil
  | t :: ts, _, h => (t.lockstep h.left).bind fun _ ht => (lockstepList ts h.right).bind fun le hts =>
      .pure fun le' => .cons (Link.le_node (le.trans le') ht) (hts.imp fun _ _ => Link.le_node le')

end

end Term

namespace StmtTerm

theorem lockstep_marked (value : Bool) (facets : Facets) {locs : LocsTerm} (h : Owns mine locs.footprint) :
    Lockstep mine L (fun L => Stmt.Linked L L.node) (buildMarked value facets locs) (buildMarked value facets locs) :=
  (Lockstep.locs locs h).bind fun _ hl => (Lockstep.construct (.boolConst value)).bind fun le hp =>
    .newStmt (.assert hp facets) (hl.imp le)

mutual

theorem lockstep : ∀ (s : StmtTerm) {L : Link}, Owns mine s.footprint →
    Lockstep mine L (fun L => Stmt.Linked L L.node) s.build s.build
  | .slot _, _, h => (Lockstep.stmtSlot h.head).bind fun _ hs =>
      (Lockstep.modify fun _ split => split.take .stmt h.head).bind fun le _ => .pure fun le' =>
        hs.imp (le.trans le')
  | .eval e locs, _, h => (e.lockstep h.left).bind fun _ he => (Lockstep.locs locs h.right).bind
      fun le hl => .newStmt (.eval (Link.le_node le he)) hl
  | .store a o v locs, _, h => (a.lockstep h.left).bind fun _ ha => (o.lockstep h.right.left).bind
      fun le ho => (v.lockstep h.right.right.left).bind fun le' hv =>
        (Lockstep.locs locs h.right.right.right).bind fun le'' hl =>
          .newStmt (.store (Link.le_node (le.trans (le'.trans le'')) ha) (Link.le_node (le'.trans le'') ho)
            (Link.le_node le'' hv)) hl
  | .varAssign _ values, _, h => (Lockstep.mapM (fun le hv => hv.imp le) fun x hx _ _ =>
      Lockstep.varSlot (h.left.all x hx)).bind fun _ hv => (Term.lockstepList values h.right).bind
        fun le he => .newUnlocated (.varAssign (hv.imp fun _ _ hv => hv.imp le) he)
  | .goto targets, _, _ => .newUnlocated (.goto targets)
  | .ret, _, _ => .newUnlocated .ret
  | .assume e partition, _, h => (e.lockstep h).bind fun _ he => .newUnlocated (.assume he partition)
  | .assert e global candidate invariant locs, _, h => (e.lockstep h.left).bind fun _ he =>
      (Lockstep.locs locs h.right).bind fun le hl =>
        .newStmt (.assert (Link.le_node le he) (facets global candidate invariant)) hl
  | .badAccess _, _, h => lockstep_marked _ _ h
  | .blockSourceLoc _, _, h => lockstep_marked _ _ h
  | .call _ args locs, _, h => (Lockstep.calleeSlot h.head).bind fun _ hc =>
      (Term.lockstepList args h.tail.left).bind fun le ha => (Lockstep.locs locs h.tail.right).bind
        fun le' hl => .newStmt (.call (hc.imp (le.trans le')) (ha.imp fun _ _ => Link.le_node le')) hl
  | .callMemberOf func locs calls, _, h => (func.lockstep h.left).bind fun _ hf =>
      (Lockstep.locs locs h.right.left).bind fun le hl => (lockstepList calls h.right.right).bind
        fun le' hs => .newIndirectCall (Link.le_node (le.trans le') hf) hs (hl.imp le')
  | .waitGroupEvent e locs, _, h => (e.lockstep h.left).bind fun _ he => (Lockstep.locs locs h.right).bind
      fun le hl => .newStmt (.waitGroupEvent (Link.le_node le he)) hl

theorem lockstepList : ∀ (ss : List StmtTerm) {L : Link}, Owns mine (footprintList ss) →
    Lockstep mine L (fun L => List.Forall₂ (Stmt.Linked L L.node)) (buildList ss) (buildList ss)
  | [], _, _ => .pure fun _ => .nil
  | s :: ss, _, h => (s.lockstep h.left).bind fun _ hs =>
      (Lockstep.dropOnFailure (.cons hs .nil) (lockstepList ss h.right)).bind fun le hss => .pure fun le' =>
        .cons (hs.imp (le.trans le')) (hss.imp fun _ _ hs => hs.imp le')

end

end StmtTerm

/-! ## Commands -/

namespace Build.Lockstep

variable {into : Option String}

/-- A slot that a command fills, if one is named. -/
theorem target {kind : SlotKind} (h : Owns mine (Command.target kind into)) {x : String} (hx : into = some x) :
    mine kind x := h.all x (by rw [hx]; exact List.mem_singleton_self x)

theorem keep {kind : SlotKind} {set : String → α → Workspace → Workspace} (h : Owns mine (Command.target kind into))
    {o o' : α} (hs : ∀ {x L₁ R a b w}, mine kind x → L ≤ L₁ → Split mine L₁ R a b w →
      Split mine L₁ R (set x o a) b (set x o' w)) :
    Lockstep mine L (fun _ _ _ => True) (keep set into o) (keep set into o') := by
  cases into with
  | none => exact pure fun _ => trivial
  | some x => exact modify fun le split => hs (target h rfl) le split

theorem keepOwned {o o' : Owned} (ho : o.Linked L o') (h : Owns mine (Command.target o.kind.slot into)) :
    Lockstep mine L (fun _ _ _ => True) (keepOwned into o) (keepOwned into o') := by
  cases into with
  | none => exact dropOwned (.cons ho .nil)
  | some x => exact setOwned ho (target h rfl)

/-! ### Reading -/

/-- Both find one site, of the producer, with linked functions. -/
structure Found (mine : SlotKind → String → Prop) (L : Link) (p p' : FunctionSite × Function) : Prop where
  site : p'.1 = p.1
  own : mine p.1.slot.1 p.1.slot.2
  function : p.2.Linked L p'.2

theorem nthFunction {m : String} (hx : mine .module m) (i : Nat) {md md' : Module} (hm : md.Linked L md') :
    Lockstep mine L (Found mine) (findFunction.nthFunction m i md) (findFunction.nthFunction m i md') := by
  have here := getElem?_linked hm.functions i
  unfold findFunction.nthFunction
  generalize md.functions[i]? = f at here
  generalize md'.functions[i]? = f' at here
  cases here with
  | none => exact throw (.missing _)
  | some hf => exact pure fun le => ⟨rfl, hx, hf.imp le⟩

theorem findFunction : ∀ f : FunctionRef, mine f.slot.1 f.slot.2 →
    Lockstep mine L (Found mine) (findFunction f) (findFunction f)
  | .loose _, h => (functionSlot h).bind fun _ hf => pure fun le => ⟨rfl, h, hf.imp le⟩
  | .nth _ i, h => (moduleSlot h).bind fun _ hm => nthFunction h i hm
  | .named m text, h => by
    refine (moduleSlot h).bind fun _ hm => checkNames.bind fun le _ => .get fun le' split => ?_
    have hm := hm.imp (le.trans le')
    rw [split.fits.positionOf? hm]
    split
    · exact nthFunction h _ hm
    · exact throw (.missing _)

theorem findBlock : ∀ b : BlockRef, mine b.slot.1 b.slot.2 →
    Lockstep mine L Block.Linked (findBlock b) (findBlock b)
  | .loose _, h => blockSlot h
  | .ofFunction f i, h => (findFunction f h).bind fun _ hp =>
      (ofExcept (hp.function.block i)).imp fun le hb => hb.imp le

theorem findStmt : ∀ s : StmtRef, mine s.slot.1 s.slot.2 →
    Lockstep mine L (fun L => Stmt.Linked L L.node) (findStmt s) (findStmt s)
  | .loose _, h => stmtSlot h
  | .ofBlock b i, h => by
    refine (findBlock b h).bind @fun _ b b' _ hb => ?_
    have here := getElem?_linked hb.stmts i
    generalize b.stmts[i]? = s at here
    generalize b'.stmts[i]? = s' at here
    cases here with
    | none => exact throw (.missing _)
    | some hs => exact pure fun le => hs.imp le

theorem countedSlots {kind : SlotKind} {read : String → Build α} {num : α → Nat} {P : Link → α → α → Prop}
    (mono : ∀ {L L' x x'}, L ≤ L' → P L x x' → P L' x x') (nums : ∀ {L x x'}, P L x x' → L.num (num x) (num x'))
    (hr : ∀ {L} x, mine kind x → Lockstep mine L P (read x) (read x)) {xs : List String}
    (h : Owns mine (xs.map (kind, ·))) :
    Lockstep mine L (fun _ n n' => n' = n) (do return countDistinct ((← xs.mapM read).map num))
      (do return countDistinct ((← xs.mapM read).map num)) :=
  (mapM (Q := P) mono fun x hx {_} _ => hr x (h.all x hx)).bind fun _ hl => faithfully fun le faithful =>
    pure fun _ => countDistinct_linked faithful (List.rel_map (fun _ _ hx => Link.le_num le (nums hx)) hl)

theorem distinct (kind : HandleKind) {xs : List String} (h : Owns mine (xs.map (kind.slot, ·))) :
    Lockstep mine L (fun _ n n' => n' = n) (distinct kind xs) (distinct kind xs) := by
  cases kind with
  | var => exact countedSlots (fun le hx => hx.imp le) (fun hx => hx.id) (fun _ hx => varSlot hx) h
  | array => exact countedSlots (fun le hx => hx.imp le) (fun hx => hx.id) (fun _ hx => arraySlot hx) h
  | callee => exact countedSlots (fun le hx => hx.imp le) (fun hx => hx.id) (fun _ hx => calleeSlot hx) h

/-- A slot is shown with what was there before it is read. -/
theorem shownSlot {kind : SlotKind} {table : Workspace → Table α} {P : Link → α → α → Prop} {x : String}
    (hx : ∀ {L₁ R a b w}, Split mine L₁ R a b w → Option.Rel (P L₁) ((table a).get? x) ((table w).get? x))
    {text : Workspace → α → String} (ht : ∀ {L₁ a w o o'}, a.Sees L₁ w → P L₁ o o' → text w o' = text a o) :
    Lockstep mine L (fun _ s s' => s' = s) (do let w ← MonadState.get; return text w (← Build.slot kind table x))
      (do let w ← MonadState.get; return text w (← Build.slot kind table x)) := by
  intro L₁ R a b w le split
  have found := hx split
  change Together mine L₁ R b _
    (EStateM.bind (Build.slot kind table x) (fun o => Pure.pure (text a o)) a)
    (EStateM.bind (Build.slot kind table x) (fun o => Pure.pure (text w o)) w)
  rw [EStateM.bind, EStateM.bind, slot_apply, slot_apply]
  generalize (table a).get? x = o at found
  generalize (table w).get? x = o' at found
  cases found with
  | some ho => exact .ok le_rfl split (ht split.sees ho)
  | none => exact .error le_rfl split (.missing _)

theorem debug (kind : ShownKind) {x : String} (h : mine kind.slot x) :
    Lockstep mine L (fun _ s s' => s' = s) (debug kind x) (debug kind x) := by
  cases kind with
  | expr => exact shownSlot (fun split => split.tables.exprs.left x h) fun sees => sees.debugExpr
  | var => exact shownSlot (fun split => split.tables.vars.left x h) fun sees hv => hv.debug sees.reads
  | array => exact shownSlot (fun split => split.tables.arrays.left x h) fun sees ha => ha.debug sees.reads
  | callee => exact shownSlot (fun split => split.tables.callees.left x h) fun sees hc => hc.debug sees.reads
  | stmt => exact shownSlot (fun split => split.tables.stmts.left x h) fun sees => sees.debugStmt
  | block => exact shownSlot (fun split => split.tables.blocks.left x h) fun sees => sees.debugBlock

theorem drop (kind : DroppedKind) {x : String} (h : mine kind.slot x) :
    Lockstep mine L (fun _ _ _ => True) (drop kind x) (drop kind x) := by
  cases kind with
  | expr => exact (discard (exprSlot h)).bind fun _ _ => modify fun _ split => split.eraseExpr h
  | var => exact (discard (varSlot h)).bind fun _ _ => modify fun _ split => split.eraseVar h
  | stmt => exact (stmtSlot h).bind fun _ hs => remove (.stmt hs) h
  | block => exact (blockSlot h).bind fun _ hb => remove (.block hb) h
  | function => exact (functionSlot h).bind fun _ hf => remove (.function hf) h
  | module => exact (moduleSlot h).bind fun _ hm => remove (.module hm) h

theorem ownedSlot (kind : OwnedKind) {x : String} (hx : mine kind.slot x) :
    Lockstep mine L Owned.Linked (ownedSlot kind x) (ownedSlot kind x) := by
  refine .get @fun _ _ a _ w _ split => ?_
  have here := split.owned? kind hx
  generalize a.owned? kind x = o at here
  generalize w.owned? kind x = o' at here
  cases here with
  | none => exact throw (.missing _)
  | some ho => exact pure fun le => ho.imp le

/-! ### Writing -/

theorem addEvalTo {site : BlockSite} (hx : mine site.slot.1 site.slot.2) {n n' : NodeId} (hn : L.node n n')
    {locs locs' : Locs} (hl : locs.Linked L locs') :
    Lockstep mine L (fun _ k k' => k' = k) (Command.addEvalTo site n locs) (Command.addEvalTo site n' locs') := by
  refine .get @fun _ _ a _ w le split => ?_
  have cell := split.cell (Link.le_node le hn)
  have blocked : ((w.store.cell n').hasEval || (w.store.cell n').prevented) =
      ((a.store.cell n).hasEval || (a.store.cell n).prevented) := by
    rw [cell.hasEval, cell.prevented]
  dsimp only
  rw [blocked]
  split
  · exact (blockAt hx).bind fun _ hb => pure fun _ => hb.stmts.length_eq.symm
  · exact (newStmt (.eval (Link.le_node le hn)) (hl.imp le)).bind fun _ hs => appendStmt hx hs

theorem typ (t : TyTerm) : Lockstep mine L (fun _ u u' => u' = u) (Build.ofResult t.eval) (Build.ofResult t.eval) := by
  refine ofResult fun e he => ?_
  obtain ⟨kind, w, f, refused, rfl⟩ | rfl := TyTerm.eval_error he
  · exact .refused (Ty.sized_alike refused)
  · exact .undecodable

theorem model (t : ModelTerm) :
    Lockstep mine L (fun _ m m' => m' = m) (Build.ofResult t.eval) (Build.ofResult t.eval) :=
  ofResult fun _ he => ModelTerm.eval_error he ▸ .undecodable

end Build.Lockstep

/-- **A command does alone what it does in a workspace that is shared**, and is answered the same. -/
theorem Command.lockstep : ∀ (c : Command) {L : Link}, Owns mine c.footprint →
    Lockstep mine L (fun _ r r' => r' = r) c.perform c.perform
  | .expr e _, _, h => (e.lockstep h.right).bind fun _ hn => .get fun le split =>
      (Lockstep.keep h.left fun hx le' now => now.setExpr hx (Link.le_node (le.trans le') hn)).bind fun _ _ =>
        .pure fun _ => congrArg Reply.node (split.sees.reportNode (Link.le_node le hn))
  | .operand _ i _, _, h => by
    refine (Lockstep.exprSlot h.head).bind @fun _ n n' _ hn => .get @fun L₁ _ a _ w le split => ?_
    have here := getElem?_linked (split.cell (Link.le_node le hn)).shape.operands i
    change Option.Rel L₁.node (a.store.cell n).operands[i]? (w.store.cell n').operands[i]? at here
    generalize (a.store.cell n).operands[i]? = o at here
    generalize (w.store.cell n').operands[i]? = o' at here
    cases here with
    | none => exact .throw (.missing _)
    | some ho =>
      exact (Lockstep.keep h.tail fun hx le' now => now.setExpr hx (Link.le_node le' ho)).bind fun _ _ =>
        .pure fun _ => congrArg Reply.node (split.sees.reportNode ho)
  | .info _, _, h => (Lockstep.exprSlot h.head).bind fun _ hn => .get fun le split =>
      .pure fun _ => congrArg Reply.info (split.sees.reportInfo (Link.le_node le hn))
  | .dump _, _, h => (Lockstep.exprSlot h.head).bind fun _ hn => .get fun le split =>
      .pure fun _ => congrArg Reply.tree (split.sees.dump (Link.le_node le hn))
  | .refCount _, _, h => (Lockstep.exprSlot h.head).bind fun _ hn => .get fun le split =>
      .pure fun _ => congrArg Reply.count (split.cell (Link.le_node le hn)).holders
  | .markers _, _, h => (Lockstep.exprSlot h.head).bind fun _ hn => .get fun le split =>
      have cell := split.cell (Link.le_node le hn)
      .pure fun _ => congrArg₂ Reply.markers cell.hasEval cell.prevented
  | .preventEval _, _, h => (Lockstep.exprSlot h.head).bind fun _ hn =>
      (Lockstep.modify fun le split => split.prevent (Link.le_node le hn)).bind fun _ _ => .pure fun _ => rfl
  | .sameNode _ _, _, h => (Lockstep.exprSlot h.head).bind fun _ hn => (Lockstep.exprSlot h.tail.head).bind
      fun le hm => .faithfully fun le' faithful => .pure fun _ => congrArg Reply.flag
        (beq_eq_beq.2 (faithful.node (Link.le_node (le.trans le') hn) (Link.le_node le' hm)))
  | .typecheckCall _ args, _, h => (Lockstep.calleeSlot h.head).bind fun _ hc =>
      (Term.lockstepList args h.tail).bind fun le ha => .get fun le' split => .pure fun _ =>
        congrArg Reply.flag (split.reader.accepts (hc.imp (le.trans le')) (ha.imp fun _ _ => Link.le_node le'))
  | .distinct kind _, _, h => (Lockstep.distinct kind h).bind fun _ hk => .pure fun _ => congrArg Reply.count hk
  | .debug kind _, _, h => (Lockstep.debug kind h.head).bind fun _ hs => .pure fun _ => congrArg Reply.text hs
  | .drop kind _, _, h => (Lockstep.drop kind h.head).bind fun _ _ => .pure fun _ => rfl
  | .locs t _, _, h => (Lockstep.locs t h.right).bind fun _ hl =>
      (Lockstep.keep h.left fun hx le now => now.setLocs hx (hl.imp le)).bind fun le _ => .get fun le' split =>
        .pure fun _ => congrArg Reply.locs (split.sees.reportLocs (hl.imp (le.trans le')))
  | .compareLocs _ _, _, h => (Lockstep.locsSlot h.head).bind fun _ ha => (Lockstep.locsSlot h.tail.head).bind
      fun le hb => .faithfully fun le' faithful => .pure fun _ =>
        have ha := ha.imp (le.trans le')
        have hb := hb.imp le'
        congrArg₂ Reply.locsCompared (beq_eq_beq.2 (Locs.list_eq_linked faithful ha hb))
          (beq_eq_beq.2 (faithful.num ha.id hb.id))
  | .stmt s _, _, h => (s.lockstep h.right).bind fun _ hs => .get fun le split =>
      (Lockstep.keepOwned (.stmt (hs.imp le)) h.left).bind fun _ _ => .pure fun _ =>
        congrArg Reply.stmt (split.sees.reportStmt (hs.imp le))
  | .showStmt s, _, h => (Lockstep.findStmt s h.head).bind fun _ hs => .get fun le split =>
      .pure fun _ => congrArg Reply.stmt (split.sees.reportStmt (hs.imp le))
  | .sourceLocs s, _, h => by
    -- both statements are of one kind, so both are refused or neither is
    refine (Lockstep.findStmt s h.head).bind @fun L₁ s s' _ hs => ?_
    rw [hs.kind]
    have shown : Lockstep mine L₁ (fun _ r r' => r' = r)
        (do let w ← get; return Reply.sourceLocs (w.reportLocList s.locs) (w.locs.namesWhere (·.id == s.locs.id)))
        (do let w ← get; return Reply.sourceLocs (w.reportLocList s'.locs) (w.locs.namesWhere (·.id == s'.locs.id))) :=
      .get fun le split => .pure fun _ =>
        congrArg₂ Reply.sourceLocs (split.sees.reportLocList (hs.imp le).locs) (split.sees.locs (hs.imp le).locs.id)
    split
    · exact (Lockstep.throw (Q := fun _ _ _ => True) (.refused fun _ _ _ => rfl)).bind fun le _ => shown.since le
    · exact shown
  | .block id name _, _, h => (Lockstep.intern name).bind @fun L₁ y y' _ hy =>
      have hb : Block.Linked L₁ (Block.new id y) (Block.new id y') := ⟨rfl, hy, .nil⟩
      (Lockstep.keepOwned (.block hb) h).bind fun le _ => .get fun le' split => .pure fun _ =>
        congrArg Reply.block (split.sees.reportBlock (hb.imp (le.trans le')))
  | .addStmt _ s, _, h => (Lockstep.discard (Lockstep.blockAt h.head)).bind fun _ _ =>
      (s.lockstep h.tail).bind fun _ hs => (Lockstep.appendStmt h.head hs).bind fun _ hk =>
        .pure fun _ => congrArg Reply.count hk
  | .addEval _ e t, _, h => (Lockstep.discard (Lockstep.blockAt h.head)).bind fun _ _ =>
      (e.lockstep h.tail.left).bind fun _ hn => (Lockstep.locs t h.tail.right).bind fun le hl =>
        (Lockstep.addEvalTo h.head (Link.le_node le hn) hl).bind fun _ hk => .pure fun _ => congrArg Reply.count hk
  | .showBlock b, _, h => (Lockstep.findBlock b h.head).bind fun _ hb => .get fun le split =>
      .pure fun _ => congrArg Reply.block (split.sees.reportBlock (hb.imp le))
  | .function name _, _, h => (Lockstep.intern name).bind @fun L₁ y y' _ hy =>
      have hf : Function.Linked L₁ (Function.new y) (Function.new y') :=
        ⟨hy, .nil, .nil, .nil, .nil, .nil, .nil, .nil, .none⟩
      (Lockstep.keepOwned (.function hf) h).bind fun le _ => .get fun le' split => .pure fun _ =>
        congrArg Reply.function (split.sees.reportFunction (hf.imp (le.trans le')))
  | .addVar role f name t _, _, h => by
    refine (Lockstep.functionSlot h.head).bind fun _ hf => (Lockstep.typ t).bind @fun _ _ u le hu => ?_
    subst hu
    refine (Lockstep.ofExcept ((hf.imp le).checkOpen role)).bind fun le₁ _ =>
      (Lockstep.newVar name u).bind fun le₂ hv => ?_
    have signed := (hf.imp (le.trans (le₁.trans le₂))).addVar role hv
    exact (Lockstep.modify fun le now => now.putFunction h.head (signed.imp le)).bind fun le₃ _ =>
      (Lockstep.keep h.tail fun hx le now => now.setVar hx (hv.imp (le₃.trans le))).bind fun _ _ => .pure fun _ => by
        rw [signed.args.length_eq, signed.returns.length_eq, signed.locals.length_eq]
  | .addBlock f name, _, h => (Lockstep.functionSlot h.head).bind fun _ hf => (Lockstep.intern name).bind fun le hy =>
      have made := (hf.imp le).addBlock hy
      (Lockstep.modify fun le' now => now.putFunction h.head (made.imp le')).bind fun _ _ => .pure fun _ =>
        congrArg (fun k => Reply.blockId ⟨k⟩) hf.blocks.length_eq.symm
  | .addClause kind f e t, _, h => (Lockstep.functionSlot h.head).bind fun _ hf =>
      (e.lockstep h.tail.left).bind fun le₁ hn => (Lockstep.locs t h.tail.right).bind fun le₂ hl =>
      .get fun le₃ split =>
        have hn := Link.le_node (le₂.trans le₃) hn
        have made := (hf.imp (le₁.trans (le₂.trans le₃))).addClause kind ⟨hn, hl.imp le₃⟩
        (Lockstep.ofExcept (split.reader.predicate .contractClause hn)).bind fun le₄ _ =>
        (Lockstep.modify fun le now => now.acquire (.cons (Link.le_node (le₄.trans le) hn) .nil) .nil).bind fun le₅ _ =>
        (Lockstep.modify fun le now => now.putFunction h.head (made.imp (le₄.trans (le₅.trans le)))).bind fun _ _ =>
          .pure fun _ => congrArg₂ Reply.clauses made.requires.length_eq.symm made.ensures.length_eq.symm
  | .addAttribute f name, _, h => (Lockstep.functionSlot h.head).bind fun _ hf =>
      (Lockstep.intern name).bind fun le hy =>
        have made := (hf.imp le).addAttribute hy
        (Lockstep.modify fun le' now => now.putFunction h.head (made.imp le')).bind fun _ _ => .pure fun _ =>
          congrArg Reply.count made.attributes.length_eq.symm
  | .hasAttribute f name, _, h => by
    refine (Lockstep.findFunction f h.head).bind @fun L₁ p p' _ hp => ?_
    rw [isEmpty_linked hp.function.attributes]
    have answer : Lockstep mine L₁ (fun _ r r' => r' = r)
        (do return Reply.flag (p.2.hasAttribute (← get).names name))
        (do return Reply.flag (p'.2.hasAttribute (← get).names name)) :=
      .get fun le split => .pure fun _ =>
        congrArg Reply.flag ((hp.function.imp le).hasAttribute split.sees.reads name)
    split
    · exact Lockstep.checkNames.bind fun le _ => answer.since le
    · exact answer
  | .callee f _, _, h => by
    -- the function is written back to the site where it was found, in a slot of the producer
    refine (Lockstep.findFunction f h.head).bind fun _ hp => ?_
    rw [hp.site]
    exact (Lockstep.calleeOf hp.own hp.function).bind fun _ hc => .get fun le split =>
      (Lockstep.keep h.tail fun hx le' now => now.setCallee hx (hc.imp (le.trans le'))).bind fun _ _ => .pure fun _ =>
        congrArg₂ Reply.callee (split.sees.reportCallee (hc.imp le)) (split.sees.callees (hc.imp le).id)
  | .showFunction f, _, h => (Lockstep.findFunction f h.head).bind fun _ hp => .get fun le split =>
      .pure fun _ => congrArg Reply.function (split.sees.reportFunction (hp.function.imp le))
  | .module name t _, _, h => by
    refine (Lockstep.model t).bind @fun _ _ m _ hm => (Lockstep.intern name).bind @fun L₁ y y' _ hy => ?_
    subst hm
    have made : Module.Linked L₁ (Module.new y m) (Module.new y' m) := ⟨hy, rfl, .nil, .nil, .nil, .nil⟩
    exact (Lockstep.keepOwned (.module made) h).bind fun le _ => .get fun le' split => .pure fun _ =>
      congrArg Reply.module (split.sees.reportModule (made.imp (le.trans le')))
  | .addArray _ name space _, _, h => (Lockstep.moduleSlot h.head).bind fun _ hm =>
      (Lockstep.newArray name space).bind fun le ha =>
        have made := (hm.imp le).addArray ha
        (Lockstep.modify fun le' now => now.putModule h.head (made.imp le')).bind fun le₁ _ =>
        (Lockstep.keep h.tail fun hx le' now => now.setArray hx (ha.imp (le₁.trans le'))).bind fun le₂ _ =>
          .get fun le₃ split => .pure fun _ =>
            congrArg Reply.array (split.sees.reportArray (ha.imp (le₁.trans (le₂.trans le₃))))
  | .addFunction _ _, _, h => (Lockstep.moveFunction h.head h.tail.head).bind fun _ hk => .pure fun _ =>
      congrArg Reply.count hk
  | .addAxiom _ e, _, h => (Lockstep.moduleSlot h.head).bind fun _ hm => (e.lockstep h.tail).bind
      fun le₁ hn => .get fun le₂ split =>
        have hn := Link.le_node le₂ hn
        have made := (hm.imp (le₁.trans le₂)).addAxiom hn
        (Lockstep.ofExcept (split.reader.predicate .moduleAxiom hn)).bind fun le₃ _ =>
        (Lockstep.modify fun le now => now.acquire (.cons (Link.le_node (le₃.trans le) hn) .nil) .nil).bind fun le₄ _ =>
        (Lockstep.modify fun le now => now.putModule h.head (made.imp (le₃.trans (le₄.trans le)))).bind fun _ _ =>
          .pure fun _ => congrArg Reply.count made.axioms.length_eq.symm
  | .showModule _, _, h => (Lockstep.moduleSlot h.head).bind fun _ hm => .get fun le split =>
      .pure fun _ => congrArg Reply.module (split.sees.reportModule (hm.imp le))

/-! ## Actions -/

namespace Action

/-- Every slot that the action names. -/
def footprint : Action → List (SlotKind × String)
  | .command c => c.footprint
  | .exchangeBlock f _ x => [(.function, f), (.block, x)]
  | .copyHandle kind x _ into => [(kind.slot, x), (.expr, into)]
  | .inspect _ _ => []

/-- Code that the action runs on a name does not fail there. -/
def Harmless : Action → Prop
  | .inspect name code => ∃ s, code name = .ok s
  | .command _ | .exchangeBlock .. | .copyHandle .. => True

theorem lockstep : ∀ (x : Action) {L : Link}, x.Harmless → Owns mine x.footprint →
    Lockstep mine L (fun _ r r' => r' = r) x.perform x.perform
  | .command c, _, _, h => c.lockstep h
  | .exchangeBlock f i x, _, _, h => by
    have inside : mine (BlockSite.inFunction f i).slot.1 (BlockSite.inFunction f i).slot.2 := h.head
    have outside : mine (BlockSite.loose x).slot.1 (BlockSite.loose x).slot.2 := h.tail.head
    exact (Lockstep.blockAt inside).bind fun _ hb => (Lockstep.blockSlot outside).bind fun le hb' =>
      (Lockstep.modify fun le' now => now.putBlock inside (hb'.imp le')).bind fun le' _ =>
      (Lockstep.modify fun le'' now => now.putBlock outside (hb.imp (le.trans (le'.trans le'')))).bind fun _ _ =>
        .pure fun _ => rfl
  | .copyHandle kind x i into, _, _, h => by
    refine (Lockstep.ownedSlot kind h.head).bind @fun _ o o' _ ho => ?_
    have here := getElem?_linked ho.held i
    generalize o.held[i]? = n at here
    generalize o'.held[i]? = n' at here
    cases here with
    | none => exact .throw (.missing _)
    | some hn =>
      exact (Lockstep.modify fun le now => now.setExpr h.tail.head (Link.le_node le hn)).bind fun _ _ =>
        .pure fun _ => rfl
  | .inspect name code, _, ⟨s, ok⟩, _ => by
    intro L₁ R a b w le split
    cases free : w.poisoned with
    | true =>
      rw [perform_inspect_poisoned free, perform_inspect_poisoned (split.poisoned.trans free)]
      exact .error le_rfl split (.refused fun _ _ _ => rfl)
    | false =>
      rw [perform_inspect free, perform_inspect (split.poisoned.trans free), ok]
      exact .ok (L₁.le_addSym _ _) (split.intern name) rfl

end Action
end
end KernelIR
