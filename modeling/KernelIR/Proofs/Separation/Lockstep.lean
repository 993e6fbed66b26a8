import KernelIR.Proofs.Separation.Split
/-!
# Lockstep — one computation, alone and in a split workspace

A computation that names slots of its producer only is run in the producer's own workspace and in the shared one.  Both
runs succeed, with linked results, or both fail, with the same message; the workspace stays split, the link grows, and
the other producer's part is the same as before (`Build.Lockstep`).  Each computation is given once with this, under the
link that holds where it starts or any later one.
-/
namespace KernelIR

/-- The two failures show the same. -/
inductive Failure.Alike (L : Link) : Failure → Failure → Prop
  | refused {f f' : Fault} (h : f.Alike L f') : Alike L (.refused f) (.refused f')
  | missing (what : Missing) : Alike L (.missing what) (.missing what)
  | undecodable : Alike L .undecodable .undecodable

theorem Failure.Alike.imp {L L' : Link} {e e' : Failure} (h : e.Alike L e') (le : L ≤ L') : e.Alike L' e' := by
  cases h with
  | refused h => exact .refused (h.imp le)
  | missing what => exact .missing what
  | undecodable => exact .undecodable

namespace Build

variable {α β γ δ : Type} {mine : SlotKind → String → Prop} {L L₁ R : Link} {b : Workspace}
  {Q : Link → α → β → Prop} {S : Link → γ → δ → Prop}

/-- Both runs end in the same way, and the workspace is split as before. -/
inductive Together (mine : SlotKind → String → Prop) (L R : Link) (b : Workspace) (Q : Link → α → β → Prop) :
    EStateM.Result Failure Workspace α → EStateM.Result Failure Workspace β → Prop
  | ok {L' : Link} {a w : Workspace} {x : α} {x' : β} (le : L ≤ L') (split : Split mine L' R a b w) (h : Q L' x x') :
    Together mine L R b Q (.ok x a) (.ok x' w)
  | error {L' : Link} {a w : Workspace} {e e' : Failure} (le : L ≤ L') (split : Split mine L' R a b w)
    (h : e.Alike L' e') : Together mine L R b Q (.error e a) (.error e' w)

/-- **The computation does alone what it does in the shared workspace.** -/
def Lockstep (mine : SlotKind → String → Prop) (L : Link) (Q : Link → α → β → Prop) (act : Build α) (act' : Build β) :
    Prop :=
  ∀ (L₁ R : Link) (a b w : Workspace), L ≤ L₁ → Split mine L₁ R a b w → Together mine L₁ R b Q (act a) (act' w)

theorem Together.widen {x : EStateM.Result Failure Workspace α} {x' : EStateM.Result Failure Workspace β}
    (h : Together mine L₁ R b Q x x') (le : L ≤ L₁) : Together mine L R b Q x x' := by
  cases h with
  | ok le' split h => exact .ok (le.trans le') split h
  | error le' split h => exact .error (le.trans le') split h

theorem slot_apply (kind : SlotKind) (table : Workspace → Table α) (x : String) (w : Workspace) :
    slot kind table x w =
      match (table w).get? x with
      | some o => .ok o w
      | none => .error (.missing (.slot kind x)) w := by
  change (match (table w).get? x with | some o => Pure.pure o | none => throw (.missing (.slot kind x)) : Build α) w = _
  cases (table w).get? x <;> rfl

namespace Lockstep

theorem pure {x : α} {x' : β} (hx : ∀ {L₁}, L ≤ L₁ → Q L₁ x x') : Lockstep mine L Q (pure x) (pure x') :=
  fun _ _ _ _ _ le split => .ok le_rfl split (hx le)

theorem throw {e e' : Failure} (he : e.Alike L e') : Lockstep mine L Q (throw e : Build α) (throw e' : Build β) :=
  fun _ _ _ _ _ le split => .error le_rfl split (he.imp le)

theorem since {act : Build α} {act' : Build β} (h : Lockstep mine L Q act act') (le : L ≤ L₁) :
    Lockstep mine L₁ Q act act' := fun _ _ _ _ _ le' split => h _ _ _ _ _ (le.trans le') split

theorem imp {Q' : Link → α → β → Prop} {act : Build α} {act' : Build β} (h : Lockstep mine L Q act act')
    (hQ : ∀ {L₁ x x'}, L ≤ L₁ → Q L₁ x x' → Q' L₁ x x') : Lockstep mine L Q' act act' := by
  intro L₁ R a b w le split
  have ends := h L₁ R a b w le split
  generalize act a = r at ends
  generalize act' w = r' at ends
  cases ends with
  | ok le' split hx => exact .ok le' split (hQ (le.trans le') hx)
  | error le' split he => exact .error le' split he

theorem bind {act : Build α} {act' : Build β} {f : α → Build γ} {f' : β → Build δ} (h : Lockstep mine L Q act act')
    (hf : ∀ {L₁ x x'}, L ≤ L₁ → Q L₁ x x' → Lockstep mine L₁ S (f x) (f' x')) :
    Lockstep mine L S (act >>= f) (act' >>= f') := by
  intro L₁ R a b w le split
  change Together mine L₁ R b S (EStateM.bind act f a) (EStateM.bind act' f' w)
  unfold EStateM.bind
  have first := h L₁ R a b w le split
  generalize act a = r at first
  generalize act' w = r' at first
  cases first with
  | ok le' split hx => exact (hf (le.trans le') hx _ _ _ _ _ le_rfl split).widen le'
  | error le' split he => exact .error le' split he

theorem get {f : Workspace → Build γ} {f' : Workspace → Build δ}
    (hf : ∀ {L₁ R a b w}, L ≤ L₁ → Split mine L₁ R a b w → Lockstep mine L₁ S (f a) (f' w)) :
    Lockstep mine L S (get >>= f) (get >>= f') :=
  fun _ _ _ _ _ le split => hf le split _ _ _ _ _ le_rfl split

theorem modify {g g' : Workspace → Workspace}
    (hg : ∀ {L₁ R a b w}, L ≤ L₁ → Split mine L₁ R a b w → Split mine L₁ R (g a) b (g' w)) :
    Lockstep mine L (fun _ _ _ => True) (modify g : Build Unit) (modify g' : Build Unit) :=
  fun _ _ _ _ _ le split => .ok le_rfl (hg le split) trivial

theorem discard {act act' : Build α} {Q : Link → α → α → Prop} (h : Lockstep mine L Q act act') :
    Lockstep mine L (fun _ _ _ => True) (discard act) (discard act') := by
  intro L₁ R a b w le split
  have ends := h L₁ R a b w le split
  simp only [Functor.discard, Functor.mapConst, Function.comp, EStateM.map]
  generalize act a = r at ends
  generalize act' w = r' at ends
  cases ends with
  | ok le' split _ => exact .ok le' split trivial
  | error le' split he => exact .error le' split he

theorem mapM {f : γ → Build α} {f' : γ → Build β} (mono : ∀ {L L' x x'}, L ≤ L' → Q L x x' → Q L' x x') :
    ∀ {L : Link} {l : List γ}, (∀ c ∈ l, ∀ {L₁}, L ≤ L₁ → Lockstep mine L₁ Q (f c) (f' c)) →
      Lockstep mine L (fun L₁ => List.Forall₂ (Q L₁)) (l.mapM f) (l.mapM f') := by
  intro L l
  induction l generalizing L with
  | nil => exact fun _ => pure fun _ => .nil
  | cons c l ih =>
    intro hf
    rw [List.mapM_cons, List.mapM_cons]
    exact (hf c (List.mem_cons_self ..) le_rfl).bind fun le hx =>
      (ih fun c hc {_} le' => hf c (List.mem_cons_of_mem _ hc) (le.trans le')).bind fun le' hxs =>
        pure fun le'' => .cons (mono (le'.trans le'') hx) (hxs.imp fun _ _ => mono le'')

/-! ## Checks, slots and numbers -/

theorem ofExcept {P : α → β → Prop} {x : Except Fault α} {x' : Except Fault β} (h : Agree L P x x') :
    Lockstep mine L (fun _ => P) (ofExcept x) (ofExcept x') := by
  cases h with
  | ok h => exact pure fun _ => h
  | error h => exact throw (.refused h)

theorem slot {table : Workspace → Table α} {P : Link → α → α → Prop} {kind : SlotKind} {x : String}
    (hx : ∀ {L₁ R a b w}, Split mine L₁ R a b w → Option.Rel (P L₁) ((table a).get? x) ((table w).get? x)) :
    Lockstep mine L P (slot kind table x) (slot kind table x) := by
  intro L₁ R a b w le split
  have here := hx split
  rw [slot_apply, slot_apply]
  generalize (table a).get? x = o at here
  generalize (table w).get? x = o' at here
  cases here with
  | some ho => exact .ok le_rfl split ho
  | none => exact .error le_rfl split (.missing _)

theorem faithfully {act : Build α} {act' : Build β}
    (h : ∀ {L₁}, L ≤ L₁ → L₁.Faithful → Lockstep mine L₁ Q act act') : Lockstep mine L Q act act' :=
  fun _ _ _ _ _ le split => h le split.faithful _ _ _ _ _ le_rfl split

theorem exprSlot {x : String} (hx : mine .expr x) : Lockstep mine L (fun L => L.node) (exprSlot x) (exprSlot x) :=
  slot fun split => split.tables.exprs.left x hx

theorem varSlot {x : String} (hx : mine .var x) : Lockstep mine L Var.Linked (varSlot x) (varSlot x) :=
  slot fun split => split.tables.vars.left x hx

theorem arraySlot {x : String} (hx : mine .array x) :
    Lockstep mine L GlobalArray.Linked (arraySlot x) (arraySlot x) :=
  slot fun split => split.tables.arrays.left x hx

theorem calleeSlot {x : String} (hx : mine .callee x) : Lockstep mine L Callee.Linked (calleeSlot x) (calleeSlot x) :=
  slot fun split => split.tables.callees.left x hx

theorem locsSlot {x : String} (hx : mine .locs x) : Lockstep mine L Locs.Linked (locsSlot x) (locsSlot x) :=
  slot fun split => split.tables.locs.left x hx

theorem stmtSlot {x : String} (hx : mine .stmt x) :
    Lockstep mine L (fun L => Stmt.Linked L L.node) (stmtSlot x) (stmtSlot x) :=
  slot fun split => split.tables.stmts.left x hx

theorem blockSlot {x : String} (hx : mine .block x) : Lockstep mine L Block.Linked (blockSlot x) (blockSlot x) :=
  slot fun split => split.tables.blocks.left x hx

theorem functionSlot {x : String} (hx : mine .function x) :
    Lockstep mine L Function.Linked (functionSlot x) (functionSlot x) :=
  slot fun split => split.tables.functions.left x hx

theorem moduleSlot {x : String} (hx : mine .module x) : Lockstep mine L Module.Linked (moduleSlot x) (moduleSlot x) :=
  slot fun split => split.tables.modules.left x hx

theorem checkNames : Lockstep mine L (fun _ _ _ => True) checkNames checkNames := by
  refine .get fun {_ _ a _ w} _ split => ?_
  have same : w.checkNames = a.checkNames := by rw [Workspace.checkNames, Workspace.checkNames, split.poisoned]
  rw [same]
  unfold Workspace.checkNames
  split
  · exact ofExcept (.error fun _ _ _ => rfl)
  · exact ofExcept (.ok trivial)

theorem intern (s : String) : Lockstep mine L (fun L => L.sym) (intern s) (intern s) :=
  checkNames.bind fun _ _ L₁ _ _ _ _ _ split => .ok (L₁.le_addSym _ _) (split.intern s) (.inr ⟨rfl, rfl⟩)

theorem freshId : Lockstep mine L (fun L => L.num) freshId freshId :=
  fun L₁ _ _ _ _ _ split => .ok (L₁.le_addNum _ _) split.freshId (.inr ⟨rfl, rfl⟩)

theorem newVar (name : String) (t : Ty) : Lockstep mine L Var.Linked (newVar name t) (newVar name t) :=
  (intern name).bind fun _ hy => freshId.bind fun le hi => pure fun le' =>
    ⟨Link.le_num le' hi, Link.le_sym (le.trans le') hy, rfl⟩

theorem newArray (name : String) (space : MemorySpace) :
    Lockstep mine L GlobalArray.Linked (newArray name space) (newArray name space) :=
  (intern name).bind fun _ hy => freshId.bind fun le hi => pure fun le' =>
    ⟨Link.le_num le' hi, Link.le_sym (le.trans le') hy, rfl⟩

theorem newLocs {list list' : List SourceLoc} (hl : List.Forall₂ (SourceLoc.Linked L) list list') :
    Lockstep mine L Locs.Linked (newLocs list) (newLocs list') :=
  freshId.bind fun le hi => pure fun le' =>
    ⟨Link.le_num le' hi, hl.imp fun _ _ hx => hx.imp (le.trans le')⟩

/-! ## Nodes, statements, blocks and functions -/

theorem alloc {shape shape' : Shape NodeId} (hs : shape.Linked L L.node shape') (t : Ty) :
    Lockstep mine L (fun L => L.node)
      (modifyGet fun w => ((w.store.alloc shape t).1, { w with store := (w.store.alloc shape t).2 }))
      (modifyGet fun w => ((w.store.alloc shape' t).1, { w with store := (w.store.alloc shape' t).2 })) :=
  fun L₁ _ _ _ _ le split => .ok (L₁.le_addNode _ _) (split.alloc (hs.imp le) t) (.inr ⟨rfl, rfl⟩)

theorem construct {f f' : Form NodeId} (hf : f.Linked L f') :
    Lockstep mine L (fun L => L.node) (construct f) (construct f') := by
  refine .get fun le split => (ofExcept (split.reader.resolve (hf.imp le))).bind fun le' hx => ?_
  cases hx with
  | reuse hn => exact pure fun le'' => Link.le_node (le'.trans le'') hn
  | fresh hs t => exact alloc (hs.imp le') t

theorem giveUp {held held' evaluated evaluated' : List NodeId} (hh : List.Forall₂ L.node held held')
    (he : List.Forall₂ L.node evaluated evaluated') :
    Lockstep mine L (fun _ _ _ => True) (giveUp held evaluated) (giveUp held' evaluated') := by
  refine .get fun le split => ?_
  rw [split.backs (he.imp fun _ _ => Link.le_node le)]
  split
  · exact modify fun le' split => split.giveUp (hh.imp fun _ _ => Link.le_node (le.trans le'))
      (he.imp fun _ _ => Link.le_node (le.trans le'))
  · exact throw (.refused fun _ _ _ => rfl)

theorem dropOwned {os os' : List Owned} (ho : List.Forall₂ (Owned.Linked L) os os') :
    Lockstep mine L (fun _ _ _ => True) (dropOwned os) (dropOwned os') :=
  giveUp (List.rel_flatMap ho fun _ _ hx => hx.held) (List.rel_flatMap ho fun _ _ hx => hx.evaluated)

theorem dropStmts {ss ss' : List (Stmt NodeId)} (hs : List.Forall₂ (Stmt.Linked L L.node) ss ss') :
    Lockstep mine L (fun _ _ _ => True) (dropStmts ss) (dropStmts ss') :=
  dropOwned (List.rel_map (fun _ _ hx => .stmt hx) hs)

theorem setOwned {x : String} {o o' : Owned} (ho : o.Linked L o') (hx : mine o.kind.slot x) :
    Lockstep mine L (fun _ _ _ => True) (setOwned x o) (setOwned x o') := by
  refine .get fun le split => ?_
  rw [ho.kind]
  refine (modify fun _ split => split.take o.kind hx).bind fun le' _ => ?_
  exact (dropOwned (toList_linked (optionRel_imp (fun _ _ h => h.imp le') (split.owned? o.kind hx)))).bind
    fun le'' _ => modify fun le₃ split => split.put (ho.imp (((le.trans le').trans le'').trans le₃)) hx

theorem remove {x : String} {o o' : Owned} (ho : o.Linked L o') (hx : mine o.kind.slot x) :
    Lockstep mine L (fun _ _ _ => True) (remove x o) (remove x o') := by
  unfold Build.remove
  rw [ho.kind]
  exact (modify fun _ split => split.take o.kind hx).bind fun le _ =>
    dropOwned (.cons (ho.imp le) .nil)

theorem dropOnFailure {ss ss' : List (Stmt NodeId)} (hs : List.Forall₂ (Stmt.Linked L L.node) ss ss')
    {act act' : Build α} {Q : Link → α → α → Prop} (h : Lockstep mine L Q act act') :
    Lockstep mine L Q (dropOnFailure ss act) (dropOnFailure ss' act') := by
  intro L₁ R a b w le split
  have ends := h L₁ R a b w le split
  unfold Build.dropOnFailure
  generalize act a = r at ends
  generalize act' w = r' at ends
  cases ends with
  | ok le' split hx => exact .ok le' split hx
  | @error L₂ _ _ _ _ le' split he =>
    have dropped : Lockstep mine L₂ Q (do Build.dropStmts ss; MonadExcept.throw _ : Build α)
        (do Build.dropStmts ss'; MonadExcept.throw _ : Build α) :=
      (dropStmts (hs.imp fun _ _ hx => hx.imp (le.trans le'))).bind fun le'' _ => throw (he.imp le'')
    exact (dropped _ _ _ _ _ le_rfl split).widen le'

theorem newStmt {body body' : StmtBody NodeId} (hb : body.Linked L L.node body') {locs locs' : Locs}
    (hl : locs.Linked L locs') :
    Lockstep mine L (fun L => Stmt.Linked L L.node) (newStmt body locs) (newStmt body' locs') :=
  .get fun le split => (ofExcept (split.reader.check (hb.imp le))).bind fun le₁ _ =>
    (modify fun le₂ split =>
      have later := hb.imp ((le.trans le₁).trans le₂)
      split.acquire later.operands later.evaluated).bind fun le₂ _ =>
    freshId.bind fun le₃ hi => pure fun le₄ =>
      have later := (((le.trans le₁).trans le₂).trans le₃).trans le₄
      ⟨Link.le_num le₄ hi, hb.imp later, rfl, hl.imp later⟩

theorem newUnlocated {body body' : StmtBody NodeId} (hb : body.Linked L L.node body') :
    Lockstep mine L (fun L => Stmt.Linked L L.node) (newUnlocated body) (newUnlocated body') :=
  (newLocs .nil).bind fun le hl => newStmt (hb.imp le) hl

theorem newIndirectCall {func func' : NodeId} (hf : L.node func func') {ss ss' : List (Stmt NodeId)}
    (hs : List.Forall₂ (Stmt.Linked L L.node) ss ss') {locs locs' : Locs} (hl : locs.Linked L locs') :
    Lockstep mine L (fun L => Stmt.Linked L L.node) (newIndirectCall func ss locs)
      (newIndirectCall func' ss' locs') := by
  refine (dropOnFailure (Q := fun L => Stmt.Linked L L.node) hs (.get fun le split => ?_)).bind
    fun le ht => (dropStmts (hs.imp fun _ _ hx => hx.imp le)).bind fun le' _ => pure fun le'' =>
      ht.imp (le'.trans le'')
  have calls := Agree.mapM (fun _ _ hx => split.reader.asCall hx) (hs.imp fun _ _ hx => hx.imp le)
  refine (ofExcept (split.reader.indirect (Link.le_node le hf))).bind fun le₁ _ =>
    ((ofExcept calls).since le₁).bind fun le₂ hc => ?_
  have later := (le.trans le₁).trans le₂
  exact newStmt (.callMemberOf (Link.le_node later hf) (hc.imp fun _ _ hx => hx.imp (le₁.trans le₂))) (hl.imp later)

theorem blockAt {site : BlockSite} (hx : mine site.slot.1 site.slot.2) :
    Lockstep mine L Block.Linked (blockAt site) (blockAt site) := by
  cases site with
  | loose x => exact blockSlot hx
  | inFunction x i =>
    exact (functionSlot hx).bind fun _ hf => (ofExcept (hf.block i)).imp fun le hb => hb.imp le

theorem appendStmt {site : BlockSite} (hx : mine site.slot.1 site.slot.2) {s s' : Stmt NodeId}
    (hs : s.Linked L L.node s') :
    Lockstep mine L (fun _ n n' => n' = n) (appendStmt site s) (appendStmt site s') := by
  refine (dropOnFailure (Q := Block.Linked) (.cons hs .nil) ((blockAt hx).bind @fun _ b b' le hb => ?_)).bind
    fun _ hb => (modify fun le split => split.putBlock hx (hb.imp le)).bind fun _ _ =>
      pure fun _ => hb.stmts.length_eq.symm
  rw [hb.id]
  exact (ofExcept ((hs.imp le).place b.id)).bind fun le₁ ht => pure fun le₂ =>
    (hb.imp (le₁.trans le₂)).push (ht.imp (le₁.trans le₂))

theorem calleeOf {site : FunctionSite} (hx : mine site.slot.1 site.slot.2) {f f' : Function} (hf : f.Linked L f') :
    Lockstep mine L Callee.Linked (calleeOf site f) (calleeOf site f') := by
  unfold Build.calleeOf
  have callee := hf.callee
  generalize f.callee = c at callee
  generalize f'.callee = c' at callee
  cases callee with
  | some hc => exact pure fun le => hc.imp le
  | none =>
    refine freshId.bind fun le hi => ?_
    have made := (hf.imp le).signature hi
    exact (modify fun le' split => split.putFunction hx (((hf.imp le).sign made).imp le')).bind
      fun le' _ => pure fun le'' => made.imp (le'.trans le'')

theorem moveFunction {m f : String} (hm : mine .module m) (hf : mine .function f) :
    Lockstep mine L (fun _ n n' => n' = n) (moveFunction m f) (moveFunction m f) := by
  refine (moduleSlot hm).bind @fun _ md md' _ hmd => (functionSlot hf).bind @fun _ fn fn' le hfn =>
    (modify fun _ split => split.take .function hf).bind fun le' _ => faithfully fun le'' faithful => ?_
  have linked := (hfn.imp le').imp le''
  have accepted := (((hmd.imp le).imp le').imp le'').accept faithful linked
  generalize md.accept fn = x at accepted
  generalize md'.accept fn' = x' at accepted
  cases accepted with
  | ok ha =>
    exact (modify fun le split => split.putModule hm (ha.imp le)).bind fun _ _ =>
      pure fun _ => ha.functions.length_eq.symm
  | error he =>
    exact (dropOwned (.cons (.function linked) .nil)).bind fun le _ => throw (.refused (he.imp le))

/-! ## Results -/

theorem ofResult {x : Except Failure α} (hx : ∀ e, x = .error e → e.Alike L e) :
    Lockstep mine L (fun _ a a' => a' = a) (ofResult x) (ofResult x) := by
  cases x with
  | ok a => exact pure fun _ => rfl
  | error e => exact throw (hx e rfl)

end Lockstep
end Build
end KernelIR
