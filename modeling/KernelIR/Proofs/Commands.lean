import KernelIR.Proofs.Assembly
import KernelIR.Script.Run
/-!
# Commands — every command is a row of moves

Whatever the moves keep (`Invariant`), a command keeps: the rule for each computation says which objects it takes from
the hand and which it leaves there, and that it fails for the producer's fault only.  What a command may do at most is
read off it (`Command.makes`, `Command.takes`, `FunctionRef.site?`), so it also keeps what only the moves of such a
scope keep (`Command.Within`).  A command fails before it changes anything but what it assembles: a failure finds what
an assembly keeps, with the slots emptied that the command had taken its arguments from (`Command.spent`).

Main statement: `Command.perform_ends`, and from it, by induction on the script, `Workspace.Reachable.induct`.
-/
namespace KernelIR

/-! ## What a command may do -/

def DroppedKind.owned? : DroppedKind → Option OwnedKind
  | .expr | .var => none
  | .stmt => some .stmt
  | .block => some .block
  | .function => some .function
  | .module => some .module

/-- Where the function is that a reference names.  A name can be looked up as long as the table of names can be had. -/
def FunctionRef.site? (w : Workspace) : FunctionRef → Option FunctionSite
  | .loose x => some (.loose x)
  | .nth m i => some (.inModule m i)
  | .named m text =>
    if w.poisoned then none else do return .inModule m (← (← w.modules.get? m).positionOf? w.names text)

namespace Command

/-- The kinds of statements that the command makes. -/
def makes : Command → List StmtKind
  | .stmt s _ | .addStmt _ s => s.makes
  | .addEval _ _ _ => [.eval]
  | _ => []

/-- The slots whose content the command moves, drops or replaces. -/
def takes : Command → List OwnedSlot
  | .stmt s into => s.takes.map (OwnedKind.stmt, ·) ++ into.toList.map (OwnedKind.stmt, ·)
  | .addStmt _ s => s.takes.map (OwnedKind.stmt, ·)
  | .block _ _ into => into.toList.map (OwnedKind.block, ·)
  | .function _ into => into.toList.map (OwnedKind.function, ·)
  | .module _ _ into => into.toList.map (OwnedKind.module, ·)
  | .drop kind x => kind.owned?.toList.map (·, x)
  | .addFunction _ f => [(.function, f)]
  | _ => []

/-- The slots that own the arguments of the command, in the order of evaluation. -/
def arguments : Command → List OwnedSlot
  | .stmt s _ | .addStmt _ s => s.takes.map (OwnedKind.stmt, ·)
  | .addFunction _ f => [(.function, f)]
  | _ => []

/-- The slots that the command has emptied when it fails. -/
def spent (w : Workspace) : Command → List OwnedSlot
  | .stmt s _ => s.spent w
  | .addStmt site s => match w.block? site with
    | some _ => s.spent w
    | none => []
  | .addFunction m f => match w.modules.get? m, w.functions.get? f with
    | some _, some _ => [(.function, f)]
    | _, _ => []
  | _ => []

/-- The expression slots that the command fills or empties. -/
def fills : Command → List String
  | .expr _ into | .operand _ _ into => into.toList
  | .drop .expr x => [x]
  | _ => []

/-- The nodes that the command forbids evaluations of. -/
def forbids (w : Workspace) : Command → List NodeId
  | .preventEval x => (w.exprs.get? x).toList
  | _ => []

/-- The slots that the command fills, or changes the object of. -/
def writes : Command → List OwnedSlot
  | .stmt _ into => into.toList.map (OwnedKind.stmt, ·)
  | .block _ _ into => into.toList.map (OwnedKind.block, ·)
  | .function _ into => into.toList.map (OwnedKind.function, ·)
  | .module _ _ into => into.toList.map (OwnedKind.module, ·)
  | .addStmt site _ | .addEval site _ _ => [site.owner]
  | .addVar _ f _ _ _ | .addBlock f _ | .addClause _ f _ _ | .addAttribute f _ => [(.function, f)]
  | .addArray m _ _ _ | .addFunction m _ | .addAxiom m _ => [(.module, m)]
  | _ => []

/-- The command does only what the scope lets it. -/
structure Within (a : Scope) (w : Workspace) (c : Command) : Prop where
  makes : ∀ k ∈ c.makes, a.makes k
  takes : ∀ p ∈ c.takes, a.takes p.1 p.2
  fills : ∀ x ∈ c.fills, a.fills x
  forbids : ∀ n ∈ c.forbids w, a.forbids n
  freezes : ∀ f into site, c = .callee f into → f.site? w = some site → a.freezes site
  writes : ∀ p ∈ c.writes, a.writes p.1 p.2

theorem within_all (w : Workspace) (c : Command) : c.Within .all w where
  makes _ _ := trivial
  takes _ _ := trivial
  fills _ _ := trivial
  forbids _ _ := trivial
  freezes _ _ _ _ _ := trivial
  writes _ _ := trivial

/-- The narrowest scope of a command. -/
def scope (w : Workspace) (c : Command) : Scope where
  makes k := k ∈ c.makes
  takes kind x := (kind, x) ∈ c.takes
  fills x := x ∈ c.fills
  forbids n := n ∈ c.forbids w
  freezes site := ∃ f into, c = .callee f into ∧ f.site? w = some site
  writes kind x := (kind, x) ∈ c.writes

theorem within_scope (w : Workspace) (c : Command) : c.Within (c.scope w) w where
  makes _ := id
  takes _ := id
  fills _ := id
  forbids _ := id
  freezes f into _ hc hs := ⟨f, into, hc, hs⟩
  writes _ := id

variable {a : Scope} {w : Workspace}

theorem Within.stmtTerm {s : StmtTerm} {into : Option String} (h : Within a w (.stmt s into)) :
    s.Within a ∧ ∀ x, into = some x → a.takes .stmt x := by
  refine ⟨⟨h.makes, fun x hx => ?_⟩, ?_⟩
  · exact h.takes (.stmt, x) (List.mem_append_left _ (List.mem_map_of_mem hx))
  · rintro x rfl
    exact h.takes (.stmt, x) (List.mem_append_right _ (List.mem_singleton_self _))

/-- A command that fills a slot with a new object may replace what is there. -/
theorem Within.into {c : Command} {kind : OwnedKind} {into : Option String} (h : Within a w c)
    (hc : c.takes = into.toList.map (kind, ·)) : ∀ x, into = some x → a.takes kind x := by
  rintro x rfl
  refine h.takes (kind, x) ?_
  rw [hc]
  exact List.mem_singleton_self _

theorem Within.written {c : Command} {kind : OwnedKind} {into : Option String} (h : Within a w c)
    (hc : c.writes = into.toList.map (kind, ·)) : ∀ x, into = some x → a.writes kind x := by
  rintro x rfl
  refine h.writes (kind, x) ?_
  rw [hc]
  exact List.mem_singleton_self _

theorem Within.placedTerm {site : BlockSite} {s : StmtTerm} (h : Within a w (.addStmt site s)) : s.Within a :=
  ⟨h.makes, fun x hx => h.takes (.stmt, x) (List.mem_map_of_mem hx)⟩

end Command

namespace Build

variable {α β : Type} {P : Config → Prop} {hand : List Owned} {w : Workspace}

/-! ## Reading -/

theorem nthFunction_finds {m : String} {i : Nat} {md : Module} (hm : w.modules.get? m = some md) :
    (findFunction.nthFunction m i md).Ends w
      (fun p w' => w' = w ∧ p.1 = .inModule m i ∧ w.function? p.1 = some p.2)
      (fun e w' => w' = w ∧ w.function? (.inModule m i) = none ∧ e.Foreseen) := by
  have at_position : w.function? (.inModule m i) = md.functions[i]? := by
    rw [Workspace.function?, hm]
    rfl
  unfold findFunction.nthFunction
  split
  · rename_i f hf
    exact ends_pure ⟨rfl, rfl, at_position.trans hf⟩
  · rename_i absent
    exact ends_throw ⟨rfl, at_position.trans absent, Failure.foreseen_missing _⟩

theorem findFunction_finds (f : FunctionRef) :
    (findFunction f).Ends w (fun p w' => w' = w ∧ f.site? w = some p.1 ∧ w.function? p.1 = some p.2)
      (fun e w' => w' = w ∧ (∀ site, f.site? w = some site → w.function? site = none) ∧ e.Foreseen) := by
  cases f with
  | loose x =>
    refine Ends.bind (Q := fun f w' => w' = w ∧ w.functions.get? x = some f) (ends_slot (fun _ hf => ⟨rfl, hf⟩) ?_) ?_
    · rintro absent
      refine ⟨rfl, fun site hs => ?_, Failure.foreseen_missing _⟩
      cases hs
      exact absent
    · rintro f _ ⟨rfl, hf⟩
      exact ends_pure ⟨rfl, rfl, hf⟩
  | nth m i =>
    refine Ends.bind (Q := fun md w' => w' = w ∧ w.modules.get? m = some md) (ends_slot (fun _ hm => ⟨rfl, hm⟩) ?_) ?_
    · rintro absent
      refine ⟨rfl, fun site hs => ?_, Failure.foreseen_missing _⟩
      cases hs
      rw [Workspace.function?, absent]
      rfl
    · rintro md _ ⟨rfl, hm⟩
      refine (nthFunction_finds hm).mono (fun p w' hw => ⟨hw.1, congrArg some hw.2.1.symm, hw.2.2⟩) fun e w' he => ?_
      refine ⟨he.1, fun site hs => ?_, he.2.2⟩
      cases hs
      exact he.2.1
  | named m text =>
    refine Ends.bind (Q := fun md w' => w' = w ∧ w.modules.get? m = some md) (ends_slot (fun _ hm => ⟨rfl, hm⟩) ?_) ?_
    · rintro absent
      refine ⟨rfl, fun site hs => ?_, Failure.foreseen_missing _⟩
      rw [FunctionRef.site?, absent] at hs
      split at hs <;> cases hs
    rintro md w' ⟨rfl, hm⟩
    refine Ends.bind (Q := fun _ v => v = w' ∧ w'.poisoned = false) (ends_checkNames (fun free => ⟨rfl, free⟩) ?_) ?_
    · intro poisoned
      refine ⟨rfl, fun site hs => ?_, Failure.foreseen_refused (Fault.Plain.foreseen trivial)⟩
      rw [FunctionRef.site?, if_pos poisoned] at hs
      cases hs
    rintro _ v ⟨rfl, free⟩
    have named : (FunctionRef.named m text).site? v = (md.positionOf? v.names text).map (.inModule m ·) := by
      rw [FunctionRef.site?, if_neg (ne_true_of_eq_false free), hm]
      exact Option.map_eq_bind.symm
    refine ends_get ?_
    rw [named]
    cases md.positionOf? v.names text with
    | none =>
      refine ends_throw ⟨rfl, fun site hs => ?_, Failure.foreseen_missing _⟩
      cases hs
    | some i =>
      refine (nthFunction_finds hm).mono (fun p w' hw => ⟨hw.1, congrArg some hw.2.1.symm, hw.2.2⟩) fun e w' he => ?_
      refine ⟨he.1, fun site hs => ?_, he.2.2⟩
      cases hs
      exact he.2.1

theorem findFunction_ends (f : FunctionRef) (hp : P ⟨hand, w⟩) :
    (findFunction f).Ends w (fun p w' => w' = w ∧ f.site? w = some p.1 ∧ w.function? p.1 = some p.2)
      (Failed P hand) :=
  (findFunction_finds f).mono (fun _ _ => id) fun _ _ he => ⟨he.1 ▸ hp, he.2.2⟩

theorem run_findFunction {f : FunctionRef} {site : FunctionSite} {fn : Function} (hs : f.site? w = some site)
    (here : w.function? site = some fn) : findFunction f w = .ok (site, fn) w := by
  have ends := findFunction_finds (w := w) f
  cases hr : findFunction f w with
  | ok p w' =>
    obtain ⟨rfl, hp, hf⟩ := ends.ok hr
    cases hs.symm.trans hp
    cases here.symm.trans hf
    rfl
  | error e w' => cases here.symm.trans ((ends.error hr).2.1 site hs)

theorem reads_findFunction (f : FunctionRef) : Reads (findFunction f) := fun _ =>
  (findFunction_finds f).mono (fun _ _ h => h.1) fun _ _ h => ⟨h.1, h.2.2⟩

theorem reads_findBlock (b : BlockRef) : Reads (findBlock b) := by
  cases b with
  | loose x => exact .slot _ _ x
  | ofFunction f i => exact (reads_findFunction f).bind fun p => .ofExcept (Fault.plainly_block p.2 i).foreseen

theorem reads_findStmt (s : StmtRef) : Reads (findStmt s) := by
  cases s with
  | loose x => exact .slot _ _ x
  | ofBlock b i =>
    refine (reads_findBlock b).bind fun b => ?_
    split
    · exact .pure _
    · exact .missing _

theorem reads_distinct (kind : HandleKind) (xs : List String) : Reads (distinct kind xs) := by
  cases kind with
  | var | array | callee => exact (Reads.mapM (.slot _ _) xs).bind fun _ => .pure _

theorem reads_debug (kind : ShownKind) (x : String) : Reads (debug kind x) := by
  refine .get fun w => ?_
  cases kind with
  | expr | var | array | callee | stmt | block => exact (Reads.slot _ _ x).bind fun _ => .pure _

/-! ## Moving and editing -/

section

variable {a : Scope} (hP : Invariant a P)
include hP

omit hP in
/-- Filling a slot drops what was there. -/
theorem run_setOwned {x : String} {o : Owned} (hb : Config.Balanced ⟨o :: hand, w⟩) :
    setOwned x o w = .ok () (((w.take o.kind x).discard (w.owned? o.kind x).toList).put x o) := by
  have taken : Config.Balanced ⟨(w.owned? o.kind x).toList ++ o :: hand, w.take o.kind x⟩ := by
    cases h : w.owned? o.kind x with
    | none => rwa [Workspace.take_of_none h]
    | some p => exact (Move.take (a := .all) _ trivial h).balanced hb
  have dropped : dropOwned (w.owned? o.kind x).toList (w.take o.kind x) = .ok () _ := dropOwned_eq taken
  exact run_bind dropped _

theorem setOwned_ends {x : String} {o : Owned} {E : Failure → Workspace → Prop} (allowed : a.takes o.kind x)
    (written : a.writes o.kind x) (hp : P ⟨o :: hand, w⟩) : (setOwned x o).Ends w (fun _ w' => P ⟨hand, w'⟩) E := by
  have taken : P ⟨(w.owned? o.kind x).toList ++ o :: hand, w.take o.kind x⟩ := by
    cases h : w.owned? o.kind x with
    | none => rwa [Workspace.take_of_none h]
    | some p => exact hP.move hp (.take _ allowed h)
  refine ends_of_run (run_setOwned (hP.balanced hp)) (hP.move (hP.move taken (.assemble (.drop _))) (.put ?_ written))
  exact (Workspace.owned?_mapStore _ _ _ _).trans (w.owned?_take o.kind x)

theorem keepOwned_ends {into : Option String} {o : Owned} {E : Failure → Workspace → Prop}
    (allowed : ∀ x, into = some x → a.takes o.kind x) (written : ∀ x, into = some x → a.writes o.kind x)
    (hp : P ⟨o :: hand, w⟩) : (keepOwned into o).Ends w (fun _ w' => P ⟨hand, w'⟩) E := by
  cases into with
  | some x => exact setOwned_ends hP (allowed x rfl) (written x rfl) hp
  | none => exact dropOwned_ends hP.assembles (k := []) [o] hp

theorem remove_ends {x : String} {o : Owned} {E : Failure → Workspace → Prop} (allowed : a.takes o.kind x)
    (hx : w.owned? o.kind x = some o) (hp : P ⟨hand, w⟩) : (remove x o).Ends w (fun _ w' => P ⟨hand, w'⟩) E := by
  unfold remove
  refine Ends.bind (Q := fun _ w' => P ⟨[o] ++ hand, w'⟩) (ends_modify (hP.move hp (.take _ allowed hx))) ?_
  intro _ w hp
  exact dropOwned_ends hP.assembles (k := []) [o] hp

omit hP in
theorem run_remove {x : String} {o : Owned} (hx : w.owned? o.kind x = some o) (hb : Config.Balanced ⟨[], w⟩) :
    remove x o w = .ok () ((w.take o.kind x).discard [o]) := by
  have taken : Config.Balanced ⟨[o], w.take o.kind x⟩ := (Move.take (a := .all) o.kind trivial hx).balanced hb
  exact dropOwned_eq taken

/-- The callee handle is that of the function, which has it from now on. -/
theorem calleeOf_ends {site : FunctionSite} {f : Function} {E : Failure → Workspace → Prop} (allowed : a.freezes site)
    (here : w.function? site = some f) (hp : P ⟨hand, w⟩) :
    (calleeOf site f).Ends w (fun c w' => P ⟨hand, w'⟩ ∧ ∃ f, w'.function? site = some f ∧ f.callee = some c) E := by
  unfold calleeOf
  split
  · rename_i c known
    exact ends_pure ⟨hp, f, here, known⟩
  · rename_i first
    have stands := Workspace.function?_putFunction (w := { w with supply := w.supply + 1 }) here
      { f with callee := some (f.signature w.supply) }
    exact ⟨hP.move hp (.freeze allowed here first), _, stands, rfl⟩

omit hP in
/-- Dropping what a slot owns removes it. -/
theorem run_drop {d : DroppedKind} {kind : OwnedKind} {x : String} {o : Owned} (hk : d.owned? = some kind)
    (owns : w.owned? kind x = some o) (hb : Config.Balanced ⟨[], w⟩) :
    drop d x w = .ok () ((w.take kind x).discard [o]) := by
  cases d with
  | expr | var => cases hk
  | stmt | block | function | module =>
    cases hk
    obtain ⟨a, ha, rfl⟩ := Option.map_eq_some_iff.1 owns
    exact (run_bind (run_slot ha) _).trans (run_remove owns hb)

end

section

variable {a : Scope} {A : List OwnedSlot → Config → Prop} (hP : Phases a A P) {k : List OwnedSlot}
include hP

/-- A statement goes into a block, or it is dropped. -/
theorem appendStmt_ends {site : BlockSite} {s : Stmt NodeId} (written : a.writes site.owner.1 site.owner.2)
    (hp : A k ⟨.stmt s :: hand, w⟩) : (appendStmt site s).Ends w (fun _ w' => P ⟨hand, w'⟩) (Failed (A k) hand) := by
  refine (appendStmt_placed hP.assembles hp).imp fun _ w' hw => ?_
  obtain ⟨b, placed, here, free, -, rfl⟩ := hw
  exact hP.invariant.move (hP.done hp) (.place here free written)

/-- A function goes into a module, or it is dropped. -/
theorem moveFunction_ends {m f : String} (allowed : a.takes .function f) (written : a.writes .module m)
    (hp : A k ⟨hand, w⟩) : (moveFunction m f).Ends w (fun _ w' => P ⟨hand, w'⟩)
      (Failed (A (k ++ (Command.addFunction m f).spent w)) hand) := by
  rw [Command.spent]
  unfold moveFunction
  refine Ends.bind (Q := fun md w' => w' = w ∧ w.modules.get? m = some md) (ends_slot (fun _ hm => ⟨rfl, hm⟩) ?_) ?_
  · intro hm
    rw [hm, List.append_nil]
    exact ⟨hp, Failure.foreseen_missing _⟩
  intro md w' hw
  obtain ⟨rfl, hm⟩ := hw
  refine Ends.bind (Q := fun fn w => w = w' ∧ w'.functions.get? f = some fn) (ends_slot (fun _ hf => ⟨rfl, hf⟩) ?_) ?_
  · intro hf
    rw [hm, hf, List.append_nil]
    exact ⟨hp, Failure.foreseen_missing _⟩
  intro fn w hw
  obtain ⟨rfl, hf⟩ := hw
  rw [hm, hf]
  have taken := hP.assembles.take hp allowed (congrArg (Option.map Owned.function) hf)
  refine Ends.bind (Q := fun _ w' => w' = w.take .function f) (ends_modify rfl) ?_
  rintro _ _ rfl
  split
  · rename_i md' fits
    exact hP.invariant.move (hP.done taken) (.accept (w := w.take .function f) hm fits written)
  · rename_i fault refused
    refine (dropOwned_ends hP.assembles [.function fn] taken).bind ?_
    intro _ w hp
    exact ends_throw ⟨hp, Failure.foreseen_refused (Fault.plainly_accept fn md fault refused).foreseen⟩

theorem drop_ends {kind : DroppedKind} {x : String} (allowed : ∀ k ∈ kind.owned?, a.takes k x)
    (fills : kind = .expr → a.fills x) (hp : A k ⟨hand, w⟩) :
    (drop kind x).Ends w (fun _ w' => P ⟨hand, w'⟩) (Failed (A k) hand) := by
  have hI := hP.invariant
  cases kind with
  | expr =>
    refine (Ends.discard (read_ends hp)).bind ?_
    intro _ w hw
    obtain ⟨_, rfl, -⟩ := hw
    exact ends_modify (hI.move (hP.done hp) (.eraseExpr (fills rfl)))
  | var =>
    refine (Ends.discard (read_ends hp)).bind ?_
    intro _ w hw
    obtain ⟨_, rfl, -⟩ := hw
    exact ends_modify (hI.move (hP.done hp) (.eraseVar x))
  | stmt =>
    refine (read_ends hp).bind ?_
    intro o w hw
    obtain ⟨rfl, ho⟩ := hw
    exact remove_ends hI (allowed _ rfl) (congrArg (Option.map Owned.stmt) ho) (hP.done hp)
  | block =>
    refine (read_ends hp).bind ?_
    intro o w hw
    obtain ⟨rfl, ho⟩ := hw
    exact remove_ends hI (allowed _ rfl) (congrArg (Option.map Owned.block) ho) (hP.done hp)
  | function =>
    refine (read_ends hp).bind ?_
    intro o w hw
    obtain ⟨rfl, ho⟩ := hw
    exact remove_ends hI (allowed _ rfl) (congrArg (Option.map Owned.function) ho) (hP.done hp)
  | module =>
    refine (read_ends hp).bind ?_
    intro o w hw
    obtain ⟨rfl, ho⟩ := hw
    exact remove_ends hI (allowed _ rfl) (congrArg (Option.map Owned.module) ho) (hP.done hp)

end

end Build

/-! ## Commands -/

/-- A written type is refused for its width, or is no data value of a type. -/
theorem TyTerm.eval_error {t : TyTerm} {e : Failure} (h : t.eval = .error e) :
    (∃ kind w f, Ty.sized kind w = .error f ∧ e = .refused f) ∨ e = .undecodable := by
  cases t with
  | sized kind w =>
    rw [TyTerm.eval] at h
    cases hs : Ty.sized kind w with
    | ok u => rw [hs] at h; cases h
    | error f =>
      rw [hs] at h
      cases h
      exact .inl ⟨kind, w, f, hs, rfl⟩
  | bool | arrayId => cases h
  | data j =>
    rw [TyTerm.eval] at h
    split at h <;> cases h
    exact .inr rfl

theorem ModelTerm.eval_error {t : ModelTerm} {e : Failure} (h : t.eval = .error e) : e = .undecodable := by
  cases t with
  | spir | nvptx64 => cases h
  | data j =>
    rw [ModelTerm.eval] at h
    split at h <;> cases h
    rfl

theorem TyTerm.foreseen_eval {t : TyTerm} {e : Failure} (h : t.eval = .error e) : e.Foreseen := by
  obtain ⟨kind, w, f, refused, rfl⟩ | rfl := eval_error h
  · exact Failure.foreseen_refused (Fault.plainly_sized kind w f refused).foreseen
  · exact fun h => nomatch h

theorem ModelTerm.foreseen_eval {t : ModelTerm} {e : Failure} (h : t.eval = .error e) : e.Foreseen := by
  rw [eval_error h]
  exact fun h => nomatch h

namespace Command

open Build

theorem keep_ends {α : Type} {P : Config → Prop} {w : Workspace} {set : String → α → Workspace → Workspace}
    {into : Option String} {a : α} {E : Failure → Workspace → Prop} (hp : P ⟨[], w⟩)
    (hs : ∀ x, into = some x → P ⟨[], set x a w⟩) :
    (keep set into a).Ends w (fun _ w' => P ⟨[], w'⟩) E := by
  cases into with
  | some x => exact hs x rfl
  | none => exact hp

variable {a : Scope} {A : List OwnedSlot → Config → Prop} {P : Config → Prop} (hP : Phases a A P) {w : Workspace}
include hP

theorem addEvalTo_ends {site : BlockSite} {n : NodeId} {locs : Locs} (allowed : a.makes .eval)
    (written : a.writes site.owner.1 site.owner.2) (hp : A [] ⟨[], w⟩)
    (live : w.store.Live n) :
    (addEvalTo site n locs).Ends w (fun _ w' => P ⟨[], w'⟩) (Failed (A []) []) := by
  unfold addEvalTo
  refine ends_get ?_
  dsimp only
  split
  · refine (blockAt_ends site hp).bind ?_
    intro b w hw
    obtain ⟨rfl, -⟩ := hw
    exact ends_pure (hP.done hp)
  · refine (newStmt_ends hP.assembles (.eval n) allowed trivial (List.forall_mem_nil _) hp
      (by simpa [StmtBody.operands] using live)).bind ?_
    intro s w hp
    exact appendStmt_ends hP written hp

theorem edit_ends {α β : Type} {x : String} {f : Function} {act : Build α} {g : α → Function} {k : α → Build β}
    {R : β → Workspace → Prop} (here : w.functions.get? x = some f) (written : a.writes .function x)
    (hp : A [] ⟨[], w⟩) (hl : Growing act) (he : ∀ a, f.Edit (g a))
    (hk : ∀ a w', P ⟨[], w'⟩ → (k a).Ends w' R (Failed (A []) [])) :
    (do let a ← act; modify (Workspace.putFunction (.loose x) (g a)); k a : Build β).Ends w R (Failed (A []) []) := by
  refine (hl.keeps hP.assembles hp).bind ?_
  intro a w' hw
  obtain ⟨hp, hg⟩ := hw
  rw [← congrArg Workspace.functions hg.tables] at here
  have edited : P ⟨[], w'.putFunction (.loose x) (g a)⟩ := hP.invariant.move (hP.done hp) (.edit here (he a) written)
  exact Ends.bind (Q := fun _ w' => P ⟨[], w'⟩) (ends_modify edited) fun _ w' hp => hk a w' hp

/-- **Every command is a row of moves**: what the moves keep holds after it.  When it fails, it does not fail for a
fault of the books, and it leaves what an assembly keeps. -/
theorem perform_ends (hp : A [] ⟨[], w⟩) : ∀ c : Command, c.Within a w →
    c.perform.Ends w (fun _ w' => P ⟨[], w'⟩) (Failed (A (c.spent w)) [])
  | .expr e into, hc => by
    refine (term_ends hP.assembles e hp).bind ?_
    intro n w hw
    obtain ⟨hp, -, live⟩ := hw
    have done := hP.done hp
    refine ends_get ((keep_ends done fun x hx => ?_).answer _)
    exact hP.invariant.move done (.setExpr (hc.fills x (Option.mem_toList.2 hx)) live)
  | .operand x i into, hc => by
    refine (read_ends hp).bind ?_
    intro n w hw
    obtain ⟨rfl, -⟩ := hw
    refine ends_get ?_
    split
    · rename_i o ho
      have done := hP.done hp
      have live := (hP.assembles.balanced hp).ordered.operands_live (List.mem_of_getElem? ho)
      refine (keep_ends done fun x hx => ?_).answer _
      exact hP.invariant.move done (.setExpr (hc.fills x (Option.mem_toList.2 hx)) live)
    · exact ends_throw ⟨hp, Failure.foreseen_missing _⟩
  | .info x, _ | .dump x, _ | .refCount x, _ | .markers x, _ =>
    ((Reads.bind (.slot _ _ x) fun _ => .get fun _ => .pure _).keeps hp).imp fun _ _ => hP.done
  | .preventEval x, hc => by
    refine (read_ends hp).bind ?_
    intro n w hw
    obtain ⟨rfl, hx⟩ := hw
    exact hP.invariant.move (hP.done hp) (.prevent (hc.forbids n (Option.mem_toList.2 hx)))
  | .sameNode x y, _ | .compareLocs x y, _ =>
    ((Reads.bind (.slot _ _ x) fun _ => .bind (.slot _ _ y) fun _ => .pure _).keeps hp).imp fun _ _ => hP.done
  | .typecheckCall c args, _ => by
    refine (read_ends hp).bind ?_
    intro c w hw
    obtain ⟨rfl, -⟩ := hw
    refine (termList_ends hP.assembles args hp).bind ?_
    intro ns w hw
    obtain ⟨hp, -⟩ := hw
    exact ends_get (ends_pure (hP.done hp))
  | .distinct kind xs, _ => (((reads_distinct kind xs).bind fun _ => .pure _).keeps hp).imp fun _ _ => hP.done
  | .debug kind x, _ => (((reads_debug kind x).bind fun _ => .pure _).keeps hp).imp fun _ _ => hP.done
  | .drop kind x, hc => by
    refine (drop_ends hP (fun k hk => ?_) (fun he => ?_) hp).answer _
    · exact hc.takes (k, x) (List.mem_map_of_mem (Option.mem_toList.2 hk))
    · subst he
      exact hc.fills x (List.mem_singleton_self x)
  | .locs t into, _ => by
    refine ((Growing.locs t).keeps hP.assembles hp).bind ?_
    intro l w hw
    obtain ⟨hp, -⟩ := hw
    have done := hP.done hp
    exact (keep_ends done fun x _ => hP.invariant.move done (.setLocs x l)).report _
  | .stmt s into, hc => by
    obtain ⟨within, allowed⟩ := hc.stmtTerm
    refine (stmtTerm_ends s hP.assembles within hp).bind ?_
    intro st w hp
    exact ends_get ((keepOwned_ends hP.invariant allowed (hc.written rfl) (hP.done hp)).answer _)
  | .showStmt s, _ => (((reads_findStmt s).bind fun _ => .get fun _ => .pure _).keeps hp).imp fun _ _ => hP.done
  | .sourceLocs s, _ => by
    refine (Reads.keeps ((reads_findStmt s).bind fun s => ?_) hp).imp fun _ _ => hP.done
    split
    · have plain : (Fault.unlocated s.kind).Plain := trivial
      exact (Reads.ofExcept (Fault.Plainly.error plain).foreseen).bind fun _ => .get fun _ => .pure _
    · exact .get fun _ => .pure _
  | .block id name into, hc => by
    refine ((Growing.intern name).keeps hP.assembles hp).bind ?_
    intro y w hw
    obtain ⟨hp, -⟩ := hw
    have new := hP.invariant.move (hP.done hp) (.blank (.block id y))
    exact (keepOwned_ends hP.invariant (hc.into rfl) (hc.written rfl) new).report _
  | .addStmt site s, hc => by
    rw [spent]
    refine Ends.bind (Q := fun _ w' => w' = w ∧ ∃ b, w.block? site = some b) ?_ ?_
    · refine Ends.mono (Ends.discard (blockAt_finds site)) ?_ ?_
      · rintro _ _ ⟨b, rfl, here⟩
        exact ⟨rfl, b, here⟩
      · rintro _ _ ⟨rfl, absent, foreseen⟩
        rw [absent]
        exact ⟨hp, foreseen⟩
    intro _ w' hw
    obtain ⟨rfl, b, here⟩ := hw
    rw [here]
    refine (stmtTerm_ends s hP.assembles hc.placedTerm hp).bind ?_
    intro st w hp
    exact (appendStmt_ends hP (hc.writes _ (List.mem_singleton_self _)) hp).answer _
  | .addEval site e t, hc => by
    refine (Ends.discard (blockAt_ends site hp)).bind ?_
    intro _ w hw
    obtain ⟨_, rfl, -⟩ := hw
    refine (term_ends hP.assembles e hp).bind ?_
    intro n w hw
    obtain ⟨hp, -, live⟩ := hw
    refine ((Growing.locs t).keeps hP.assembles hp).bind ?_
    intro l w' hw
    obtain ⟨hp, hg⟩ := hw
    exact (addEvalTo_ends hP (hc.makes _ (List.mem_singleton_self _)) (hc.writes _ (List.mem_singleton_self _)) hp
      (hg.live live)).answer _
  | .showBlock b, _ => (((reads_findBlock b).bind fun _ => .get fun _ => .pure _).keeps hp).imp fun _ _ => hP.done
  | .function name into, hc => by
    refine ((Growing.intern name).keeps hP.assembles hp).bind ?_
    intro y w hw
    obtain ⟨hp, -⟩ := hw
    have new := hP.invariant.move (hP.done hp) (.blank (.function y))
    exact (keepOwned_ends hP.invariant (hc.into rfl) (hc.written rfl) new).report _
  | .addVar role f name typ into, hc => by
    refine (read_ends hp).bind ?_
    intro fn w hw
    obtain ⟨rfl, here⟩ := hw
    refine Ends.bind (Q := fun _ w' => w' = w)
      (ends_ofResult (fun _ _ => rfl) fun e he => ⟨hp, TyTerm.foreseen_eval he⟩) ?_
    rintro u w rfl
    refine (check_ends (Fault.plainly_checkOpen fn role).foreseen hp).bind ?_
    intro _ w hw
    obtain ⟨rfl, free⟩ := hw
    refine edit_ends hP here (hc.writes _ (List.mem_singleton_self _)) hp (.newVar name u) (fun v => .addVar v free) ?_
    intro v w hp
    exact (keep_ends hp fun x _ => hP.invariant.move hp (.setVar x v)).answer _
  | .addBlock f name, hc => by
    refine (read_ends hp).bind ?_
    intro fn w hw
    obtain ⟨rfl, here⟩ := hw
    exact edit_ends hP here (hc.writes _ (List.mem_singleton_self _)) hp (.intern name) (fun y => .addBlock y)
      fun _ _ hp => ends_pure hp
  | .addClause kind f e t, hc => by
    refine (read_ends hp).bind ?_
    intro fn w hw
    obtain ⟨rfl, here⟩ := hw
    refine (term_ends hP.assembles e hp).bind ?_
    intro n w₁ hw
    obtain ⟨hp, g₁, live⟩ := hw
    refine ((Growing.locs t).keeps hP.assembles hp).bind ?_
    intro l w₂ hw
    obtain ⟨hp, g₂⟩ := hw
    refine ends_get ((check_ends (Fault.plainly_predicate _ _ n).foreseen hp).bind ?_)
    intro _ w₃ hw
    obtain ⟨rfl, meets⟩ := hw
    rw [← congrArg Workspace.functions (g₁.trans g₂).tables] at here
    exact hP.invariant.move (hP.done hp) (.addClause kind l here (g₂.live live) meets
      (hc.writes _ (List.mem_singleton_self _)))
  | .addAttribute f name, hc => by
    refine (read_ends hp).bind ?_
    intro fn w hw
    obtain ⟨rfl, here⟩ := hw
    exact edit_ends hP here (hc.writes _ (List.mem_singleton_self _)) hp (.intern name) (fun y => .addAttribute y)
      fun _ _ hp => ends_pure hp
  | .hasAttribute f name, _ => by
    refine (Reads.keeps ((reads_findFunction f).bind fun p => ?_) hp).imp fun _ _ => hP.done
    split
    · exact Reads.checkNames.bind fun _ => .get fun _ => .pure _
    · exact .get fun _ => .pure _
  | .callee f into, hc => by
    refine (findFunction_ends f hp).bind ?_
    intro p w hw
    obtain ⟨rfl, site, here⟩ := hw
    refine (calleeOf_ends hP.invariant (hc.freezes f into p.1 rfl site) here (hP.done hp)).bind ?_
    intro c w hw
    obtain ⟨hp, _, here, known⟩ := hw
    exact ends_get ((keep_ends hp fun x _ => hP.invariant.move hp (.setCallee x here known)).answer _)
  | .showFunction f, _ => (((reads_findFunction f).bind fun _ => .get fun _ => .pure _).keeps hp).imp fun _ _ => hP.done
  | .module name model into, hc => by
    refine Ends.bind (Q := fun _ w' => w' = w)
      (ends_ofResult (fun _ _ => rfl) fun e he => ⟨hp, ModelTerm.foreseen_eval he⟩) ?_
    rintro model w rfl
    refine ((Growing.intern name).keeps hP.assembles hp).bind ?_
    intro y w hw
    obtain ⟨hp, -⟩ := hw
    have new := hP.invariant.move (hP.done hp) (.blank (.module y model))
    exact (keepOwned_ends hP.invariant (hc.into rfl) (hc.written rfl) new).report _
  | .addArray m name space into, hc => by
    refine (read_ends hp).bind ?_
    intro md w hw
    obtain ⟨rfl, here⟩ := hw
    refine ((Growing.newArray name space).keeps hP.assembles hp).bind ?_
    intro a w' hw
    obtain ⟨hp, hg⟩ := hw
    rw [← congrArg Workspace.modules hg.tables] at here
    have hp := hP.invariant.move (hP.done hp) (.addArray a here (hc.writes _ (List.mem_singleton_self _)))
    refine Ends.bind (Q := fun _ w' => P ⟨[], w'⟩) (ends_modify hp) ?_
    intro _ w hp
    exact (keep_ends hp fun x _ => hP.invariant.move hp (.setArray x a)).report _
  | .addFunction m f, hc =>
    (moveFunction_ends hP (hc.takes _ (List.mem_singleton_self _)) (hc.writes _ (List.mem_singleton_self _))
      hp).answer _
  | .addAxiom m e, hc => by
    refine (read_ends hp).bind ?_
    intro md w hw
    obtain ⟨rfl, here⟩ := hw
    refine (term_ends hP.assembles e hp).bind ?_
    intro n w₁ hw
    obtain ⟨hp, g₁, live⟩ := hw
    refine ends_get ((check_ends (Fault.plainly_predicate _ _ n).foreseen hp).bind ?_)
    intro _ w₃ hw
    obtain ⟨rfl, meets⟩ := hw
    rw [← congrArg Workspace.modules g₁.tables] at here
    exact hP.invariant.move (hP.done hp) (.addAxiom here live meets (hc.writes _ (List.mem_singleton_self _)))
  | .showModule m, _ =>
    ((Reads.bind (.slot _ _ m) fun _ => .get fun _ => .pure _).keeps hp).imp fun _ _ => hP.done

end Command
end KernelIR
