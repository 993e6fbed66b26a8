import KernelIR.Build
/-!
# Outcome — how a computation over a workspace ends

`act.Ends w Q E`: from `w` on, `act` answers with something of which `Q` holds, or fails with something of which `E`
holds; both speak of the workspace at the end as well.  There is one rule for each way to put computations together.
-/
namespace KernelIR

/-- A failure that a producer can cause.  The one that is left, an evaluation that ends without having been alive, would
be a fault of the books. -/
def Failure.Foreseen (e : Failure) : Prop := e ≠ .refused .noLiveEval

theorem Failure.foreseen_refused {f : Fault} (h : f ≠ .noLiveEval) : (Failure.refused f).Foreseen := fun h' => by
  cases h'
  exact h rfl

theorem Failure.foreseen_missing (m : Missing) : (Failure.missing m).Foreseen := fun h => nomatch h

/-- A check that blames the producer only. -/
def Fault.Foreseen {α : Type} (x : Except Fault α) : Prop := ∀ e, x = .error e → e ≠ .noLiveEval

/-- The causes that stand for a request of the producer's: all but the two assertions, that an evaluation which ends was
alive and that a statement which joins a block is in none yet. -/
def Fault.Plain : Fault → Prop
  | .noLiveEval | .placed _ _ _ => False
  | _ => True

theorem Fault.Plain.foreseen {e : Fault} (h : e.Plain) : e ≠ .noLiveEval := by
  rintro rfl
  exact h

/-- A check whose causes are plain. -/
def Fault.Plainly {α : Type} (x : Except Fault α) : Prop := ∀ e, x = .error e → e.Plain

namespace Fault.Plainly

variable {α β : Type}

theorem ok (a : α) : Plainly (.ok a) := fun _ h => nomatch h

theorem error {e : Fault} (h : e.Plain) : Plainly (.error e : Except Fault α) := fun _ he => by
  cases he
  exact h

theorem bind {x : Except Fault α} {f : α → Except Fault β} (hx : Plainly x) (hf : ∀ a, x = .ok a → Plainly (f a)) :
    Plainly (x >>= f) := by
  cases x with
  | ok a => exact hf a rfl
  | error e => exact error (hx e rfl)

theorem ite {p : Prop} [Decidable p] {x y : Except Fault α} (hx : Plainly x) (hy : Plainly y) :
    Plainly (if p then x else y) := by
  split
  · exact hx
  · exact hy

theorem mapM {f : β → Except Fault α} (hf : ∀ b, Plainly (f b)) : ∀ l : List β, Plainly (l.mapM f)
  | [] => ok _
  | b :: l => by
    rw [List.mapM_cons]
    exact bind (hf b) fun _ _ => bind (mapM hf l) fun _ _ => ok _

theorem foreseen {x : Except Fault α} (h : Plainly x) : Foreseen x := fun e he => (h e he).foreseen

end Fault.Plainly

/-! ## The causes of the checks -/

namespace Fault

variable {α : Type} (r : Reader α)

theorem plainly_sized (kind : SizedKind) (w : UInt64) : Plainly (Ty.sized kind w) := .ite (.error trivial) (.ok _)

theorem plainly_expectWidth (t : Ty) : Plainly t.expectWidth := by
  unfold Ty.expectWidth
  split
  · exact .ok _
  · exact .error trivial

theorem plainly_access (x : Access) (a o : α) : Plainly (Form.access r x a o) := by
  refine .ite (.error trivial) (.ite (.error trivial) ?_)
  cases x with
  | pointer => exact (plainly_expectWidth _).bind fun _ _ => plainly_sized _ _
  | load => exact plainly_sized _ _

theorem plainly_unaryResult (op : UnaryOp) (t : Ty) : Plainly (op.result t) := by
  cases op with
  | arrayId | bvToBool | not => exact .ok _
  | boolToBv => exact plainly_sized _ _
  | arrayOffset | bvToFloat | floatToBv | bvToPtr | ptrToBv =>
    exact (plainly_expectWidth t).bind fun _ _ => plainly_sized _ _

theorem plainly_binaryResult (op : BinaryOp) (t u : Ty) : Plainly (op.result t u) := by
  unfold BinaryOp.result
  cases op.family with
  | concatenation =>
    exact (plainly_expectWidth t).bind fun _ _ => (plainly_expectWidth u).bind fun _ _ => plainly_sized _ _
  | arithmetic | comparison | equality | connective => exact .ok _

theorem plainly_resolveUnary (op : UnaryOp) (e : α) : Plainly (Form.resolveUnary r op e) := by
  refine .ite (.error trivial) ?_
  split
  · exact .ok _
  · exact (plainly_unaryResult _ _).bind fun _ _ => .ok _

theorem plainly_resolveBinary (op : BinaryOp) (e e' : α) : Plainly (Form.resolveBinary r op e e') := by
  refine .ite (.error trivial) ?_
  split
  · exact (plainly_expectWidth _).bind fun _ _ => (plainly_sized _ _).bind fun _ _ => .ok _
  · exact (plainly_binaryResult _ _ _).bind fun _ _ => .ok _

theorem plainly_resolveCall (c : Callee) (args : List α) : Plainly (Form.resolveCall r c args) := by
  refine .ite (.error trivial) ?_
  split
  · exact .ok _
  · exact .error trivial

theorem plainly_resolveExtract (e : α) (offset width : UInt64) : Plainly (Form.resolveExtract r e offset width) := by
  unfold Form.resolveExtract
  split
  · exact .ite ((plainly_sized _ _).bind fun _ _ => .ok _) (.error trivial)
  · exact .error trivial

theorem plainly_resolve (f : Form α) : Plainly (f.resolve r) := by
  cases f with
  | bvConst | bvZero => exact (plainly_sized _ _).bind fun _ _ => .ok _
  | boolConst | arrayRef | varRef => exact .ok _
  | pointer | load => exact (plainly_access r _ _ _).bind fun _ _ => .ok _
  | call c args => exact plainly_resolveCall r c args
  | bvExtract e offset width => exact plainly_resolveExtract r e offset width
  | extend x e width => exact .ite ((plainly_sized _ _).bind fun _ _ => .ok _) (.error trivial)
  | unary op e => exact plainly_resolveUnary r op e
  | binary op e e' => exact plainly_resolveBinary r op e e'

theorem plainly_predicate (role : PredicateRole) (p : α) : Plainly (checkPredicate r role p) :=
  .ite (.ok _) (.error trivial)

theorem plainly_pairs : ∀ l : List (Var × α), Plainly (StmtBody.checkPairs r l)
  | [] => .ok _
  | (v, e) :: rest => by
    rw [StmtBody.checkPairs]
    exact .ite (.error trivial) (plainly_pairs rest)

theorem plainly_indirect (func : α) : Plainly (StmtBody.checkIndirect r func) := .ite (.ok _) (.error trivial)

theorem plainly_check (b : StmtBody α) : Plainly (b.check r) := by
  cases b with
  | store a o v => exact .ite (.error trivial) (.ite (.error trivial) (.ite (.error trivial) (.ok _)))
  | varAssign vars values => exact .ite (.error trivial) (.ite (.error trivial) (plainly_pairs r _))
  | assume | assert => exact plainly_predicate r _ _
  | call c args => exact .ite (.ok _) (.error trivial)
  | callMemberOf func calls => exact plainly_indirect r func
  | eval | goto | ret | waitGroupEvent => exact .ok _

theorem plainly_asCall (s : Stmt α) : Plainly (s.asCall r) := by
  unfold Stmt.asCall
  split
  · exact .ok _
  · exact .error trivial

/-- Of the checks, this one alone has a cause that is not plain. -/
theorem foreseen_place (b : BlockId) (s : Stmt α) : Foreseen (s.place b) := by
  unfold Stmt.place
  split
  · exact fun _ he => nomatch he
  · intro e he
    cases he
    exact nofun

theorem plainly_accept (f : Function) (m : Module) : Plainly (m.accept f) := by
  unfold Module.accept
  split
  · exact .error trivial
  · exact .ite (.error trivial) (.ok _)

theorem plainly_block (f : Function) (i : Nat) : Plainly (f.block i) := by
  unfold Function.block
  split
  · exact .ok _
  · exact .error trivial

theorem plainly_checkOpen (f : Function) (role : VarRole) : Plainly (f.checkOpen role) := by
  unfold Function.checkOpen
  split
  · exact .error trivial
  · exact .ok _

theorem plainly_wordOfInt (n : Int) : Plainly (wordOfInt n) := .ite (.error trivial) (.ite (.ok _) (.error trivial))

theorem plainly_checkNames (w : Workspace) : Plainly w.checkNames := .ite (.error trivial) (.ok _)

end Fault

namespace Build

variable {α β : Type}

/-- **A computation ends well**: an answer satisfies `Q`, a failure `E`. -/
def Ends (act : Build α) (w : Workspace) (Q : α → Workspace → Prop) (E : Failure → Workspace → Prop) : Prop :=
  match act w with
  | .ok a w' => Q a w'
  | .error e w' => E e w'

variable {w : Workspace} {E : Failure → Workspace → Prop}

theorem run_bind {act : Build α} {a : α} {w' : Workspace} (h : act w = .ok a w') (f : α → Build β) :
    (act >>= f) w = f a w' := by
  change EStateM.bind act f w = _
  unfold EStateM.bind
  rw [h]

theorem run_bind_error {act : Build α} {e : Failure} {w' : Workspace} (h : act w = .error e w') (f : α → Build β) :
    (act >>= f) w = .error e w' := by
  change EStateM.bind act f w = _
  unfold EStateM.bind
  rw [h]

theorem run_bind_iff {act : Build α} {f : α → Build β} {b : β} {w' : Workspace} :
    (act >>= f) w = .ok b w' ↔ ∃ a v, act w = .ok a v ∧ f a v = .ok b w' := by
  change EStateM.bind act f w = _ ↔ _
  unfold EStateM.bind
  cases act w with
  | ok a v => exact ⟨fun h => ⟨a, v, rfl, h⟩, fun ⟨_, _, ha, h⟩ => by cases ha; exact h⟩
  | error e v => exact ⟨nofun, nofun⟩

theorem run_ofExcept_iff {x : Except Fault α} {a : α} {w' : Workspace} :
    ofExcept x w = .ok a w' ↔ x = .ok a ∧ w = w' := by
  cases x with
  | ok b => exact ⟨fun h => by cases h; exact ⟨rfl, rfl⟩, fun ⟨h, hw⟩ => by cases h; cases hw; rfl⟩
  | error f => exact ⟨nofun, nofun⟩

theorem run_ofResult_iff {x : Except Failure α} {a : α} {w' : Workspace} :
    ofResult x w = .ok a w' ↔ x = .ok a ∧ w = w' := by
  cases x with
  | ok b => exact ⟨fun h => by cases h; exact ⟨rfl, rfl⟩, fun ⟨h, hw⟩ => by cases h; cases hw; rfl⟩
  | error e => exact ⟨nofun, nofun⟩

theorem run_slot_iff {kind : SlotKind} {table : Workspace → Table α} {x : String} {a : α} {w' : Workspace} :
    slot kind table x w = .ok a w' ↔ (table w).get? x = some a ∧ w = w' := by
  have read : (get : Build Workspace) w = .ok w w := rfl
  unfold slot
  rw [run_bind read]
  cases (table w).get? x with
  | some b => exact ⟨fun h => by cases h; exact ⟨rfl, rfl⟩, fun ⟨h, hw⟩ => by cases h; cases hw; rfl⟩
  | none => exact ⟨nofun, nofun⟩

theorem run_slot {kind : SlotKind} {table : Workspace → Table α} {x : String} {a : α} (h : (table w).get? x = some a) :
    slot kind table x w = .ok a w := run_slot_iff.2 ⟨h, rfl⟩

theorem run_ofResult {x : Except Failure α} {a : α} (h : x = .ok a) (w : Workspace) : ofResult x w = .ok a w :=
  run_ofResult_iff.2 ⟨h, rfl⟩

theorem run_checkNames (free : w.poisoned = false) : checkNames w = .ok () w := by
  have read : (get : Build Workspace) w = .ok w w := rfl
  unfold checkNames Workspace.checkNames
  rw [run_bind read, free]
  rfl

theorem run_checkNames_error (poisoned : w.poisoned = true) : checkNames w = .error (.refused .namesPoisoned) w := by
  have read : (get : Build Workspace) w = .ok w w := rfl
  unfold checkNames Workspace.checkNames
  rw [run_bind read, poisoned]
  rfl

theorem run_intern (free : w.poisoned = false) (s : String) :
    intern s w = .ok (w.names.intern s).1 { w with names := (w.names.intern s).2 } := by
  unfold intern
  rw [run_bind (run_checkNames free)]
  rfl

theorem run_intern_iff {s : String} {y : Symbol} {w' : Workspace} :
    intern s w = .ok y w' ↔
      w.poisoned = false ∧ y = (w.names.intern s).1 ∧ w' = { w with names := (w.names.intern s).2 } := by
  refine ⟨fun h => ?_, fun ⟨free, hy, hw⟩ => hy ▸ hw ▸ run_intern free s⟩
  by_cases free : w.poisoned = false
  · rw [run_intern free] at h
    cases h
    exact ⟨free, rfl, rfl⟩
  · unfold intern at h
    rw [run_bind_error (run_checkNames_error (Bool.of_not_eq_false free))] at h
    cases h

namespace Ends

variable {act : Build α} {Q Q' : α → Workspace → Prop}

theorem ok (h : act.Ends w Q E) {a : α} {w' : Workspace} (ha : act w = .ok a w') : Q a w' := by
  unfold Ends at h
  rwa [ha] at h

theorem error (h : act.Ends w Q E) {e : Failure} {w' : Workspace} (he : act w = .error e w') : E e w' := by
  unfold Ends at h
  rwa [he] at h

theorem mono {E' : Failure → Workspace → Prop} (h : act.Ends w Q E) (hQ : ∀ a w', Q a w' → Q' a w')
    (hE : ∀ e w', E e w' → E' e w') : act.Ends w Q' E' := by
  unfold Ends at *
  split <;> rename_i heq <;> rw [heq] at h
  · exact hQ _ _ h
  · exact hE _ _ h

theorem imp (h : act.Ends w Q E) (hQ : ∀ a w', Q a w' → Q' a w') : act.Ends w Q' E := h.mono hQ fun _ _ => id

theorem bind {f : α → Build β} {R : β → Workspace → Prop} (h : act.Ends w Q E)
    (hf : ∀ a w', Q a w' → (f a).Ends w' R E) : (act >>= f).Ends w R E := by
  change (match EStateM.bind act f w with | .ok b w' => R b w' | .error e w' => E e w')
  unfold Ends at h
  unfold EStateM.bind
  split at h
  · rename_i a w' ha
    rw [ha]
    exact hf a w' h
  · rename_i e w' he
    rw [he]
    exact h

/-- The rule for `>>=` that remembers what the first part came to. -/
theorem bind_run {E' : Failure → Workspace → Prop} {f : α → Build β} {R : β → Workspace → Prop} (h : act.Ends w Q E)
    (hE : ∀ e w', E e w' → act w = .error e w' → E' e w')
    (hf : ∀ a w', Q a w' → act w = .ok a w' → (f a).Ends w' R E') : (act >>= f).Ends w R E' := by
  refine Ends.bind (Q := fun a w' => Q a w' ∧ act w = .ok a w') ?_ fun a w' hw => hf a w' hw.1 hw.2
  unfold Ends at *
  cases hr : act w with
  | ok a w' =>
    rw [hr] at h
    exact ⟨h, rfl⟩
  | error e w' =>
    rw [hr] at h
    exact hE e w' h hr

theorem discard (h : act.Ends w Q E) : (discard act).Ends w (fun _ w' => ∃ a, Q a w') E := by
  unfold Ends at *
  simp only [Functor.discard, Functor.mapConst, Function.comp, EStateM.map]
  split at h <;> rename_i heq <;> rw [heq]
  · exact ⟨_, h⟩
  · exact h

end Ends

variable {Q : α → Workspace → Prop}

theorem ends_of_run {act : Build α} {a : α} {w' : Workspace} (h : act w = .ok a w') (hq : Q a w') : act.Ends w Q E := by
  unfold Ends
  rw [h]
  exact hq

/-- A computation ends as it may end in any case. -/
theorem ends_of_forall {act : Build α} (hQ : ∀ a w', Q a w') (hE : ∀ e w', E e w') : act.Ends w Q E := by
  unfold Ends
  split
  · exact hQ _ _
  · exact hE _ _

theorem ends_trivial {act : Build α} : act.Ends w (fun _ _ => True) (fun _ _ => True) :=
  ends_of_forall (fun _ _ => trivial) fun _ _ => trivial

theorem ends_pure {a : α} (h : Q a w) : (pure a : Build α).Ends w Q E := h

theorem ends_throw {e : Failure} (h : E e w) : (throw e : Build α).Ends w Q E := h

theorem ends_get {f : Workspace → Build α} (h : (f w).Ends w Q E) : (get >>= f).Ends w Q E :=
  Ends.bind (Q := fun a w' => a = w ∧ w' = w) ⟨rfl, rfl⟩ fun _ _ hw => by rwa [hw.1, hw.2]

theorem ends_modify {g : Workspace → Workspace} {Q : Unit → Workspace → Prop} (h : Q () (g w)) :
    (modify g : Build Unit).Ends w Q E := h

theorem ends_modifyGet {g : Workspace → α × Workspace} (h : Q (g w).1 (g w).2) : (modifyGet g : Build α).Ends w Q E := h

theorem ends_ofExcept {x : Except Fault α} (h : ∀ a, x = .ok a → Q a w) (hE : ∀ e, x = .error e → E (.refused e) w) :
    (ofExcept x).Ends w Q E := by
  cases x with
  | ok a => exact h a rfl
  | error e => exact hE e rfl

theorem ends_ofResult {x : Except Failure α} (h : ∀ a, x = .ok a → Q a w) (hE : ∀ e, x = .error e → E e w) :
    (ofResult x).Ends w Q E := by
  cases x with
  | ok a => exact h a rfl
  | error e => exact hE e rfl

theorem ends_checkNames {Q : Unit → Workspace → Prop} (h : w.poisoned = false → Q () w)
    (hE : w.poisoned = true → E (.refused .namesPoisoned) w) : checkNames.Ends w Q E := by
  unfold Ends
  cases free : w.poisoned with
  | false =>
    rw [run_checkNames free]
    exact h free
  | true =>
    rw [run_checkNames_error free]
    exact hE free

theorem ends_slot {kind : SlotKind} {table : Workspace → Table α} {x : String}
    (h : ∀ a, (table w).get? x = some a → Q a w) (hE : (table w).get? x = none → E (.missing (.slot kind x)) w) :
    (slot kind table x).Ends w Q E := by
  unfold slot
  refine ends_get ?_
  split
  · rename_i a ha
    exact ends_pure (h a ha)
  · rename_i hn
    exact ends_throw (hE hn)

/-- An answer leaves the workspace as it is. -/
theorem Ends.answer {act : Build α} {I : Workspace → Prop} (h : act.Ends w (fun _ w' => I w') E) (f : α → β) :
    (act >>= fun a => pure (f a)).Ends w (fun _ w' => I w') E :=
  h.bind fun _ _ hi => ends_pure hi

theorem Ends.report {act : Build α} {I : Workspace → Prop} (h : act.Ends w (fun _ w' => I w') E)
    (f : α → Workspace → β) : (act >>= fun a => get >>= fun w => pure (f a w)).Ends w (fun _ w' => I w') E :=
  h.bind fun _ _ hi => ends_get (ends_pure hi)

/-! ## Computations that only read -/

/-- The workspace is left as it is, and a failure is the producer's. -/
def Reads (act : Build α) : Prop := ∀ w, act.Ends w (fun _ w' => w' = w) (fun e w' => w' = w ∧ e.Foreseen)

namespace Reads

theorem pure (a : α) : Reads (pure a) := fun _ => rfl

theorem missing (m : Missing) : Reads (throw (.missing m) : Build α) := fun _ => ⟨rfl, Failure.foreseen_missing m⟩

theorem bind {act : Build α} {f : α → Build β} (h : Reads act) (hf : ∀ a, Reads (f a)) : Reads (act >>= f) := fun w =>
  (h w).bind fun a w' hw => by
    rw [hw]
    exact hf a w

theorem get {f : Workspace → Build α} (hf : ∀ w, Reads (f w)) : Reads (get >>= f) := fun w => ends_get (hf w w)

theorem ofExcept {x : Except Fault α} (h : Fault.Foreseen x) : Reads (ofExcept x) := fun _ =>
  ends_ofExcept (fun _ _ => rfl) fun e he => ⟨rfl, Failure.foreseen_refused (h e he)⟩

theorem checkNames : Reads checkNames := .get fun w => .ofExcept (Fault.plainly_checkNames w).foreseen

theorem slot (kind : SlotKind) (table : Workspace → Table α) (x : String) : Reads (slot kind table x) := fun _ =>
  ends_slot (fun _ _ => rfl) fun _ => ⟨rfl, Failure.foreseen_missing _⟩

theorem mapM {f : β → Build α} (hf : ∀ b, Reads (f b)) : ∀ l : List β, Reads (l.mapM f)
  | [] => pure _
  | b :: l => by
    rw [List.mapM_cons]
    exact (hf b).bind fun _ => (mapM hf l).bind fun _ => pure _

end Reads

end Build
end KernelIR
