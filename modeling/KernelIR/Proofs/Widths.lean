import KernelIR.Proofs.NormalForm
import KernelIR.Proofs.Tame
/-!
# Widths — where a type of width `0` can be

The checked types have no width `0`, but a declared type is taken as it is read.  Whether a constructor passes a width
`0` on depends on how it comes by its type: it does where it copies the type of a variable, of a callee's return value
or of an operand (`Shape.Copies`), and it does not where it builds the type anew or takes it from a sub-node that was
built so.  That is read off the table of the constructors (`Form.Typed.copies`), both for the constructor that is called
and for the one that a node records.  And what is copied goes back to a declaration, since no computation makes a type
of width `0` of its own (`Command.tame`).

Main statement: `Workspace.zero_widths_contained`.
-/
namespace KernelIR

/-- **The nodes that copy their type**: a variable, a call, or an arithmetic operator on operands of width `0`. -/
inductive Shape.Copies {α : Type} (typ : α → Ty) : Shape α → Ty → Prop
  | varRef (v : Var) : Copies typ (.varRef v) v.typ
  | call (c : Callee) (args : List α) (t : Ty) (one : c.returns = [t]) : Copies typ (.call c args) t
  | arithmetic (op : BinaryOp) (lhs rhs : α) (listed : op ∈ BinaryOp.arithmeticOps) (left : typ lhs = .bv 0)
    (right : typ rhs = .bv 0) : Copies typ (.binary op lhs rhs) (.bv 0)

variable {α : Type} {typ : α → Ty} {t : Ty}

theorem Shape.Copies.of_map {s : Shape α} (h : Copies id (s.map typ) t) : s.Copies typ t := by
  cases s with
  | varRef v =>
    cases h
    exact .varRef v
  | call c args =>
    cases h with
    | call _ _ _ one => exact .call c args t one
  | binary op lhs rhs =>
    cases h with
    | arithmetic _ _ _ listed left right => exact .arithmetic op lhs rhs listed left right
  | bvConst | boolConst | arrayRef | pointer | load | bvExtract | bvZExt | bvSExt | unary => cases h

namespace Form

theorem wide_of_pos (kind : SizedKind) {w : UInt64} (pos : 0 < w) : (kind.typ w).Wide :=
  Ty.wide_sized (Ty.sized_of_pos pos)

/-- A row of the table whose result has width `0` is one that copies it. -/
theorem Typed.copies_row {f : Form Ty} (h : Typed f t) (zero : ¬ t.Wide) : f.shape.Copies id t := by
  cases h with
  | varRef => exact .varRef _
  | call one => exact .call _ _ _ one
  | binary row =>
    cases row with
    | @arithmetic op w listed =>
      have none : w = 0 := Decidable.byContradiction fun some => zero (wide_of_pos .bv (UInt64.pos_iff_ne_zero.2 some))
      subst none
      exact .arithmetic _ _ _ listed rfl rfl
    | concatenation pos => exact absurd (wide_of_pos .bv pos) zero
    | comparison | equality | connective => exact absurd (by decide) zero
  | bvConst pos | bvZero pos | bvExtract pos | extend pos => exact absurd (wide_of_pos .bv pos) zero
  | pointer pos => exact absurd (wide_of_pos .pointer pos) zero
  | boolConst | arrayRef | load => exact absurd (by decide) zero
  | unary row => exact absurd (UnaryOp.wide_result row.accepted.2) zero

theorem Typed.copies {f : Form α} (h : Typed (f.map typ) t) (zero : ¬ t.Wide) : f.shape.Copies typ t := by
  have row := h.copies_row zero
  rw [shape_map] at row
  exact row.of_map

/-- Where a constructor simplifies, its result does not have width `0`. -/
theorem Simplifies.wide {r : Reader α} {f : Form α} {b : Built α} (h : Simplifies r f b)
    (row : Typed (f.map r.typ) (b.typ r)) (ho : ∀ a ∈ f.operands, (r.node a).Typed r.typ) : (b.typ r).Wide := by
  refine Decidable.byContradiction fun zero => ?_
  have copies := row.copies zero
  cases h with
  | cancel => cases copies
  | @sum lhs rhs m n w hl hr hw =>
    obtain ⟨_, pos, ht, -⟩ := (ho lhs (List.mem_cons_self ..)).const hl
    obtain rfl := Ty.bv.inj (ht.symm.trans hw)
    exact zero (wide_of_pos .bv pos)

end Form

/-- A node copies its type where that has width `0`. -/
theorem Store.Books.copies {s : Store} {held evaluated : List NodeId} (h : s.Books held evaluated) {n : NodeId}
    (live : s.Live n) (zero : ¬ (s.typ n).Wide) : (s.cell n).shape.Copies s.typ (s.typ n) := by
  have node := h.node_typed live
  have copies : ((s.cell n).shape.form (s.typ n)).shape.Copies s.typ (s.typ n) := node.inTable.copies zero
  have same : ((s.cell n).shape.form (s.typ n)).shape = (s.cell n).shape := node.shape_form
  rwa [same] at copies

/-- **A constructor that answers with a type of width `0` copies it**, into a new node. -/
theorem Build.construct_copies {held evaluated : List NodeId} {v v' : Workspace} (hb : v.store.Books held evaluated)
    {f : Form NodeId} (live : ∀ m ∈ f.operands, v.store.Live m) {n : NodeId} (made : construct f v = .ok n v')
    (zero : ¬ (v'.store.typ n).Wide) :
    ¬ v.store.Live n ∧ (v'.store.cell n).shape = f.shape ∧ f.shape.Copies v.store.typ (v'.store.typ n) := by
  have typed : ∀ m ∈ f.operands, (v.store.reader.node m).Typed v.store.reader.typ := fun m hm =>
    hb.node_typed (live m hm)
  rw [run_construct] at made
  cases hr : f.resolve v.store.reader with
  | error x =>
    rw [hr] at made
    cases made
  | ok b =>
    rw [hr] at made
    obtain ⟨row, rules⟩ := Form.resolve_ok hr typed
    cases b with
    | reuse m =>
      cases made
      rcases rules with simplifies | ⟨-, t, hs⟩
      · exact absurd (simplifies.wide row typed) zero
      · cases hs
    | fresh shape t =>
      cases made
      have typ : (v.store.alloc shape t).2.typ ⟨v.store.next⟩ = t := by rw [Store.typ, Store.cell_alloc_self]
      rw [typ] at zero ⊢
      rcases rules with simplifies | ⟨-, u, hs⟩
      · exact absurd (simplifies.wide row typed) zero
      · cases hs
        refine ⟨hb.ordered.next_not_live, ?_, row.copies zero⟩
        rw [Store.cell_alloc_self]

namespace Workspace

variable {T : Ty → Prop} {w : Workspace}

/-- What a command ends with, tidied, has types in `T` as well. -/
theorem Sound.uses_step (h : w.Sound) (rules : Rules T fun _ => True) (hw : w.Uses T) (c : Command)
    (hc : ∀ t, c.Declares t → T t) : (w.step c).2.Uses T := by
  have ends := c.tame rules hc (.inr fun _ => trivial) w hw
  have books := Command.perform_ends Config.Balanced.invariant.phases h.books c (c.within_all w)
  unfold Workspace.step
  cases hr : c.perform w with
  | ok r v => exact (ends.ok hr).1.sweep rules.wide (books.ok hr)
  | error e v => exact (ends.error hr).1.sweep rules.wide (books.error hr).1

theorem Sound.uses_run (rules : Rules T fun _ => True) (cs : List Command) (h : w.Sound) (hw : w.Uses T)
    (declared : ∀ c ∈ cs, ∀ t, c.Declares t → T t) : (w.run cs).2.Uses T := by
  induction cs generalizing w with
  | nil => exact hw
  | cons c cs ih =>
    obtain ⟨hc, declared⟩ := List.forall_mem_cons.1 declared
    exact ih (h.step c) (h.uses_step rules hw c hc) declared

/-- What one more command builds, however it ends and before the store is tidied. -/
theorem perform_uses (rules : Rules T fun _ => True) {cs : List Command} {c : Command}
    (declared : ∀ d ∈ cs ++ [c], ∀ t, d.Declares t → T t) :
    c.perform.Ends (empty.run cs).2 (fun _ v => v.Uses T) (fun _ v => v.Uses T) := by
  have before : (empty.run cs).2.Uses T := sound_empty.uses_run rules cs (.empty rules.wide) fun d hd =>
    declared d (List.mem_append_left _ hd)
  have last := declared c (List.mem_append_right _ (List.mem_singleton_self c))
  exact (c.tame rules last (.inr fun _ => trivial) _ before).mono (fun _ _ h => h.1) fun _ _ h => h.1

/-- Every type of width `0` that a node has is declared by one of the commands. -/
def ZerosDeclared (w : Workspace) (cs : List Command) : Prop :=
  ∀ n, w.store.Live n → ¬ (w.store.typ n).Wide → ∃ c ∈ cs, c.Declares (w.store.typ n)

theorem perform_zerosDeclared (cs : List Command) (c : Command) :
    c.perform.Ends (empty.run cs).2 (fun _ v => v.ZerosDeclared (cs ++ [c]))
      fun _ v => v.ZerosDeclared (cs ++ [c]) := by
  have uses : c.perform.Ends (empty.run cs).2 (fun _ v => v.Uses fun t => t.Wide ∨ ∃ d ∈ cs ++ [c], d.Declares t)
      (fun _ v => v.Uses fun t => t.Wide ∨ ∃ d ∈ cs ++ [c], d.Declares t) :=
    perform_uses ⟨fun _ => .inl, fun _ _ => trivial⟩ fun d hd t ht => .inr ⟨d, hd, ht⟩
  exact uses.mono (fun _ v h n _ zero => (h.nodes n).resolve_left zero) fun _ v h n _ zero =>
    (h.nodes n).resolve_left zero

/-- **Zero widths are contained.**

After any script, and at any time within the next command, a live node whose type has width `0` copies that type: it is
a variable of that type, a call of what returns it, or an arithmetic, bitwise or shift operator on two operands of type
`Bv(0)`.  A constructor that answers with such a type is one of these; it does not simplify, and makes a new node.  All
others fail, or answer with a type of another width or of none.  And whatever the next command builds, and however it
ends, a type of width `0` is one that a command so far declares a variable with; so where none is declared, no
expression of width `0` is ever built. -/
theorem zero_widths_contained (cs : List Command) :
    (∀ (hand : List Owned) (v : Workspace), Relation.ReflTransGen (Move .all) ⟨[], (empty.run cs).2⟩ ⟨hand, v⟩ →
      (∀ n, v.store.Live n → ¬ (v.store.typ n).Wide → (v.store.cell n).shape.Copies v.store.typ (v.store.typ n)) ∧
      ∀ (f : Form NodeId) (n : NodeId) (v' : Workspace), (∀ m ∈ f.operands, v.store.Live m) →
        Build.construct f v = .ok n v' → ¬ (v'.store.typ n).Wide →
          ¬ v.store.Live n ∧ (v'.store.cell n).shape = f.shape ∧ f.shape.Copies v.store.typ (v'.store.typ n)) ∧
    ∀ c : Command,
      c.perform.Ends (empty.run cs).2 (fun _ v => v.ZerosDeclared (cs ++ [c]))
        (fun _ v => v.ZerosDeclared (cs ++ [c])) ∧
      ((∀ d ∈ cs ++ [c], ∀ t, d.Declares t → t.Wide) →
        c.perform.Ends (empty.run cs).2 (fun _ v => ∀ n, v.store.Live n → (v.store.typ n).Wide)
          fun _ v => ∀ n, v.store.Live n → (v.store.typ n).Wide) := by
  have sound : (empty.run cs).2.Sound := Reachable.sound ⟨cs, rfl⟩
  refine ⟨fun hand v path => ?_, fun c => ⟨perform_zerosDeclared cs c, fun wide => ?_⟩⟩
  · have books : v.store.Books (Config.held ⟨hand, v⟩) (Config.evaluated ⟨hand, v⟩) :=
      Config.Balanced.invariant.path (c := ⟨[], (empty.run cs).2⟩) sound.books path
    exact ⟨fun n live zero => books.copies live zero, fun f n v' live made zero =>
      Build.construct_copies books live made zero⟩
  · have rules : Rules Ty.Wide fun _ => True := ⟨fun _ => id, fun _ _ => trivial⟩
    exact (perform_uses rules wide).mono (fun _ v h n _ => h.nodes n) fun _ v h n _ => h.nodes n

/-- A parameter of width `0` and its sum with itself. -/
def zeroSum : List Command :=
  [.function "f" (some "f"), .addVar .parameter "f" "x" (.data (.obj [("Bv", .obj [("width", .ofWord 0)])])) (some "x"),
    .expr (.binary .bvAdd (.varRef "x") (.varRef "x")) (some "sum")]

/-- The sum copies its type, and a product of it does; the type is the one declared.  Where nothing is declared, nothing
of width `0` is built. -/
theorem zero_widths_contained_zeroSum :
    ((empty.run zeroSum).2.store.cell ⟨2⟩).shape.Copies (empty.run zeroSum).2.store.typ (.bv 0) ∧
    (∃ v', Build.construct (.binary .bvMul ⟨2⟩ ⟨0⟩) (empty.run zeroSum).2 = .ok ⟨3⟩ v' ∧
      (v'.store.cell ⟨3⟩).shape = .binary .bvMul ⟨2⟩ ⟨0⟩) ∧
    (∃ c ∈ zeroSum ++ [.refCount "sum"], c.Declares (.bv 0)) ∧
    ∃ r v, Command.perform (.expr (.bvConst 8 3) (some "n")) empty = .ok r v ∧ (v.store.typ ⟨0⟩).Wide := by
  obtain ⟨within, after⟩ := zero_widths_contained zeroSum
  obtain ⟨nodes, constructors⟩ := within [] _ .refl
  have live : (empty.run zeroSum).2.store.Live ⟨0⟩ ∧ (empty.run zeroSum).2.store.Live ⟨2⟩ := by decide
  have zero : (empty.run zeroSum).2.store.typ ⟨2⟩ = .bv 0 := by decide
  have narrow : ¬ (Ty.bv 0).Wide := by decide
  refine ⟨?_, ?_, ?_, ?_⟩
  · have copies := nodes ⟨2⟩ live.2 (zero ▸ narrow)
    rwa [zero] at copies
  · obtain ⟨v', made, typ⟩ : ∃ v', Build.construct (.binary .bvMul ⟨2⟩ ⟨0⟩) (empty.run zeroSum).2 = .ok ⟨3⟩ v' ∧
        v'.store.typ ⟨3⟩ = .bv 0 := ⟨_, rfl, rfl⟩
    have operands : ∀ m ∈ (Form.binary .bvMul ⟨2⟩ ⟨0⟩).operands, (empty.run zeroSum).2.store.Live m :=
      List.forall_mem_cons.2 ⟨live.2, List.forall_mem_singleton.2 live.1⟩
    exact ⟨v', made, (constructors _ ⟨3⟩ v' operands made (typ ▸ narrow)).2.1⟩
  · obtain ⟨r, v, run, live, typ⟩ : ∃ r v, Command.perform (.refCount "sum") (empty.run zeroSum).2 = .ok r v ∧
        v.store.Live ⟨2⟩ ∧ v.store.typ ⟨2⟩ = .bv 0 := ⟨_, _, rfl, live.2, zero⟩
    have declared := ((after (.refCount "sum")).1.ok run) ⟨2⟩ live (typ ▸ narrow)
    rwa [typ] at declared
  · obtain ⟨r, v, run, live⟩ : ∃ r v, Command.perform (.expr (.bvConst 8 3) (some "n")) empty = .ok r v ∧
        v.store.Live ⟨0⟩ := ⟨_, _, rfl, by decide⟩
    have ends := ((zero_widths_contained []).2 (.expr (.bvConst 8 3) (some "n"))).2
      (List.forall_mem_singleton.2 fun _ => nofun)
    exact ⟨r, v, run, ends.ok run ⟨0⟩ live⟩

end Workspace
end KernelIR
