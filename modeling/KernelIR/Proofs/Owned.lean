import KernelIR.Proofs.Table
import KernelIR.Workspace
/-!
# Owned — what the objects of a workspace hold

How the nodes that a workspace holds change when an object moves in or out (`held_take`, `held_put`) and when an object
grows where it is kept (`Owned.Grown`).  All is said in counts, since the order of holders means nothing.
-/
namespace KernelIR

variable {α : Type}

/-- Replacing an element changes a count over the list by the difference at that element. -/
theorem count_flatMap_set {f : α → List NodeId} {a b : α} (n : NodeId) : ∀ {l : List α} {i : Nat}, l[i]? = some a →
    ((l.set i b).flatMap f).count n + (f a).count n = (l.flatMap f).count n + (f b).count n
  | [], i, h => by simp at h
  | x :: l, 0, h => by
    simp only [List.length_cons, Nat.zero_lt_succ, List.getElem?_eq_getElem, List.getElem_cons_zero,
      Option.some.injEq] at h
    subst h
    simp only [List.set_cons_zero, List.flatMap_cons, List.count_append]
    omega
  | x :: l, i + 1, h => by
    rw [List.getElem?_cons_succ] at h
    have ih := count_flatMap_set (f := f) (b := b) n h
    simp only [List.set_cons_succ, List.flatMap_cons, List.count_append]
    omega

/-- An evaluation is a hold. -/
theorem StmtBody.operand_of_evaluated {b : StmtBody α} {a : α} (h : a ∈ b.evaluated) : a ∈ b.operands := by
  cases b with
  | eval e => exact h
  | store | varAssign | goto | ret | assume | assert | call | callMemberOf | waitGroupEvent => cases h

theorem Block.held_of_evaluated {b : Block} {n : NodeId} (h : n ∈ b.evaluated) : n ∈ b.held := by
  obtain ⟨s, hs, hn⟩ := List.mem_flatMap.1 h
  exact List.mem_flatMap.2 ⟨s, hs, StmtBody.operand_of_evaluated hn⟩

theorem Function.held_of_evaluated {f : Function} {n : NodeId} (h : n ∈ f.evaluated) : n ∈ f.held := by
  obtain ⟨b, hb, hn⟩ := List.mem_flatMap.1 h
  exact List.mem_append_left _ (List.mem_flatMap.2 ⟨b, hb, Block.held_of_evaluated hn⟩)

namespace Owned

theorem held_of_evaluated {o : Owned} {n : NodeId} (h : n ∈ o.evaluated) : n ∈ o.held := by
  cases o with
  | stmt s => exact StmtBody.operand_of_evaluated h
  | block b => exact Block.held_of_evaluated h
  | function f => exact Function.held_of_evaluated h
  | module m =>
    obtain ⟨f, hf, hn⟩ := List.mem_flatMap.1 h
    exact List.mem_append_left _ (List.mem_flatMap.2 ⟨f, hf, Function.held_of_evaluated hn⟩)

/-- The object `o'` is `o` with these holds and evaluations besides. -/
structure Grown (o o' : Owned) (held evaluated : List NodeId) : Prop where
  kind : o'.kind = o.kind
  held : ∀ n, o'.held.count n = held.count n + o.held.count n
  evaluated : ∀ n, o'.evaluated.count n = evaluated.count n + o.evaluated.count n

theorem Grown.of_eq {o o' : Owned} (hk : o'.kind = o.kind) (hh : o'.held = o.held) (he : o'.evaluated = o.evaluated) :
    o.Grown o' [] [] :=
  ⟨hk, fun n => by rw [hh, List.count_nil, Nat.zero_add], fun n => by rw [he, List.count_nil, Nat.zero_add]⟩

theorem grown_push (b : Block) (s : Stmt NodeId) : (block b).Grown (block (b.push s)) s.operands s.evaluated where
  kind := rfl
  held n := by
    simp only [Owned.held, Block.held, Block.push, List.flatMap_append, List.flatMap_singleton, List.count_append]
    omega
  evaluated n := by
    simp only [Owned.evaluated, Block.evaluated, Block.push, List.flatMap_append, List.flatMap_singleton,
      List.count_append]
    omega

theorem grown_setBlock {f : Function} {i : Nat} {b b' : Block} {held evaluated : List NodeId}
    (hi : f.blocks[i]? = some b) (h : (block b).Grown (block b') held evaluated) :
    (function f).Grown (function (f.setBlock i b')) held evaluated where
  kind := rfl
  held n := by
    have hs := count_flatMap_set (f := fun b : Block => b.held) (b := b') n hi
    have hb := h.held n
    simp only [Owned.held, Function.held, Function.setBlock, Function.clauses, List.count_append] at *
    omega
  evaluated n := by
    have hs := count_flatMap_set (f := fun b : Block => b.evaluated) (b := b') n hi
    have hb := h.evaluated n
    simp only [Owned.evaluated, Function.evaluated, Function.setBlock] at *
    omega

theorem grown_setFunction {m : Module} {i : Nat} {f f' : Function} {held evaluated : List NodeId}
    (hi : m.functions[i]? = some f) (h : (function f).Grown (function f') held evaluated) :
    (module m).Grown (module (m.setFunction i f')) held evaluated where
  kind := rfl
  held n := by
    have hs := count_flatMap_set (f := fun f : Function => f.held) (b := f') n hi
    have hb := h.held n
    simp only [Owned.held, Module.held, Module.setFunction, List.count_append] at *
    omega
  evaluated n := by
    have hs := count_flatMap_set (f := fun f : Function => f.evaluated) (b := f') n hi
    have hb := h.evaluated n
    simp only [Owned.evaluated, Module.evaluated, Module.setFunction] at *
    omega

theorem grown_addClause (f : Function) (kind : ClauseKind) (c : Clause) :
    (function f).Grown (function (f.addClause kind c)) [c.pred] [] where
  kind := rfl
  held n := by
    cases kind <;> simp only [Owned.held, Function.held, Function.addClause, Function.clauses, List.map_append,
      List.map_cons, List.map_nil, List.count_append] <;> omega
  evaluated n := by cases kind <;> simp [Owned.evaluated, Function.evaluated, Function.addClause]

theorem grown_addAxiom (m : Module) (a : NodeId) : (module m).Grown (module (m.addAxiom a)) [a] [] where
  kind := rfl
  held n := by
    simp only [Owned.held, Module.held, Module.addAxiom, List.count_append]
    omega
  evaluated n := by simp [Owned.evaluated, Module.evaluated, Module.addAxiom]

theorem grown_accept {m m' : Module} {f : Function} (h : m.accept f = .ok m') :
    (module m).Grown (module m') f.held f.evaluated := by
  unfold Module.accept at h
  split at h
  · cases h
  · split at h
    · cases h
    · cases h
      refine ⟨rfl, fun n => ?_, fun n => ?_⟩
      · simp only [Owned.held, Module.held, List.flatMap_append, List.flatMap_singleton, List.count_append]
        omega
      · simp only [Owned.evaluated, Module.evaluated, List.flatMap_append, List.flatMap_singleton, List.count_append]
        omega

end Owned

namespace Workspace

variable {w : Workspace} {x : String} {kind : OwnedKind} {o o' : Owned} {held evaluated : List NodeId}

/-! ## Moves in and out -/

theorem perm_part {a b b' c xs : List Owned} (h : b.Perm (xs ++ b')) : (a ++ b ++ c).Perm (xs ++ (a ++ b' ++ c)) :=
  calc (a ++ b ++ c).Perm (a ++ (xs ++ b') ++ c) := (h.append_left a).append_right c
    _ = (a ++ xs) ++ (b' ++ c) := by simp only [List.append_assoc]
    List.Perm _ ((xs ++ a) ++ (b' ++ c)) := List.perm_append_comm.append_right _
    _ = xs ++ (a ++ b' ++ c) := by simp only [List.append_assoc]

/-- **Taking an object out of a slot** takes it away from what the workspace owns. -/
theorem owned_take (w : Workspace) (kind : OwnedKind) (x : String) :
    w.owned.Perm ((w.owned? kind x).toList ++ (w.take kind x).owned) := by
  have part : ∀ {β : Type} (t : Table β) (f : β → Owned),
      (t.values.map f).Perm (((t.get? x).map f).toList ++ (t.erase x).values.map f) := fun t f => by
    have := (t.perm_values x).map f
    rwa [List.map_append, ← Option.toList_map] at this
  cases kind with
  | stmt =>
    have := perm_part (a := []) (c := w.blocks.values.map .block ++ w.functions.values.map .function ++
      w.modules.values.map .module) (part w.stmts .stmt)
    simpa only [owned, owned?, take, List.append_assoc, List.nil_append] using this
  | block =>
    have := perm_part (a := w.stmts.values.map .stmt) (c := w.functions.values.map .function ++
      w.modules.values.map .module) (part w.blocks .block)
    simpa only [owned, owned?, take, List.append_assoc] using this
  | function =>
    exact perm_part (part w.functions .function)
  | module =>
    have := perm_part (a := w.stmts.values.map .stmt ++ w.blocks.values.map .block ++ w.functions.values.map .function)
      (c := []) (part w.modules .module)
    simpa only [owned, owned?, take, List.append_nil] using this

@[simp] theorem owned?_put (w : Workspace) (x : String) (o : Owned) : (w.put x o).owned? o.kind x = some o := by
  cases o <;> simp [put, owned?, Owned.kind]

@[simp] theorem owned?_take (w : Workspace) (kind : OwnedKind) (x : String) : (w.take kind x).owned? kind x = none := by
  cases kind <;> simp [take, owned?]

@[simp] theorem take_put (w : Workspace) (x : String) (o : Owned) : (w.put x o).take o.kind x = w.take o.kind x := by
  cases o <;> simp [put, take, Owned.kind]

@[simp] theorem owned?_mapStore (w : Workspace) (f : Store → Store) (kind : OwnedKind) (x : String) :
    (w.mapStore f).owned? kind x = w.owned? kind x := by
  cases kind <;> rfl

theorem take_of_none {w : Workspace} {kind : OwnedKind} {x : String} (h : w.owned? kind x = none) :
    w.take kind x = w := by
  cases kind <;> simp only [owned?, Option.map_eq_none_iff] at h <;> simp only [take, Table.erase_of_none h]

@[simp] theorem exprs_take (w : Workspace) (kind : OwnedKind) (x : String) : (w.take kind x).exprs = w.exprs := by
  cases kind <;> rfl

@[simp] theorem store_take (w : Workspace) (kind : OwnedKind) (x : String) : (w.take kind x).store = w.store := by
  cases kind <;> rfl

@[simp] theorem store_put (w : Workspace) (x : String) (o : Owned) : (w.put x o).store = w.store := by
  cases o <;> rfl

/-! ## What is held and evaluated -/

theorem held_of_evaluated {n : NodeId} (h : n ∈ w.evaluated) : n ∈ w.held := by
  obtain ⟨o, ho, hn⟩ := List.mem_flatMap.1 h
  exact List.mem_append_right _ (List.mem_flatMap.2 ⟨o, ho, Owned.held_of_evaluated hn⟩)

theorem held_take (h : w.owned? kind x = some o) (n : NodeId) :
    w.held.count n = o.held.count n + (w.take kind x).held.count n := by
  have := ((w.owned_take kind x).flatMap_right (·.held)).count_eq n
  rw [h] at this
  simp only [held, exprs_take, List.count_append, Option.toList_some, List.flatMap_cons, List.singleton_append] at *
  omega

theorem evaluated_take (h : w.owned? kind x = some o) (n : NodeId) :
    w.evaluated.count n = o.evaluated.count n + (w.take kind x).evaluated.count n := by
  have := ((w.owned_take kind x).flatMap_right (·.evaluated)).count_eq n
  rwa [h, Option.toList_some, List.singleton_append, List.flatMap_cons, List.count_append] at this

theorem held_put (w : Workspace) (x : String) (o : Owned) (n : NodeId) :
    (w.put x o).held.count n = o.held.count n + (w.take o.kind x).held.count n := by
  simpa using held_take (w.owned?_put x o) n

theorem evaluated_put (w : Workspace) (x : String) (o : Owned) (n : NodeId) :
    (w.put x o).evaluated.count n = o.evaluated.count n + (w.take o.kind x).evaluated.count n := by
  simpa using evaluated_take (w.owned?_put x o) n

/-- **An object that grows in its slot** makes the workspace hold that much more. -/
theorem held_put_of_grown (h : w.owned? o.kind x = some o) (g : o.Grown o' held evaluated) (n : NodeId) :
    (w.put x o').held.count n = held.count n + w.held.count n := by
  rw [held_put, held_take h, g.held, g.kind]
  omega

theorem evaluated_put_of_grown (h : w.owned? o.kind x = some o) (g : o.Grown o' held evaluated) (n : NodeId) :
    (w.put x o').evaluated.count n = evaluated.count n + w.evaluated.count n := by
  rw [evaluated_put, evaluated_take h, g.evaluated, g.kind]
  omega

theorem held_eraseExpr (w : Workspace) (x : String) (n : NodeId) :
    w.held.count n = (w.exprs.get? x).toList.count n + (w.eraseExpr x).held.count n := by
  have := (w.exprs.perm_values x).count_eq n
  simp only [held, List.count_append] at *
  change _ = _ + ((w.exprs.erase x).values.count n + (w.owned.flatMap (·.held)).count n)
  omega

theorem held_setExpr (w : Workspace) (x : String) (n m : NodeId) :
    (w.setExpr x n).held.count m = [n].count m + (w.eraseExpr x).held.count m := by
  have := ((w.exprs.put x n).perm_values x).count_eq m
  rw [Table.get?_put, Table.erase_put, List.count_append] at this
  simp only [held, List.count_append]
  change (w.exprs.put x n).values.count m + _ = _ + ((w.exprs.erase x).values.count m + _)
  rw [this, Option.toList_some, Nat.add_assoc]
  rfl

end Workspace
end KernelIR
