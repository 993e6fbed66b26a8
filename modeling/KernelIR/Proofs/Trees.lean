import KernelIR.Proofs.Typing
/-!
# Trees — constructors over trees

A constructor decides by the top nodes of its operands, so it decides alike over nodes of a store and over the trees
that they unfold to (`Form.construct_tree`).  Typed trees are closed under it (`Tree.Typed.construct`).
-/
namespace KernelIR

variable {α : Type}

def Built.tree (r : Reader α) : Built α → Tree
  | .reuse a => r.tree a
  | .fresh s t => .mk (s.map r.tree) t

/-- The operand's tree is its node over the trees of the node's operands. -/
def Reader.Unfolds (r : Reader α) (a : α) : Prop := r.tree a = .mk ((r.node a).shape.map r.tree) (r.node a).typ

theorem Reader.Unfolds.node {r : Reader α} {a : α} (h : r.Unfolds a) :
    Tree.reader.node (r.tree a) = ⟨(r.node a).shape.map r.tree, (r.node a).typ⟩ := by
  rw [h]
  rfl

theorem UnaryOp.cancel?_map {β : Type} (op : UnaryOp) (s : Shape α) (g : α → β) :
    op.cancel? (s.map g) = (op.cancel? s).map g := by
  cases s with
  | pointer | unary op' => cases op <;> first | rfl | (cases op' <;> rfl)
  | bvConst | boolConst | arrayRef | load | varRef | call | bvExtract | bvZExt | bvSExt | binary => cases op <;> rfl

theorem BinaryOp.addends?_map {β : Type} (op : BinaryOp) (s s' : Shape α) (g : α → β) :
    op.addends? (s.map g) (s'.map g) = op.addends? s s' := by
  refine Option.ext fun ⟨m, n⟩ => ?_
  rw [addends_iff, addends_iff, Shape.map_eq_bvConst, Shape.map_eq_bvConst]

namespace Form

variable {r : Reader α}

theorem access_tree {x : Access} {a o : α} (ha : r.Unfolds a) (ho : r.Unfolds o) :
    access Tree.reader x (r.tree a) (r.tree o) = access r x a o := by
  unfold access
  rw [ha.node, ho.node]

/-- **A constructor decides alike over nodes and over their trees.** -/
theorem construct_tree (f : Form α) (h : ∀ a ∈ f.operands, r.Unfolds a) :
    Tree.construct (f.map r.tree) = (f.resolve r).map (·.tree r) := by
  unfold Tree.construct
  cases f with
  | boolConst | arrayRef | varRef => rfl
  | bvConst w v | bvZero w =>
    simp only [map, resolve]
    cases Ty.sized .bv w <;> rfl
  | pointer a o =>
    simp only [map, resolve, access_tree (h a (by simp [operands])) (h o (by simp [operands]))]
    cases access r .pointer a o <;> rfl
  | load a o =>
    simp only [map, resolve, access_tree (h a (by simp [operands])) (h o (by simp [operands]))]
    cases access r .load a o <;> rfl
  | call c args =>
    have types : (args.map r.tree).map (fun u => (Tree.reader.node u).typ) = args.map fun a => (r.node a).typ := by
      rw [List.map_map]
      exact List.map_congr_left fun a ha => congrArg Node.typ (h a ha).node
    simp only [map, resolve, resolveCall, types, show Tree.reader.tree = id from rfl, List.map_id]
    cases c.accepts (args.map fun a => (r.node a).typ) with
    | false => rfl
    | true =>
      simp only [Bool.not_true, Bool.false_eq_true, if_false]
      split <;> rfl
  | bvExtract e offset width =>
    simp only [map, resolve, resolveExtract, (h e (by simp [operands])).node]
    split
    · split
      · cases Ty.sized .bv width <;> rfl
      · rfl
    · rfl
  | extend x e width =>
    simp only [map, resolve, resolveExtend, (h e (by simp [operands])).node]
    split
    · cases Ty.sized .bv width <;> cases x <;> rfl
    · rfl
  | unary op e =>
    simp only [map, resolve, resolveUnary, (h e (by simp [operands])).node, UnaryOp.cancel?_map]
    split
    · rfl
    · cases op.cancel? (r.node e).shape with
      | some x => rfl
      | none => cases op.result (r.node e).typ <;> rfl
  | binary op lhs rhs =>
    simp only [map, resolve, resolveBinary, (h lhs (by simp [operands])).node, (h rhs (by simp [operands])).node,
      BinaryOp.addends?_map]
    split
    · rfl
    · cases op.addends? (r.node lhs).shape (r.node rhs).shape with
      | some p =>
        cases (r.node lhs).typ.expectWidth with
        | error e => rfl
        | ok w => cases hs : Ty.sized .bv w <;> simp only [bind, Except.bind, hs] <;> rfl
      | none => cases op.result (r.node lhs).typ (r.node rhs).typ <;> rfl

end Form

/-! ## Typed trees -/

namespace Tree

/-- Every node of the tree stands in the table. -/
inductive Typed : Tree → Prop
  | mk {s : Shape Tree} {t : Ty} (node : Node.Typed Tree.typ ⟨s, t⟩) (operands : ∀ u ∈ s.operands, Typed u) :
    Typed (.mk s t)

theorem Typed.node {u : Tree} (h : u.Typed) : (reader.node u).Typed reader.typ := by
  cases h with
  | mk node _ => exact node

theorem Typed.operand {u v : Tree} (h : u.Typed) (hv : v ∈ (reader.node u).shape.operands) : v.Typed := by
  cases h with
  | mk _ operands => exact operands v hv

theorem construct_ok {f : Form Tree} {u : Tree} (h : construct f = .ok u) :
    ∃ b, f.resolve reader = .ok b ∧ u = match b with | .reuse v => v | .fresh s t => .mk s t := by
  obtain ⟨b, hb, h⟩ := bind_ok_iff.1 h
  cases b <;> cases h <;> exact ⟨_, hb, rfl⟩

/-- **Typed trees are closed under the constructors**, and the table says what type comes out. -/
theorem Typed.construct {f : Form Tree} {u : Tree} (hf : ∀ v ∈ f.operands, v.Typed) (h : construct f = .ok u) :
    u.Typed ∧ Form.Typed (f.map Tree.typ) u.typ := by
  obtain ⟨b, hb, rfl⟩ := construct_ok h
  have hn : ∀ v ∈ f.operands, (reader.node v).Typed reader.typ := fun v hv => (hf v hv).node
  have ht := (Form.resolve_ok hb hn).1
  cases b with
  | reuse v =>
    obtain ⟨e, he, hv⟩ := Form.resolve_reuse hb hn
    exact ⟨(hf e he).operand hv, ht⟩
  | fresh s t => exact ⟨.mk (Form.resolve_fresh hb hn) fun v hv => hf v (Form.resolve_operands hb hn v hv), ht⟩

theorem construct_of_typed {f : Form Tree} {t : Ty} (hf : ∀ v ∈ f.operands, v.Typed)
    (h : Form.Typed (f.map Tree.typ) t) : ∃ u, Tree.construct f = .ok u ∧ u.typ = t := by
  obtain ⟨b, hb, ht⟩ := Form.Typed.resolve (r := reader) h fun v hv => (hf v hv).node
  unfold Tree.construct
  rw [hb]
  cases b <;> exact ⟨_, rfl, ht⟩

end Tree
end KernelIR
