import Mathlib.Logic.Relation
import KernelIR.Proofs.Trees
/-!
# Rewriting — the seven rules at any position

`Tree.Contracts` lists the seven rules at the root of a tree; `Tree.Step` applies one of them anywhere.  Over typed
trees a step keeps the type and makes the tree smaller, and the tree has the same `normalize` before and after.  So
every row of steps from a typed tree ends, and whatever positions and order are chosen it ends in the same tree
(`Tree.Typed.endsIn_normalize`).
-/
namespace KernelIR

variable {α β : Type}

namespace Shape

/-- The shape with another operand at one position. -/
def set : Shape α → Nat → α → Shape α
  | .pointer _ o, 0, b => .pointer b o
  | .pointer a _, 1, b => .pointer a b
  | .load _ o, 0, b => .load b o
  | .load a _, 1, b => .load a b
  | .call c args, i, b => .call c (args.set i b)
  | .bvExtract _ offset, 0, b => .bvExtract b offset
  | .bvZExt _, 0, b => .bvZExt b
  | .bvSExt _, 0, b => .bvSExt b
  | .unary op _, 0, b => .unary op b
  | .binary op _ r, 0, b => .binary op b r
  | .binary op l _, 1, b => .binary op l b
  | s, _, _ => s

theorem operands_set (s : Shape α) (i : Nat) (b : α) : (s.set i b).operands = s.operands.set i b := by
  rcases i with _ | _ | i <;> cases s <;> rfl

theorem map_set (f : α → β) (s : Shape α) (i : Nat) (b : α) : (s.set i b).map f = (s.map f).set i (f b) := by
  rcases i with _ | _ | i <;> cases s <;> simp [set, map, List.map_set]

/-- Another operand that reads the same leaves the shape as it reads. -/
theorem map_set_of_eq {f : α → β} {s : Shape α} {i : Nat} {a b : α} (h : s.operands[i]? = some a) (he : f b = f a) :
    (s.set i b).map f = s.map f := by
  rw [map_set, he, ← map_set]
  obtain ⟨hi, rfl⟩ := List.getElem?_eq_some_iff.1 h
  refine congrArg (map f) ?_
  rcases i with _ | _ | i <;> cases s <;> simp [operands, set] at hi ⊢

theorem map_id (s : Shape α) : s.map id = s := by
  cases s <;> simp [map]

end Shape

namespace Tree

/-! ## Steps -/

/-- **The seven rules.** -/
inductive Contracts : Tree → Tree → Prop
  | arrayId {a o : Tree} {t u : Ty} : Contracts (.mk (.unary .arrayId (.mk (.pointer a o) t)) u) a
  | arrayOffset {a o : Tree} {t u : Ty} : Contracts (.mk (.unary .arrayOffset (.mk (.pointer a o) t)) u) o
  | bvToFloat {x : Tree} {t u : Ty} : Contracts (.mk (.unary .bvToFloat (.mk (.unary .floatToBv x) t)) u) x
  | floatToBv {x : Tree} {t u : Ty} : Contracts (.mk (.unary .floatToBv (.mk (.unary .bvToFloat x) t)) u) x
  | bvToPtr {x : Tree} {t u : Ty} : Contracts (.mk (.unary .bvToPtr (.mk (.unary .ptrToBv x) t)) u) x
  | ptrToBv {x : Tree} {t u : Ty} : Contracts (.mk (.unary .ptrToBv (.mk (.unary .bvToPtr x) t)) u) x
  | bvAdd {m n : Nat} {w : UInt64} : Contracts
    (.mk (.binary .bvAdd (.mk (.bvConst m) (.bv w)) (.mk (.bvConst n) (.bv w))) (.bv w))
    (.mk (.bvConst ((m + n) % pow2 w)) (.bv w))

/-- **One rule at one position.** -/
inductive Step : Tree → Tree → Prop
  | root {u v : Tree} (h : Contracts u v) : Step u v
  | operand {s : Shape Tree} {t : Ty} {i : Nat} {u v : Tree} (here : s.operands[i]? = some u) (h : Step u v) :
    Step (.mk s t) (.mk (s.set i v) t)

/-- A finite row of steps. -/
def Steps : Tree → Tree → Prop := Relation.ReflTransGen Step

/-- No rule applies anywhere. -/
def Normal (u : Tree) : Prop := ∀ v, ¬ Step u v

/-- **Every maximal row of steps from `u` ends in `v`**: no row is endless, and the only tree that one can stop at is
`v`. -/
structure EndsIn (u v : Tree) : Prop where
  terminates : Acc (fun y x => Step x y) u
  steps : Steps u v
  normal : v.Normal
  unique : ∀ v', Steps u v' → v'.Normal → v' = v

/-- What a node comes to whose operands are normal forms. -/
def simplify (s : Shape Tree) (t : Ty) : Tree :=
  match s with
  | .unary op e => (op.cancel? e.shape).getD (.mk s t)
  | .binary op l r =>
    match op.addends? l.shape r.shape with
    | some (m, n) => .mk (.bvConst ((m + n) % pow2 (t.width?.getD 0))) t
    | none => .mk s t
  | _ => .mk s t

/-- The normal form, from the leaves up. -/
def normalize : Tree → Tree := fold simplify

/-- The kinds of the nodes, the root first. -/
def kinds : Tree → List Kind := fold fun s _ => s.kind :: s.operands.flatten

theorem shape_mk (s : Shape Tree) (t : Ty) : (mk s t).shape = s := rfl

theorem normalize_mk (s : Shape Tree) (t : Ty) : normalize (.mk s t) = simplify (s.map normalize) t := fold_mk ..

theorem kinds_mk (s : Shape Tree) (t : Ty) : kinds (.mk s t) = s.kind :: s.operands.flatMap kinds := by
  have kind : (s.map kinds).kind = s.kind := by cases s <;> rfl
  rw [kinds, fold_mk, Shape.operands_map]
  exact congrArg (· :: _) kind

/-- The number of nodes. -/
def size (u : Tree) : Nat := u.kinds.length

/-! ## One rule at the root -/

/-- A rule that is not the sum of constants cancels two operators. -/
theorem contracts_unary {op : UnaryOp} {e v : Tree} {t : Ty} :
    Contracts (.mk (.unary op e) t) v ↔ op.cancel? e.shape = some v := by
  constructor
  · intro h
    cases h <;> rfl
  · intro h
    obtain ⟨s, u⟩ := e
    change op.cancel? s = some v at h
    unfold UnaryOp.cancel? at h
    split at h <;> cases h <;> constructor

theorem contracts_binary {op : BinaryOp} {l r v : Tree} {t : Ty} (h : (mk (.binary op l r) t).Typed) :
    Contracts (.mk (.binary op l r) t) v ↔ ∃ m n, op.addends? l.shape r.shape = some (m, n) ∧
      v = .mk (.bvConst ((m + n) % pow2 (t.width?.getD 0))) t := by
  constructor
  · rintro ⟨⟩
    exact ⟨_, _, rfl, rfl⟩
  · rintro ⟨m, n, hs, rfl⟩
    obtain ⟨rfl, hl, hr⟩ := BinaryOp.addends_iff.1 hs
    have row : BinaryOp.Typed .bvAdd l.typ r.typ t := h.node.inTable.of_binary
    obtain ⟨w, -, hw, -⟩ := (h.operand (List.mem_cons_self ..)).node.const hl
    obtain ⟨sl, tl⟩ := l
    obtain ⟨sr, tr⟩ := r
    cases hl
    cases hr
    cases hw
    cases row with
    | arithmetic => exact .bvAdd
    | comparison hc => exact absurd hc (by decide)
    | equality hc => rcases hc with hc | hc <;> cases hc

/-- Simplifying a node applies a rule to it, or none applies and the node stays. -/
theorem Typed.simplify_cases {s : Shape Tree} {t : Ty} (h : (Tree.mk s t).Typed) :
    Contracts (.mk s t) (simplify s t) ∨ simplify s t = .mk s t ∧ ∀ v, ¬ Contracts (.mk s t) v := by
  cases s with
  | unary op e =>
    cases hc : op.cancel? e.shape with
    | some v => exact .inl (contracts_unary.2 (by simp [simplify, hc]))
    | none => exact .inr ⟨by simp [simplify, hc], fun v hv => by simp [contracts_unary.1 hv] at hc⟩
  | binary op l r =>
    cases hs : op.addends? l.shape r.shape with
    | some p => exact .inl ((contracts_binary h).2 ⟨p.1, p.2, hs, by simp [simplify, hs]⟩)
    | none =>
      refine .inr ⟨by simp [simplify, hs], fun v hv => ?_⟩
      obtain ⟨m, n, he, -⟩ := (contracts_binary h).1 hv
      rw [hs] at he
      cases he
  | bvConst | boolConst | arrayRef | pointer | load | varRef | call | bvExtract | bvZExt | bvSExt =>
    exact .inr ⟨rfl, nofun⟩

theorem Contracts.typed {u v : Tree} (h : Contracts u v) (hu : u.Typed) : v.Typed ∧ v.typ = u.typ := by
  obtain ⟨s, t⟩ := u
  cases s with
  | unary op e =>
    have hc := contracts_unary.1 h
    have he : e.Typed := hu.operand (List.mem_singleton_self e)
    have row : op.Typed e.typ t := hu.node.inTable.of_unary
    have row' : op.Typed e.typ v.typ := UnaryOp.typed_of_cancel row.accepted.1 he.node hc
    exact ⟨he.operand (UnaryOp.operand_of_cancel hc), Form.Typed.unique (.unary row') (.unary row)⟩
  | binary op l r =>
    cases h with
    | @bvAdd m n w =>
      obtain ⟨w, pos, hw, -⟩ := (hu.operand (List.mem_cons_self ..)).node.const rfl
      cases hw
      refine ⟨.mk ⟨.bvConst pos, fun hv hw => ?_⟩ (List.forall_mem_nil _), rfl⟩
      cases hv
      cases hw
      exact Nat.mod_lt _ (pow2_pos _)
  | bvConst | boolConst | arrayRef | pointer | load | varRef | call | bvExtract | bvZExt | bvSExt => cases h

/-! ## One step -/

/-- Operands of the same types keep a node in the table. -/
theorem Typed.set {s : Shape Tree} {t : Ty} {i : Nat} {u v : Tree} (h : (Tree.mk s t).Typed)
    (here : s.operands[i]? = some u) (hv : v.Typed) (ht : v.typ = u.typ) : (Tree.mk (s.set i v) t).Typed := by
  have types : (s.set i v).map Tree.typ = s.map Tree.typ := Shape.map_set_of_eq here ht
  refine .mk ⟨?_, fun hs => ?_⟩ fun x hx => ?_
  · change Form.Typed (((s.set i v).form t).map Tree.typ) t
    rw [← Shape.form_map, types, Shape.form_map]
    exact h.node.inTable
  · rw [← Shape.map_eq_bvConst (f := Tree.typ), types, Shape.map_eq_bvConst] at hs
    exact h.node.inRange hs
  · rw [Shape.operands_set] at hx
    rcases List.mem_or_eq_of_mem_set hx with hx | rfl
    · exact h.operand hx
    · exact hv

theorem Step.typed {u v : Tree} (h : Step u v) (hu : u.Typed) : v.Typed ∧ v.typ = u.typ := by
  induction h with
  | root h => exact h.typed hu
  | operand here _ ih =>
    obtain ⟨hv, ht⟩ := ih (hu.operand (List.mem_of_getElem? here))
    exact ⟨hu.set here hv ht, rfl⟩

theorem Steps.typed {u v : Tree} (h : Steps u v) (hu : u.Typed) : v.Typed ∧ v.typ = u.typ := by
  induction h with
  | refl => exact ⟨hu, rfl⟩
  | tail _ h ih =>
    obtain ⟨hv, ht⟩ := h.typed ih.1
    exact ⟨hv, ht.trans ih.2⟩

theorem Contracts.size_lt {u v : Tree} (h : Contracts u v) : v.size < u.size := by
  cases h <;> simp only [size, kinds_mk, Shape.operands, List.flatMap_cons, List.flatMap_nil, List.length_cons,
    List.length_append, List.length_nil] <;> omega

/-- A step makes the tree smaller, so no row of steps is endless. -/
theorem Step.size_lt {u v : Tree} (h : Step u v) : v.size < u.size := by
  induction h with
  | root h => exact h.size_lt
  | @operand s t i u v here _ ih =>
    obtain ⟨hi, rfl⟩ := List.getElem?_eq_some_iff.1 here
    obtain ⟨l₁, l₂, he, -, hs⟩ := @List.exists_of_set _ _ v _ hi
    rw [size, size, kinds_mk, kinds_mk, Shape.operands_set, hs]
    conv => rhs; rw [he]
    simp only [List.flatMap_append, List.flatMap_cons, List.length_cons, List.length_append]
    unfold size at ih
    omega

theorem terminates (u : Tree) : Acc (fun y x => Step x y) u :=
  Subrelation.accessible (fun h => Step.size_lt h) (InvImage.accessible size (Nat.lt_wfRel.wf.apply _))

/-! ## Normal forms -/

theorem Normal.operand {s : Shape Tree} {t : Ty} {u : Tree} (h : Normal (.mk s t)) (hu : u ∈ s.operands) :
    u.Normal := by
  obtain ⟨i, here⟩ := List.mem_iff_getElem?.1 hu
  exact fun v hv => h _ (.operand here hv)

theorem normal_mk {s : Shape Tree} {t : Ty} (root : ∀ v, ¬ Contracts (.mk s t) v)
    (operands : ∀ u ∈ s.operands, u.Normal) : Normal (.mk s t) := by
  intro v h
  cases h with
  | root h => exact root v h
  | operand here h => exact operands _ (List.mem_of_getElem? here) _ h

/-- A rule over normal operands leads to a normal form: to an operand of an operand, or to a constant. -/
theorem Contracts.normal {s : Shape Tree} {t : Ty} {v : Tree} (h : Contracts (.mk s t) v)
    (operands : ∀ u ∈ s.operands, u.Normal) : v.Normal := by
  have cancelled : ∀ {op e}, s = .unary op e → v.Normal := by
    rintro op e rfl
    obtain ⟨s', t'⟩ := e
    exact (operands _ (List.mem_singleton_self _)).operand (UnaryOp.operand_of_cancel (contracts_unary.1 h))
  cases h
  case bvAdd => exact normal_mk nofun (List.forall_mem_nil _)
  all_goals exact cancelled rfl

theorem Typed.map {s : Shape Tree} {t : Ty} {f : Tree → Tree} (h : (Tree.mk s t).Typed)
    (hf : ∀ u ∈ s.operands, (f u).Typed ∧ (f u).typ = u.typ) : (Tree.mk (s.map f) t).Typed := by
  refine .mk (h.node.map fun u hu => (hf u hu).2) fun v hv => ?_
  rw [Shape.operands_map] at hv
  obtain ⟨u, hu, rfl⟩ := List.mem_map.1 hv
  exact (hf u hu).1

theorem Typed.normalize_typed {u : Tree} (h : u.Typed) : (normalize u).Typed ∧ (normalize u).typ = u.typ := by
  induction h with
  | @mk s t node operands ih =>
    have hm : (Tree.mk (s.map normalize) t).Typed := (Typed.mk node operands).map ih
    rw [normalize_mk]
    rcases hm.simplify_cases with hc | ⟨he, -⟩
    · exact hc.typed hm
    · rw [he]
      exact ⟨hm, rfl⟩

theorem Typed.normalize_normal {u : Tree} (h : u.Typed) : (normalize u).Normal := by
  induction h with
  | @mk s t node operands ih =>
    have hm : (Tree.mk (s.map normalize) t).Typed :=
      (Typed.mk node operands).map fun u hu => (operands u hu).normalize_typed
    have normal : ∀ v ∈ (s.map normalize).operands, v.Normal := fun v hv => by
      rw [Shape.operands_map] at hv
      obtain ⟨u, hu, rfl⟩ := List.mem_map.1 hv
      exact ih u hu
    rw [normalize_mk]
    rcases hm.simplify_cases with hc | ⟨he, none⟩
    · exact hc.normal normal
    · rw [he]
      exact normal_mk none normal

/-- A normal form is its own. -/
theorem Normal.normalize_eq {u : Tree} (h : u.Normal) (hu : u.Typed) : normalize u = u := by
  induction hu with
  | @mk s t node operands ih =>
    have same : s.map normalize = s.map id := Shape.map_congr fun u hu => ih u hu (h.operand hu)
    rw [normalize_mk, same, Shape.map_id]
    rcases (Typed.mk node operands).simplify_cases with hc | ⟨he, -⟩
    · exact absurd (.root hc) (h _)
    · exact he

/-- A round trip does not change the normal form, also where the inner conversion cancels first. -/
theorem normalize_round {op inv : UnaryOp} {x : Tree} {t u : Ty} (hi : op.Inverse inv)
    (h : (mk (.unary inv (mk (.unary op x) t)) u).Typed) :
    normalize x = normalize (mk (.unary inv (mk (.unary op x) t)) u) := by
  have hx : x.Typed := (h.operand (List.mem_singleton_self _)).operand (List.mem_singleton_self _)
  have ht : x.typ = u := ((Contracts.typed (contracts_unary.2 (hi.cancel_iff.2 rfl)) h).2)
  have typ : (normalize x).typ = u := hx.normalize_typed.2.trans ht
  have normal := hx.normalize_normal
  rw [normalize_mk, Shape.map, normalize_mk, Shape.map]
  generalize normalize x = y at typ normal
  obtain ⟨s, t'⟩ := y
  obtain rfl : t' = u := typ
  cases hc : op.cancel? s with
  | none => simp [simplify, shape_mk, hc, hi.cancel_iff.2]
  | some z =>
    obtain rfl := hi.symm.cancel_iff.1 hc
    have stays : inv.cancel? z.shape = none := Option.eq_none_iff_forall_ne_some.2 fun v hv =>
      normal v (.root (contracts_unary.2 hv))
    simp [simplify, shape_mk, hc, stays]

/-- A rule does not change the normal form. -/
theorem Contracts.normalize_eq {u v : Tree} (h : Contracts u v) (hu : u.Typed) : normalize v = normalize u := by
  cases h with
  | arrayId | arrayOffset => rfl
  | bvAdd => rfl
  | bvToFloat => exact normalize_round .floatToBv hu
  | floatToBv => exact normalize_round .bvToFloat hu
  | bvToPtr => exact normalize_round .ptrToBv hu
  | ptrToBv => exact normalize_round .bvToPtr hu

/-- **A step does not change the normal form.** -/
theorem Step.normalize_eq {u v : Tree} (h : Step u v) (hu : u.Typed) : normalize v = normalize u := by
  induction h with
  | root h => exact h.normalize_eq hu
  | operand here _ ih =>
    rw [normalize_mk, normalize_mk, Shape.map_set_of_eq here (ih (hu.operand (List.mem_of_getElem? here)))]

theorem Steps.normalize_eq {u v : Tree} (h : Steps u v) (hu : u.Typed) : normalize v = normalize u := by
  induction h with
  | refl => rfl
  | tail hs h ih => exact (h.normalize_eq (Steps.typed hs hu).1).trans ih

theorem steps_normalize {u : Tree} (hu : u.Typed) : Steps u (normalize u) := by
  induction terminates u with
  | intro u _ ih =>
    by_cases h : u.Normal
    · rw [h.normalize_eq hu]
      exact .refl
    · obtain ⟨v, hv⟩ := Classical.not_forall_not.1 h
      rw [← hv.normalize_eq hu]
      exact .head hv (ih v hv (hv.typed hu).1)

/-- **Whatever positions and order are chosen, a typed tree comes to its normal form.** -/
theorem Typed.endsIn_normalize {u : Tree} (hu : u.Typed) : u.EndsIn (normalize u) where
  terminates := terminates u
  steps := steps_normalize hu
  normal := hu.normalize_normal
  unique v hv normal := by
    rw [← Steps.normalize_eq hv hu, normal.normalize_eq (Steps.typed hv hu).1]

end Tree
end KernelIR
