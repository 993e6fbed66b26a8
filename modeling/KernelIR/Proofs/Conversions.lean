import KernelIR.Proofs.Immutability
import KernelIR.Proofs.NormalForm
/-!
# Conversions — chains of conversions collapse

A conversion between two kinds of values cancels its inverse.  So a chain that goes to and fro between two kinds never
grows by more than one node: from a node that the first conversion does not strip, every second step leads back to that
very node (`Build.convert_plain`).  If the first conversion does strip the node, the chain goes on from the sub-node,
which by the normal form is none that the inverse could strip again; then an even chain ends in a new node with the old
one's operand.

Main statement: `Workspace.Reachable.conversions_collapse`.
-/
namespace KernelIR

/-- **A conversion and its inverse**, with the kind of value that it takes and the kind that it gives. -/
inductive UnaryOp.Converts : UnaryOp → UnaryOp → SizedKind → SizedKind → Prop
  | bvToPtr : Converts .bvToPtr .ptrToBv .bv .pointer
  | ptrToBv : Converts .ptrToBv .bvToPtr .pointer .bv
  | bvToFloat : Converts .bvToFloat .floatToBv .bv .float
  | floatToBv : Converts .floatToBv .bvToFloat .float .bv

namespace UnaryOp

/-- The widths that a conversion takes: none takes `0`, and a float has 32 or 64 bits. -/
def Fits (op : UnaryOp) (width : UInt64) : Prop := 0 < width ∧ (op = .bvToFloat → width = 32 ∨ width = 64)

instance (op : UnaryOp) (width : UInt64) : Decidable (op.Fits width) :=
  inferInstanceAs (Decidable (0 < width ∧ (op = .bvToFloat → width = 32 ∨ width = 64)))

/-- How a conversion refuses a width. -/
def widthFault (op : UnaryOp) (width : UInt64) : Fault :=
  match op with
  | .bvToFloat => .unaryOperand .bvToFloat (.bv width)
  | .bvToPtr => .zeroWidth .pointer
  | _ => .zeroWidth .bv

end UnaryOp

/-- The number of nodes on the longest way from the root to a leaf. -/
def Tree.depth : Tree → Nat := fold fun s _ => s.operands.foldr max 0 + 1

/-- A chain of conversions: first `op`, then its inverse, then `op` again. -/
def Build.convert (op inv : UnaryOp) : Nat → NodeId → Build NodeId
  | 0, x => return x
  | n + 1, x => do convert inv op n (← construct (.unary op x))

/-- The same chain, written as a term. -/
def Term.converted (op inv : UnaryOp) : Nat → Term → Term
  | 0, t => t
  | n + 1, t => converted inv op n (.unary op t)

/-- A node of this shape and type was made, and nothing marks it. -/
structure Workspace.Makes (v v' : Workspace) (n : NodeId) (shape : Shape NodeId) (t : Ty) : Prop where
  new : ¬ v.store.Live n
  live : v'.store.Live n
  shape_eq : (v'.store.cell n).shape = shape
  typ_eq : (v'.store.cell n).typ = t
  evals : (v'.store.cell n).evals = 0
  prevented : (v'.store.cell n).prevented = false

/-- **What a chain of `n` conversions from `x` comes to**, from `v` to `v'`: a tree equal to that of `x` or to that of
its first conversion, and never deeper by more than one; after an even number of steps the very node, unless the first
step strips it, and else a new node with the same operand. -/
structure Workspace.Collapses (op inv : UnaryOp) (n : Nat) (x : NodeId) (v : Workspace) (r : NodeId) (v' : Workspace) :
    Prop where
  live : v'.store.Live r
  even : n % 2 = 0 → v'.store.tree r = v.store.tree x
  odd : n % 2 = 1 → ∃ r₁ v₁, Build.construct (.unary op x) v = .ok r₁ v₁ ∧ v'.store.tree r = v₁.store.tree r₁
  depth : (v'.store.tree r).depth ≤ (v.store.tree x).depth + 1
  same : n % 2 = 0 → n ≠ 0 → (r = x ↔ ¬ ∃ y, (v.store.cell x).shape = .unary inv y)
  anew : n % 2 = 0 → n ≠ 0 → ∀ y, (v.store.cell x).shape = .unary inv y →
    v.Makes v' r (.unary inv y) (v.store.typ x)

namespace UnaryOp.Converts

variable {op inv : UnaryOp} {k k' : SizedKind} {width : UInt64}

theorem symm (h : op.Converts inv k k') : inv.Converts op k' k := by
  cases h <;> constructor

theorem inverse (h : op.Converts inv k k') : inv.Inverse op := by
  cases h <;> constructor

theorem typed (h : op.Converts inv k k') (fits : op.Fits width) : op.Typed (k.typ width) (k'.typ width) := by
  cases h with
  | bvToPtr => exact .bvToPtr fits.1
  | ptrToBv => exact .ptrToBv fits.1
  | bvToFloat => exact .bvToFloat (fits.2 rfl)
  | floatToBv => exact .floatToBv fits.1

/-- The operand of a node that converts has the same width, and the width fits. -/
theorem of_typed (h : op.Converts inv k k') {t : Ty} (ht : op.Typed t (k'.typ width)) :
    t = k.typ width ∧ op.Fits width := by
  cases h with
  | bvToPtr => cases ht with | bvToPtr pos => exact ⟨rfl, pos, nofun⟩
  | ptrToBv => cases ht with | ptrToBv pos => exact ⟨rfl, pos, nofun⟩
  | bvToFloat => cases ht with
    | bvToFloat size => exact ⟨rfl, by rcases size with rfl | rfl <;> decide, fun _ => size⟩
  | floatToBv => cases ht with | floatToBv pos => exact ⟨rfl, pos, nofun⟩

end UnaryOp.Converts

theorem Store.Books.unary_typed {s : Store} {held evaluated : List NodeId} (h : s.Books held evaluated) {n m : NodeId}
    (hn : s.Live n) {op : UnaryOp} (shape : (s.cell n).shape = .unary op m) : op.Typed (s.typ m) (s.typ n) := by
  have row := (h.node_typed hn).inTable
  change Form.Typed (((s.cell n).shape.form (s.typ n)).map s.typ) (s.typ n) at row
  rw [shape] at row
  exact row.of_unary

theorem Tree.depth_mk (s : Shape Tree) (t : Ty) : depth (.mk s t) = (s.operands.map depth).foldr max 0 + 1 := by
  rw [depth, fold_mk, Shape.operands_map]

theorem Tree.depth_unary (op : UnaryOp) (e : Tree) (t : Ty) : depth (.mk (.unary op e) t) = e.depth + 1 := by
  rw [depth_mk]
  simp [Shape.operands]

theorem Term.build_converted (op inv : UnaryOp) : ∀ (n : Nat) (t : Term),
    (t.converted op inv n).build = t.build >>= Build.convert op inv n
  | 0, t => (bind_pure t.build).symm
  | n + 1, t => by
    rw [converted, build_converted inv op n, build, bind_assoc]
    rfl

/-- The node that the store makes next is new. -/
theorem Workspace.makes_alloc {v : Workspace} (hs : v.store.Ordered) (shape : Shape NodeId) (t : Ty) :
    v.Makes { v with store := (v.store.alloc shape t).2 } ⟨v.store.next⟩ shape t :=
  ⟨hs.next_not_live, Store.live_alloc.2 (.inl rfl), by rw [Store.cell_alloc_self], by rw [Store.cell_alloc_self],
    by rw [Store.cell_alloc_self], by rw [Store.cell_alloc_self]⟩

namespace Build

variable {op inv : UnaryOp} {k k' : SizedKind} {width : UInt64} {v : Workspace} {held evaluated : List NodeId}
  {x y : NodeId}

/-! ## One step -/

theorem run_fresh {f : Form NodeId} {shape : Shape NodeId} {t : Ty}
    (resolved : f.resolve v.store.reader = .ok (.fresh shape t)) :
    construct f v = .ok ⟨v.store.next⟩ { v with store := (v.store.alloc shape t).2 } := by
  rw [run_construct, resolved]

/-- A width that does not fit is refused, whatever the node is. -/
theorem run_refuses (h : op.Converts inv k k') (hb : v.store.Books held evaluated) (live : v.store.Live x)
    (typed : v.store.typ x = k.typ width) (unfit : ¬ op.Fits width) :
    construct (.unary op x) v = .error (.refused (op.widthFault width)) v := by
  have node : (v.store.reader.node x).typ = k.typ width := typed
  -- what the conversion could strip has a width that fits, or it is a float's
  have kept : op ≠ .bvToFloat → op.cancel? (v.store.reader.node x).shape = none := by
    intro other
    cases hc : op.cancel? (v.store.reader.node x).shape with
    | none => rfl
    | some y =>
      have row := hb.unary_typed live (h.inverse.cancel_iff.1 hc)
      rw [typed] at row
      exact absurd ⟨(h.symm.of_typed row).2.1, fun he => absurd he other⟩ unfit
  have refused : (Form.unary op x).resolve v.store.reader = .error (op.widthFault width) := by
    simp only [Form.resolve, Form.resolveUnary, node]
    cases h with
    | bvToFloat =>
      have size : UnaryOp.bvToFloat.accepts (SizedKind.bv.typ width) = false := by
        refine Bool.eq_false_iff.2 fun ha => unfit ?_
        rcases Bool.or_eq_true_iff.1 ha with ha | ha <;> rw [eq_of_beq ha] <;> decide
      rw [size]
      rfl
    | bvToPtr | ptrToBv | floatToBv =>
      have zero : width = 0 := by
        refine Classical.byContradiction fun pos => unfit ⟨UInt64.pos_iff_ne_zero.2 pos, fun he => ?_⟩
        cases he
      subst zero
      rw [kept (by decide)]
      rfl
  rw [run_construct, refused]

theorem run_strips (h : op.Converts inv k k') (fits : op.Fits width) (typed : v.store.typ x = k.typ width)
    (strips : (v.store.cell x).shape = .unary inv y) : construct (.unary op x) v = .ok y v := by
  have node : (v.store.reader.node x).typ = k.typ width := typed
  have cancel : op.cancel? (v.store.reader.node x).shape = some y := h.inverse.cancel_iff.2 strips
  have reused : (Form.unary op x).resolve v.store.reader = .ok (.reuse y) := by
    simp only [Form.resolve, Form.resolveUnary, node, (h.typed fits).accepted.1, cancel]
    rfl
  rw [run_construct, reused]

theorem run_makes (h : op.Converts inv k k') (hb : v.store.Books held evaluated) (live : v.store.Live x)
    (fits : op.Fits width) (typed : v.store.typ x = k.typ width)
    (plain : ∀ y, (v.store.cell x).shape ≠ .unary inv y) : ∃ r v', construct (.unary op x) v = .ok r v' ∧
      v'.store.Books held evaluated ∧ v.store.Extends v'.store ∧ v.Makes v' r (.unary op x) (k'.typ width) := by
  have node : (v.store.reader.node x).typ = k.typ width := typed
  have keeps : op.cancel? (v.store.reader.node x).shape = none := by
    cases hc : op.cancel? (v.store.reader.node x).shape with
    | none => rfl
    | some y => exact absurd (h.inverse.cancel_iff.1 hc) (plain y)
  have made : (Form.unary op x).resolve v.store.reader = .ok (.fresh (.unary op x) (k'.typ width)) := by
    simp only [Form.resolve, Form.resolveUnary, node, (h.typed fits).accepted.1, (h.typed fits).accepted.2, keeps]
    rfl
  exact ⟨_, _, run_fresh made, (hb.resolve (f := .unary op x) (List.forall_mem_singleton.2 live) made).2,
    hb.ordered.extends_alloc, Workspace.makes_alloc hb.ordered _ _⟩

/-- The parts of a pointer are the nodes that it was made of. -/
theorem run_projects (hb : v.store.Books held evaluated) (live : v.store.Live x) {a o : NodeId}
    (shape : (v.store.cell x).shape = .pointer a o) :
    construct (.unary .arrayId x) v = .ok a v ∧ construct (.unary .arrayOffset x) v = .ok o v := by
  have row := (hb.node_typed live).inTable
  change Form.Typed (((v.store.cell x).shape.form (v.store.typ x)).map v.store.typ) (v.store.typ x) at row
  rw [shape] at row
  obtain ⟨width, -, -, -, typed⟩ := row.of_pointer
  have node : (v.store.reader.node x).typ = .pointer width := typed
  have here : (v.store.reader.node x).shape = .pointer a o := shape
  have reused : (Form.unary .arrayId x).resolve v.store.reader = .ok (.reuse a) ∧
      (Form.unary .arrayOffset x).resolve v.store.reader = .ok (.reuse o) := by
    simp only [Form.resolve, Form.resolveUnary, node, here]
    exact ⟨rfl, rfl⟩
  rw [run_construct, run_construct, reused.1, reused.2]
  exact ⟨rfl, rfl⟩

/-! ## Chains -/

/-- **A chain from a node that the first conversion does not strip**, by two steps at a time: the second leads back to
the node. -/
theorem convert_plain (h : op.Converts inv k k') : ∀ (n : Nat) {v : Workspace}, v.store.Books held evaluated →
    v.store.Live x → v.store.typ x = k.typ width → (∀ y, (v.store.cell x).shape ≠ .unary inv y) →
    (n ≠ 0 → op.Fits width) → (2 ≤ n → inv.Fits width) →
    ∃ r v', convert op inv n x v = .ok r v' ∧ v'.store.Books held evaluated ∧ v.store.Extends v'.store ∧
      (n % 2 = 0 → r = x) ∧ (n % 2 = 1 → v.Makes v' r (.unary op x) (k'.typ width))
  | 0, v, hb, _, _, _, _, _ => ⟨x, v, rfl, hb, .refl _, fun _ => rfl, nofun⟩
  | 1, v, hb, live, typed, plain, fits, _ => by
    obtain ⟨r, v', run, books, extended, makes⟩ := run_makes h hb live (fits nofun) typed plain
    exact ⟨r, v', run_bind run _, books, extended, nofun, fun _ => makes⟩
  | n + 2, v, hb, live, typed, plain, fits, fits' => by
    have fits := fits nofun
    have fits' := fits' (Nat.le_add_left 2 n)
    obtain ⟨r₁, v₁, run, books, extended, makes⟩ := run_makes h hb live fits typed plain
    have back : construct (.unary inv r₁) v₁ = .ok x v₁ := run_strips h.symm fits' makes.typ_eq makes.shape_eq
    have plain₁ : ∀ y, (v₁.store.cell x).shape ≠ .unary inv y := fun y => by
      have same : (v₁.store.cell x).shape = (v.store.cell x).shape := congrArg Node.shape (extended.node live)
      rw [same]
      exact plain y
    obtain ⟨r, v', chain, books', extended', even, odd⟩ := convert_plain h n books (extended.live live)
      ((extended.typ live).trans typed) plain₁ (fun _ => fits) fun _ => fits'
    refine ⟨r, v', ?_, books', extended.trans extended', fun hn => even (by omega), fun hn => ?_⟩
    · exact (run_bind run _).trans ((run_bind back _).trans chain)
    · have made := odd (by omega)
      exact { made with new := fun hr => made.new (extended.live hr) }

/-- **A chain from a node that the first conversion strips** goes on from its operand, which the second does not strip:
the node would be no normal form. -/
theorem convert_stripped (h : op.Converts inv k k') (hb : v.store.Books held evaluated) (normal : v.store.Normal)
    (live : v.store.Live x) (typed : v.store.typ x = k.typ width) (strips : (v.store.cell x).shape = .unary inv y)
    (fits : op.Fits width) (n : Nat) :
    ∃ r v', convert op inv (n + 1) x v = .ok r v' ∧ v'.store.Books held evaluated ∧ v.store.Extends v'.store ∧
      (n % 2 = 0 → r = y) ∧ (n % 2 = 1 → v.Makes v' r (.unary inv y) (k.typ width)) := by
  have operand : y ∈ (v.store.cell x).operands := by
    rw [Cell.operands, strips]
    exact List.mem_singleton_self y
  have live' := hb.ordered.operands_live operand
  have row := hb.unary_typed live strips
  rw [typed] at row
  obtain ⟨typed', fits'⟩ := h.symm.of_typed row
  have plain : ∀ z, (v.store.cell y).shape ≠ .unary op z := by
    intro z hz
    refine normal x live (v.store.tree z) (.root ?_)
    rw [hb.ordered.tree_eq live, strips, Shape.map, hb.ordered.tree_eq live', hz, Shape.map]
    cases h <;> constructor
  obtain ⟨r, v', chain, rest⟩ := convert_plain h.symm n hb live' typed' plain (fun _ => fits') fun _ => fits
  exact ⟨r, v', (run_bind (run_strips h fits typed strips) _).trans chain, rest⟩

end Build

namespace Workspace

open Build

variable {op inv : UnaryOp} {k k' : SizedKind} {width : UInt64} {v v' w : Workspace} {held evaluated : List NodeId}
  {x : NodeId}

/-- The tree of a node that was made out of nodes that were there. -/
theorem Makes.tree {n : NodeId} {shape : Shape NodeId} {t : Ty} (h : v.Makes v' n shape t)
    (hb : v'.store.Books held evaluated) (extended : v.store.Extends v'.store)
    (live : ∀ m ∈ shape.operands, v.store.Live m) : v'.store.tree n = .mk (shape.map v.store.tree) t := by
  have typed : (v'.store.cell n).typ = t := h.typ_eq
  rw [hb.ordered.tree_eq h.live, h.shape_eq, typed]
  exact congrArg (Tree.mk · t) (Shape.map_congr fun m hm => extended.tree (live m hm))

theorem collapses_stripped (h : op.Converts inv k k') (hb : v.store.Books held evaluated) (normal : v.store.Normal)
    (live : v.store.Live x) (typed : v.store.typ x = k.typ width) {y : NodeId}
    (strips : (v.store.cell x).shape = .unary inv y) (fits : op.Fits width) (n : Nat) :
    ∃ r v', convert op inv (n + 1) x v = .ok r v' ∧ v.Collapses op inv (n + 1) x r v' := by
  obtain ⟨r, v', chain, books, extended, even, odd⟩ := convert_stripped h hb normal live typed strips fits n
  have live' : v.store.Live y := by
    refine hb.ordered.operands_live (n := x) ?_
    rw [Cell.operands, strips]
    exact List.mem_singleton_self y
  have whole : v.store.tree x = .mk (.unary inv (v.store.tree y)) (k.typ width) := by
    rw [hb.ordered.tree_eq live, strips, ← typed]
    rfl
  refine ⟨r, v', chain, ?_⟩
  rcases Nat.mod_two_eq_zero_or_one n with hn | hn
  · have inner : v'.store.tree r = v.store.tree y := by rw [even hn, extended.tree live']
    have later : ¬ (n + 1) % 2 = 0 := by omega
    refine ⟨?_, fun hn => absurd hn later, fun _ => ⟨y, v, run_strips h fits typed strips, inner⟩, ?_,
      fun hn => absurd hn later, fun hn => absurd hn later⟩
    · rw [even hn]
      exact extended.live live'
    · rw [inner, whole, Tree.depth_unary]
      omega
  · have made := odd hn
    have again : v'.store.tree r = v.store.tree x := by
      rw [made.tree books extended (List.forall_mem_singleton.2 live'), whole]
      rfl
    refine ⟨made.live, fun _ => again, fun hn => by omega, ?_, fun _ _ => ⟨?_, fun none => absurd ⟨y, strips⟩ none⟩,
      fun _ _ z hz => ?_⟩
    · rw [again]
      exact Nat.le_succ _
    · rintro rfl
      exact absurd live made.new
    · cases strips.symm.trans hz
      rw [typed]
      exact made

theorem collapses_plain (h : op.Converts inv k k') (hb : v.store.Books held evaluated) (live : v.store.Live x)
    (typed : v.store.typ x = k.typ width) (plain : ∀ y, (v.store.cell x).shape ≠ .unary inv y) {n : Nat}
    (fits : op.Fits width) (fits' : 2 ≤ n → inv.Fits width) :
    ∃ r v', convert op inv n x v = .ok r v' ∧ v.Collapses op inv n x r v' := by
  obtain ⟨r, v', chain, books, extended, even, odd⟩ := convert_plain h n hb live typed plain (fun _ => fits) fits'
  refine ⟨r, v', chain, ?_⟩
  rcases Nat.mod_two_eq_zero_or_one n with hn | hn
  · have back : v'.store.tree r = v.store.tree x := by rw [even hn, extended.tree live]
    refine ⟨?_, fun _ => back, fun hn => by omega, ?_, fun _ _ => iff_of_true (even hn) fun ⟨y, hy⟩ => plain y hy,
      fun _ _ y hy => absurd hy (plain y)⟩
    · rw [even hn]
      exact extended.live live
    · rw [back]
      exact Nat.le_succ _
  · have later : ¬ n % 2 = 0 := by omega
    obtain ⟨r₁, v₁, run, books₁, extended₁, makes₁⟩ := run_makes h hb live fits typed plain
    have once : v'.store.tree r = .mk (.unary op (v.store.tree x)) (k'.typ width) :=
      (odd hn).tree books extended (List.forall_mem_singleton.2 live)
    have once₁ : v₁.store.tree r₁ = .mk (.unary op (v.store.tree x)) (k'.typ width) :=
      makes₁.tree books₁ extended₁ (List.forall_mem_singleton.2 live)
    refine ⟨(odd hn).live, fun hn => absurd hn later, fun _ => ⟨r₁, v₁, run, once.trans once₁.symm⟩, ?_,
      fun hn => absurd hn later, fun hn => absurd hn later⟩
    exact Nat.le_of_eq (by rw [once, Tree.depth_unary])

/-- **A chain whose widths fit collapses.** -/
theorem collapses (h : op.Converts inv k k') (hb : v.store.Books held evaluated) (normal : v.store.Normal)
    (live : v.store.Live x) (typed : v.store.typ x = k.typ width) : ∀ {n : Nat}, (n ≠ 0 → op.Fits width) →
    (2 ≤ n → inv.Fits width) → ∃ r v', convert op inv n x v = .ok r v' ∧ v.Collapses op inv n x r v'
  | 0, _, _ =>
    ⟨x, v, rfl, live, fun _ => rfl, nofun, Nat.le_succ _, fun _ hn => absurd rfl hn, fun _ hn => absurd rfl hn⟩
  | n + 1, fits, fits' => by
    by_cases strippable : ∃ y, (v.store.cell x).shape = .unary inv y
    · obtain ⟨y, strips⟩ := strippable
      exact collapses_stripped h hb normal live typed strips (fits nofun) n
    · exact collapses_plain h hb live typed (fun y hy => strippable ⟨y, hy⟩) (fits nofun) fits'

/-- **Chains of conversions collapse, with exact identity.**

Take any live node in the middle of any command, and a conversion that its kind of type admits.  A chain of conversions
to and fro fails at its first step if the width does not fit that conversion, and at its second if it does not fit the
inverse; where all steps fit, it collapses.

The two parts of a pointer are the very nodes that it was made of, and taking them changes nothing. -/
theorem Reachable.conversions_collapse (h : w.Reachable) {hand : List Owned}
    (path : Relation.ReflTransGen (Move .all) ⟨[], w⟩ ⟨hand, v⟩) :
    (∀ {op inv k k'}, op.Converts inv k k' → ∀ (x : NodeId) (width : UInt64), v.store.Live x →
      v.store.typ x = k.typ width → ∀ n : Nat,
        (n ≠ 0 → ¬ op.Fits width → convert op inv n x v = .error (.refused (op.widthFault width)) v) ∧
        (2 ≤ n → op.Fits width → ¬ inv.Fits width →
          ∃ v', convert op inv n x v = .error (.refused (inv.widthFault width)) v') ∧
        ((n ≠ 0 → op.Fits width) → (2 ≤ n → inv.Fits width) →
          ∃ r v', convert op inv n x v = .ok r v' ∧ v.Collapses op inv n x r v')) ∧
    (∀ p a o : NodeId, v.store.Live p → (v.store.cell p).shape = .pointer a o →
      construct (.unary .arrayId p) v = .ok a v ∧ construct (.unary .arrayOffset p) v = .ok o v) ∧
    ∀ (a o p : NodeId) (v' : Workspace), v.store.Live a → v.store.Live o → construct (.pointer a o) v = .ok p v' →
      construct (.unary .arrayId p) v' = .ok a v' ∧ construct (.unary .arrayOffset p) v' = .ok o v' := by
  obtain ⟨books, normal⟩ := normal_invariant.path (c := ⟨[], w⟩) ⟨h.sound.books, h.normal⟩ path
  refine ⟨fun {op inv k k'} conv x width live typed n => ⟨fun hn unfit => ?_, fun hn fits unfit => ?_,
    fun fits fits' => collapses conv books normal live typed fits fits'⟩, fun p a o live => run_projects books live,
    fun a o p v' la lo made => ?_⟩
  · obtain ⟨n, rfl⟩ := Nat.exists_eq_succ_of_ne_zero hn
    exact run_bind_error (run_refuses conv books live typed unfit) _
  · obtain ⟨n, rfl⟩ := Nat.exists_eq_add_of_le' hn
    -- what the first step strips has a width that fits the second
    have plain : ∀ y, (v.store.cell x).shape ≠ .unary inv y := by
      intro y hy
      have row := books.unary_typed live hy
      rw [typed] at row
      exact unfit (conv.symm.of_typed row).2
    obtain ⟨r, v', run, books', -, made⟩ := run_makes conv books live fits typed plain
    refine ⟨v', (run_bind run _).trans (run_bind_error ?_ _)⟩
    exact run_refuses conv.symm books' made.live made.typ_eq unfit
  · have live : ∀ m ∈ (Form.pointer a o).operands, v.store.Live m :=
      List.forall_mem_cons.2 ⟨la, List.forall_mem_singleton.2 lo⟩
    rcases construct_answers books live made with ⟨cancels, -⟩ | ⟨-, rfl, shape, t, resolved, rfl⟩
    · cases cancels
    obtain ⟨u, -, hb⟩ := bind_ok_iff.1 resolved
    cases hb
    refine run_projects (books.resolve live resolved).2 (Store.live_alloc.2 (.inl rfl)) ?_
    rw [Store.cell_alloc_self]

/-- A pointer made of a constant, with an evaluation; and a constant. -/
def convertedPointer : List Command :=
  [.expr (.unary .bvToPtr (.bvConst 64 3)) (some "p"), .stmt (.eval (.slot "p") (.list [])) (some "s"),
    .expr (.bvConst 16 1) (some "c")]

/-- There and back, the pointer is another node, without the evaluation; the constant is itself, and does not become a
float. -/
theorem conversions_collapse_convertedPointer :
    (∃ r v', ((Term.slot "p").converted .ptrToBv .bvToPtr 4).build (empty.run convertedPointer).2 = .ok r v' ∧ r ≠ ⟨1⟩ ∧
      v'.store.tree r = (empty.run convertedPointer).2.store.tree ⟨1⟩ ∧ (v'.store.cell r).evals = 0) ∧
    (∃ r v', convert .bvToPtr .ptrToBv 6 ⟨2⟩ (empty.run convertedPointer).2 = .ok r v' ∧ r = ⟨2⟩) ∧
    convert .bvToFloat .floatToBv 6 ⟨2⟩ (empty.run convertedPointer).2 =
      .error (.refused (.unaryOperand .bvToFloat (.bv 16))) (empty.run convertedPointer).2 := by
  obtain ⟨chains, -, -⟩ := Reachable.conversions_collapse ⟨convertedPointer, rfl⟩ .refl
  have constant : (empty.run convertedPointer).2.store.Live ⟨2⟩ := by decide
  refine ⟨?_, ?_, ?_⟩
  · have pointer : (empty.run convertedPointer).2.store.Live ⟨1⟩ := by decide
    obtain ⟨r, v', chain, collapses⟩ := (chains .ptrToBv ⟨1⟩ 64 pointer rfl 4).2.2 (by decide) (by decide)
    have made := collapses.anew rfl nofun ⟨0⟩ rfl
    refine ⟨r, v', ?_, fun he => made.new (he ▸ pointer), collapses.even rfl, made.evals⟩
    rw [Term.build_converted]
    exact chain
  · obtain ⟨r, v', chain, collapses⟩ := (chains .bvToPtr ⟨2⟩ 16 constant rfl 6).2.2 (by decide) (by decide)
    exact ⟨r, v', chain, (collapses.same rfl nofun).2 (by rintro ⟨y, hy⟩; cases hy)⟩
  · exact (chains .bvToFloat ⟨2⟩ 16 constant rfl 6).1 nofun (by decide)

end Workspace
end KernelIR
