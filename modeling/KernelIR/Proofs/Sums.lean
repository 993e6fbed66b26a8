import Mathlib.Algebra.BigOperators.Group.List.Basic
import Mathlib.Data.Int.ModEq
import KernelIR.Proofs.Reachable
/-!
# Sums — additions of constants fold

A constructor reduces an integer modulo `2 ^ width`, and an addition of two constants reduces the sum of two residues.
The two agree (`Tree.construct_constants`), so a sum of constants, however it is bracketed, comes to the constant that
stands for the sum of the integers.  An addition folds in no other case (`Tree.construct_sum`), so a sum with a summand
that is no constant keeps an addition at its root.

Main statement: `Workspace.Reachable.constants_add`.
-/
namespace KernelIR

/-- A sum, bracketed in some way. -/
inductive Summation (α : Type) where
  | summand (a : α)
  | plus (l r : Summation α)

namespace Summation

variable {α β : Type}

/-- The summands, from left to right. -/
def summands : Summation α → List α
  | summand a => [a]
  | plus l r => l.summands ++ r.summands

def map (f : α → β) : Summation α → Summation β
  | summand a => summand (f a)
  | plus l r => plus (l.map f) (r.map f)

/-- The additions that the sum is written with. -/
def term : Summation Term → Term
  | summand t => t
  | plus l r => .binary .bvAdd l.term r.term

end Summation

namespace Tree

/-- The constant that stands for the integer `a`. -/
def constant (width : UInt64) (a : Int) : Tree := .mk (.bvConst (wrap width a)) (.bv width)

def IsConstant (u : Tree) : Prop := ∃ c, u.shape = .bvConst c

end Tree

/-- Evaluated in `v`, the term comes to a node that unfolds to the tree `u`. -/
def Term.ComesTo (v : Workspace) (t : Term) (u : Tree) : Prop :=
  ∃ n v', t.build v = .ok n v' ∧ v'.store.Live n ∧ v'.store.tree n = u

/-- **A constant that stands for an integer**: written out, or in a slot. -/
inductive Term.Constant (v : Workspace) (width : UInt64) : Term → Int → Prop
  | bvConst (a : Int) : Constant v width (.bvConst width a) a
  | bvZero : Constant v width (.bvZero width) 0
  | slot {x : String} {n : NodeId} {c : Nat} (here : v.exprs.get? x = some n)
    (shape : (v.store.cell n).shape = .bvConst c) (typ : v.store.typ n = .bv width) (a : Int)
    (same : (c : Int) = a % 2 ^ width.toNat) : Constant v width (.slot x) a

/-! ## Residues -/

theorem natCast_wrap (width : UInt64) (a : Int) : (wrap width a : Int) = a % 2 ^ width.toNat := by
  have modulus : ((pow2 width : Nat) : Int) = 2 ^ width.toNat := Nat.cast_pow 2 width.toNat
  have pos : (0 : Int) < pow2 width := Int.natCast_pos.2 (pow2_pos width)
  rw [wrap, Int.toNat_of_nonneg (Int.emod_nonneg a (Int.ne_of_gt pos)), modulus]

theorem wrap_eq_iff {width : UInt64} {a b : Int} : wrap width a = wrap width b ↔ a ≡ b [ZMOD 2 ^ width.toNat] := by
  rw [← Int.natCast_inj, natCast_wrap, natCast_wrap]
  rfl

theorem wrap_zero (width : UInt64) : wrap width 0 = 0 := by rw [wrap, Int.zero_emod, Int.toNat_zero]

/-- Reducing twice is reducing once. -/
theorem wrap_add (width : UInt64) (a b : Int) : (wrap width a + wrap width b) % pow2 width = wrap width (a + b) := by
  have modulus : ((pow2 width : Nat) : Int) = 2 ^ width.toNat := Nat.cast_pow 2 width.toNat
  rw [← Int.natCast_inj, Int.natCast_emod, Int.natCast_add, natCast_wrap, natCast_wrap, natCast_wrap, modulus,
    ← Int.add_emod]

/-! ## One addition -/

namespace Tree

variable {width : UInt64} {u v x : Tree}

theorem constant_zero : constant width 0 = .mk (.bvConst 0) (.bv width) := by rw [constant, wrap_zero]

theorem constant_inj {a b : Int} : constant width a = constant width b ↔ wrap width a = wrap width b :=
  ⟨fun h => Shape.bvConst.inj (congrArg shape h), fun h => by rw [constant, constant, h]⟩

/-- **An addition** of two bit-vectors of one width folds if both are constants, and only then. -/
theorem construct_sum (hu : u.Typed) (hv : v.Typed) (tu : u.typ = .bv width) (tv : v.typ = .bv width) :
    ∃ x, construct (.binary .bvAdd u v) = .ok x ∧ x.Typed ∧ x.typ = .bv width ∧
      ((∃ a b, u.shape = .bvConst a ∧ v.shape = .bvConst b ∧ x.shape = .bvConst ((a + b) % pow2 width)) ∨
        ¬ (u.IsConstant ∧ v.IsConstant) ∧ x.shape = .binary .bvAdd u v) := by
  have both : ∀ y ∈ (Form.binary .bvAdd u v).operands, y.Typed :=
    List.forall_mem_cons.2 ⟨hu, List.forall_mem_singleton.2 hv⟩
  have row : Form.Typed ((Form.binary .bvAdd u v).map Tree.typ) (.bv width) := by
    rw [Form.map, tu, tv]
    exact .binary (.arithmetic (by decide))
  obtain ⟨x, made, tx⟩ := construct_of_typed both row
  refine ⟨x, made, (Typed.construct both made).1, tx, ?_⟩
  obtain ⟨b, resolved, rfl⟩ := construct_ok made
  rcases (Form.resolve_ok resolved fun y hy => (both y hy).node).2 with folds | ⟨plain, t, rfl⟩
  · cases folds with
    | @sum _ _ m n w hl hr hw =>
      obtain rfl : w = width := Ty.bv.inj (hw.symm.trans tu)
      exact .inl ⟨m, n, hl, hr, rfl⟩
  · refine .inr ⟨?_, rfl⟩
    rintro ⟨⟨m, hm⟩, n, hn⟩
    exact plain _ (.sum hm hn tu)

theorem constant_typed (pos : 0 < width) (a : Int) : (constant width a).Typed := by
  refine .mk ⟨.bvConst pos, fun hv hw => ?_⟩ (List.forall_mem_nil _)
  cases hv
  cases hw
  exact Form.wrap_lt width a

/-- **The sum of two constants** stands for the sum of the integers. -/
theorem construct_constants (pos : 0 < width) (a b : Int) :
    construct (.binary .bvAdd (constant width a) (constant width b)) = .ok (constant width (a + b)) := by
  obtain ⟨⟨shape, t⟩, made, -, rfl, cases⟩ := construct_sum (constant_typed pos a) (constant_typed pos b) rfl rfl
  rcases cases with ⟨_, _, ⟨⟩, ⟨⟩, rfl⟩ | ⟨mixed, -⟩
  · rw [made, wrap_add]
    rfl
  · exact absurd ⟨⟨_, rfl⟩, ⟨_, rfl⟩⟩ mixed

end Tree

/-! ## Terms -/

namespace Term

variable {v : Workspace} {held evaluated : List NodeId} {width : UInt64}

/-- The store comes to the tree that the term stands for. -/
theorem comesTo_iff (hb : v.store.Books held evaluated) (hx : ∀ n ∈ v.exprs.values, v.store.Live n) {t : Term}
    {u : Tree} : t.ComesTo v u ↔ t.eval v = .ok u := by
  have ends := build_yields hb hx t .refl
  constructor
  · rintro ⟨n, v', run, -, rfl⟩
    obtain ⟨-, u, ⟨-, rfl⟩, eval⟩ := ends.ok run
    exact eval
  · intro eval
    cases run : t.build v with
    | ok n v' =>
      obtain ⟨-, u', ⟨live, tree⟩, eval'⟩ := ends.ok run
      cases eval.symm.trans eval'
      exact ⟨n, v', run, live, tree⟩
    | error e v' => cases eval.symm.trans (ends.error run).2.2

theorem ComesTo.typed (hb : v.store.Books held evaluated) (hx : ∀ n ∈ v.exprs.values, v.store.Live n) {t : Term}
    {u : Tree} (h : t.ComesTo v u) : u.Typed := by
  obtain ⟨n, v', run, live, rfl⟩ := h
  have grows := ((build_yields hb hx t .refl).ok run).1
  exact (grows.books hb).tree_typed live

theorem eval_add {l r : Term} {ul ur x : Tree} (hl : l.eval v = .ok ul) (hr : r.eval v = .ok ur)
    (made : Tree.construct (.binary .bvAdd ul ur) = .ok x) : (Term.binary .bvAdd l r).eval v = .ok x := by
  rw [eval, hl, hr]
  exact apply_ok_iff.2 made

/-- A constant comes to the tree that stands for its integer. -/
theorem Constant.eval (hb : v.store.Books held evaluated) (hx : ∀ n ∈ v.exprs.values, v.store.Live n)
    (pos : 0 < width) {t : Term} {a : Int} (h : t.Constant v width a) : t.eval v = .ok (.constant width a) := by
  cases h with
  | bvConst =>
    rw [Term.eval, apply_ok_iff, Tree.construct, Form.resolve, Ty.sized_of_pos pos]
    rfl
  | bvZero =>
    rw [Term.eval, apply_ok_iff, Tree.construct, Form.resolve, Ty.sized_of_pos pos, Tree.constant_zero]
    rfl
  | @slot x n c here shape typ _ same =>
    have live : v.store.Live n := hx n (Table.mem_values_of_get? here)
    have typ : (v.store.cell n).typ = .bv width := typ
    obtain rfl : c = wrap width a := Int.natCast_inj.1 (same.trans (natCast_wrap width a).symm)
    rw [Term.eval, lookup_ok_iff.2 here]
    refine congrArg Except.ok ?_
    rw [hb.ordered.tree_eq live, shape, typ]
    rfl

end Term

namespace Summation

variable {v : Workspace} {width : UInt64}

/-- **A sum of constants**, by induction on the bracketing, comes to the constant of the summed integers. -/
theorem eval_constants (pos : 0 < width) : ∀ s : Summation (Term × Int),
    (∀ p ∈ s.summands, p.1.eval v = .ok (.constant width p.2)) →
    (s.map (·.1)).term.eval v = .ok (.constant width (s.summands.map (·.2)).sum)
  | summand p, h => by
    rw [summands, List.map_singleton, List.sum_singleton]
    exact h p (List.mem_singleton_self p)
  | plus l r, h => by
    obtain ⟨hl, hr⟩ := List.forall_mem_append.1 h
    rw [summands, List.map_append, List.sum_append]
    exact Term.eval_add (eval_constants pos l hl) (eval_constants pos r hr) (Tree.construct_constants pos _ _)

/-- **A sum of any bit-vectors**, by induction on the bracketing: it is a constant when every summand is, and otherwise,
unless it is a single summand, an addition. -/
theorem eval_term : ∀ s : Summation Term,
    (∀ t ∈ s.summands, ∃ u, t.eval v = .ok u ∧ u.Typed ∧ u.typ = .bv width) →
    ∃ x, s.term.eval v = .ok x ∧ x.Typed ∧ x.typ = .bv width ∧
      (x.IsConstant → ∀ t ∈ s.summands, ∃ u, t.eval v = .ok u ∧ u.IsConstant) ∧
      (2 ≤ s.summands.length → ¬ x.IsConstant → ∃ l r, x.shape = .binary .bvAdd l r)
  | summand t, h => by
    obtain ⟨u, eval, typed, typ⟩ := h t (List.mem_singleton_self t)
    refine ⟨u, eval, typed, typ, fun constant => List.forall_mem_singleton.2 ⟨u, eval, constant⟩, fun two => ?_⟩
    exact absurd two (Nat.not_succ_le_self 1)
  | plus l r, h => by
    obtain ⟨hl, hr⟩ := List.forall_mem_append.1 h
    obtain ⟨u, evalL, typedL, typL, constantL, -⟩ := eval_term l hl
    obtain ⟨u', evalR, typedR, typR, constantR, -⟩ := eval_term r hr
    obtain ⟨x, made, typed, typ, cases⟩ := Tree.construct_sum typedL typedR typL typR
    refine ⟨x, Term.eval_add evalL evalR made, typed, typ, fun ⟨c, constant⟩ => ?_, fun _ open_ => ?_⟩
    · rcases cases with ⟨a, b, shapeL, shapeR, -⟩ | ⟨-, shape⟩
      · exact List.forall_mem_append.2 ⟨constantL ⟨a, shapeL⟩, constantR ⟨b, shapeR⟩⟩
      · cases constant.symm.trans shape
    · rcases cases with ⟨a, b, -, -, shape⟩ | ⟨-, shape⟩
      · exact absurd ⟨_, shape⟩ open_
      · exact ⟨u, u', shape⟩

section Store

variable {held evaluated : List NodeId} (hb : v.store.Books held evaluated) (hx : ∀ n ∈ v.exprs.values, v.store.Live n)
include hb hx

theorem comesTo_constants_iff (pos : 0 < width) {s : Summation (Term × Int)}
    (h : ∀ p ∈ s.summands, p.1.Constant v width p.2) {u : Tree} :
    (s.map (·.1)).term.ComesTo v u ↔ u = .constant width (s.summands.map (·.2)).sum := by
  rw [Term.comesTo_iff hb hx, s.eval_constants pos fun p hp => (h p hp).eval hb hx pos, Except.ok.injEq, eq_comm]

theorem comesTo_addition {s : Summation Term} (h : ∀ t ∈ s.summands, ∃ u, t.ComesTo v u ∧ u.typ = .bv width)
    (two : 2 ≤ s.summands.length) (mixed : ∃ t ∈ s.summands, ∃ u, t.ComesTo v u ∧ ¬ u.IsConstant) :
    ∃ l r, s.term.ComesTo v (.mk (.binary .bvAdd l r) (.bv width)) := by
  have comes : ∀ {t : Term} {u : Tree}, t.ComesTo v u ↔ t.eval v = .ok u := Term.comesTo_iff hb hx
  have typed : ∀ t ∈ s.summands, ∃ u, t.eval v = .ok u ∧ u.Typed ∧ u.typ = .bv width := fun t ht => by
    obtain ⟨u, hu, typ⟩ := h t ht
    exact ⟨u, comes.1 hu, hu.typed hb hx, typ⟩
  obtain ⟨⟨shape, t⟩, eval, -, rfl, constant, addition⟩ := s.eval_term typed
  have open_ : ¬ (Tree.mk shape (.bv width)).IsConstant := fun closed => by
    obtain ⟨t, ht, u, hu, plain⟩ := mixed
    obtain ⟨u', hu', isConstant⟩ := constant closed t ht
    cases (comes.1 hu).symm.trans hu'
    exact plain isConstant
  obtain ⟨l, r, rfl⟩ := addition two open_
  exact ⟨l, r, comes.2 eval⟩

end Store

end Summation

namespace Workspace

variable {w v : Workspace}

/-- **Additions of constants are additions of integers.**

Take any time in the middle of any command.  A sum of constants of a width, bracketed in any way, comes to one constant
of that width, with the sum of the integers modulo `2 ^ width` as its value.  So the value depends neither on the
brackets nor on the order, zero adds nothing, an integer and its opposite add up to zero, and two integers give the same
constant exactly if they are congruent.

A sum of bit-vectors of any one width, of at least two summands of which one is no constant, comes to an addition. -/
theorem Reachable.constants_add (h : w.Reachable) {hand : List Owned}
    (path : Relation.ReflTransGen (Move .all) ⟨[], w⟩ ⟨hand, v⟩) :
    (∀ width : UInt64, 0 < width →
      (∀ s : Summation (Term × Int), (∀ p ∈ s.summands, p.1.Constant v width p.2) →
        (∃ value : Nat, (s.map (·.1)).term.ComesTo v (.mk (.bvConst value) (.bv width)) ∧
          (value : Int) = (s.summands.map (·.2)).sum % 2 ^ width.toNat ∧ value < 2 ^ width.toNat) ∧
        (∀ s' : Summation (Term × Int), s'.summands.Perm s.summands →
          ∀ u, (s.map (·.1)).term.ComesTo v u ↔ (s'.map (·.1)).term.ComesTo v u) ∧
        ∀ u, (s.map (·.1)).term.ComesTo v u →
          (Term.binary .bvAdd (s.map (·.1)).term (.bvZero width)).ComesTo v u ∧
          (Term.binary .bvAdd (.bvZero width) (s.map (·.1)).term).ComesTo v u) ∧
      (∀ a : Int, (Term.binary .bvAdd (.bvConst width a) (.bvConst width (-a))).ComesTo v
        (.mk (.bvConst 0) (.bv width))) ∧
      ∀ a b : Int, (∃ u, (Term.bvConst width a).ComesTo v u ∧ (Term.bvConst width b).ComesTo v u) ↔
        a ≡ b [ZMOD 2 ^ width.toNat]) ∧
    ∀ (width : UInt64) (s : Summation Term), (∀ t ∈ s.summands, ∃ u, t.ComesTo v u ∧ u.typ = .bv width) →
      2 ≤ s.summands.length → (∃ t ∈ s.summands, ∃ u, t.ComesTo v u ∧ ¬ u.IsConstant) →
        ∃ l r, s.term.ComesTo v (.mk (.binary .bvAdd l r) (.bv width)) := by
  have books := Config.Balanced.invariant.path (c := ⟨[], w⟩) h.sound.books path
  have live : ∀ n ∈ v.exprs.values, v.store.Live n := fun n hn =>
    books.live_of_held (List.mem_append_right _ (List.mem_append_left _ hn))
  refine ⟨fun width pos => ?_, fun width s => Summation.comesTo_addition books live⟩
  have sums : ∀ s : Summation (Term × Int), (∀ p ∈ s.summands, p.1.Constant v width p.2) → ∀ {u : Tree},
      (s.map (·.1)).term.ComesTo v u ↔ u = .constant width (s.summands.map (·.2)).sum := fun s constants _ =>
    Summation.comesTo_constants_iff books live pos constants
  have literal : ∀ (a : Int) {u : Tree}, (Term.bvConst width a).ComesTo v u ↔ u = .constant width a := fun a u => by
    have single := sums (.summand (.bvConst width a, a)) (List.forall_mem_singleton.2 (.bvConst a)) (u := u)
    rwa [Summation.summands, List.map_singleton, List.sum_singleton] at single
  refine ⟨fun s constants => ⟨?_, fun s' perm u => ?_, fun u hu => ?_⟩, fun a => ?_, fun a b => ?_⟩
  · exact ⟨_, (sums s constants).2 rfl, natCast_wrap width _, Form.wrap_lt width _⟩
  · have constants' : ∀ p ∈ s'.summands, p.1.Constant v width p.2 := fun p hp => constants p (perm.mem_iff.1 hp)
    rw [sums s constants, sums s' constants', (perm.map (·.2)).sum_eq]
  · -- zero is one more summand
    have zero : ∀ p ∈ [(Term.bvZero width, (0 : Int))], p.1.Constant v width p.2 := List.forall_mem_singleton.2 .bvZero
    have last := sums (.plus s (.summand (.bvZero width, 0))) (List.forall_mem_append.2 ⟨constants, zero⟩) (u := u)
    have first := sums (.plus (.summand (.bvZero width, 0)) s) (List.forall_mem_append.2 ⟨zero, constants⟩) (u := u)
    have sum := (sums s constants).1 hu
    exact ⟨last.2 (by simpa [Summation.summands] using sum), first.2 (by simpa [Summation.summands] using sum)⟩
  · have opposite := sums (.plus (.summand (.bvConst width a, a)) (.summand (.bvConst width (-a), -a)))
      (List.forall_mem_cons.2 ⟨.bvConst a, List.forall_mem_singleton.2 (.bvConst (-a))⟩)
      (u := .mk (.bvConst 0) (.bv width))
    exact opposite.2 (by simp [Summation.summands, Tree.constant_zero])
  · rw [← wrap_eq_iff, ← Tree.constant_inj]
    simp only [literal, exists_eq_left]

/-- A parameter and a constant, written with an integer of more than 8 bits. -/
def wideConstant : List Command :=
  [.function "f" (some "f"), .addVar .parameter "f" "x" (.data (.obj [("Bv", .obj [("width", .ofWord 8)])])) (some "x"),
    .expr (.bvConst 8 300) (some "c"), .expr (.varRef "x") (some "e")]

/-- `-1 + (300 + -300)` comes to `255`, in any order.  With the parameter among the summands, the sum is an addition,
although what stands beside the parameter adds up to zero. -/
theorem constants_add_wideConstant :
    (Term.binary .bvAdd (.bvConst 8 (-1)) (.binary .bvAdd (.slot "c") (.bvConst 8 (-300)))).ComesTo
      (empty.run wideConstant).2 (.mk (.bvConst 255) (.bv 8)) ∧
    (Term.binary .bvAdd (.binary .bvAdd (.bvConst 8 (-300)) (.bvConst 8 (-1))) (.slot "c")).ComesTo
      (empty.run wideConstant).2 (.mk (.bvConst 255) (.bv 8)) ∧
    ∃ l r, (Term.binary .bvAdd (.binary .bvAdd (.slot "c") (.slot "e")) (.bvConst 8 (-300))).ComesTo
      (empty.run wideConstant).2 (.mk (.binary .bvAdd l r) (.bv 8)) := by
  obtain ⟨constants, additions⟩ := Reachable.constants_add ⟨wideConstant, rfl⟩ .refl
  have slot : (Term.slot "c").Constant (empty.run wideConstant).2 8 300 := .slot rfl rfl rfl 300 (by decide)
  have literal : ∀ a : Int, (Term.bvConst 8 a).Constant (empty.run wideConstant).2 8 a := .bvConst
  obtain ⟨⟨value, sum, integer, -⟩, reordered, -⟩ := (constants 8 (by decide)).1
    (.plus (.summand (.bvConst 8 (-1), -1)) (.plus (.summand (.slot "c", 300)) (.summand (.bvConst 8 (-300), -300))))
    (List.forall_mem_cons.2 ⟨literal _, List.forall_mem_cons.2 ⟨slot, List.forall_mem_singleton.2 (literal _)⟩⟩)
  obtain rfl : value = 255 := Int.natCast_inj.1 integer
  have moved := reordered
    (.plus (.plus (.summand (.bvConst 8 (-300), -300)) (.summand (.bvConst 8 (-1), -1))) (.summand (.slot "c", 300)))
    (List.perm_append_singleton _ [_, _]).symm (.mk (.bvConst 255) (.bv 8))
  -- the three summands of the last sum: `44`, the parameter and `212`
  have first : ∃ u, (Term.slot "c").ComesTo (empty.run wideConstant).2 u ∧ u.typ = .bv 8 :=
    ⟨_, ⟨⟨0⟩, _, rfl, by decide, rfl⟩, rfl⟩
  have parameter : ∃ u, (Term.slot "e").ComesTo (empty.run wideConstant).2 u ∧ u.typ = .bv 8 ∧ ¬ u.IsConstant :=
    ⟨_, ⟨⟨1⟩, _, rfl, by decide, rfl⟩, rfl, fun ⟨_, h⟩ => nomatch h⟩
  have last : ∃ u, (Term.bvConst 8 (-300)).ComesTo (empty.run wideConstant).2 u ∧ u.typ = .bv 8 :=
    ⟨_, ⟨⟨2⟩, _, rfl, by decide, rfl⟩, rfl⟩
  have mixed := additions 8 (.plus (.plus (.summand (.slot "c")) (.summand (.slot "e"))) (.summand (.bvConst 8 (-300))))
    (List.forall_mem_cons.2 ⟨first, List.forall_mem_cons.2 ⟨parameter.imp fun _ h => ⟨h.1, h.2.1⟩,
      List.forall_mem_singleton.2 last⟩⟩) (by decide)
  refine ⟨sum, moved.1 sum, mixed ⟨.slot "e", List.mem_cons_of_mem _ List.mem_cons_self, ?_⟩⟩
  exact parameter.imp fun _ h => ⟨h.1, h.2.2⟩

end Workspace
end KernelIR
