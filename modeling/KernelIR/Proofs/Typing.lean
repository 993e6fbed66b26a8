import KernelIR.Expr.Form
/-!
# Typing — the table of the constructors

Which operand types a constructor takes and which type it gives (`Form.Typed`), a row for each constructor.  A width
that is computed is never `0`.  A node is typed when the constructor that it records is (`Node.Typed`).

Main statement: over typed operands, what a constructor accepts is what the table lists, and what it answers with has
the type that the table gives (`Form.resolve_ok`, `Form.Typed.resolve`).
-/
namespace KernelIR

variable {α β : Type}

namespace UnaryOp

inductive Typed : UnaryOp → Ty → Ty → Prop
  | arrayId {w : UInt64} : Typed .arrayId (.pointer w) .arrayId
  | arrayOffset {w : UInt64} (pos : 0 < w) : Typed .arrayOffset (.pointer w) (.bv w)
  | bvToFloat {w : UInt64} (size : w = 32 ∨ w = 64) : Typed .bvToFloat (.bv w) (.float w)
  | floatToBv {w : UInt64} (pos : 0 < w) : Typed .floatToBv (.float w) (.bv w)
  | bvToPtr {w : UInt64} (pos : 0 < w) : Typed .bvToPtr (.bv w) (.pointer w)
  | ptrToBv {w : UInt64} (pos : 0 < w) : Typed .ptrToBv (.pointer w) (.bv w)
  | bvToBool : Typed .bvToBool (.bv 1) .bool
  | boolToBv : Typed .boolToBv .bool (.bv 1)
  | not : Typed .not .bool .bool

end UnaryOp

namespace BinaryOp

def arithmeticOps : List BinaryOp :=
  [.bvAdd, .bvSub, .bvMul, .bvSDiv, .bvUDiv, .bvSRem, .bvURem, .bvAnd, .bvOr, .bvXor, .bvShl, .bvLShr, .bvAShr]

def comparisonOps : List BinaryOp := [.bvSgt, .bvSge, .bvSlt, .bvSle, .bvUgt, .bvUge, .bvUlt, .bvUle]

/-- The rows of the binary operators.  The width of a concatenation is a 64-bit sum. -/
inductive Typed : BinaryOp → Ty → Ty → Ty → Prop
  | arithmetic {op : BinaryOp} {w : UInt64} (h : op ∈ arithmeticOps) : Typed op (.bv w) (.bv w) (.bv w)
  | concatenation {w : UInt64} (pos : 0 < w + w) : Typed .bvConcat (.bv w) (.bv w) (.bv (w + w))
  | comparison {op : BinaryOp} {w : UInt64} (h : op ∈ comparisonOps) : Typed op (.bv w) (.bv w) .bool
  | equality {op : BinaryOp} {t : Ty} (h : op = .eq ∨ op = .ne) : Typed op t t .bool
  | connective {op : BinaryOp} (h : op = .and ∨ op = .or) : Typed op .bool .bool .bool

end BinaryOp

namespace Form

def map (f : α → β) : Form α → Form β
  | .bvConst w v => .bvConst w v
  | .bvZero w => .bvZero w
  | .boolConst b => .boolConst b
  | .arrayRef a => .arrayRef a
  | .varRef v => .varRef v
  | .pointer a o => .pointer (f a) (f o)
  | .load a o => .load (f a) (f o)
  | .call c args => .call c (args.map f)
  | .bvExtract e offset width => .bvExtract (f e) offset width
  | .extend x e width => .extend x (f e) width
  | .unary op e => .unary op (f e)
  | .binary op l r => .binary op (f l) (f r)

/-- **The table**: a constructor over operands of these types, and the type of the result. -/
inductive Typed : Form Ty → Ty → Prop
  | bvConst {w : UInt64} {v : Int} (pos : 0 < w) : Typed (.bvConst w v) (.bv w)
  | bvZero {w : UInt64} (pos : 0 < w) : Typed (.bvZero w) (.bv w)
  | boolConst {b : Bool} : Typed (.boolConst b) .bool
  | arrayRef {a : GlobalArray} : Typed (.arrayRef a) .arrayId
  | varRef {v : Var} : Typed (.varRef v) v.typ
  | pointer {w : UInt64} (pos : 0 < w) : Typed (.pointer .arrayId (.bv w)) (.pointer w)
  | load {w : UInt64} : Typed (.load .arrayId (.bv w)) (.bv 8)
  | call {c : Callee} {t : Ty} (one : c.returns = [t]) : Typed (.call c c.parameters) t
  | bvExtract {source offset width : UInt64} (pos : 0 < width) (fits : offset.toNat + width.toNat ≤ source.toNat) :
    Typed (.bvExtract (.bv source) offset width) (.bv width)
  | extend {x : Extension} {source width : UInt64} (pos : 0 < width) (wider : source ≤ width) :
    Typed (.extend x (.bv source) width) (.bv width)
  | unary {op : UnaryOp} {t u : Ty} (h : op.Typed t u) : Typed (.unary op t) u
  | binary {op : BinaryOp} {t u v : Ty} (h : op.Typed t u v) : Typed (.binary op t u) v

/-- The node that a constructor makes when nothing simplifies. -/
def shape : Form α → Shape α
  | .bvConst w v => .bvConst (wrap w v)
  | .bvZero _ => .bvConst 0
  | .boolConst b => .boolConst b
  | .arrayRef a => .arrayRef a
  | .varRef v => .varRef v
  | .pointer a o => .pointer a o
  | .load a o => .load a o
  | .call c args => .call c args
  | .bvExtract e offset _ => .bvExtract e offset
  | .extend x e _ => x.shape e
  | .unary op e => .unary op e
  | .binary op l r => .binary op l r

/-- **The seven rules**: what a constructor answers with where it simplifies. -/
inductive Simplifies (r : Reader α) : Form α → Built α → Prop
  | cancel {op : UnaryOp} {e x : α} (h : op.cancel? (r.node e).shape = some x) : Simplifies r (.unary op e) (.reuse x)
  | sum {lhs rhs : α} {m n : Nat} {w : UInt64} (hl : (r.node lhs).shape = .bvConst m)
    (hr : (r.node rhs).shape = .bvConst n) (hw : (r.node lhs).typ = .bv w) :
    Simplifies r (.binary .bvAdd lhs rhs) (.fresh (.bvConst ((m + n) % pow2 w)) (.bv w))

theorem map_congr {f g : α → β} {x : Form α} (h : ∀ a ∈ x.operands, f a = g a) : x.map f = x.map g := by
  cases x <;> simp_all [operands, map]

end Form

namespace Shape

theorem map_congr {f g : α → β} {s : Shape α} (h : ∀ a ∈ s.operands, f a = g a) : s.map f = s.map g := by
  cases s <;> simp_all [operands, map]

/-- The constructor that a node records; the widths of constants, extractions and extensions are those of its type. -/
def form (s : Shape α) (t : Ty) : Form α :=
  match s with
  | .bvConst v => .bvConst (t.width?.getD 0) v
  | .boolConst b => .boolConst b
  | .arrayRef a => .arrayRef a
  | .pointer a o => .pointer a o
  | .load a o => .load a o
  | .varRef v => .varRef v
  | .call c args => .call c args
  | .bvExtract e offset => .bvExtract e offset (t.width?.getD 0)
  | .bvZExt e => .extend .zero e (t.width?.getD 0)
  | .bvSExt e => .extend .sign e (t.width?.getD 0)
  | .unary op e => .unary op e
  | .binary op l r => .binary op l r

end Shape

/-- **A node over operands of these types stands in the table**, and a constant is below `2 ^ width`. -/
structure Node.Typed (typ : α → Ty) (n : Node α) : Prop where
  inTable : Form.Typed ((n.shape.form n.typ).map typ) n.typ
  inRange : ∀ {v : Nat} {w : UInt64}, n.shape = .bvConst v → n.typ = .bv w → v < pow2 w

theorem Shape.form_operands (s : Shape α) (t : Ty) : (s.form t).operands = s.operands := by
  cases s <;> rfl

theorem Node.Typed.congr {typ typ' : α → Ty} {n : Node α} (h : n.Typed typ)
    (he : ∀ a ∈ n.shape.operands, typ' a = typ a) : n.Typed typ' where
  inTable := by
    rw [Form.map_congr fun a ha => he a (n.shape.form_operands n.typ ▸ ha)]
    exact h.inTable
  inRange := h.inRange

theorem Form.map_map {γ : Type} (g : β → γ) (f : α → β) (x : Form α) : (x.map f).map g = x.map (g ∘ f) := by
  cases x <;> simp [Form.map]

namespace Shape

theorem form_map (f : α → β) (s : Shape α) (t : Ty) : (s.map f).form t = (s.form t).map f := by
  cases s <;> rfl

theorem operands_map (f : α → β) (s : Shape α) : (s.map f).operands = s.operands.map f := by
  cases s <;> rfl

theorem map_eq_bvConst {f : α → β} {s : Shape α} {v : Nat} : s.map f = .bvConst v ↔ s = .bvConst v := by
  cases s <;> simp [map]

end Shape

/-- The same over operands that stand for others of their types. -/
theorem Node.Typed.map {typ : α → Ty} {typ' : β → Ty} {f : α → β} {n : Node α} (h : n.Typed typ)
    (he : ∀ a ∈ n.shape.operands, typ' (f a) = typ a) : Node.Typed typ' ⟨n.shape.map f, n.typ⟩ where
  inTable := by
    rw [Shape.form_map, Form.map_map]
    exact (h.congr he).inTable
  inRange hv := h.inRange (Shape.map_eq_bvConst.1 hv)

def Reader.typ (r : Reader α) (a : α) : Ty := (r.node a).typ

def Built.typ (r : Reader α) : Built α → Ty
  | .reuse a => r.typ a
  | .fresh _ t => t

theorem bind_ok_iff {ε : Type} {x : Except ε α} {f : α → Except ε β} {b : β} :
    (x >>= f) = .ok b ↔ ∃ a, x = .ok a ∧ f a = .ok b := by
  cases x <;> simp [bind, Except.bind]

namespace Ty

theorem sized_of_pos {kind : SizedKind} {w : UInt64} (h : 0 < w) : sized kind w = .ok (kind.typ w) := by
  unfold sized
  rw [if_neg (by rintro rfl; exact absurd h (by decide))]

theorem sized_ok {kind : SizedKind} {w : UInt64} {t : Ty} (h : sized kind w = .ok t) : 0 < w ∧ t = kind.typ w := by
  unfold sized at h
  split at h
  · cases h
  · rename_i hw
    exact ⟨UInt64.pos_iff_ne_zero.2 hw, by cases h; rfl⟩

end Ty

/-! ## Rows, read from the checks and back -/

namespace Form

theorem Typed.of_pointer {t u v : Ty} (h : Typed (.pointer t u) v) :
    ∃ w, 0 < w ∧ t = .arrayId ∧ u = .bv w ∧ v = .pointer w := by
  cases h with
  | pointer pos => exact ⟨_, pos, rfl, rfl, rfl⟩

theorem Typed.of_unary {op : UnaryOp} {t u : Ty} (h : Typed (.unary op t) u) : op.Typed t u := by
  cases h with
  | unary h => exact h

theorem Typed.of_binary {op : BinaryOp} {t u v : Ty} (h : Typed (.binary op t u) v) : op.Typed t u v := by
  cases h with
  | binary h => exact h

theorem Typed.of_call {c : Callee} {args : List Ty} {t : Ty} (h : Typed (.call c args) t) :
    args = c.parameters ∧ c.returns = [t] := by
  cases h with
  | call one => exact ⟨rfl, one⟩

theorem Typed.of_bvConst {w : UInt64} {v : Int} {t : Ty} (h : Typed (.bvConst w v) t) : 0 < w ∧ t = .bv w := by
  cases h with
  | bvConst pos => exact ⟨pos, rfl⟩

end Form

/-- A constant has a bit-vector type, and its value is in range. -/
theorem Node.Typed.const {typ : α → Ty} {n : Node α} {v : Nat} (h : n.Typed typ) (hs : n.shape = .bvConst v) :
    ∃ w, 0 < w ∧ n.typ = .bv w ∧ v < pow2 w := by
  have ht := h.inTable
  rw [hs] at ht
  obtain ⟨pos, ht⟩ := Form.Typed.of_bvConst ht
  exact ⟨_, pos, ht, h.inRange hs ht⟩

namespace UnaryOp

theorem Typed.accepted {op : UnaryOp} {t u : Ty} (h : op.Typed t u) : op.accepts t = true ∧ op.result t = .ok u := by
  cases h with
  | arrayId | bvToBool | boolToBv | not => exact ⟨rfl, rfl⟩
  | arrayOffset pos | floatToBv pos | bvToPtr pos | ptrToBv pos => exact ⟨rfl, Ty.sized_of_pos pos⟩
  | bvToFloat size => rcases size with rfl | rfl <;> exact ⟨rfl, rfl⟩

theorem typed_of_accepts {op : UnaryOp} {t u : Ty} (ha : op.accepts t = true) (hr : op.result t = .ok u) :
    op.Typed t u := by
  cases op <;> cases t <;> simp only [accepts, Ty.isPointer, Ty.isFloat, Ty.isBv, Ty.isBool, Ty.isBvOfWidth,
    Bool.or_eq_true, beq_iff_eq, Bool.false_eq_true, or_self] at ha
  case arrayId.pointer => cases hr; exact .arrayId
  case arrayOffset.pointer => obtain ⟨pos, rfl⟩ := Ty.sized_ok hr; exact .arrayOffset pos
  case bvToFloat.bv => obtain ⟨-, rfl⟩ := Ty.sized_ok hr; exact .bvToFloat ha
  case floatToBv.float => obtain ⟨pos, rfl⟩ := Ty.sized_ok hr; exact .floatToBv pos
  case bvToPtr.bv => obtain ⟨pos, rfl⟩ := Ty.sized_ok hr; exact .bvToPtr pos
  case ptrToBv.pointer => obtain ⟨pos, rfl⟩ := Ty.sized_ok hr; exact .ptrToBv pos
  case bvToBool.bv => cases hr; rw [ha]; exact .bvToBool
  case boolToBv.bool => obtain ⟨-, rfl⟩ := Ty.sized_ok hr; exact .boolToBv
  case not.bool => cases hr; exact .not

/-- An operator that cancels is in the table with the type of the sub-node it cancels to. -/
theorem typed_of_cancel {typ : α → Ty} {op : UnaryOp} {n : Node α} {x : α} (ha : op.accepts n.typ = true)
    (hn : n.Typed typ) (hc : op.cancel? n.shape = some x) : op.Typed n.typ (typ x) := by
  obtain ⟨shape, t⟩ := n
  obtain ⟨ht, -⟩ := hn
  dsimp only at ha ht hc ⊢
  unfold cancel? at hc
  split at hc <;> cases hc
  · obtain ⟨w, -, hx, -, rfl⟩ := ht.of_pointer
    rw [hx]
    exact .arrayId
  · obtain ⟨w, pos, -, hx, rfl⟩ := ht.of_pointer
    rw [hx]
    exact .arrayOffset pos
  · have h : Typed .floatToBv (typ x) t := ht.of_unary
    generalize typ x = u at h ⊢
    cases h with
    | floatToBv pos => exact typed_of_accepts ha (Ty.sized_of_pos pos)
  · have h : Typed .bvToFloat (typ x) t := ht.of_unary
    generalize typ x = u at h ⊢
    cases h with
    | bvToFloat size => exact .floatToBv (by rcases size with rfl | rfl <;> decide)
  · have h : Typed .ptrToBv (typ x) t := ht.of_unary
    generalize typ x = u at h ⊢
    cases h with
    | ptrToBv pos => exact .bvToPtr pos
  · have h : Typed .bvToPtr (typ x) t := ht.of_unary
    generalize typ x = u at h ⊢
    cases h with
    | bvToPtr pos => exact .ptrToBv pos

theorem operand_of_cancel {op : UnaryOp} {s : Shape α} {x : α} (h : op.cancel? s = some x) : x ∈ s.operands := by
  unfold cancel? at h
  split at h <;> cases h <;> simp [Shape.operands]

/-- The conversions that undo each other. -/
inductive Inverse : UnaryOp → UnaryOp → Prop
  | floatToBv : Inverse .floatToBv .bvToFloat
  | bvToFloat : Inverse .bvToFloat .floatToBv
  | ptrToBv : Inverse .ptrToBv .bvToPtr
  | bvToPtr : Inverse .bvToPtr .ptrToBv

theorem Inverse.symm {op inv : UnaryOp} (h : op.Inverse inv) : inv.Inverse op := by
  cases h <;> constructor

/-- A conversion cancels its inverse and nothing else. -/
theorem Inverse.cancel_iff {op inv : UnaryOp} (h : op.Inverse inv) {s : Shape α} {x : α} :
    inv.cancel? s = some x ↔ s = .unary op x := by
  constructor
  · intro hc
    unfold cancel? at hc
    cases h <;> split at hc <;> simp_all
  · rintro rfl
    cases h <;> rfl

end UnaryOp

namespace BinaryOp

theorem Typed.accepted {op : BinaryOp} {t u v : Ty} (h : op.Typed t u v) :
    op.accepts t u = true ∧ op.result t u = .ok v := by
  cases h with
  | arithmetic h =>
    have hf : op.family = .arithmetic := by revert h; cases op <;> decide
    simp [accepts, result, hf, Ty.isBv]
  | concatenation pos => exact ⟨by simp [accepts, family, Ty.isBv], Ty.sized_of_pos pos⟩
  | comparison h =>
    have hf : op.family = .comparison := by revert h; cases op <;> decide
    simp [accepts, result, hf, Ty.isBv]
  | equality h => rcases h with rfl | rfl <;> exact ⟨by simp [accepts, family], rfl⟩
  | connective h => rcases h with rfl | rfl <;> exact ⟨rfl, rfl⟩

theorem addends_iff {op : BinaryOp} {s s' : Shape α} {m n : Nat} :
    op.addends? s s' = some (m, n) ↔ op = .bvAdd ∧ s = .bvConst m ∧ s' = .bvConst n := by
  unfold addends?
  constructor
  · intro h
    split at h <;> cases h
    exact ⟨rfl, rfl, rfl⟩
  · rintro ⟨rfl, rfl, rfl⟩
    rfl

theorem typed_of_accepts {op : BinaryOp} {t u v : Ty} (ha : op.accepts t u = true) (hr : op.result t u = .ok v) :
    op.Typed t u v := by
  unfold accepts at ha
  unfold result at hr
  cases hf : op.family <;> simp only [hf, Bool.and_eq_true, beq_iff_eq] at ha hr
  case arithmetic =>
    obtain ⟨hb, rfl⟩ := ha
    cases t <;> cases hb
    cases hr
    exact .arithmetic (by revert hf; cases op <;> decide)
  case concatenation =>
    obtain ⟨hb, rfl⟩ := ha
    cases t <;> cases hb
    obtain rfl : op = .bvConcat := by revert hf; cases op <;> decide
    obtain ⟨pos, rfl⟩ := Ty.sized_ok hr
    exact .concatenation pos
  case comparison =>
    obtain ⟨hb, rfl⟩ := ha
    cases t <;> cases hb
    cases hr
    exact .comparison (by revert hf; cases op <;> decide)
  case equality =>
    cases hr
    rw [ha]
    exact .equality (by revert hf; cases op <;> decide)
  case connective =>
    obtain ⟨hb, hc⟩ := ha
    cases t <;> cases hb
    cases u <;> cases hc
    cases hr
    exact .connective (by revert hf; cases op <;> decide)

end BinaryOp

namespace Form

theorem Typed.unique {f : Form Ty} {t u : Ty} (h : f.Typed t) (h' : f.Typed u) : t = u := by
  cases h with
  | bvConst | bvZero | boolConst | arrayRef | varRef | pointer | load | bvExtract | extend => cases h'; rfl
  | call one =>
    cases h' with
    | call one' => rw [one] at one'; cases one'; rfl
  | unary h =>
    cases h' with
    | unary h' => exact Except.ok.inj (h.accepted.2.symm.trans h'.accepted.2)
  | binary h =>
    cases h' with
    | binary h' => exact Except.ok.inj (h.accepted.2.symm.trans h'.accepted.2)

variable {r : Reader α} {f : Form α} {b : Built α} {t : Ty}

/-- The range test of an extraction is the one over unbounded integers: its difference does not wrap. -/
theorem extractFits_iff {source offset width : UInt64} :
    extractFits source offset width = true ↔ 0 < width ∧ offset.toNat + width.toNat ≤ source.toNat := by
  unfold extractFits
  simp only [Bool.and_eq_true, decide_eq_true_eq, and_assoc]
  refine and_congr_right fun _ => ?_
  constructor
  · rintro ⟨h, h'⟩
    rw [UInt64.le_iff_toNat_le] at h h'
    rw [UInt64.toNat_sub_of_le _ _ (UInt64.le_iff_toNat_le.2 h)] at h'
    omega
  · intro h
    have hw : width ≤ source := UInt64.le_iff_toNat_le.2 (by omega)
    refine ⟨hw, UInt64.le_iff_toNat_le.2 ?_⟩
    rw [UInt64.toNat_sub_of_le _ _ hw]
    omega

theorem access_ok_iff {x : Access} {a o : α} :
    access r x a o = .ok t ↔ r.typ a = .arrayId ∧ ∃ w, r.typ o = .bv w ∧
      (match x with | .pointer => Ty.sized .pointer w | .load => Ty.sized .bv 8) = .ok t := by
  unfold access Reader.typ
  generalize (r.node a).typ = ta
  generalize (r.node o).typ = tb
  cases ta with
  | arrayId => cases tb <;> cases x <;> simp [Ty.isArrayId, Ty.isBv, Ty.expectWidth, Ty.width?, bind, Except.bind]
  | bv | bool | float | pointer => simp [Ty.isArrayId]

theorem access_pointer_iff {a o : α} : access r .pointer a o = .ok t ↔ Typed (.pointer (r.typ a) (r.typ o)) t := by
  rw [access_ok_iff]
  constructor
  · rintro ⟨ha, w, ho, h⟩
    obtain ⟨pos, rfl⟩ := Ty.sized_ok h
    rw [ha, ho]
    exact .pointer pos
  · intro h
    obtain ⟨w, pos, ha, ho, rfl⟩ := h.of_pointer
    exact ⟨ha, w, ho, Ty.sized_of_pos pos⟩

theorem access_load_iff {a o : α} : access r .load a o = .ok t ↔ Typed (.load (r.typ a) (r.typ o)) t := by
  rw [access_ok_iff]
  constructor
  · rintro ⟨ha, w, ho, h⟩
    obtain ⟨-, rfl⟩ := Ty.sized_ok h
    rw [ha, ho]
    exact .load
  · generalize r.typ a = ta
    generalize r.typ o = tb
    intro h
    cases h with
    | load => exact ⟨rfl, _, rfl, rfl⟩

theorem resolveCall_ok_iff {c : Callee} {args : List α} :
    resolveCall r c args = .ok b ↔ ∃ t, b = .fresh (.call c args) t ∧ Typed (.call c (args.map r.typ)) t := by
  unfold resolveCall Callee.accepts
  change (if !(args.map r.typ == c.parameters) then _ else _) = _ ↔ _
  constructor
  · intro h
    split at h
    · cases h
    · rename_i ha
      simp only [Bool.not_eq_true, Bool.not_eq_false', beq_iff_eq] at ha
      split at h
      · rename_i one
        cases h
        exact ⟨_, rfl, ha ▸ .call one⟩
      · cases h
  · rintro ⟨t, rfl, h⟩
    generalize args.map r.typ = ts at h
    cases h with
    | call one => simp [one]

theorem resolveExtract_ok_iff {e : α} {offset width : UInt64} :
    resolveExtract r e offset width = .ok b ↔
      ∃ t, b = .fresh (.bvExtract e offset) t ∧ Typed (.bvExtract (r.typ e) offset width) t := by
  unfold resolveExtract Reader.typ
  generalize (r.node e).typ = te
  constructor
  · intro h
    split at h
    · split at h
      · rename_i hf
        obtain ⟨pos, fits⟩ := extractFits_iff.1 hf
        rw [Ty.sized_of_pos pos] at h
        cases h
        exact ⟨_, rfl, .bvExtract pos fits⟩
      · cases h
    · cases h
  · rintro ⟨t, rfl, h⟩
    cases h with
    | bvExtract pos fits => simp [extractFits_iff.2 ⟨pos, fits⟩, Ty.sized_of_pos pos, bind, Except.bind, SizedKind.typ,
        pure, Except.pure]

theorem resolveExtend_ok_iff {x : Extension} {e : α} {width : UInt64} :
    resolveExtend r x e width = .ok b ↔
      ∃ t, b = .fresh (x.shape e) t ∧ Typed (.extend x (r.typ e) width) t := by
  unfold resolveExtend Reader.typ
  generalize (r.node e).typ = te
  constructor
  · intro h
    split at h
    · rename_i hf
      cases te <;> simp only [extensionFits, decide_eq_true_eq, Bool.false_eq_true] at hf
      obtain ⟨t, ht, hb⟩ := bind_ok_iff.1 h
      obtain ⟨pos, rfl⟩ := Ty.sized_ok ht
      cases hb
      exact ⟨_, rfl, .extend pos hf⟩
    · cases h
  · rintro ⟨t, rfl, h⟩
    cases h with
    | extend pos wider => simp [extensionFits, wider, Ty.sized_of_pos pos, bind, Except.bind, SizedKind.typ, pure,
        Except.pure]

/-- **A constructor accepts what is in the table**, and answers by a rule or with the node it names. -/
theorem resolve_ok (h : f.resolve r = .ok b) (ho : ∀ a ∈ f.operands, (r.node a).Typed r.typ) :
    Typed (f.map r.typ) (b.typ r) ∧
      (Simplifies r f b ∨ (∀ b', ¬ Simplifies r f b') ∧ ∃ t, b = .fresh f.shape t) := by
  have plain : ∀ {t}, (∀ b', ¬ Simplifies r f b') → b = .fresh f.shape t → Typed (f.map r.typ) t →
      Typed (f.map r.typ) (b.typ r) ∧ (Simplifies r f b ∨ (∀ b', ¬ Simplifies r f b') ∧ ∃ t, b = .fresh f.shape t) := by
    rintro t hs rfl ht
    exact ⟨ht, .inr ⟨hs, t, rfl⟩⟩
  cases f with
  | bvConst w v =>
    obtain ⟨t, ht, hb⟩ := bind_ok_iff.1 h
    obtain ⟨pos, rfl⟩ := Ty.sized_ok ht
    exact plain (fun _ hs => nomatch hs) (Except.ok.inj hb).symm (.bvConst pos)
  | bvZero w =>
    obtain ⟨t, ht, hb⟩ := bind_ok_iff.1 h
    obtain ⟨pos, rfl⟩ := Ty.sized_ok ht
    exact plain (fun _ hs => nomatch hs) (Except.ok.inj hb).symm (.bvZero pos)
  | boolConst c => exact plain (fun _ hs => nomatch hs) (Except.ok.inj h).symm .boolConst
  | arrayRef a => exact plain (fun _ hs => nomatch hs) (Except.ok.inj h).symm .arrayRef
  | varRef v => exact plain (fun _ hs => nomatch hs) (Except.ok.inj h).symm .varRef
  | pointer a o =>
    obtain ⟨t, ht, hb⟩ := bind_ok_iff.1 h
    exact plain (fun _ hs => nomatch hs) (Except.ok.inj hb).symm (access_pointer_iff.1 ht)
  | load a o =>
    obtain ⟨t, ht, hb⟩ := bind_ok_iff.1 h
    exact plain (fun _ hs => nomatch hs) (Except.ok.inj hb).symm (access_load_iff.1 ht)
  | call c args =>
    obtain ⟨t, hb, ht⟩ := resolveCall_ok_iff.1 h
    exact plain (fun _ hs => nomatch hs) hb ht
  | bvExtract e offset width =>
    obtain ⟨t, hb, ht⟩ := resolveExtract_ok_iff.1 h
    exact plain (fun _ hs => nomatch hs) hb ht
  | extend x e width =>
    obtain ⟨t, hb, ht⟩ := resolveExtend_ok_iff.1 h
    exact plain (fun _ hs => nomatch hs) hb ht
  | unary op e =>
    have he := ho e (List.mem_singleton_self e)
    simp only [resolve, resolveUnary] at h
    split at h
    · cases h
    rename_i ha
    rw [Bool.not_eq_true, Bool.not_eq_false'] at ha
    split at h
    · rename_i x hc
      cases h
      exact ⟨.unary (UnaryOp.typed_of_cancel ha he hc), .inl (.cancel hc)⟩
    · rename_i hc
      obtain ⟨t, ht, hb⟩ := bind_ok_iff.1 h
      refine plain (fun b' hs => ?_) (Except.ok.inj hb).symm (.unary (UnaryOp.typed_of_accepts ha ht))
      cases hs with
      | cancel hx => rw [hc] at hx; cases hx
  | binary op lhs rhs =>
    have hl := ho lhs (List.mem_cons_self ..)
    simp only [resolve, resolveBinary] at h
    split at h
    · cases h
    rename_i ha
    rw [Bool.not_eq_true, Bool.not_eq_false'] at ha
    split at h
    · rename_i m n hc
      obtain ⟨rfl, hm, hn⟩ := BinaryOp.addends_iff.1 hc
      obtain ⟨w, pos, hw, -⟩ := hl.const hm
      rw [hw] at h ha
      obtain ⟨_, hv, h⟩ := bind_ok_iff.1 h
      cases hv
      obtain ⟨t, ht, hb⟩ := bind_ok_iff.1 h
      obtain ⟨-, rfl⟩ := Ty.sized_ok ht
      cases hb
      refine ⟨.binary ?_, .inl (.sum hm hn hw)⟩
      have : r.typ lhs = .bv w := hw
      rw [this]
      exact BinaryOp.typed_of_accepts ha rfl
    · rename_i hc
      obtain ⟨t, ht, hb⟩ := bind_ok_iff.1 h
      refine plain (fun b' hs => ?_) (Except.ok.inj hb).symm (.binary (BinaryOp.typed_of_accepts ha ht))
      cases hs with
      | sum h1 h2 => rw [h1, h2] at hc; cases hc

/-- **A constructor whose operand types are in the table succeeds**, with a result of the type in the table. -/
theorem Typed.resolve (h : Typed (f.map r.typ) t) (ho : ∀ a ∈ f.operands, (r.node a).Typed r.typ) :
    ∃ b, f.resolve r = .ok b ∧ b.typ r = t := by
  have hb : ∃ b, f.resolve r = .ok b := by
    cases f with
    | bvConst w v =>
      cases h with
      | bvConst pos => exact ⟨_, by rw [Form.resolve, Ty.sized_of_pos pos]; rfl⟩
    | bvZero w =>
      cases h with
      | bvZero pos => exact ⟨_, by rw [Form.resolve, Ty.sized_of_pos pos]; rfl⟩
    | boolConst | arrayRef | varRef => exact ⟨_, rfl⟩
    | pointer a o => exact ⟨_, by rw [Form.resolve, access_pointer_iff.2 h]; rfl⟩
    | load a o => exact ⟨_, by rw [Form.resolve, access_load_iff.2 h]; rfl⟩
    | call c args => exact ⟨_, resolveCall_ok_iff.2 ⟨t, rfl, h⟩⟩
    | bvExtract e offset width => exact ⟨_, resolveExtract_ok_iff.2 ⟨t, rfl, h⟩⟩
    | extend x e width => exact ⟨_, resolveExtend_ok_iff.2 ⟨t, rfl, h⟩⟩
    | unary op e =>
      obtain ⟨ha, hr⟩ := h.of_unary.accepted
      unfold Reader.typ at ha hr
      simp only [Form.resolve, resolveUnary, ha, hr]
      cases op.cancel? (r.node e).shape <;> exact ⟨_, rfl⟩
    | binary op lhs rhs =>
      obtain ⟨ha, hr⟩ := h.of_binary.accepted
      unfold Reader.typ at ha hr
      simp only [Form.resolve, resolveBinary, ha, hr]
      cases hc : op.addends? (r.node lhs).shape (r.node rhs).shape with
      | none => exact ⟨_, rfl⟩
      | some p =>
        obtain ⟨m, n⟩ := p
        obtain ⟨w, pos, hw, -⟩ := (ho lhs (List.mem_cons_self ..)).const (BinaryOp.addends_iff.1 hc).2.1
        rw [hw]
        refine ⟨.fresh (.bvConst ((m + n) % pow2 w)) (.bv w), ?_⟩
        change (Ty.sized .bv w >>= fun u => Except.ok (Built.fresh _ u)) = _
        rw [Ty.sized_of_pos pos]
        rfl
  obtain ⟨b, hb⟩ := hb
  exact ⟨b, hb, (resolve_ok hb ho).1.unique h⟩

theorem wrap_lt (w : UInt64) (v : Int) : wrap w v < pow2 w := by
  have h : (0 : Int) < pow2 w := Int.natCast_pos.2 (pow2_pos w)
  rw [wrap, Int.toNat_lt (Int.emod_nonneg v (Int.ne_of_gt h))]
  exact Int.emod_lt_of_pos v h

theorem wrap_of_lt {w : UInt64} {n : Nat} (h : n < pow2 w) : wrap w n = n := by
  rw [wrap, Int.emod_eq_of_lt (Int.natCast_nonneg n) (Int.ofNat_lt.2 h), Int.toNat_natCast]

/-- The node that a constructor names stands in the table if the constructor does. -/
theorem typed_shape {typ : α → Ty} (h : Typed (f.map typ) t) : Node.Typed typ ⟨f.shape, t⟩ := by
  cases f with
  | bvConst w v =>
    cases h with
    | bvConst pos =>
      refine ⟨.bvConst pos, fun hv hw => ?_⟩
      cases hv
      cases hw
      exact wrap_lt w v
  | bvZero w =>
    cases h with
    | bvZero pos =>
      refine ⟨.bvConst pos, fun hv hw => ?_⟩
      cases hv
      exact pow2_pos _
  | bvExtract e offset width =>
    refine ⟨?_, nofun⟩
    simp only [Form.map] at h
    generalize he : typ e = te at h
    cases h with
    | bvExtract pos fits => simpa [Form.shape, Shape.form, Form.map, he, Ty.width?] using Typed.bvExtract pos fits
  | extend x e width =>
    simp only [Form.map] at h
    generalize he : typ e = te at h
    cases h with
    | extend pos wider =>
      cases x <;> refine ⟨?_, nofun⟩ <;>
        simpa [Form.shape, Extension.shape, Shape.form, Form.map, he, Ty.width?] using Typed.extend pos wider
  | boolConst | arrayRef | varRef | pointer | load | call | unary | binary => exact ⟨h, nofun⟩

theorem shape_operands (f : Form α) : f.shape.operands = f.operands := by
  cases f with
  | extend x e width => cases x <;> rfl
  | bvConst | bvZero | boolConst | arrayRef | varRef | pointer | load | call | bvExtract | unary | binary => rfl

theorem resolve_operands {s : Shape α} (h : f.resolve r = .ok (.fresh s t))
    (ho : ∀ a ∈ f.operands, (r.node a).Typed r.typ) : ∀ a ∈ s.operands, a ∈ f.operands := by
  intro a ha
  rcases (resolve_ok h ho).2 with hs | ⟨-, u, hu⟩
  · cases hs with
    | sum => cases ha
  · cases hu
    rwa [shape_operands] at ha

/-- What a constructor answers with, when it makes no node, is an operand of an operand. -/
theorem resolve_reuse {x : α} (h : f.resolve r = .ok (.reuse x)) (ho : ∀ a ∈ f.operands, (r.node a).Typed r.typ) :
    ∃ e ∈ f.operands, x ∈ (r.node e).shape.operands := by
  rcases (resolve_ok h ho).2 with hs | ⟨-, u, hu⟩
  · cases hs with
    | @cancel op e _ hc => exact ⟨e, List.mem_singleton_self e, UnaryOp.operand_of_cancel hc⟩
  · cases hu

theorem resolve_fresh {s : Shape α} (h : f.resolve r = .ok (.fresh s t))
    (ho : ∀ a ∈ f.operands, (r.node a).Typed r.typ) : Node.Typed r.typ ⟨s, t⟩ := by
  obtain ⟨ht, hs⟩ := resolve_ok h ho
  rcases hs with hs | ⟨-, u, hu⟩
  · cases hs with
    | sum hl _ hw =>
      obtain ⟨w, pos, hw', -⟩ := (ho _ (List.mem_cons_self ..)).const hl
      rw [hw] at hw'
      cases hw'
      refine ⟨.bvConst pos, fun hv hw' => ?_⟩
      cases hv
      cases hw'
      exact Nat.mod_lt _ (pow2_pos _)
  · cases hu
    exact typed_shape ht

end Form
end KernelIR
