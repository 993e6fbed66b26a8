import KernelIR.Proofs.Reachable
/-!
# Meaning — simplification preserves what a term means

A reading gives every constructor a meaning over the meanings of its operands (`Reading.apply`).  It is free but for the
laws that the rules rest on: bit-vectors are residues, constants and sums are taken modulo `2 ^ width`, and a pointer is
a pair.  In an interpretation (`Interpretation`) the conversions between bit-vectors and floats or pointers are inverse
to each other besides.

`Term.denote` is the meaning of a term as it is written, `Reading.meaning` that of a tree of nodes.  In every
interpretation the two agree for what a term evaluates to (`Workspace.Reachable.meaning_preserved`).  That every pointer
comes back from the bits it is converted to leaves room for one array id only; so the same is shown of every reading,
for the terms whose round trips it takes back (`Workspace.Reachable.meaning_preserved_of_exact`).
-/
namespace KernelIR

/-- Values, over array ids `A`, truth values `B` and floats `F` of each width. -/
inductive Value (A B : Type) (F : UInt64 → Type) where
  | bv (n : Nat)
  | bool (b : B)
  | float (w : UInt64) (x : F w)
  | array (a : A)
  /-- An array id with an offset. -/
  | pointer (a : A) (offset : Nat)

variable {A B : Type} {F : UInt64 → Type}

/-- The values of a type: bit-vectors and offsets of `w` bits are below `2 ^ w`. -/
inductive Value.Of : Value A B F → Ty → Prop
  | bv {n : Nat} {w : UInt64} (h : n < pow2 w) : Of (.bv n) (.bv w)
  | bool {b : B} : Of (.bool b) .bool
  | float {w : UInt64} {x : F w} : Of (.float w x) (.float w)
  | array {a : A} : Of (.array a) .arrayId
  | pointer {a : A} {o : Nat} {w : UInt64} (h : o < pow2 w) : Of (.pointer a o) (.pointer w)

/-- What an operand means: a value, and the type it is taken at. -/
structure Datum (A B : Type) (F : UInt64 → Type) where
  typ : Ty
  value : Value A B F

/-- **A reading of the constructors**, and the laws that simplification rests on, but for those of conversions. -/
structure Reading (A B : Type) (F : UInt64 → Type) where
  apply : Form (Datum A B F) → Value A B F
  /-- A constructor in the table gives a value of its type. -/
  sound : ∀ {f : Form (Datum A B F)} {t : Ty}, Form.Typed (f.map Datum.typ) t →
    (∀ d ∈ f.operands, d.value.Of d.typ) → (apply f).Of t
  bvConst : ∀ {w : UInt64} (v : Int), 0 < w → apply (.bvConst w v) = .bv (v % pow2 w).toNat
  bvZero : ∀ {w : UInt64}, 0 < w → apply (.bvZero w) = .bv 0
  bvAdd : ∀ {w : UInt64} {m n : Nat}, m < pow2 w → n < pow2 w →
    apply (.binary .bvAdd ⟨.bv w, .bv m⟩ ⟨.bv w, .bv n⟩) = .bv ((m + n) % pow2 w)
  pointer : ∀ {w : UInt64} {a : A} {o : Nat}, o < pow2 w →
    apply (.pointer ⟨.arrayId, .array a⟩ ⟨.bv w, .bv o⟩) = .pointer a o
  arrayId : ∀ {w : UInt64} {a : A} {o : Nat}, o < pow2 w →
    apply (.unary .arrayId ⟨.pointer w, .pointer a o⟩) = .array a
  arrayOffset : ∀ {w : UInt64} {a : A} {o : Nat}, o < pow2 w →
    apply (.unary .arrayOffset ⟨.pointer w, .pointer a o⟩) = .bv o

/-- The value `x` of type `t`, converted to type `u` and back, is `x` again. -/
def Reading.RoundTrip (I : Reading A B F) (op inv : UnaryOp) (t u : Ty) (x : Value A B F) : Prop :=
  I.apply (.unary inv ⟨u, I.apply (.unary op ⟨t, x⟩)⟩) = x

/-- **An interpretation**: a reading where conversions are inverse to each other. -/
structure Interpretation (A B : Type) (F : UInt64 → Type) extends Reading A B F where
  inverse : ∀ {op inv : UnaryOp} {t u : Ty} {x : Value A B F}, op.Inverse inv → op.Typed t u → inv.Typed u t → x.Of t →
    toReading.RoundTrip op inv t u x

namespace Form

/-- The type that a constructor in the table gives. -/
def typ : Form Ty → Ty
  | .bvConst w _ | .bvZero w | .bvExtract _ _ w | .extend _ _ w => .bv w
  | .boolConst _ => .bool
  | .arrayRef _ => .arrayId
  | .varRef v => v.typ
  | .pointer _ o => .pointer (o.width?.getD 0)
  | .load _ _ => .bv 8
  | .call c _ => c.returns.headD .bool
  | .unary op t => (op.result t).toOption.getD .bool
  | .binary op l r => (op.result l r).toOption.getD .bool

theorem Typed.typ_eq {f : Form Ty} {t : Ty} (h : f.Typed t) : f.typ = t := by
  cases h with
  | bvConst | bvZero | boolConst | arrayRef | varRef | pointer | load | bvExtract | extend => rfl
  | call one =>
    rw [typ, one]
    rfl
  | unary h =>
    rw [typ, h.accepted.2]
    rfl
  | binary h =>
    rw [typ, h.accepted.2]
    rfl

end Form

namespace Reading

variable (I : Reading A B F)

/-- The meaning of a constructor over the meanings of its operands. -/
def construct (f : Form (Datum A B F)) : Datum A B F := ⟨(f.map Datum.typ).typ, I.apply f⟩

/-- The meaning of a tree, from the leaves up. -/
def meaning : Tree → Datum A B F := Tree.fold fun s t => ⟨t, I.apply (s.form t)⟩

theorem meaning_mk (s : Shape Tree) (t : Ty) : I.meaning (.mk s t) = ⟨t, I.apply ((s.form t).map I.meaning)⟩ := by
  rw [meaning, Tree.fold_mk, Shape.form_map]

theorem typ_meaning (u : Tree) : (I.meaning u).typ = u.typ := by
  cases u
  rw [meaning_mk]
  rfl

theorem meaning_of {u : Tree} (h : u.Typed) : (I.meaning u).value.Of u.typ := by
  induction h with
  | @mk s t node operands ih =>
    rw [meaning_mk]
    have ho : ∀ d ∈ ((s.form t).map I.meaning).operands, d.value.Of d.typ := fun d hd => by
      rw [← Shape.form_map, Shape.form_operands, Shape.operands_map] at hd
      obtain ⟨u, hu, rfl⟩ := List.mem_map.1 hd
      rw [typ_meaning]
      exact ih u hu
    refine I.sound ?_ ho
    rw [Form.map_map, show Datum.typ ∘ I.meaning = Tree.typ from funext I.typ_meaning]
    exact node.inTable

theorem meaning_eq (u : Tree) : I.meaning u = ⟨u.typ, (I.meaning u).value⟩ := by
  rw [← I.typ_meaning u]

theorem meaning_array {u : Tree} (h : u.Typed) (ht : u.typ = .arrayId) : ∃ a, I.meaning u = ⟨.arrayId, .array a⟩ := by
  have hv := I.meaning_of h
  rw [I.meaning_eq, ht]
  rw [ht] at hv
  generalize (I.meaning u).value = v at hv
  cases hv with
  | array => exact ⟨_, rfl⟩

theorem meaning_bv {u : Tree} {w : UInt64} (h : u.Typed) (ht : u.typ = .bv w) :
    ∃ n, n < pow2 w ∧ I.meaning u = ⟨.bv w, .bv n⟩ := by
  have hv := I.meaning_of h
  rw [I.meaning_eq, ht]
  rw [ht] at hv
  generalize (I.meaning u).value = v at hv
  cases hv with
  | bv h => exact ⟨_, h, rfl⟩

theorem meaning_const {w : UInt64} {n : Nat} (pos : 0 < w) (hn : n < pow2 w) :
    I.meaning (.mk (.bvConst n) (.bv w)) = ⟨.bv w, .bv n⟩ := by
  rw [meaning_mk]
  change Datum.mk _ (I.apply (.bvConst w n)) = _
  rw [I.bvConst _ pos]
  have hm : ((n : Int) % pow2 w).toNat = n := Form.wrap_of_lt hn
  rw [hm]

/-! ## One constructor -/

/-- A node that is made as it is asked for means what was asked for. -/
theorem meaning_plain {f : Form Tree} {t : Ty} (row : Form.Typed (f.map Tree.typ) t) :
    I.meaning (.mk f.shape t) = I.construct (f.map I.meaning) := by
  have ht : ((f.map I.meaning).map Datum.typ).typ = t := by
    rw [Form.map_map, show Datum.typ ∘ I.meaning = Tree.typ from funext I.typ_meaning]
    exact row.typ_eq
  rw [meaning_mk, construct, ht]
  refine congrArg (Datum.mk t) ?_
  cases f with
  | bvConst w v =>
    obtain ⟨pos, rfl⟩ := row.of_bvConst
    change I.apply (.bvConst w (wrap w v)) = I.apply (.bvConst w v)
    have hp : (0 : Int) < pow2 w := Int.natCast_pos.2 (pow2_pos w)
    have hv : 0 ≤ v % pow2 w := Int.emod_nonneg v (Int.ne_of_gt hp)
    rw [I.bvConst _ pos, I.bvConst _ pos, wrap, Int.toNat_of_nonneg hv, Int.emod_emod]
  | bvZero w =>
    cases row with
    | bvZero pos =>
      change I.apply (.bvConst w (0 : Nat)) = I.apply (.bvZero w)
      rw [I.bvConst _ pos, I.bvZero pos]
      rfl
  | bvExtract e offset width =>
    cases row.typ_eq
    rfl
  | extend x e width =>
    cases row.typ_eq
    cases x <;> rfl
  | boolConst | arrayRef | varRef | pointer | load | call | unary | binary => rfl

theorem value_pointer {a o : Tree} {w : UInt64} (ta : a.Typed) (tb : o.Typed) (ha : a.typ = .arrayId)
    (ho : o.typ = .bv w) :
    (I.meaning a).value = I.apply (.unary .arrayId (I.meaning (.mk (.pointer a o) (.pointer w)))) ∧
    (I.meaning o).value = I.apply (.unary .arrayOffset (I.meaning (.mk (.pointer a o) (.pointer w)))) := by
  obtain ⟨x, hx⟩ := I.meaning_array ta ha
  obtain ⟨n, hn, hy⟩ := I.meaning_bv tb ho
  rw [meaning_mk]
  change _ = I.apply (.unary _ ⟨_, I.apply (.pointer (I.meaning a) (I.meaning o))⟩) ∧
    _ = I.apply (.unary _ ⟨_, I.apply (.pointer (I.meaning a) (I.meaning o))⟩)
  rw [hx, hy, I.pointer hn, I.arrayId hn, I.arrayOffset hn]
  exact ⟨rfl, rfl⟩

/-- Where the constructor is the second half of a round trip, the reading takes the round trip back. -/
def Exact : Form Tree → Prop
  | .unary inv e => ∀ op x, e.Typed → e.shape = .unary op x → op.Inverse inv → inv.Typed e.typ x.typ →
    I.RoundTrip op inv x.typ e.typ (I.meaning x).value
  | .bvConst _ _ | .bvZero _ | .boolConst _ | .arrayRef _ | .varRef _ | .pointer _ _ | .load _ _ | .call _ _
  | .bvExtract _ _ _ | .extend _ _ _ | .binary _ _ _ => True

theorem value_inverse {op inv : UnaryOp} {x : Tree} {t : Ty} (hi : op.Inverse inv)
    (he : (Tree.mk (.unary op x) t).Typed) (back : inv.Typed t x.typ)
    (trip : I.Exact (.unary inv (.mk (.unary op x) t))) :
    (I.meaning x).value = I.apply (.unary inv (I.meaning (.mk (.unary op x) t))) := by
  rw [meaning_mk]
  change _ = I.apply (.unary inv ⟨t, I.apply (.unary op (I.meaning x))⟩)
  rw [I.meaning_eq x]
  exact (trip op x he rfl hi back).symm

theorem meaning_cancel {op : UnaryOp} {e x : Tree} (he : e.Typed) (row : op.Typed e.typ x.typ)
    (hc : op.cancel? e.shape = some x) (trip : I.Exact (.unary op e)) :
    I.meaning x = I.construct (.unary op (I.meaning e)) := by
  have hx : x.Typed := he.operand (UnaryOp.operand_of_cancel hc)
  have ht : (Form.unary op (I.meaning e).typ).typ = x.typ := by
    rw [I.typ_meaning]
    exact (Form.Typed.unary row).typ_eq
  have hv : (I.meaning x).value = I.apply (.unary op (I.meaning e)) := by
    obtain ⟨s, t⟩ := e
    have hn := he.node.inTable
    change op.Typed t x.typ at row
    change op.cancel? s = some x at hc
    unfold UnaryOp.cancel? at hc
    split at hc <;> cases hc
    · rename_i o
      obtain ⟨w, -, ha, ho, rfl⟩ := hn.of_pointer
      exact (I.value_pointer hx (he.operand (by simp [Tree.reader, Tree.node, Tree.shape, Shape.operands])) ha ho).1
    · rename_i a
      obtain ⟨w, -, ha, ho, rfl⟩ := hn.of_pointer
      exact (I.value_pointer (he.operand (by simp [Tree.reader, Tree.node, Tree.shape, Shape.operands])) hx ha ho).2
    · exact I.value_inverse .floatToBv he row trip
    · exact I.value_inverse .bvToFloat he row trip
    · exact I.value_inverse .ptrToBv he row trip
    · exact I.value_inverse .bvToPtr he row trip
  rw [I.meaning_eq x, hv, ← ht]
  rfl

theorem meaning_sum {lhs rhs : Tree} {m n : Nat} {w : UInt64} (hl : lhs.Typed) (hr : rhs.Typed)
    (sl : lhs.shape = .bvConst m) (sr : rhs.shape = .bvConst n) (row : BinaryOp.Typed .bvAdd lhs.typ rhs.typ (.bv w)) :
    I.meaning (.mk (.bvConst ((m + n) % pow2 w)) (.bv w)) =
      I.construct (.binary .bvAdd (I.meaning lhs) (I.meaning rhs)) := by
  obtain ⟨s, t⟩ := lhs
  obtain ⟨s', t'⟩ := rhs
  cases sl
  cases sr
  obtain ⟨k, pos, ht, hm⟩ := hl.node.const rfl
  obtain ⟨k', -, ht', hn⟩ := hr.node.const rfl
  cases ht
  cases ht'
  cases row
  rw [I.meaning_const pos (Nat.mod_lt _ (pow2_pos _)), I.meaning_const pos hm, I.meaning_const pos hn, construct,
    I.bvAdd hm hn]
  rfl

/-- **One constructor preserves meaning**, whichever rule fires. -/
theorem meaning_construct {f : Form Tree} {u : Tree} (hf : ∀ v ∈ f.operands, v.Typed) (trip : I.Exact f)
    (h : Tree.construct f = .ok u) : I.meaning u = I.construct (f.map I.meaning) := by
  obtain ⟨b, hb, rfl⟩ := Tree.construct_ok h
  obtain ⟨row, hs⟩ := Form.resolve_ok hb fun v hv => (hf v hv).node
  rcases hs with hs | ⟨-, t, rfl⟩
  · cases hs with
    | @cancel op e x hc => exact I.meaning_cancel (hf e (by simp [Form.operands])) row.of_unary hc trip
    | @sum lhs rhs m n w sl sr hw =>
      exact I.meaning_sum (hf lhs (by simp [Form.operands])) (hf rhs (by simp [Form.operands])) sl sr row.of_binary
  · exact I.meaning_plain row

end Reading

/-- An interpretation takes every round trip back. -/
theorem Interpretation.exact_of (I : Interpretation A B F) (f : Form Tree) : I.Exact f := by
  cases f with
  | unary inv e =>
    obtain ⟨s, t⟩ := e
    rintro op x he rfl hi back
    exact I.inverse hi he.node.inTable.of_unary back (I.meaning_of (he.operand (List.mem_singleton_self x)))
  | bvConst | bvZero | boolConst | arrayRef | varRef | pointer | load | call | bvExtract | extend | binary => trivial

/-! ## Bits -/

namespace Reading

-- the array of the pointers that are made of bits
variable (d : A)

def zero : Ty → Value A Bool fun w => BitVec w.toNat
  | .bv _ => .bv 0
  | .bool => .bool false
  | .float w => .float w 0
  | .arrayId => .array d
  | .pointer _ => .pointer d 0

theorem zero_of (t : Ty) : (zero d t).Of t := by
  cases t with
  | bv | pointer => constructor; exact pow2_pos _
  | bool | float | arrayId => constructor

def convert (op : UnaryOp) (t : Ty) (v : Value A Bool fun w => BitVec w.toNat) :
    Value A Bool fun w => BitVec w.toNat :=
  match op, t, v with
  | .arrayId, _, .pointer a _ => .array a
  | .arrayOffset, _, .pointer _ o | .ptrToBv, _, .pointer _ o => .bv o
  | .bvToPtr, _, .bv n => .pointer d n
  | .floatToBv, _, .float _ x => .bv x.toNat
  | .bvToFloat, .bv w, .bv n => .float w (.ofNat _ n)
  | op, t, _ => zero d (Form.unary op t).typ

theorem convert_of {op : UnaryOp} {t u : Ty} {v : Value A Bool fun w => BitVec w.toNat} (row : op.Typed t u)
    (hv : v.Of t) : (convert d op t v).Of u := by
  cases row with
  | arrayId => cases hv with | pointer => exact .array
  | boolToBv => cases hv; exact zero_of d (.bv 1)
  | bvToBool | not => cases hv; exact zero_of d .bool
  | arrayOffset | ptrToBv => cases hv with | pointer h => exact .bv h
  | bvToFloat => cases hv with | bv h => exact .float
  | floatToBv => cases hv with | float => exact .bv (BitVec.isLt _)
  | bvToPtr => cases hv with | bv h => exact .pointer h

/-- A reading: floats are their bits, and arrays are told apart by `array`. -/
def bits (array : GlobalArray → A) : Reading A Bool fun w => BitVec w.toNat where
  apply
    | .bvConst w v => .bv (wrap w v)
    | .arrayRef g => .array (array g)
    | .pointer ⟨_, .array a⟩ ⟨_, .bv o⟩ => .pointer a o
    | .unary op x => convert d op x.typ x.value
    | .binary .bvAdd ⟨.bv w, .bv m⟩ ⟨.bv _, .bv n⟩ => .bv ((m + n) % pow2 w)
    | f => zero d (f.map Datum.typ).typ
  sound {f t} row hf := by
    have plain : (zero d (f.map Datum.typ).typ).Of t := row.typ_eq ▸ zero_of d _
    cases f with
    | bvConst w v =>
      obtain ⟨-, rfl⟩ := row.of_bvConst
      exact .bv (Form.wrap_lt w v)
    | arrayRef g =>
      cases row
      exact .array
    | unary op x => exact convert_of d row.of_unary (hf x (List.mem_singleton_self x))
    | pointer a o =>
      obtain ⟨ta, va⟩ := a
      obtain ⟨t, v⟩ := o
      obtain ⟨w, -, ha, ho, rfl⟩ := row.of_pointer
      cases ha
      cases ho
      have array := hf ⟨.arrayId, va⟩ (List.mem_cons_self ..)
      have offset := hf ⟨.bv w, v⟩ (List.mem_cons_of_mem _ (List.mem_singleton_self _))
      cases array
      cases offset with
      | bv h => exact .pointer h
    | binary op l r =>
      obtain ⟨tl, vl⟩ := l
      obtain ⟨tr, vr⟩ := r
      cases op
      case bvAdd =>
        have hl := hf ⟨tl, vl⟩ (List.mem_cons_self ..)
        have hr := hf ⟨tr, vr⟩ (List.mem_cons_of_mem _ (List.mem_singleton_self _))
        cases row.of_binary with
        | arithmetic =>
          cases hl
          cases hr
          exact .bv (Nat.mod_lt _ (pow2_pos _))
        | equality h | connective h => rcases h with h | h <;> cases h
        | comparison h => exact absurd h (by decide)
      all_goals exact plain
    | bvZero | boolConst | varRef | load | call | bvExtract | extend => exact plain
  bvConst _ _ := rfl
  bvZero _ := rfl
  bvAdd _ _ := rfl
  pointer _ := rfl
  arrayId _ := rfl
  arrayOffset _ := rfl

end Reading

/-- An interpretation: floats are their bits, and there is one array. -/
def Interpretation.bits : Interpretation Unit Bool fun w => BitVec w.toNat where
  toReading := .bits () fun _ => ()
  inverse {op inv t u x} hi there back hx := by
    cases hi <;> cases there <;> cases back <;> cases hx
    case floatToBv => exact congrArg (Value.float _) ((BitVec.ofNat_toNat _ _).trans (BitVec.setWidth_eq _))
    case bvToFloat h => exact congrArg Value.bv (Nat.mod_eq_of_lt h)
    all_goals rfl

/-! ## Terms -/

namespace Term

section Denote

variable (I : Reading A B F) (w : Workspace)

mutual

/-- The meaning of a term as it is written, constructor by constructor. -/
def denote : Term → Option (Datum A B F)
  | .slot x => return I.meaning (w.store.tree (← w.exprs.get? x))
  | .bvConst k v => return I.construct (.bvConst k v)
  | .bvZero k => return I.construct (.bvZero k)
  | .boolConst b => return I.construct (.boolConst b)
  | .arrayRef a => return I.construct (.arrayRef (← w.arrays.get? a))
  | .varRef v => return I.construct (.varRef (← w.vars.get? v))
  | .pointer a o => return I.construct (.pointer (← a.denote) (← o.denote))
  | .load a o => return I.construct (.load (← a.denote) (← o.denote))
  | .call c args => return I.construct (.call (← w.callees.get? c) (← denoteList args))
  | .bvExtract e offset width => return I.construct (.bvExtract (← e.denote) offset width)
  | .extend x e width => return I.construct (.extend x (← e.denote) width)
  | .unary op e => return I.construct (.unary op (← e.denote))
  | .binary op l r => return I.construct (.binary op (← l.denote) (← r.denote))

def denoteList : List Term → Option (List (Datum A B F))
  | [] => return []
  | t :: ts => return (← t.denote) :: (← denoteList ts)

end

mutual

/-- Wherever the evaluation of the term cancels a round trip, the reading takes it back. -/
def Exact : Term → Prop
  | .slot _ | .bvConst _ _ | .bvZero _ | .boolConst _ | .arrayRef _ | .varRef _ => True
  | .pointer a o | .load a o => a.Exact ∧ o.Exact
  | .call _ args => ExactList args
  | .bvExtract e _ _ | .extend _ e _ => e.Exact
  | .unary op e => e.Exact ∧ ∀ u, e.eval w = .ok u → I.Exact (.unary op u)
  | .binary _ l r => l.Exact ∧ r.Exact

def ExactList : List Term → Prop
  | [] => True
  | t :: ts => t.Exact ∧ ExactList ts

end

end Denote

mutual

/-- In an interpretation all terms are exact. -/
theorem exact_of (I : Interpretation A B F) (w : Workspace) : ∀ t : Term, t.Exact I.toReading w
  | .slot _ | .bvConst _ _ | .bvZero _ | .boolConst _ | .arrayRef _ | .varRef _ => trivial
  | .pointer a o | .load a o => ⟨exact_of I w a, exact_of I w o⟩
  | .call _ args => exactList_of I w args
  | .bvExtract e _ _ | .extend _ e _ => exact_of I w e
  | .unary _ e => ⟨exact_of I w e, fun _ _ => I.exact_of _⟩
  | .binary _ l r => ⟨exact_of I w l, exact_of I w r⟩

theorem exactList_of (I : Interpretation A B F) (w : Workspace) : ∀ ts : List Term, ExactList I.toReading w ts
  | [] => trivial
  | t :: ts => ⟨exact_of I w t, exactList_of I w ts⟩

end

variable {w : Workspace} (I : Reading A B F)

theorem apply_meaning {f : Form Tree} {u : Tree} (hf : ∀ v ∈ f.operands, v.Typed) (h : apply f = .ok u)
    (trip : I.Exact f) : u.Typed ∧ some (I.construct (f.map I.meaning)) = some (I.meaning u) :=
  ⟨(apply_sound hf h).1, congrArg some (I.meaning_construct hf trip (apply_ok_iff.1 h)).symm⟩

mutual

theorem denote_of_eval (hs : w.Sound) : ∀ (t : Term) {u : Tree}, t.Exact I w → t.eval w = .ok u →
    u.Typed ∧ t.denote I w = some (I.meaning u)
  | .slot x, u, _, h => by
    rw [eval] at h
    obtain ⟨n, hn, h⟩ := bind_ok_iff.1 h
    cases h
    have hl : w.store.Live n := hs.live_of_slot (lookup_ok hn)
    rw [denote, lookup_ok_iff.1 hn]
    exact ⟨hs.books.tree_typed hl, rfl⟩
  | .bvConst k v, u, _, h | .bvZero k, u, _, h | .boolConst b, u, _, h => by
    rw [eval] at h
    exact apply_meaning I (List.forall_mem_nil _) h trivial
  | .arrayRef x, u, _, h => by
    rw [eval] at h
    obtain ⟨a, ha, h⟩ := bind_ok_iff.1 h
    rw [denote, lookup_ok_iff.1 ha]
    exact apply_meaning I (List.forall_mem_nil _) h trivial
  | .varRef x, u, _, h => by
    rw [eval] at h
    obtain ⟨v, hv, h⟩ := bind_ok_iff.1 h
    rw [denote, lookup_ok_iff.1 hv]
    exact apply_meaning I (List.forall_mem_nil _) h trivial
  | .pointer a o, u, ⟨ea, eo⟩, h => by
    rw [eval] at h
    obtain ⟨va, ha, h⟩ := bind_ok_iff.1 h
    obtain ⟨vo, ho, h⟩ := bind_ok_iff.1 h
    obtain ⟨ta, da⟩ := denote_of_eval hs a ea ha
    obtain ⟨tb, db⟩ := denote_of_eval hs o eo ho
    rw [denote, da, db]
    exact apply_meaning I (by simpa [Form.operands] using ⟨ta, tb⟩) h trivial
  | .load a o, u, ⟨ea, eo⟩, h => by
    rw [eval] at h
    obtain ⟨va, ha, h⟩ := bind_ok_iff.1 h
    obtain ⟨vo, ho, h⟩ := bind_ok_iff.1 h
    obtain ⟨ta, da⟩ := denote_of_eval hs a ea ha
    obtain ⟨tb, db⟩ := denote_of_eval hs o eo ho
    rw [denote, da, db]
    exact apply_meaning I (by simpa [Form.operands] using ⟨ta, tb⟩) h trivial
  | .call x args, u, ea, h => by
    rw [eval] at h
    obtain ⟨c, hc, h⟩ := bind_ok_iff.1 h
    obtain ⟨vs, hv, h⟩ := bind_ok_iff.1 h
    obtain ⟨tv, dv⟩ := denoteList_of_evalList hs args ea hv
    rw [denote, lookup_ok_iff.1 hc, dv]
    exact apply_meaning I (f := .call c vs) tv h trivial
  | .bvExtract e offset width, u, ee, h => by
    rw [eval] at h
    obtain ⟨v, hv, h⟩ := bind_ok_iff.1 h
    obtain ⟨tv, dv⟩ := denote_of_eval hs e ee hv
    rw [denote, dv]
    exact apply_meaning I (by simpa [Form.operands] using tv) h trivial
  | .extend x e width, u, ee, h => by
    rw [eval] at h
    obtain ⟨v, hv, h⟩ := bind_ok_iff.1 h
    obtain ⟨tv, dv⟩ := denote_of_eval hs e ee hv
    rw [denote, dv]
    exact apply_meaning I (by simpa [Form.operands] using tv) h trivial
  | .unary op e, u, ⟨ee, round⟩, h => by
    rw [eval] at h
    obtain ⟨v, hv, h⟩ := bind_ok_iff.1 h
    obtain ⟨tv, dv⟩ := denote_of_eval hs e ee hv
    rw [denote, dv]
    exact apply_meaning I (by simpa [Form.operands] using tv) h (round v hv)
  | .binary op l r, u, ⟨el, er⟩, h => by
    rw [eval] at h
    obtain ⟨vl, hl, h⟩ := bind_ok_iff.1 h
    obtain ⟨vr, hr, h⟩ := bind_ok_iff.1 h
    obtain ⟨tl, dl⟩ := denote_of_eval hs l el hl
    obtain ⟨tr, dr⟩ := denote_of_eval hs r er hr
    rw [denote, dl, dr]
    exact apply_meaning I (by simpa [Form.operands] using ⟨tl, tr⟩) h trivial

theorem denoteList_of_evalList (hs : w.Sound) : ∀ (ts : List Term) {us : List Tree}, ExactList I w ts →
    evalList w ts = .ok us → (∀ u ∈ us, u.Typed) ∧ denoteList I w ts = some (us.map I.meaning)
  | [], us, _, h => by
    cases h
    exact ⟨List.forall_mem_nil _, rfl⟩
  | t :: ts, us, ⟨et, ets⟩, h => by
    rw [evalList] at h
    obtain ⟨v, hv, h⟩ := bind_ok_iff.1 h
    obtain ⟨vs, hvs, h⟩ := bind_ok_iff.1 h
    cases h
    obtain ⟨tv, dv⟩ := denote_of_eval hs t et hv
    obtain ⟨tvs, dvs⟩ := denoteList_of_evalList hs ts ets hvs
    rw [denoteList, dv, dvs]
    exact ⟨List.forall_mem_cons.2 ⟨tv, tvs⟩, rfl⟩

end

end Term

namespace Workspace

/-- In every reading, a term that is accepted and exact means as it is written what the node means that it evaluates to,
a value of the node's type. -/
theorem Reachable.meaning_preserved_of_exact {w w' : Workspace} (h : w.Reachable) (I : Reading A B F) {t : Term}
    {n : NodeId} (trips : t.Exact I w) (hr : t.build w = .ok n w') :
    t.denote I w = some (I.meaning (w'.store.tree n)) ∧ (I.meaning (w'.store.tree n)).value.Of (w'.store.typ n) := by
  have hs := h.sound
  obtain ⟨hg, u, ⟨hl, rfl⟩, he⟩ := Build.Ends.ok (hs.yields t) hr
  obtain ⟨ht, hd⟩ := Term.denote_of_eval I hs t trips he
  refine ⟨hd, ?_⟩
  rw [← (hg.books hs.books).typ_tree hl]
  exact I.meaning_of ht

/-- A reading can tell two arrays of a module apart. -/
example :
    let w := (empty.run [.module "m" .spir (some "m"), .addArray "m" "in" .global (some "a"),
      .addArray "m" "out" .global (some "b")]).2
    ((Term.arrayRef "a").denote (.bits 0 (·.id)) w, (Term.arrayRef "b").denote (.bits 0 (·.id)) w) =
      (some ⟨.arrayId, .array 0⟩, some ⟨.arrayId, .array 1⟩) := rfl

/-- **Simplification preserves meaning**: in every interpretation, a term that is accepted means as it is written what
the node means that it evaluates to, a value of the node's type. -/
theorem Reachable.meaning_preserved {w w' : Workspace} (h : w.Reachable) (I : Interpretation A B F) {t : Term}
    {n : NodeId} (hr : t.build w = .ok n w') :
    t.denote I.toReading w = some (I.meaning (w'.store.tree n)) ∧
      (I.meaning (w'.store.tree n)).value.Of (w'.store.typ n) :=
  h.meaning_preserved_of_exact I.toReading (t.exact_of I w) hr

def movedOffset : Term :=
  .binary .bvAdd (.unary .arrayOffset (.pointer (.unary .arrayId (.unary .bvToPtr (.bvConst 8 1))) (.bvConst 8 200)))
    (.bvConst 8 100)

theorem meaning_preserved_movedOffset : ∃ n w', movedOffset.build empty = .ok n w' ∧ w'.store.typ n = .bv 8 ∧
    some ⟨.bv 8, .bv 44⟩ = some (Interpretation.bits.meaning (w'.store.tree n)) :=
  ⟨_, _, rfl, rfl, (Reachable.meaning_preserved ⟨[], rfl⟩ Interpretation.bits (t := movedOffset) rfl).1⟩

end Workspace
end KernelIR
