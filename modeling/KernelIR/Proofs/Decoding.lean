import Mathlib.Logic.Function.Defs
import KernelIR.MachineModel
import KernelIR.Ty.Data
/-!
# Decoding — which data values are read, and as what

A reader of data tests one form after the other.  What it accepts is said here once for each type of values, as a
relation between a value and its spellings (`Ty.Spelled`, `MachineModel.Spelled`), and reading is that relation
(`Ty.ofJson?_eq_some_iff`, `MachineModel.ofJson?_eq_some_iff`).  What is written is one of the spellings, so it is read
back, and no two values are written alike.

Main statement: `read_iff_spelled`.
-/
namespace KernelIR

namespace Json

variable {j : Json} {w : UInt64}

/-- A value is read as a word exactly when it is the form of that word. -/
theorem word?_eq_some_iff : j.word? = some w ↔ j = .ofWord w := by
  constructor
  · intro h
    cases j with
    | int n =>
      rw [word?] at h
      split at h
      · rename_i range
        cases h
        have small : n.toNat < UInt64.size := by omega
        rw [ofWord, UInt64.toNat_ofNat_of_lt' small, Int.toNat_of_nonneg range.1]
      · cases h
    | null | bool | decimal | str | arr | obj => cases h
  · rintro rfl
    have small : (w.toNat : Int) < UInt64.size := by exact_mod_cast w.toNat_lt_size
    rw [ofWord, word?, if_pos ⟨Int.natCast_nonneg _, small⟩, Int.toNat_natCast, UInt64.ofNat_toNat]

/-- The forms of words are the integers from `0` up to `2 ^ 64 - 1`. -/
theorem exists_ofWord_iff : (∃ w, j = .ofWord w) ↔ ∃ n : Int, j = .int n ∧ 0 ≤ n ∧ n < UInt64.size := by
  constructor
  · rintro ⟨w, rfl⟩
    exact ⟨w.toNat, rfl, Int.natCast_nonneg _, by exact_mod_cast w.toNat_lt_size⟩
  · rintro ⟨n, rfl, range⟩
    exact ⟨UInt64.ofNat n.toNat, word?_eq_some_iff.1 (if_pos range)⟩

theorem str?_eq_some_iff {s : String} : j.str? = some s ↔ j = .str s := by
  cases j <;> simp [str?]

theorem bool?_eq_some_iff {b : Bool} : j.bool? = some b ↔ j = .bool b := by
  cases j <;> simp [bool?]

end Json

/-! ## Types -/

namespace Ty

/-- What a type is called in data. -/
def tag : Ty → String
  | .bv _ => "Bv"
  | .bool => "Bool"
  | .float _ => "Float"
  | .arrayId => "ArrayId"
  | .pointer _ => "Pointer"

/-- **The spellings of a type.**  A type without a width is its tag, alone or with nothing.  A type with a width is its
tag with an object that has the width in its field `width`, among any other fields. -/
inductive Spelled : Ty → Json → Prop
  | alone {t : Ty} (plain : t.width? = none) : Spelled t (.str t.tag)
  | nothing {t : Ty} (plain : t.width? = none) : Spelled t (.obj [(t.tag, .null)])
  | sized {t : Ty} {w : UInt64} {fields : List (String × Json)} (wide : t.width? = some w)
    (field : fields.lookup "width" = some (.ofWord w)) : Spelled t (.obj [(t.tag, .obj fields)])

variable {t : Ty} {j : Json} {name : String} {w : UInt64}

theorem ofTag?_eq_some_iff : ofTag? name = some t ↔ t.width? = none ∧ t.tag = name := by
  constructor
  · intro h
    unfold ofTag? at h
    split at h
    · rename_i isBool
      cases h
      exact ⟨rfl, isBool.symm⟩
    · split at h
      · rename_i isArrayId
        cases h
        exact ⟨rfl, isArrayId.symm⟩
      · cases h
  · rintro ⟨plain, rfl⟩
    cases t with
    | bool | arrayId => rfl
    | bv | float | pointer => cases plain

theorem ofSizedTag?_eq_some_iff : ofSizedTag? name w = some t ↔ t.width? = some w ∧ t.tag = name := by
  constructor
  · intro h
    unfold ofSizedTag? at h
    split at h
    · rename_i isBv
      cases h
      exact ⟨rfl, isBv.symm⟩
    · split at h
      · rename_i isFloat
        cases h
        exact ⟨rfl, isFloat.symm⟩
      · split at h
        · rename_i isPointer
          cases h
          exact ⟨rfl, isPointer.symm⟩
        · cases h
  · rintro ⟨wide, rfl⟩
    cases t with
    | bv | float | pointer =>
      cases wide
      rfl
    | bool | arrayId => cases wide

/-- **A value is read as a type exactly when it is one of its spellings.** -/
theorem ofJson?_eq_some_iff : ofJson? j = some t ↔ t.Spelled j := by
  constructor
  · intro h
    unfold ofJson? at h
    split at h
    · obtain ⟨plain, rfl⟩ := ofTag?_eq_some_iff.1 h
      exact .alone plain
    · obtain ⟨plain, rfl⟩ := ofTag?_eq_some_iff.1 h
      exact .nothing plain
    · obtain ⟨field, found, h⟩ := Option.bind_eq_some_iff.1 h
      obtain ⟨w, word, h⟩ := Option.bind_eq_some_iff.1 h
      obtain ⟨wide, rfl⟩ := ofSizedTag?_eq_some_iff.1 h
      exact .sized wide (found.trans (congrArg some (Json.word?_eq_some_iff.1 word)))
    · cases h
  · rintro (plain | plain | ⟨wide, field⟩)
    · exact ofTag?_eq_some_iff.2 ⟨plain, rfl⟩
    · exact ofTag?_eq_some_iff.2 ⟨plain, rfl⟩
    · refine Option.bind_eq_some_iff.2 ⟨_, field, Option.bind_eq_some_iff.2 ⟨_, Json.word?_eq_some_iff.2 rfl, ?_⟩⟩
      exact ofSizedTag?_eq_some_iff.2 ⟨wide, rfl⟩

theorem spelled_toJson : ∀ t : Ty, t.Spelled t.toJson
  | .bool | .arrayId => .alone rfl
  | .bv _ | .float _ | .pointer _ => .sized rfl rfl

/-- A type that is written is read back. -/
theorem ofJson?_toJson (t : Ty) : ofJson? t.toJson = some t := ofJson?_eq_some_iff.2 t.spelled_toJson

theorem tag_mem_of_width?_eq_none (plain : t.width? = none) : t.tag ∈ ["Bool", "ArrayId"] := by
  cases t with
  | bool | arrayId => decide
  | bv | float | pointer => cases plain

theorem tag_mem_of_width?_eq_some (wide : t.width? = some w) : t.tag ∈ ["Bv", "Float", "Pointer"] := by
  cases t with
  | bv | float | pointer => simp [tag]
  | bool | arrayId => cases wide

theorem exists_tag_of_mem (known : name ∈ ["Bool", "ArrayId"]) : ∃ t : Ty, t.width? = none ∧ t.tag = name := by
  simp only [List.mem_cons, List.not_mem_nil, or_false] at known
  obtain rfl | rfl := known
  · exact ⟨.bool, rfl, rfl⟩
  · exact ⟨.arrayId, rfl, rfl⟩

theorem exists_sized_tag_of_mem (known : name ∈ ["Bv", "Float", "Pointer"]) (w : UInt64) :
    ∃ t : Ty, t.width? = some w ∧ t.tag = name := by
  simp only [List.mem_cons, List.not_mem_nil, or_false] at known
  obtain rfl | rfl | rfl := known
  · exact ⟨.bv w, rfl, rfl⟩
  · exact ⟨.float w, rfl, rfl⟩
  · exact ⟨.pointer w, rfl, rfl⟩

theorem toJson_injective : Function.Injective toJson := by
  intro t t' same
  have again := ofJson?_toJson t
  rw [same, ofJson?_toJson] at again
  exact (Option.some.inj again).symm

/-- The data values that are read as types, by their form. -/
theorem exists_ofJson?_iff : (∃ t, ofJson? j = some t) ↔
    (∃ name ∈ ["Bool", "ArrayId"], j = .str name ∨ j = .obj [(name, .null)]) ∨
    ∃ name ∈ ["Bv", "Float", "Pointer"], ∃ fields n, j = .obj [(name, .obj fields)] ∧
      fields.lookup "width" = some (.int n) ∧ 0 ≤ n ∧ n < UInt64.size := by
  simp only [ofJson?_eq_some_iff]
  constructor
  · rintro ⟨t, plain | plain | ⟨wide, field⟩⟩
    · exact .inl ⟨t.tag, tag_mem_of_width?_eq_none plain, .inl rfl⟩
    · exact .inl ⟨t.tag, tag_mem_of_width?_eq_none plain, .inr rfl⟩
    · obtain ⟨n, form, range⟩ := Json.exists_ofWord_iff.1 ⟨_, rfl⟩
      exact .inr ⟨t.tag, tag_mem_of_width?_eq_some wide, _, n, rfl, field.trans (congrArg some form), range⟩
  · rintro (⟨name, known, form⟩ | ⟨name, known, fields, n, rfl, field, range⟩)
    · obtain ⟨t, plain, rfl⟩ := exists_tag_of_mem known
      obtain rfl | rfl := form
      · exact ⟨t, .alone plain⟩
      · exact ⟨t, .nothing plain⟩
    · obtain ⟨w, form⟩ := Json.exists_ofWord_iff.2 ⟨n, rfl, range⟩
      obtain ⟨t, wide, rfl⟩ := exists_sized_tag_of_mem known w
      exact ⟨t, .sized wide (field.trans (congrArg some form))⟩

/-- The width of a type is read by its name only: a list in the place of the fields is refused. -/
theorem ofJson?_list_after_tag (name : String) (items : List Json) : ofJson? (.obj [(name, .arr items)]) = none := rfl

/-- The list form of a model has no counterpart for types: the one-element list of a width is no type. -/
theorem no_type_of_listed_width : ¬∃ t, ofJson? (.obj [("Bv", .arr [.int 16])]) = some t := by
  rintro ⟨t, h⟩
  cases h

end Ty

/-! ## Machine models -/

namespace MachineModel

/-- **The spellings of a model**: an object that has the four values in their fields, among any others, or the list of
the four values. -/
inductive Spelled (m : MachineModel) : Json → Prop
  | fields {fields : List (String × Json)} (architecture : fields.lookup "architecture" = some (.str m.architecture))
    (pointerWidth : fields.lookup "pointer_width" = some (.ofWord m.pointerWidth))
    (byteWidth : fields.lookup "byte_width" = some (.ofWord m.byteWidth))
    (isBigEndian : fields.lookup "is_big_endian" = some (.bool m.isBigEndian)) : Spelled m (.obj fields)
  | listed : Spelled m (.arr [.str m.architecture, .ofWord m.pointerWidth, .ofWord m.byteWidth, .bool m.isBigEndian])

variable {m : MachineModel} {j : Json}

/-- **A value is read as a model exactly when it is one of its spellings.** -/
theorem ofJson?_eq_some_iff : ofJson? j = some m ↔ m.Spelled j := by
  constructor
  · intro h
    unfold ofJson? at h
    split at h
    · obtain ⟨_, a, h⟩ := Option.bind_eq_some_iff.1 h
      obtain ⟨architecture, text, h⟩ := Option.bind_eq_some_iff.1 h
      obtain ⟨_, p, h⟩ := Option.bind_eq_some_iff.1 h
      obtain ⟨pointerWidth, pointer, h⟩ := Option.bind_eq_some_iff.1 h
      obtain ⟨_, b, h⟩ := Option.bind_eq_some_iff.1 h
      obtain ⟨byteWidth, byte, h⟩ := Option.bind_eq_some_iff.1 h
      obtain ⟨_, e, h⟩ := Option.bind_eq_some_iff.1 h
      obtain ⟨isBigEndian, order, h⟩ := Option.bind_eq_some_iff.1 h
      cases h
      rw [Json.str?_eq_some_iff.1 text] at a
      rw [Json.word?_eq_some_iff.1 pointer] at p
      rw [Json.word?_eq_some_iff.1 byte] at b
      rw [Json.bool?_eq_some_iff.1 order] at e
      exact .fields a p b e
    · obtain ⟨architecture, text, h⟩ := Option.bind_eq_some_iff.1 h
      obtain ⟨pointerWidth, pointer, h⟩ := Option.bind_eq_some_iff.1 h
      obtain ⟨byteWidth, byte, h⟩ := Option.bind_eq_some_iff.1 h
      obtain ⟨isBigEndian, order, h⟩ := Option.bind_eq_some_iff.1 h
      cases h
      rw [Json.str?_eq_some_iff.1 text, Json.word?_eq_some_iff.1 pointer, Json.word?_eq_some_iff.1 byte,
        Json.bool?_eq_some_iff.1 order]
      exact .listed
    · cases h
  · have word (w : UInt64) : (Json.ofWord w).word? = some w := Json.word?_eq_some_iff.2 rfl
    rintro (⟨a, p, b, e⟩ | _)
    · refine Option.bind_eq_some_iff.2 ⟨_, a, Option.bind_eq_some_iff.2 ⟨_, rfl, ?_⟩⟩
      refine Option.bind_eq_some_iff.2 ⟨_, p, Option.bind_eq_some_iff.2 ⟨_, word _, ?_⟩⟩
      refine Option.bind_eq_some_iff.2 ⟨_, b, Option.bind_eq_some_iff.2 ⟨_, word _, ?_⟩⟩
      exact Option.bind_eq_some_iff.2 ⟨_, e, Option.bind_eq_some_iff.2 ⟨_, rfl, rfl⟩⟩
    · simp [ofJson?, word, Json.str?, Json.bool?]

theorem spelled_toJson (m : MachineModel) : m.Spelled m.toJson := .fields rfl rfl rfl rfl

/-- A model that is written is read back. -/
theorem ofJson?_toJson (m : MachineModel) : ofJson? m.toJson = some m := ofJson?_eq_some_iff.2 m.spelled_toJson

theorem toJson_injective : Function.Injective toJson := by
  intro m m' same
  have again := ofJson?_toJson m
  rw [same, ofJson?_toJson] at again
  exact (Option.some.inj again).symm

/-- The data values that are read as models, by their form. -/
theorem exists_ofJson?_iff : (∃ m, ofJson? j = some m) ↔ ∃ (a : String) (p b : Int) (e : Bool),
    (0 ≤ p ∧ p < UInt64.size) ∧ (0 ≤ b ∧ b < UInt64.size) ∧
    ((∃ fields, j = .obj fields ∧ fields.lookup "architecture" = some (.str a) ∧
        fields.lookup "pointer_width" = some (.int p) ∧ fields.lookup "byte_width" = some (.int b) ∧
        fields.lookup "is_big_endian" = some (.bool e)) ∨
      j = .arr [.str a, .int p, .int b, .bool e]) := by
  simp only [ofJson?_eq_some_iff]
  constructor
  · rintro ⟨m, spelled⟩
    obtain ⟨p, pForm, pRange⟩ := Json.exists_ofWord_iff.1 ⟨m.pointerWidth, rfl⟩
    obtain ⟨b, bForm, bRange⟩ := Json.exists_ofWord_iff.1 ⟨m.byteWidth, rfl⟩
    refine ⟨m.architecture, p, b, m.isBigEndian, pRange, bRange, ?_⟩
    obtain ⟨architecture, pointerWidth, byteWidth, isBigEndian⟩ | _ := spelled
    · rw [pForm] at pointerWidth
      rw [bForm] at byteWidth
      exact .inl ⟨_, rfl, architecture, pointerWidth, byteWidth, isBigEndian⟩
    · rw [pForm, bForm]
      exact .inr rfl
  · rintro ⟨a, p, b, e, pRange, bRange, form⟩
    obtain ⟨pw, pForm⟩ := Json.exists_ofWord_iff.2 ⟨p, rfl, pRange⟩
    obtain ⟨bw, bForm⟩ := Json.exists_ofWord_iff.2 ⟨b, rfl, bRange⟩
    refine ⟨⟨a, pw, bw, e⟩, ?_⟩
    rw [pForm, bForm] at form
    obtain ⟨fields, rfl, architecture, pointerWidth, byteWidth, isBigEndian⟩ | rfl := form
    · exact .fields architecture pointerWidth byteWidth isBigEndian
    · exact .listed

end MachineModel

/-! ## The main statement -/

/-- **What is written is read back, and what is read is exactly what is spelled as the value.**

* A type or a model that is written is read back, whatever its widths and its text, so no two are written alike.
* The data values read as types are a tag without a width, alone or with nothing, and a tag with an object whose field
  `width` is an integer from `0` up to `2 ^ 64 - 1`, among any other fields; a list after a tag is refused.
* The data values read as models are the objects with all four fields of their kinds, among any others, and the lists of
  the four values.
* A value is read as the type or model that it spells, and writing and reading that again gives the same. -/
theorem read_iff_spelled :
    ((∀ t, Ty.ofJson? (Ty.toJson t) = some t) ∧ Function.Injective Ty.toJson ∧
      (∀ j, (∃ t, Ty.ofJson? j = some t) ↔
        (∃ tag ∈ ["Bool", "ArrayId"], j = .str tag ∨ j = .obj [(tag, .null)]) ∨
        ∃ tag ∈ ["Bv", "Float", "Pointer"], ∃ fields n, j = .obj [(tag, .obj fields)] ∧
          fields.lookup "width" = some (.int n) ∧ 0 ≤ n ∧ n < UInt64.size) ∧
      (∀ tag items, Ty.ofJson? (.obj [(tag, .arr items)]) = none) ∧
      (∀ j t, Ty.ofJson? j = some t ↔ t.Spelled j) ∧
      ∀ j t, Ty.ofJson? j = some t → Ty.ofJson? t.toJson = some t) ∧
    (∀ m, MachineModel.ofJson? (MachineModel.toJson m) = some m) ∧ Function.Injective MachineModel.toJson ∧
      (∀ j, (∃ m, MachineModel.ofJson? j = some m) ↔ ∃ (a : String) (p b : Int) (e : Bool),
        (0 ≤ p ∧ p < UInt64.size) ∧ (0 ≤ b ∧ b < UInt64.size) ∧
        ((∃ fields, j = .obj fields ∧ fields.lookup "architecture" = some (.str a) ∧
            fields.lookup "pointer_width" = some (.int p) ∧ fields.lookup "byte_width" = some (.int b) ∧
            fields.lookup "is_big_endian" = some (.bool e)) ∨
          j = .arr [.str a, .int p, .int b, .bool e])) ∧
      (∀ j m, MachineModel.ofJson? j = some m ↔ m.Spelled j) ∧
      ∀ j m, MachineModel.ofJson? j = some m → MachineModel.ofJson? m.toJson = some m :=
  ⟨⟨Ty.ofJson?_toJson, Ty.toJson_injective, fun _ => Ty.exists_ofJson?_iff, Ty.ofJson?_list_after_tag,
      fun _ _ => Ty.ofJson?_eq_some_iff, fun _ t _ => t.ofJson?_toJson⟩,
    MachineModel.ofJson?_toJson, MachineModel.toJson_injective, fun _ => MachineModel.exists_ofJson?_iff,
    fun _ _ => MachineModel.ofJson?_eq_some_iff, fun _ m _ => m.ofJson?_toJson⟩

/-- A pointer type with a field that is not read, and a model given as a list. -/
theorem read_a_pointer_and_a_listed_model :
    Ty.ofJson? (.obj [("Pointer", .obj [("space", .null), ("width", .int 64)])]) = some (.pointer 64) ∧
      Ty.ofJson? (Ty.toJson (.pointer 64)) = some (.pointer 64) ∧
      MachineModel.ofJson? (.arr [.str "spir", .int 32, .int 8, .bool false]) = some .spir ∧
      MachineModel.ofJson? MachineModel.spir.toJson = some .spir := by
  obtain ⟨⟨-, -, -, -, type, typeAgain⟩, -, -, -, model, modelAgain⟩ := read_iff_spelled
  have pointer := (type (.obj [("Pointer", .obj [("space", .null), ("width", .int 64)])]) (.pointer 64)).2
    (.sized rfl rfl)
  have spir := (model (.arr [.str "spir", .int 32, .int 8, .bool false]) .spir).2 .listed
  exact ⟨pointer, typeAgain _ _ pointer, spir, modelAgain _ _ spir⟩

end KernelIR
