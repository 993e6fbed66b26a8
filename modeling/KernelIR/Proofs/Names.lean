import Mathlib.Data.List.Nodup
import KernelIR.Names
/-!
# Names — what a symbol reads as

A symbol that was interned reads as its text from then on, whatever else is interned (`Names.prefix_intern`), and no
other text has it (`Names.lookup?_eq_some_iff`).  Interning texts one after the other (`Names.internAll`) adds exactly
these (`Names.mem_texts_internAll`).
-/
namespace KernelIR

theorem getElem?_mono {α : Type} {l l' : List α} {i : Nat} {x : α} (h : l <+: l') (hi : l[i]? = some x) :
    l'[i]? = some x := by
  obtain ⟨t, rfl⟩ := h
  rw [List.getElem?_append_left (List.getElem?_eq_some_iff.1 hi).1, hi]

namespace Names

variable {N : Names} {y z : Symbol} {s t : String}

theorem text_eq (h : N.texts[y.index]? = some s) : N.text y = s := by
  rw [text, List.getD_eq_getElem?_getD, h, Option.getD_some]

theorem texts_intern_get (N : Names) (s : String) : (N.intern s).2.texts[(N.intern s).1.index]? = some s := by
  unfold intern
  split
  · rename_i h
    exact List.getElem?_idxOf h
  · exact List.getElem?_concat_length

theorem prefix_intern (N : Names) (s : String) : N.texts <+: (N.intern s).2.texts := by
  unfold intern
  split
  · exact List.prefix_rfl
  · exact List.prefix_append _ _

/-- **Symbols are equal exactly if their texts are.** -/
theorem symbol_eq_iff (hy : N.texts[y.index]? = some s) (hz : N.texts[z.index]? = some t) : y = z ↔ s = t := by
  constructor
  · rintro rfl
    exact Option.some.inj (hy.symm.trans hz)
  · rintro rfl
    obtain ⟨i⟩ := y
    obtain ⟨j⟩ := z
    obtain ⟨hi, hy⟩ := List.getElem?_eq_some_iff.1 hy
    obtain ⟨hj, hz⟩ := List.getElem?_eq_some_iff.1 hz
    exact congrArg Symbol.mk (N.nodup.getElem_inj_iff.1 (hy.trans hz.symm))

theorem lookup?_eq_some_iff (h : N.texts[y.index]? = some s) (t : String) : N.lookup? t = some y ↔ t = s := by
  obtain ⟨hi, hy⟩ := List.getElem?_eq_some_iff.1 h
  unfold lookup?
  constructor
  · intro ht
    split at ht
    · rename_i known
      cases ht
      exact Option.some.inj ((List.getElem?_idxOf known).symm.trans h)
    · cases ht
  · rintro rfl
    have position := N.nodup.idxOf_getElem y.index hi
    rw [hy] at position
    rw [if_pos (List.mem_of_getElem? h), position]

theorem isSome_lookup?_iff : (N.lookup? s).isSome = true ↔ s ∈ N.texts := by
  unfold lookup?
  split
  · rename_i known
    exact iff_of_true rfl known
  · rename_i unknown
    exact iff_of_false nofun unknown

/-- A symbol that a lookup finds is that of the text. -/
theorem texts_get_of_lookup? (h : N.lookup? s = some y) : N.texts[y.index]? = some s := by
  unfold lookup? at h
  split at h
  · rename_i known
    cases h
    exact List.getElem?_idxOf known
  · cases h

theorem mem_texts_intern : t ∈ (N.intern s).2.texts ↔ t ∈ N.texts ∨ t = s := by
  unfold intern
  split
  · rename_i known
    exact ⟨.inl, fun h => h.elim id fun same => same ▸ known⟩
  · exact List.mem_append.trans (or_congr_right List.mem_singleton)

/-! ## Many names, one after the other -/

/-- The table after these texts were interned. -/
def internAll (N : Names) (texts : List String) : Names := texts.foldl (fun N s => (N.intern s).2) N

@[simp] theorem internAll_nil (N : Names) : N.internAll [] = N := rfl

theorem internAll_cons (N : Names) (s : String) (texts : List String) :
    N.internAll (s :: texts) = (N.intern s).2.internAll texts := rfl

theorem internAll_append (N : Names) (texts texts' : List String) :
    N.internAll (texts ++ texts') = (N.internAll texts).internAll texts' := List.foldl_append

theorem prefix_internAll : ∀ (texts : List String) (N : Names), N.texts <+: (N.internAll texts).texts
  | [], _ => List.prefix_rfl
  | s :: texts, N => (N.prefix_intern s).trans (prefix_internAll texts (N.intern s).2)

/-- **Interning adds the texts that are interned, and no others.** -/
theorem mem_texts_internAll : ∀ {texts : List String} {N : Names},
    t ∈ (N.internAll texts).texts ↔ t ∈ N.texts ∨ t ∈ texts
  | [], N => by simp
  | s :: texts, N => by
    rw [internAll_cons, mem_texts_internAll, mem_texts_intern, List.mem_cons, or_assoc]

end Names
end KernelIR
