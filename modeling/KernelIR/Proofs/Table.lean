import KernelIR.Table
/-!
# Table — what a table lists

The values of a table are the value of a slot, if it has one, and those of the other slots.
-/
namespace KernelIR
namespace Table

variable {α : Type}

theorem ext {t u : Table α} (h : t.entries = u.entries) : t = u := by
  cases t
  cases u
  cases h
  rfl

/-- In an ascending list no other entry has the name of the first. -/
theorem filter_rest {p : String × α} {rest : List (String × α)} (h : Ascending (p :: rest)) :
    rest.filter (fun q => q.1 != p.1) = rest :=
  List.filter_eq_self.2 fun q hq => by
    have hlt := (List.pairwise_cons.1 h).1 q hq
    simpa using fun he : q.1 = p.1 => String.lt_irrefl _ (he ▸ hlt)

theorem lookup_putIn (x : String) (a : α) : ∀ l : List (String × α), (putIn x a l).lookup x = some a
  | [] => List.lookup_cons_self
  | p :: rest => by
    rw [putIn]
    split
    · exact List.lookup_cons_self
    · split
      · exact List.lookup_cons_self
      · rename_i hne
        rw [List.lookup_cons, beq_eq_false_iff_ne.2 hne]
        exact lookup_putIn x a rest

theorem filter_putIn (x : String) (a : α) : ∀ l : List (String × α),
    (putIn x a l).filter (fun p => p.1 != x) = l.filter fun p => p.1 != x
  | [] => by simp [putIn]
  | p :: rest => by
    rw [putIn]
    split
    · exact List.filter_cons_of_neg (by simp)
    · split
      · rename_i heq
        rw [List.filter_cons_of_neg (by simp), List.filter_cons_of_neg (by simp [heq])]
      · rename_i hne
        rw [List.filter_cons_of_pos (by simpa using Ne.symm hne), List.filter_cons_of_pos (by simpa using Ne.symm hne),
          filter_putIn x a rest]

theorem perm_lookup (x : String) : ∀ {l : List (String × α)}, Ascending l →
    (l.map (·.2)).Perm ((l.lookup x).toList ++ (l.filter fun p => p.1 != x).map (·.2))
  | [], _ => .refl _
  | p :: rest, h => by
    rw [List.lookup_cons]
    by_cases hx : x = p.1
    · subst hx
      rw [List.filter_cons_of_neg (by simp), filter_rest h]
      simp
    · rw [List.filter_cons_of_pos (by simpa using Ne.symm hx), beq_eq_false_iff_ne.2 hx]
      exact ((perm_lookup x (List.pairwise_cons.1 h).2).cons p.2).trans List.perm_middle.symm

theorem lookup_putIn_of_ne {x y : String} (h : y ≠ x) (a : α) : ∀ l : List (String × α),
    (putIn x a l).lookup y = l.lookup y
  | [] => by rw [putIn, List.lookup_cons, beq_eq_false_iff_ne.2 h]
  | p :: rest => by
    rw [putIn]
    split
    · rw [List.lookup_cons, beq_eq_false_iff_ne.2 h]
    · split
      · rename_i heq
        rw [List.lookup_cons, List.lookup_cons, beq_eq_false_iff_ne.2 h, beq_eq_false_iff_ne.2 (heq ▸ h)]
      · rw [List.lookup_cons, List.lookup_cons, lookup_putIn_of_ne h a rest]

theorem lookup_filter_of_ne {x y : String} (h : y ≠ x) : ∀ l : List (String × α),
    (l.filter fun p => p.1 != x).lookup y = l.lookup y
  | [] => rfl
  | p :: rest => by
    by_cases hx : p.1 = x
    · rw [List.filter_cons_of_neg (by simpa using hx), List.lookup_cons, beq_eq_false_iff_ne.2 (hx ▸ h),
        lookup_filter_of_ne h rest]
    · rw [List.filter_cons_of_pos (by simpa using hx), List.lookup_cons, List.lookup_cons, lookup_filter_of_ne h rest]

@[simp] theorem get?_put (x : String) (a : α) (t : Table α) : (t.put x a).get? x = some a := lookup_putIn x a _

@[simp] theorem get?_erase (x : String) (t : Table α) : (t.erase x).get? x = none := by
  unfold get? erase
  rw [List.lookup_eq_none_iff]
  intro p hp
  simpa using Ne.symm (by simpa using (List.mem_filter.1 hp).2)

theorem get?_put_of_ne {x y : String} (h : y ≠ x) (a : α) (t : Table α) : (t.put x a).get? y = t.get? y :=
  lookup_putIn_of_ne h a t.entries

theorem get?_erase_of_ne {x y : String} (h : y ≠ x) (t : Table α) : (t.erase x).get? y = t.get? y :=
  lookup_filter_of_ne h t.entries

theorem get?_put_eq (x y : String) (a : α) (t : Table α) : (t.put x a).get? y = if y = x then some a else t.get? y := by
  split
  · rename_i he
    rw [he, get?_put]
  · rename_i hne
    exact get?_put_of_ne hne a t

theorem get?_erase_eq (x y : String) (t : Table α) : (t.erase x).get? y = if y = x then none else t.get? y := by
  split
  · rename_i he
    rw [he, get?_erase]
  · rename_i hne
    exact get?_erase_of_ne hne t

@[simp] theorem erase_put (x : String) (a : α) (t : Table α) : (t.put x a).erase x = t.erase x :=
  ext (filter_putIn x a t.entries)

theorem erase_of_none {x : String} {t : Table α} (h : t.get? x = none) : t.erase x = t :=
  ext (List.filter_eq_self.2 fun p hp => by
    have := List.lookup_eq_none_iff.1 h p hp
    simpa using Ne.symm (by simpa using this))

/-- **The values of a table** are that of a slot, if it has one, and those of the others. -/
theorem perm_values (x : String) (t : Table α) : t.values.Perm ((t.get? x).toList ++ (t.erase x).values) :=
  perm_lookup x t.ascending

theorem mem_values_put {x : String} {a b : α} {t : Table α} (h : b ∈ (t.put x a).values) : b = a ∨ b ∈ t.values := by
  have after := perm_values x (t.put x a)
  rw [get?_put, erase_put] at after
  rcases List.mem_append.1 (after.mem_iff.1 h) with hb | hb
  · exact .inl (List.mem_singleton.1 hb)
  · exact .inr ((perm_values x t).mem_iff.2 (List.mem_append_right _ hb))

/-- An entry is what its name is looked up to. -/
theorem get?_of_mem {x : String} {a : α} {t : Table α} (h : (x, a) ∈ t.entries) : t.get? x = some a := by
  have lookup : ∀ {l : List (String × α)}, Ascending l → (x, a) ∈ l → l.lookup x = some a := by
    intro l
    induction l with
    | nil => exact fun _ h => nomatch h
    | cons p l ih =>
      intro asc h
      obtain ⟨first, rest⟩ := List.pairwise_cons.1 asc
      rcases List.mem_cons.1 h with rfl | h
      · exact List.lookup_cons_self
      · have ne : x ≠ p.1 := fun he => String.lt_irrefl _ (he ▸ first (x, a) h)
        rw [List.lookup_cons, beq_eq_false_iff_ne.2 ne]
        exact ih rest h
  exact lookup t.ascending h

theorem mem_values_of_get? {x : String} {a : α} {t : Table α} (h : t.get? x = some a) : a ∈ t.values :=
  (perm_values x t).mem_iff.2 (by rw [h]; exact List.mem_cons_self ..)

theorem mem_of_get? {x : String} {a : α} {t : Table α} (h : t.get? x = some a) : (x, a) ∈ t.entries := by
  unfold get? at h
  generalize t.entries = l at h
  induction l with
  | nil => cases h
  | cons p l ih =>
    rw [List.lookup_cons] at h
    split at h
    · rename_i hx
      cases h
      rw [beq_iff_eq.1 hx]
      exact List.mem_cons_self ..
    · exact List.mem_cons_of_mem _ (ih h)

theorem mem_namesWhere {p : α → Bool} {x : String} {t : Table α} :
    x ∈ t.namesWhere p ↔ ∃ a, t.get? x = some a ∧ p a = true := by
  constructor
  · intro h
    obtain ⟨e, he, rfl⟩ := List.mem_map.1 h
    obtain ⟨he, hp⟩ := List.mem_filter.1 he
    exact ⟨e.2, get?_of_mem he, hp⟩
  · rintro ⟨a, ha, hp⟩
    exact List.mem_map.2 ⟨(x, a), List.mem_filter.2 ⟨mem_of_get? ha, hp⟩, rfl⟩

theorem ascending_namesWhere (t : Table α) (p : α → Bool) : (t.namesWhere p).Pairwise (· < ·) :=
  List.pairwise_map.2 (t.ascending.filter _)

end Table
end KernelIR
