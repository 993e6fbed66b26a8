/-!
# Table — named slots in the order of their names

The names of a table ascend, character by character: no name stands twice, and a search that lists names lists them in
order.
-/
namespace KernelIR

/-- The entries are ordered by name. -/
def Ascending {α : Type} (entries : List (String × α)) : Prop := entries.Pairwise fun p q => p.1 < q.1

structure Table (α : Type) where
  entries : List (String × α)
  ascending : Ascending entries

namespace Table

variable {α : Type}

def empty : Table α := ⟨[], .nil⟩

instance : Inhabited (Table α) := ⟨empty⟩

def get? (t : Table α) (x : String) : Option α := t.entries.lookup x

def putIn (x : String) (a : α) : List (String × α) → List (String × α)
  | [] => [(x, a)]
  | p :: rest =>
    if x < p.1 then (x, a) :: p :: rest
    else if x = p.1 then (x, a) :: rest
    else p :: putIn x a rest

theorem key_of_mem_putIn {x : String} {a : α} : ∀ {l : List (String × α)} {q : String × α},
    q ∈ putIn x a l → q.1 = x ∨ q ∈ l
  | [], q, h => by
    rw [putIn, List.mem_singleton] at h
    exact .inl (by rw [h])
  | p :: rest, q, h => by
    rw [putIn] at h
    split at h
    · rcases List.mem_cons.1 h with rfl | h
      · exact .inl rfl
      · exact .inr h
    · split at h
      · rcases List.mem_cons.1 h with rfl | h
        · exact .inl rfl
        · exact .inr (List.mem_cons_of_mem _ h)
      · rcases List.mem_cons.1 h with rfl | h
        · exact .inr (List.mem_cons_self ..)
        · exact (key_of_mem_putIn h).imp_right (List.mem_cons_of_mem _)

theorem ascending_putIn (x : String) (a : α) : ∀ {l : List (String × α)}, Ascending l → Ascending (putIn x a l)
  | [], _ => List.pairwise_singleton _ _
  | p :: rest, h => by
    obtain ⟨hp, hr⟩ := List.pairwise_cons.1 h
    rw [putIn]
    split
    · rename_i hlt
      refine List.pairwise_cons.2 ⟨fun q hq => ?_, h⟩
      rcases List.mem_cons.1 hq with rfl | hq
      · exact hlt
      · exact String.lt_trans hlt (hp q hq)
    · split
      · rename_i heq
        exact List.pairwise_cons.2 ⟨fun q hq => heq ▸ hp q hq, hr⟩
      · rename_i hnlt hne
        refine List.pairwise_cons.2 ⟨fun q hq => ?_, ascending_putIn x a hr⟩
        rcases key_of_mem_putIn hq with hx | hq
        · rw [hx]
          exact Std.lt_of_le_of_ne (String.not_lt.1 hnlt) (Ne.symm hne)
        · exact hp q hq

/-- The table with `a` in slot `x`, in place of what was there. -/
def put (x : String) (a : α) (t : Table α) : Table α := ⟨putIn x a t.entries, ascending_putIn x a t.ascending⟩

def erase (x : String) (t : Table α) : Table α := ⟨t.entries.filter fun p => p.1 != x, t.ascending.filter _⟩

def values (t : Table α) : List α := t.entries.map (·.2)

/-- The names of the slots whose content satisfies `p`, ascending. -/
def namesWhere (p : α → Bool) (t : Table α) : List String := (t.entries.filter fun e => p e.2).map (·.1)

end Table
end KernelIR
