import KernelIR.Proofs.Store.Order
/-!
# Books — what the counters of a store count

`s.Books held evaluated`: every node has as many holders as it stands in `held` and in operand slots of live nodes, and
as many live evaluations as it stands in `evaluated`.  Each operation on the store keeps the books, for lists changed
accordingly; no counter that is lowered goes below zero.
-/
namespace KernelIR
namespace Store

/-- The operand slots of all live nodes. -/
def slots (s : Store) : List NodeId := s.cells.flatMap (·.operands)

/-- **The books are in order**: `held` are the slots outside the store, `evaluated` the live evaluations.  A node that
is not in the store reads as having neither, so none is held. -/
structure Books (s : Store) (held evaluated : List NodeId) : Prop where
  ordered : s.Ordered
  typed : s.Typed
  holders : ∀ n, (s.cell n).holders = held.count n + s.slots.count n
  evals : ∀ n, (s.cell n).evals = evaluated.count n

variable {s : Store} {held held' evaluated evaluated' ns : List NodeId}

theorem slots_mapCells {f : Cell → Cell} (hf : Recounts f) (s : Store) : (s.mapCells f).slots = s.slots := by
  unfold slots mapCells
  rw [List.flatMap_map]
  exact congrArg (List.flatMap · s.cells) (funext hf.operands)

theorem books_empty : empty.Books [] [] where
  ordered := ⟨trivial, fun _ h => nomatch h⟩
  typed := fun _ h => nomatch h
  holders := fun _ => rfl
  evals := fun _ => rfl

namespace Books

theorem live_of_held (h : s.Books held evaluated) {n : NodeId} (hn : n ∈ held) : s.Live n := by
  apply Classical.byContradiction
  intro hl
  have := h.holders n
  rw [cell_of_not_live hl] at this
  have := List.count_pos_iff.2 hn
  simp only at *
  omega

theorem live_of_evaluated (h : s.Books held evaluated) {n : NodeId} (hn : n ∈ evaluated) : s.Live n := by
  apply Classical.byContradiction
  intro hl
  have := h.evals n
  rw [cell_of_not_live hl] at this
  have := List.count_pos_iff.2 hn
  simp only at *
  omega

theorem perm (h : s.Books held evaluated) (hh : held.Perm held') (he : evaluated.Perm evaluated') :
    s.Books held' evaluated' where
  ordered := h.ordered
  typed := h.typed
  holders n := by rw [h.holders, hh.count_eq]
  evals n := by rw [h.evals, he.count_eq]

/-- A change of counters that keeps up with the lists keeps the books. -/
theorem recount (h : s.Books held evaluated) {f : Cell → Cell} (hf : Recounts f)
    (hh : ∀ n, s.Live n → (f (s.cell n)).holders = held'.count n + s.slots.count n)
    (he : ∀ n, s.Live n → (f (s.cell n)).evals = evaluated'.count n)
    (lh : ∀ n ∈ held', s.Live n) (le : ∀ n ∈ evaluated', s.Live n) : (s.mapCells f).Books held' evaluated' where
  ordered := ordered_mapCells hf s h.ordered
  typed := typed_mapCells hf s h.typed
  holders n := by
    rw [slots_mapCells hf]
    by_cases hn : s.Live n
    · rw [cell_mapCells hf s hn, hh n hn]
    · have hs := h.holders n
      rw [cell_of_not_live hn] at hs
      have := List.count_eq_zero.2 (mt (lh n) hn)
      rw [cell_of_not_live (mt (live_mapCells hf s).1 hn)]
      simp only at *
      omega
  evals n := by
    by_cases hn : s.Live n
    · rw [cell_mapCells hf s hn, he n hn]
    · rw [cell_of_not_live (mt (live_mapCells hf s).1 hn), List.count_eq_zero.2 (mt (le n) hn)]

theorem retain (h : s.Books held evaluated) (hn : ∀ n ∈ ns, s.Live n) : (s.retain ns).Books (ns ++ held) evaluated :=
  h.recount (recounts_holders _)
    (fun n _ => by simp only [cell_id, h.holders, List.count_append]; omega)
    (fun n _ => h.evals n)
    (fun n hm => (List.mem_append.1 hm).elim (hn n) h.live_of_held)
    (fun _ => h.live_of_evaluated)

theorem mark (h : s.Books held evaluated) (hn : ∀ n ∈ ns, s.Live n) : (s.mark ns).Books held (ns ++ evaluated) :=
  h.recount (recounts_evals _)
    (fun n _ => h.holders n)
    (fun n _ => by simp only [cell_id, h.evals, List.count_append]; omega)
    (fun _ => h.live_of_held)
    (fun n hm => (List.mem_append.1 hm).elim (hn n) h.live_of_evaluated)

/-- Giving slots up takes no counter below zero. -/
theorem release (h : s.Books (ns ++ held) evaluated) : (s.release ns).Books held evaluated :=
  h.recount (recounts_holders _)
    (fun n _ => by simp only [cell_id, h.holders, List.count_append]; omega)
    (fun n _ => h.evals n)
    (fun _ hm => h.live_of_held (List.mem_append_right _ hm))
    (fun _ => h.live_of_evaluated)

theorem unmark (h : s.Books held (ns ++ evaluated)) : (s.unmark ns).Books held evaluated :=
  h.recount (recounts_evals _)
    (fun n _ => h.holders n)
    (fun n _ => by simp only [cell_id, h.evals, List.count_append]; omega)
    (fun _ => h.live_of_held)
    (fun _ hm => h.live_of_evaluated (List.mem_append_right _ hm))

theorem prevent (h : s.Books held evaluated) (n : NodeId) : (s.prevent n).Books held evaluated :=
  h.recount (recounts_prevent n) (fun m _ => h.holders m) (fun m _ => h.evals m) (fun _ => h.live_of_held)
    (fun _ => h.live_of_evaluated)

theorem alloc (h : s.Books held evaluated) {shape : Shape NodeId} {t : Ty} (ho : ∀ n ∈ shape.operands, s.Live n)
    (ht : Node.Typed s.typ ⟨shape, t⟩) : (s.alloc shape t).2.Books held evaluated := by
  have hr := h.retain ho
  have hs : (s.alloc shape t).2.slots = shape.operands ++ s.slots := by
    rw [← slots_mapCells (recounts_holders _) s]
    rfl
  have hnext : ∀ {l : List NodeId}, (∀ n ∈ l, s.Live n) → l.count ⟨s.next⟩ = 0 := fun hl =>
    List.count_eq_zero.2 fun hm => h.ordered.next_not_live (hl _ hm)
  refine ⟨h.ordered.alloc ho, h.typed.alloc h.ordered ho ht, fun n => ?_, fun n => ?_⟩
  · rw [hs, List.count_append]
    by_cases hn : n = ⟨s.next⟩
    · rw [hn, cell_alloc_self, hnext ho, hnext fun _ => h.live_of_held, hnext]
      intro m hm
      obtain ⟨c, hc, hm⟩ := List.mem_flatMap.1 hm
      exact h.ordered.live_of_operand hc hm
    · have := hr.holders n
      rw [Store.retain, slots_mapCells (recounts_holders _), List.count_append] at this
      rw [cell_alloc_of_ne hn, Store.retain, this]
      omega
  · by_cases hn : n = ⟨s.next⟩
    · rw [hn, cell_alloc_self, hnext fun _ => h.live_of_evaluated]
    · rw [cell_alloc_of_ne hn, hr.evals]

theorem acquire (ns es : List NodeId) (h : s.Books held evaluated) (hn : ∀ n ∈ ns, s.Live n) (he : ∀ n ∈ es, n ∈ ns) :
    ((s.retain ns).mark es).Books (ns ++ held) (es ++ evaluated) :=
  (h.retain hn).mark fun n hm => (live_mapCells (recounts_holders _) s).2 (hn n (he n hm))

theorem giveUp (ns es : List NodeId) (h : s.Books (ns ++ held) (es ++ evaluated)) :
    ((s.unmark es).release ns).Books held evaluated :=
  h.unmark.release

theorem node_typed (h : s.Books held evaluated) {n : NodeId} (hn : s.Live n) : Node.Typed s.typ (s.cell n).node :=
  h.typed _ (h.ordered.cell_mem hn)

/-- **A constructor over live nodes** answers with a live node, or makes one and keeps the books. -/
theorem resolve (h : s.Books held evaluated) {f : Form NodeId} (ho : ∀ n ∈ f.operands, s.Live n) {b : Built NodeId}
    (hb : f.resolve s.reader = .ok b) :
    match b with
    | .reuse n => s.Live n
    | .fresh shape t => (∀ n ∈ shape.operands, s.Live n) ∧ (s.alloc shape t).2.Books held evaluated := by
  have ht : ∀ n ∈ f.operands, (s.reader.node n).Typed s.reader.typ := fun n hn => h.node_typed (ho n hn)
  cases b with
  | reuse n =>
    obtain ⟨e, -, hn⟩ := Form.resolve_reuse hb ht
    exact h.ordered.operands_live hn
  | fresh shape t =>
    have hs : ∀ n ∈ shape.operands, s.Live n := fun n hn => ho n (Form.resolve_operands hb ht n hn)
    exact ⟨hs, h.alloc hs (Form.resolve_fresh hb ht)⟩

end Books
end Store
end KernelIR
