import KernelIR.Proofs.Store.Books
/-!
# Sweep — what is left is what is reachable

After a sweep the books are in order and every node has a holder (`Books.sweep`).  In such a store a node is live
exactly when it is reachable from the slots outside (`live_iff_reaches`), since operands are older than what holds them.
-/
namespace KernelIR

theorem Cell.ext_node {c d : Cell} (id : c.id = d.id) (node : c.node = d.node) (holders : c.holders = d.holders)
    (evals : c.evals = d.evals) (prevented : c.prevented = d.prevented) : c = d := by
  cases c
  cases d
  cases node
  cases id
  cases holders
  cases evals
  cases prevented
  rfl

namespace Store

/-- A node is held from outside, or is an operand of a node that is reached. -/
inductive Reaches (s : Store) (roots : List NodeId) : NodeId → Prop
  | root {n : NodeId} (h : n ∈ roots) : Reaches s roots n
  | operand {n m : NodeId} (h : Reaches s roots n) (hm : m ∈ (s.cell n).operands) : Reaches s roots m

def Holds (s : Store) (n m : NodeId) : Prop := m ∈ (s.cell n).operands

theorem Layered.count_head {c : Cell} {cs : List Cell} (h : Layered (c :: cs)) :
    ((c :: cs).flatMap (·.operands)).count c.id = 0 := by
  refine List.count_eq_zero.2 fun hm => ?_
  obtain ⟨d, hd, hm⟩ := List.mem_flatMap.1 hm
  have hlt := h.operands_older d hd _ hm
  rcases List.mem_cons.1 hd with rfl | hd
  · exact Nat.lt_irrefl _ hlt
  · exact Nat.lt_asymm hlt (h.1 d hd)

/-- What a pass of the sweep leaves, for holders in `outside` and holders in `freed` that are gone. -/
structure Swept (outside : List NodeId) (before after : List Cell) : Prop where
  layered : Layered after
  origin : ∀ c ∈ after, ∃ d ∈ before, ∃ k, c = { d with holders := k }
  kept : ∀ n ∈ outside, n ∈ before.map (·.id) → n ∈ after.map (·.id)
  held : ∀ c ∈ after, 0 < c.holders
  exact : ∀ c ∈ after, c.holders = outside.count c.id + (after.flatMap (·.operands)).count c.id

theorem swept_sweepCells : ∀ (cs : List Cell) (outside freed : List NodeId), Layered cs →
    (∀ c ∈ cs, c.holders = outside.count c.id + freed.count c.id + (cs.flatMap (·.operands)).count c.id) →
    Swept outside cs (sweepCells freed cs)
  | [], _, _, _, _ =>
    ⟨trivial, fun _ h => (nomatch h), fun _ _ h => (nomatch h), fun _ h => (nomatch h), fun _ h => (nomatch h)⟩
  | c :: cs, outside, freed, hl, hc => by
    have hself : c.holders - freed.count c.id = outside.count c.id := by
      have := hc c (List.mem_cons_self ..)
      rw [hl.count_head] at this
      omega
    rw [sweepCells, hself]
    split
    · rename_i h0
      -- the cell goes, and its operands are freed
      have ih := swept_sweepCells cs outside (c.operands ++ freed) hl.2.2 fun d hd => by
        rw [hc d (List.mem_cons_of_mem _ hd), List.flatMap_cons, List.count_append, List.count_append]
        omega
      refine ⟨ih.layered, fun d hd => ?_, fun n hn hm => ?_, ih.held, ih.exact⟩
      · obtain ⟨e, he, k, h⟩ := ih.origin d hd
        exact ⟨e, List.mem_cons_of_mem _ he, k, h⟩
      · refine ih.kept n hn ((List.mem_cons.1 hm).resolve_left ?_)
        rintro rfl
        exact List.count_eq_zero.1 h0 hn
    · rename_i h0
      -- the cell stays, and its operands count as held from outside the rest
      have ih := swept_sweepCells cs (c.operands ++ outside) freed hl.2.2 fun d hd => by
        rw [hc d (List.mem_cons_of_mem _ hd), List.flatMap_cons, List.count_append, List.count_append]
        omega
      have hlay : Layered ({ c with holders := outside.count c.id } :: sweepCells freed cs) := by
        refine ⟨fun d hd => ?_, fun n hn => ?_, ih.layered⟩
        · obtain ⟨e, he, k, rfl⟩ := ih.origin d hd
          exact hl.1 e he
        · exact ih.kept n (List.mem_append_left _ hn) (hl.2.1 n hn)
      refine ⟨hlay, fun d hd => ?_, fun n hn hm => ?_, fun d hd => ?_, fun d hd => ?_⟩
      · rcases List.mem_cons.1 hd with rfl | hd
        · exact ⟨c, List.mem_cons_self .., _, rfl⟩
        · obtain ⟨e, he, k, h⟩ := ih.origin d hd
          exact ⟨e, List.mem_cons_of_mem _ he, k, h⟩
      · rcases List.mem_cons.1 hm with rfl | hm
        · exact List.mem_cons_self ..
        · exact List.mem_cons_of_mem _ (ih.kept n (List.mem_append_right _ hn) hm)
      · rcases List.mem_cons.1 hd with rfl | hd
        · exact Nat.pos_of_ne_zero h0
        · exact ih.held d hd
      · rcases List.mem_cons.1 hd with rfl | hd
        · rw [hlay.count_head]
          rfl
        · rw [ih.exact d hd, List.flatMap_cons, List.count_append, List.count_append]
          change _ = _ + (c.operands.count d.id + _)
          omega

variable {s : Store} {held evaluated : List NodeId}

theorem Books.swept (h : s.Books held evaluated) : Swept held s.cells (sweepCells [] s.cells) :=
  swept_sweepCells s.cells held [] h.ordered.layered fun c hc => by
    rw [List.count_nil, Nat.add_zero, ← h.ordered.cell_of_mem hc, cell_id]
    exact h.holders c.id

theorem Books.ordered_sweep (h : s.Books held evaluated) : s.sweep.Ordered where
  layered := h.swept.layered
  below c hc := by
    obtain ⟨d, hd, k, rfl⟩ := h.swept.origin c hc
    exact h.ordered.below d hd

theorem Books.live_sweep (h : s.Books held evaluated) {n : NodeId} (hn : n ∈ held) : s.sweep.Live n :=
  h.swept.kept n hn (h.live_of_held hn)

theorem Books.live_of_sweep (h : s.Books held evaluated) {n : NodeId} (hn : s.sweep.Live n) : s.Live n := by
  obtain ⟨c, hc, rfl⟩ := live_iff.1 hn
  obtain ⟨d, hd, k, rfl⟩ := h.swept.origin c hc
  exact live_iff.2 ⟨d, hd, rfl⟩

theorem Books.cell_sweep (h : s.Books held evaluated) {n : NodeId} (hn : s.sweep.Live n) :
    ∃ k, s.sweep.cell n = { s.cell n with holders := k } := by
  obtain ⟨c, hc, rfl⟩ := live_iff.1 hn
  obtain ⟨d, hd, k, rfl⟩ := h.swept.origin c hc
  refine ⟨k, ?_⟩
  rw [h.ordered_sweep.cell_of_mem hc]
  exact congrArg (fun e : Cell => { e with holders := k }) (h.ordered.cell_of_mem hd).symm

theorem Books.typ_sweep (h : s.Books held evaluated) {n : NodeId} (hn : s.sweep.Live n) : s.sweep.typ n = s.typ n := by
  obtain ⟨k, hk⟩ := h.cell_sweep hn
  rw [typ, hk]
  rfl

theorem Books.tree_sweep (h : s.Books held evaluated) {n : NodeId} (hn : s.sweep.Live n) :
    s.sweep.tree n = s.tree n := by
  refine h.ordered.tree_congr h.ordered_sweep (fun m _ hm => ?_) (h.live_of_sweep hn) hn
  obtain ⟨k, hk⟩ := h.cell_sweep hm
  rw [hk]
  rfl

/-- **A sweep keeps the books**, as long as what is evaluated is held. -/
theorem Books.sweep (h : s.Books held evaluated) (hs : ∀ n ∈ evaluated, n ∈ held) : s.sweep.Books held evaluated where
  ordered := h.ordered_sweep
  typed c hc := by
    obtain ⟨d, hd, k, rfl⟩ := h.swept.origin c hc
    exact (h.typed d hd).congr fun m hm => h.typ_sweep (h.ordered_sweep.live_of_operand hc hm)
  holders n := by
    by_cases hn : s.sweep.Live n
    · have := h.swept.exact _ (h.ordered_sweep.cell_mem hn)
      rwa [cell_id] at this
    · have h1 := List.count_eq_zero.2 fun hm => hn (h.live_sweep hm)
      have h2 : s.sweep.slots.count n = 0 := List.count_eq_zero.2 fun hm => by
        obtain ⟨c, hc, hm⟩ := List.mem_flatMap.1 hm
        exact hn (h.ordered_sweep.live_of_operand hc hm)
      rw [cell_of_not_live hn, h1, h2]
  evals n := by
    by_cases hn : s.sweep.Live n
    · obtain ⟨k, hk⟩ := h.cell_sweep hn
      rw [hk]
      exact h.evals n
    · rw [cell_of_not_live hn, List.count_eq_zero.2 fun hm => hn (h.live_sweep (hs n hm))]

theorem Books.held_sweep (h : s.Books held evaluated) : ∀ c ∈ s.sweep.cells, 0 < c.holders := h.swept.held

/-! ## Reachability -/

theorem Books.live_of_reaches (h : s.Books held evaluated) {n : NodeId} (hn : s.Reaches held n) : s.Live n := by
  induction hn with
  | root hm => exact h.live_of_held hm
  | operand _ hm => exact h.ordered.operands_live hm

/-- By induction on how many nodes may be newer: a holder is a slot outside or an operand slot of a newer node. -/
theorem Books.reaches_of_live (h : s.Books held evaluated) (hp : ∀ c ∈ s.cells, 0 < c.holders) {n : NodeId}
    (hn : s.Live n) : s.Reaches held n := by
  generalize hk : s.next - n.index = k
  induction k using Nat.strongRecOn generalizing n with
  | ind k ih =>
    have hpos := hp _ (h.ordered.cell_mem hn)
    rw [h.holders] at hpos
    rcases Nat.eq_zero_or_pos (held.count n) with h0 | h0
    · obtain ⟨c, hc, hm⟩ := List.mem_flatMap.1 (List.count_pos_iff.1 (by omega : 0 < s.slots.count n))
      have hlt := h.ordered.layered.operands_older c hc n hm
      have hbelow := h.ordered.below c hc
      refine .operand (n := c.id) (ih _ (by omega) (live_of_mem hc) rfl) ?_
      rw [h.ordered.cell_of_mem hc]
      exact hm
    · exact .root (List.count_pos_iff.1 h0)

/-- **Reclamation is reachability.** -/
theorem Books.live_iff_reaches (h : s.Books held evaluated) (hp : ∀ c ∈ s.cells, 0 < c.holders) (n : NodeId) :
    s.Live n ↔ s.Reaches held n :=
  ⟨h.reaches_of_live hp, h.live_of_reaches⟩

theorem Reaches.mono {roots roots' : List NodeId} {n : NodeId} (h : s.Reaches roots n) (hr : ∀ m ∈ roots, m ∈ roots') :
    s.Reaches roots' n := by
  induction h with
  | root hn => exact .root (hr _ hn)
  | operand _ hm ih => exact .operand ih hm

theorem not_reaches_nil {n : NodeId} (h : s.Reaches [] n) : False := by
  induction h with
  | root hm => cases hm
  | operand _ _ ih => exact ih

theorem Ordered.older_of_holds (h : s.Ordered) {n m : NodeId} (hp : Relation.TransGen s.Holds n m) :
    m.index < n.index := by
  induction hp with
  | single hm => exact h.operands_older hm
  | tail _ hm ih => exact Nat.lt_trans (h.operands_older hm) ih

/-! ## A sweep undoes growth -/

theorem Layered.descending : ∀ {cs : List Cell}, Layered cs →
    (cs.map (·.id)).Pairwise fun n m => m.index < n.index
  | [], _ => .nil
  | c :: cs, h => by
    refine List.pairwise_cons.2 ⟨fun n hn => ?_, h.2.2.descending⟩
    obtain ⟨d, hd, rfl⟩ := List.mem_map.1 hn
    exact h.1 d hd

/-- Descending ids are the same list as soon as they are the same set. -/
theorem descending_eq {l l' : List NodeId} (h : l.Pairwise fun n m => m.index < n.index)
    (h' : l'.Pairwise fun n m => m.index < n.index) (hm : ∀ n, n ∈ l ↔ n ∈ l') : l = l' := by
  have nodup : ∀ {l : List NodeId}, (l.Pairwise fun n m => m.index < n.index) → l.Nodup := fun h =>
    h.imp fun {n m} hlt (he : n = m) => Nat.lt_irrefl _ (he ▸ hlt)
  exact ((List.perm_ext_iff_of_nodup (nodup h) (nodup h')).2 hm).eq_of_pairwise
    (fun _ _ _ _ hlt hgt => absurd hlt (Nat.lt_asymm hgt)) h h'

theorem Ordered.ids_eq {s s' : Store} (h : s.Ordered) (h' : s'.Ordered) (hl : ∀ n, s.Live n ↔ s'.Live n) :
    s.cells.map (·.id) = s'.cells.map (·.id) :=
  descending_eq h.layered.descending h'.layered.descending hl

theorem Ordered.cells_eq {s : Store} (h : s.Ordered) : s.cells = (s.cells.map (·.id)).map s.cell := by
  rw [List.map_map]
  exact (List.map_id'' (fun c => rfl) s.cells).symm.trans (List.map_congr_left fun c hc => (h.cell_of_mem hc).symm)

theorem Ordered.slots_eq {s : Store} (h : s.Ordered) :
    s.slots = (s.cells.map (·.id)).flatMap fun n => (s.cell n).operands := by
  conv => lhs; rw [slots, h.cells_eq, List.flatMap_map]

/-- A node that is reached stays reached where the nodes that are reached hold the same. -/
theorem Reaches.imp {s s' : Store} {roots : List NodeId} {n : NodeId} (h : s.Reaches roots n)
    (same : ∀ n, s.Reaches roots n → s'.Reaches roots n → (s'.cell n).operands = (s.cell n).operands) :
    s'.Reaches roots n := by
  induction h with
  | root hn => exact .root hn
  | operand hn hm ih => exact .operand ih (by rwa [same _ hn ih])

section Undone

variable {s' : Store} {evaluated' : List NodeId} (h : s.Books held evaluated) (hp : ∀ c ∈ s.cells, 0 < c.holders)
  (h' : s'.Books held evaluated') (he : ∀ n, s.Live n → (s'.cell n).node = (s.cell n).node)
  (hs : ∀ n ∈ evaluated', n ∈ held)
include h hp h' he hs

omit h hp hs in
theorem Books.node_sweep {n : NodeId} (hn : s.Live n) (hn' : s'.sweep.Live n) :
    (s'.sweep.cell n).node = (s.cell n).node := by
  obtain ⟨k, hk⟩ := h'.cell_sweep hn'
  rw [hk, ← he n hn]
  rfl

/-- What nothing came to hold does not survive the sweep. -/
theorem Books.live_sweep_iff (n : NodeId) : s'.sweep.Live n ↔ s.Live n := by
  have hw := h'.sweep hs
  have operands : ∀ n, s.Live n → s'.sweep.Live n → (s'.sweep.cell n).operands = (s.cell n).operands :=
    fun n hn hn' => congrArg (fun m : Node NodeId => m.shape.operands) (h'.node_sweep he hn hn')
  rw [hw.live_iff_reaches h'.held_sweep, h.live_iff_reaches hp]
  exact ⟨fun hr => hr.imp fun m hr hr' => (operands m (h.live_of_reaches hr') (hw.live_of_reaches hr)).symm,
    fun hr => hr.imp fun m hr hr' => operands m (h.live_of_reaches hr) (hw.live_of_reaches hr')⟩

theorem Books.ids_sweep : s'.sweep.cells.map (·.id) = s.cells.map (·.id) :=
  h'.ordered_sweep.ids_eq h.ordered (h.live_sweep_iff hp h' he hs)

theorem Books.holders_sweep (n : NodeId) : (s'.sweep.cell n).holders = (s.cell n).holders := by
  have slots : s'.sweep.slots = s.slots := by
    rw [h'.ordered_sweep.slots_eq, h.ordered.slots_eq, h.ids_sweep hp h' he hs, List.flatMap_def, List.flatMap_def]
    refine congrArg List.flatten (List.map_congr_left fun n hn => ?_)
    exact congrArg (fun m : Node NodeId => m.shape.operands)
      (h'.node_sweep he hn ((h.live_sweep_iff hp h' he hs n).2 hn))
  rw [(h'.sweep hs).holders, h.holders, slots]

/-- **What nothing came to hold is gone after a sweep**: the nodes and their holders are as before. -/
theorem Books.same_sweep : s'.sweep.cells.map (fun c => (c.id, c.node, c.holders)) =
    s.cells.map fun c => (c.id, c.node, c.holders) := by
  rw [h'.ordered_sweep.cells_eq, h.ordered.cells_eq, h.ids_sweep hp h' he hs]
  refine List.map_map.trans ((List.map_congr_left fun n hn => ?_).trans List.map_map.symm)
  have node := h'.node_sweep he hn ((h.live_sweep_iff hp h' he hs n).2 hn)
  simp only [Function.comp_apply, cell_id, node, h.holders_sweep hp h' he hs n]

end Undone

/-- **Growth that nothing came to hold or to evaluate is undone by a sweep.** -/
theorem Books.cells_sweep {s' : Store} (h : s.Books held evaluated) (hp : ∀ c ∈ s.cells, 0 < c.holders)
    (h' : s'.Books held evaluated) (he : ∀ n, s.Live n → (s'.cell n).node = (s.cell n).node)
    (hs : ∀ n ∈ evaluated, n ∈ held) (hm : ∀ n, s.Live n → (s'.cell n).prevented = (s.cell n).prevented) :
    s'.sweep.cells = s.cells := by
  rw [h'.ordered_sweep.cells_eq, h.ordered.cells_eq, h.ids_sweep hp h' he hs]
  refine List.map_congr_left fun n hn => ?_
  have hl := (h.live_sweep_iff hp h' he hs n).2 hn
  have prevented : (s'.sweep.cell n).prevented = (s.cell n).prevented := by
    obtain ⟨k, hk⟩ := h'.cell_sweep hl
    rw [hk, ← hm n hn]
  exact Cell.ext_node ((cell_id _ n).trans (cell_id _ n).symm) (h'.node_sweep he hn hl)
    (h.holders_sweep hp h' he hs n) (((h'.sweep hs).evals n).trans (h.evals n).symm) prevented

/-! ## What is given up -/

section GivenUp

variable {ns es : List NodeId} (h : s.Books (ns ++ held) (es ++ evaluated)) (hs : ∀ n ∈ evaluated, n ∈ held)
include h

/-- A node that outlasts what is given up is as it was, apart from its counters. -/
theorem Books.cell_givenUp {n : NodeId} (hn : ((s.unmark es).release ns).sweep.Live n) :
    s.Live n ∧ (((s.unmark es).release ns).sweep.cell n).node = (s.cell n).node ∧
      (((s.unmark es).release ns).sweep.cell n).prevented = (s.cell n).prevented := by
  obtain ⟨k, hk⟩ := h.giveUp.cell_sweep hn
  have marked : (s.unmark es).Live n := (live_mapCells (recounts_holders _) _).1 (h.giveUp.live_of_sweep hn)
  have live : s.Live n := (live_mapCells (recounts_evals _) s).1 marked
  rw [hk, Store.release, cell_mapCells (recounts_holders _) _ marked, Store.unmark,
    cell_mapCells (recounts_evals _) s live]
  exact ⟨live, rfl, rfl⟩

include hs

/-- **Growth beside what is given up is undone by a sweep**: what is left is what is left without the growth. -/
theorem Books.cells_givenUp {s' : Store} (h' : s'.Books held evaluated)
    (he : ∀ n, s.Live n → (s'.cell n).node = (s.cell n).node)
    (hm : ∀ n, s.Live n → (s'.cell n).prevented = (s.cell n).prevented) :
    s'.sweep.cells = ((s.unmark es).release ns).sweep.cells := by
  refine (h.giveUp.sweep hs).cells_sweep h.giveUp.held_sweep h' (fun n hn => ?_) hs fun n hn => ?_
  · obtain ⟨live, node, -⟩ := h.cell_givenUp hn
    rw [he n live, node]
  · obtain ⟨live, -, prevented⟩ := h.cell_givenUp hn
    rw [hm n live, prevented]

end GivenUp

/-- The operand slots of the nodes of `s` that are not in `s'`. -/
def lost (s s' : Store) : List NodeId := (s.cells.filter fun c => c.id ∉ s'.cells.map (·.id)).flatMap (·.operands)

/-- What is left of the nodes has the operand slots that are not lost. -/
theorem Ordered.slots_lost {s s' : Store} (h : s.Ordered) (h' : s'.Ordered)
    (same : ∀ n, s'.Live n → s.Live n ∧ (s'.cell n).node = (s.cell n).node) (n : NodeId) :
    s.slots.count n = s'.slots.count n + (s.lost s').count n := by
  let kept := s.cells.filter fun c => c.id ∈ s'.cells.map (·.id)
  have mem : ∀ c ∈ kept, c ∈ s.cells ∧ s'.Live c.id := fun c hc => by simpa [kept, Live] using List.mem_filter.1 hc
  have ids : kept.map (·.id) = s'.cells.map (·.id) := by
    refine descending_eq (h.layered.descending.sublist (List.filter_sublist.map _)) h'.layered.descending fun n => ?_
    refine ⟨fun hn => ?_, fun hn => ?_⟩
    · obtain ⟨c, hc, rfl⟩ := List.mem_map.1 hn
      exact (mem c hc).2
    · obtain ⟨c, hc, rfl⟩ := live_iff.1 (same n hn).1
      exact List.mem_map_of_mem (List.mem_filter.2 ⟨hc, by simpa using hn⟩)
  have slots : s'.slots = kept.flatMap (·.operands) := by
    rw [h'.slots_eq, ← ids, List.flatMap_map, List.flatMap_def, List.flatMap_def]
    refine congrArg List.flatten (List.map_congr_left fun c hc => ?_)
    obtain ⟨hs, hl⟩ := mem c hc
    have node := (same c.id hl).2
    rw [h.cell_of_mem hs] at node
    exact congrArg (fun m : Node NodeId => m.shape.operands) node
  have parts := (List.filter_append_perm (fun c : Cell => decide (c.id ∈ s'.cells.map (·.id))) s.cells).flatMap_right
    (·.operands)
  rw [List.flatMap_append] at parts
  have count := parts.count_eq n
  rw [List.count_append] at count
  rw [slots, lost, Store.slots, ← count]
  simp only [kept, decide_not]

end Store
end KernelIR
