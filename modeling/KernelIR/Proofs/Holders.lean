import KernelIR.Proofs.Evaluations
/-!
# Holders — reference counts are exact, and what is live is what is reachable

In every reachable workspace the counter of a node is the number of slots that hold it: those of the producer, of live
nodes, statements, clauses and axioms.  The nodes form no cycle, and one is live exactly when it is reachable from
outside the store.  What a command makes and no one comes to hold is gone when the command ends.
-/
namespace KernelIR
namespace Workspace

variable {w : Workspace}

def liveClauses (w : Workspace) : List Clause := w.liveFunctions.flatMap (·.clauses)

def liveAxioms (w : Workspace) : List NodeId := w.modules.values.flatMap (·.axioms)

/-- The slots outside the store, by what they belong to: the producer, live statements, clauses and axioms. -/
def roots (w : Workspace) : List NodeId :=
  w.exprs.values ++ w.liveStmts.flatMap (·.operands) ++ w.liveClauses.map (·.pred) ++ w.liveAxioms

theorem count_flatMap_append {α : Type} (f g : α → List NodeId) (n : NodeId) : ∀ l : List α,
    (l.flatMap fun a => f a ++ g a).count n = (l.flatMap f).count n + (l.flatMap g).count n
  | [] => rfl
  | a :: l => by
    simp only [List.flatMap_cons, List.count_append, count_flatMap_append f g n l]
    omega

/-- What the objects in slots hold is what the roots are, in another order. -/
theorem held_perm_roots (w : Workspace) : w.held.Perm w.roots := by
  refine List.perm_iff_count.2 fun n => ?_
  have modules : (w.modules.values.flatMap Module.held).count n =
      ((w.modules.values.flatMap (·.functions)).flatMap Function.held).count n + w.liveAxioms.count n := by
    rw [List.flatMap_assoc]
    exact count_flatMap_append _ _ n _
  have functions : (w.liveFunctions.flatMap Function.held).count n =
      ((w.liveFunctions.flatMap (·.blocks)).flatMap Block.held).count n + (w.liveClauses.map (·.pred)).count n := by
    rw [List.flatMap_assoc, liveClauses, List.map_flatMap]
    exact count_flatMap_append _ _ n _
  have stmts : w.liveStmts.flatMap (·.operands) =
      w.stmts.values.flatMap (·.operands) ++ w.liveBlocks.flatMap Block.held := by
    rw [liveStmts, List.flatMap_append, List.flatMap_assoc]
    rfl
  have owned : w.owned.flatMap (·.held) = w.stmts.values.flatMap (·.operands) ++ w.blocks.values.flatMap Block.held ++
      w.functions.values.flatMap Function.held ++ w.modules.values.flatMap Module.held := by
    simp only [owned, List.flatMap_append, List.flatMap_map]
    rfl
  rw [liveFunctions, List.flatMap_append, List.count_append] at functions
  rw [held, roots, stmts, owned, liveBlocks, List.flatMap_append, liveFunctions]
  simp only [List.count_append]
  omega

/-- A term that is not kept, or that fails, only lets the store grow until it is tidied. -/
theorem Sound.expr_grows (h : w.Sound) (t : Term) (into : Option String) :
    (Command.perform (.expr t into)).Ends w (fun _ w' => into = none → Grows w w') (fun _ w' => Grows w w') := by
  refine (Build.Ends.mono (h.yields t) (fun _ _ => id) fun _ _ he => he.1).bind ?_
  intro n w' hw
  obtain ⟨hg, -⟩ := hw
  refine Build.ends_get ?_
  cases into with
  | none => exact fun _ => hg
  | some x => exact fun hn => nomatch hn

/-- **Growth leaves no trace**: what is new has no holder. -/
theorem Sound.growth_undone (h : w.Sound) {w' : Workspace} (hg : Grows w w') :
    w'.tidy.store.cells = w.store.cells :=
  h.books.cells_sweep h.held (hg.books h.books) (fun _ => (hg.extends_store h.books).node) (fun _ => held_of_evaluated)
    fun n _ => hg.prevented h.books n

/-- **Temporaries of a term leave no trace.** -/
theorem Sound.expr_undone (h : w.Sound) {t : Term} {into : Option String}
    (hn : into = none ∨ ∃ e, (w.step (.expr t into)).1 = .error e) :
    (w.step (.expr t into)).2.store.cells = w.store.cells := by
  have he := h.expr_grows t into
  unfold Workspace.step at hn ⊢
  cases hr : Command.perform (.expr t into) w with
  | error e w' => exact h.growth_undone (he.error hr)
  | ok r w' =>
    rw [hr] at hn
    rcases hn with hn | ⟨e, hn⟩
    · exact h.growth_undone (he.ok hr hn)
    · cases hn

/-- A command that leaves the roots as they are leaves the nodes and their holders as they are. -/
theorem Sound.same_nodes (h : w.Sound) (c : Command) (hr : (w.step c).2.roots.Perm w.roots) :
    (w.step c).2.store.cells.map (fun c => (c.id, c.node, c.holders)) =
      w.store.cells.map fun c => (c.id, c.node, c.holders) := by
  obtain ⟨w', ⟨hb, hx⟩, he⟩ := step_tidy (Config.Balanced.invariant.and_extends w.store) ⟨h.books, .refl _⟩ c
  rw [he] at hr ⊢
  have hh : w'.held.Perm w.held := (held_perm_roots w').trans (hr.trans (held_perm_roots w).symm)
  exact h.books.same_sweep h.held (hb.perm hh (.refl _)) (fun _ => hx.node) fun n hn =>
    hh.mem_iff.1 (held_of_evaluated hn)

/-- In a sound workspace a node counts the slots that hold it. -/
theorem Sound.counts_exact (hs : w.Sound) :
    (∀ c ∈ w.store.cells, c.holders = w.exprs.values.count c.id + w.store.slots.count c.id +
      (w.liveStmts.flatMap (·.operands)).count c.id + (w.liveClauses.map (·.pred)).count c.id +
      w.liveAxioms.count c.id) ∧
    (∀ n, ¬ Relation.TransGen w.store.Holds n n) ∧
    (∀ n, w.store.Live n ↔ w.store.Reaches w.roots n) ∧
    (w.roots = [] → w.store.cells = []) ∧
    (∀ c : Command, (w.step c).2.roots.Perm w.roots →
      (w.step c).2.store.cells.map (fun c => (c.id, c.node, c.holders)) =
        w.store.cells.map fun c => (c.id, c.node, c.holders)) ∧
    ∀ t into, (into = none ∨ ∃ e, (w.step (.expr t into)).1 = .error e) →
      (w.step (.expr t into)).2.store.cells = w.store.cells := by
  have live : ∀ n, w.store.Live n ↔ w.store.Reaches w.roots n := fun n => by
    rw [hs.books.live_iff_reaches hs.held]
    exact ⟨fun hr => hr.mono fun _ => (held_perm_roots w).mem_iff.1,
      fun hr => hr.mono fun _ => (held_perm_roots w).mem_iff.2⟩
  refine ⟨fun c hc => ?_, fun n hn => Nat.lt_irrefl _ (hs.books.ordered.older_of_holds hn), live, fun hr => ?_,
    hs.same_nodes, fun t into hn => hs.expr_undone hn⟩
  · have := hs.books.holders c.id
    rw [hs.books.ordered.cell_of_mem hc, (held_perm_roots w).count_eq, roots] at this
    simp only [List.count_append] at this
    omega
  · refine List.eq_nil_iff_forall_not_mem.2 fun c hc => ?_
    have := (live c.id).1 (Store.live_of_mem hc)
    rw [hr] at this
    exact Store.not_reaches_nil this

/-- **Reference counts are exact**: in every reachable workspace a node counts the slots that hold it, in the producer's
hands, in live nodes, statements, clauses and axioms; the nodes form no cycle; a node is live exactly when it is
reachable from outside, so without roots there is none; and what a command makes without anyone coming to hold it is
gone. -/
theorem Reachable.holders_exact (h : w.Reachable) :
    (∀ c ∈ w.store.cells, c.holders = w.exprs.values.count c.id + w.store.slots.count c.id +
      (w.liveStmts.flatMap (·.operands)).count c.id + (w.liveClauses.map (·.pred)).count c.id +
      w.liveAxioms.count c.id) ∧
    (∀ n, ¬ Relation.TransGen w.store.Holds n n) ∧
    (∀ n, w.store.Live n ↔ w.store.Reaches w.roots n) ∧
    (w.roots = [] → w.store.cells = []) ∧
    (∀ c : Command, (w.step c).2.roots.Perm w.roots →
      (w.step c).2.store.cells.map (fun c => (c.id, c.node, c.holders)) =
        w.store.cells.map fun c => (c.id, c.node, c.holders)) ∧
    ∀ t into, (into = none ∨ ∃ e, (w.step (.expr t into)).1 = .error e) →
      (w.step (.expr t into)).2.store.cells = w.store.cells := h.sound.counts_exact

/-- A constant in two operand slots of one node, beside the slot of the producer. -/
def sharedOperand : List Command :=
  [.expr (.bvConst 8 5) (some "v"), .expr (.binary .eq (.slot "v") (.slot "v")) (some "e")]

theorem holders_exact_sharedOperand :
    (empty.run sharedOperand).2.store.cells.map (·.holders) = [1, 3] ∧
    ∀ n, (empty.run sharedOperand).2.store.Live n ↔
      (empty.run sharedOperand).2.store.Reaches (empty.run sharedOperand).2.roots n :=
  ⟨by decide, (Reachable.holders_exact ⟨sharedOperand, rfl⟩).2.2.1⟩

end Workspace
end KernelIR
