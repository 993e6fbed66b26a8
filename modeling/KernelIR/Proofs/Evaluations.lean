import KernelIR.Proofs.Reachable
/-!
# Evaluations — the marker of a node counts its live evaluations

The live statements of a workspace are those in slots and those in blocks, wherever the block is kept.  In every
reachable workspace the counter of a node is the number of live statements that evaluate it, and no command releases an
evaluation that is not there.
-/
namespace KernelIR

/-- The statement evaluates this very node. -/
def Stmt.evaluates (s : Stmt NodeId) (n : NodeId) : Bool :=
  match s.body with
  | .eval e => e == n
  | _ => false

namespace Workspace

/-- The functions in slots and in modules. -/
def liveFunctions (w : Workspace) : List Function := w.functions.values ++ w.modules.values.flatMap (·.functions)

/-- The blocks in slots and in live functions. -/
def liveBlocks (w : Workspace) : List Block := w.blocks.values ++ w.liveFunctions.flatMap (·.blocks)

/-- The statements in slots and in live blocks. -/
def liveStmts (w : Workspace) : List (Stmt NodeId) := w.stmts.values ++ w.liveBlocks.flatMap (·.stmts)

end Workspace

namespace Stmt

theorem evaluates_iff {s : Stmt NodeId} {n : NodeId} : s.evaluates n = true ↔ s.body = .eval n := by
  unfold evaluates
  split
  · rename_i e he
    rw [he]
    simp
  · rename_i hne
    simpa using fun he => hne n he

theorem mem_evaluated_iff {s : Stmt NodeId} {n : NodeId} : n ∈ s.evaluated ↔ s.body = .eval n := by
  unfold evaluated
  cases s.body <;> simp [StmtBody.evaluated, eq_comm]

theorem count_evaluated (s : Stmt NodeId) (n : NodeId) : s.evaluated.count n = if s.evaluates n then 1 else 0 := by
  unfold evaluated evaluates
  cases s.body with
  | eval e => exact List.count_singleton ..
  | store | varAssign | goto | ret | assume | assert | call | callMemberOf | waitGroupEvent => rfl

theorem count_flatMap_evaluated (n : NodeId) : ∀ ss : List (Stmt NodeId),
    (ss.flatMap (·.evaluated)).count n = ss.countP (·.evaluates n)
  | [] => rfl
  | s :: ss => by
    rw [List.flatMap_cons, List.count_append, count_evaluated, count_flatMap_evaluated n ss, List.countP_cons,
      Nat.add_comm]

end Stmt

namespace Workspace

variable {w : Workspace}

theorem evaluated_eq (w : Workspace) : w.evaluated = w.liveStmts.flatMap (·.evaluated) := by
  simp only [evaluated, owned, liveStmts, liveBlocks, liveFunctions, List.flatMap_append, List.flatMap_map,
    List.flatMap_assoc, Owned.evaluated, Block.evaluated, Function.evaluated, Module.evaluated, List.append_assoc]

/-- In a sound workspace a node counts the live statements that evaluate it. -/
theorem Sound.markers_exact (h : w.Sound) :
    (∀ c ∈ w.store.cells, c.evals = w.liveStmts.countP (·.evaluates c.id) ∧
      (c.hasEval = true ↔ ∃ s ∈ w.liveStmts, s.body = .eval c.id)) ∧
    (∀ s ∈ w.liveStmts, ∀ n, s.body = .eval n → w.store.Live n) ∧
    ∀ c : Command, (w.step c).1 ≠ .error (.refused .noLiveEval) := by
  refine ⟨fun c hc => ?_, fun s hm n hn => ?_, fun c he => h.foreseen he rfl⟩
  · have count : c.evals = w.liveStmts.countP (·.evaluates c.id) := by
      rw [← Stmt.count_flatMap_evaluated, ← evaluated_eq, ← h.books.evals, h.books.ordered.cell_of_mem hc]
    refine ⟨count, ?_⟩
    rw [Cell.hasEval, decide_eq_true_iff, count, List.countP_pos_iff]
    exact exists_congr fun s => and_congr_right fun _ => Stmt.evaluates_iff
  · refine h.books.live_of_evaluated ?_
    rw [evaluated_eq]
    exact List.mem_flatMap.2 ⟨s, hm, Stmt.mem_evaluated_iff.2 hn⟩

/-- **The markers are exact**: in every reachable workspace a node counts the live statements that evaluate it and is
marked exactly when there is one; what a statement evaluates is a live node; and no command meets an evaluation that
ends without having been counted. -/
theorem Reachable.evaluations_exact (h : w.Reachable) :
    (∀ c ∈ w.store.cells, c.evals = w.liveStmts.countP (·.evaluates c.id) ∧
      (c.hasEval = true ↔ ∃ s ∈ w.liveStmts, s.body = .eval c.id)) ∧
    (∀ s ∈ w.liveStmts, ∀ n, s.body = .eval n → w.store.Live n) ∧
    ∀ c : Command, (w.step c).1 ≠ .error (.refused .noLiveEval) := h.sound.markers_exact

/-- A node that two statements evaluate, one in a slot and one in a block. -/
def markedTwice : List Command :=
  [.expr (.boolConst true) (some "e"), .stmt (.eval (.slot "e") (.list [])) (some "s"), .block ⟨0⟩ "b" (some "b"),
    .addStmt (.loose "b") (.eval (.slot "e") (.list []))]

theorem evaluations_exact_markedTwice :
    (empty.run markedTwice).2.store.cells.map (·.evals) = [2] ∧
    ∀ c ∈ (empty.run markedTwice).2.store.cells,
      c.evals = (empty.run markedTwice).2.liveStmts.countP (·.evaluates c.id) :=
  ⟨by decide, fun c hc => ((Reachable.evaluations_exact ⟨markedTwice, rfl⟩).1 c hc).1⟩

end Workspace
end KernelIR
