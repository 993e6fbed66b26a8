import KernelIR.Proofs.Names
import KernelIR.Proofs.Objects
/-!
# Atomicity — a command that fails only loses its arguments

When a command fails, the slots that it had taken arguments out of stay empty (`Command.spent`), and what they owned is
dropped.  All other slots are as they were, and so is every node that outlasts the drop; its counters are lower by what
the dropped objects held and evaluated, and by the operand slots of the nodes that went with them (`Workspace.Without`).

What an assembly leaves of a workspace at any point (`Workspace.Remains`) is kept by every move of an assembly; that a
command fails before it makes any other move is `Command.perform_ends`.
-/
namespace KernelIR

/-! ## The slots that a failure has emptied -/

namespace StmtTerm

open Build

/-- The slots of statement arguments. -/
def slots (xs : List String) : List OwnedSlot := xs.map (OwnedKind.stmt, ·)

theorem slots_append (xs ys : List String) : slots (xs ++ ys) = slots xs ++ slots ys := List.map_append

mutual

/-- A term that is evaluated to its end has emptied the slots of all its arguments; one that fails, of the first few. -/
theorem spent_ends : ∀ (s : StmtTerm) (w : Workspace),
    s.build.Ends w (fun _ _ => s.spent w = slots s.takes) (fun _ _ => s.spent w <+: slots s.takes)
  | .slot x, w => by
    rw [build, spent, takes]
    refine Ends.bind (Q := fun _ _ => ∃ s, w.stmts.get? x = some s) (ends_slot (fun s hs => ⟨s, hs⟩) ?_) ?_
    · intro none
      rw [none]
      exact List.nil_prefix
    · rintro _ _ ⟨s, here⟩
      rw [here]
      exact ends_of_forall (fun _ _ => rfl) fun _ _ => List.prefix_refl _
  | .callMemberOf func locs calls, w => by
    rw [build, spent, takes]
    refine ends_trivial.bind_run (fun e w₁ _ hr => ?_) fun n w₁ _ hr => ?_
    · rw [hr]
      exact List.nil_prefix
    simp only [hr]
    refine ends_trivial.bind_run (fun e w₂ _ hr => ?_) fun l w₂ _ hr => ?_
    · rw [hr]
      exact List.nil_prefix
    rw [hr]
    refine (spentList_ends calls w₂).bind ?_
    intro _ _ all
    exact ends_of_forall (fun _ _ => all) fun _ _ => all ▸ List.prefix_refl _
  | .eval _ _, _ | .store _ _ _ _, _ | .varAssign _ _, _ | .goto _, _ | .ret, _ | .assume _ _, _
  | .assert _ _ _ _ _, _ | .badAccess _, _ | .blockSourceLoc _, _ | .call _ _ _, _ | .waitGroupEvent _ _, _ =>
    ends_of_forall (fun _ _ => rfl) fun _ _ => List.prefix_refl _

theorem spentList_ends : ∀ (ss : List StmtTerm) (w : Workspace),
    (buildList ss).Ends w (fun _ _ => spentList w ss = slots (takesList ss))
      (fun _ _ => spentList w ss <+: slots (takesList ss))
  | [], w => by
    rw [buildList]
    exact ends_pure rfl
  | s :: ss, w => by
    rw [buildList, spentList, takesList, slots_append]
    refine (spent_ends s w).bind_run (fun e w₁ part hr => ?_) fun st w₁ all hr => ?_
    · rw [hr, List.append_nil]
      exact part.trans (List.prefix_append _ _)
    rw [hr, all]
    have others := spentList_ends ss w₁
    refine Ends.bind (Q := fun _ _ => spentList w₁ ss = slots (takesList ss)) ?_ ?_
    · unfold Ends dropOnFailure
      cases hr : buildList ss w₁ with
      | ok sts w₂ => exact others.ok hr
      | error e w₂ =>
        have part := (List.prefix_append_right_inj (slots s.takes)).2 (others.error hr)
        have dropped : (do dropStmts [st]; throw e : Build (List (Stmt NodeId))).Ends w₂
            (fun _ _ => spentList w₁ ss = slots (takesList ss))
            (fun _ _ => slots s.takes ++ spentList w₁ ss <+: slots s.takes ++ slots (takesList ss)) :=
          (ends_of_forall (Q := fun _ _ => True) (fun _ _ => trivial) fun _ _ => part).bind fun _ _ _ =>
            ends_throw part
        exact dropped
    · intro sts w₂ rest
      exact ends_pure (congrArg (slots s.takes ++ ·) rest)

end

theorem spent_prefix (s : StmtTerm) (w : Workspace) : s.spent w <+: slots s.takes := by
  have ends := spent_ends s w
  cases hr : s.build w with
  | ok st w' => exact ends.ok hr ▸ List.prefix_refl _
  | error e w' => exact ends.error hr

end StmtTerm

/-- Only the slots of arguments are emptied, the first ones first. -/
theorem Command.spent_prefix (c : Command) (w : Workspace) : c.spent w <+: c.arguments := by
  cases c with
  | stmt s into => exact s.spent_prefix w
  | addStmt site s =>
    rw [spent]
    split
    · exact s.spent_prefix w
    · exact List.nil_prefix
  | addFunction m f =>
    rw [spent]
    split
    · exact List.prefix_refl _
    · exact List.nil_prefix
  | _ => exact List.prefix_refl _

theorem Command.arguments_subset (c : Command) : c.arguments ⊆ c.takes := by
  cases c with
  | stmt s into => exact List.subset_append_left _ _
  | addStmt place s => exact List.Subset.refl _
  | addFunction m x => exact List.Subset.refl _
  | _ => exact List.nil_subset _

namespace Workspace

variable {w w' : Workspace}

/-- The workspace with these slots emptied, one after the other. -/
def emptied (w : Workspace) (ks : List OwnedSlot) : Workspace := ks.foldl (fun w k => w.take k.1 k.2) w

/-- What the slots own that are emptied one after the other. -/
def contents (w : Workspace) : List OwnedSlot → List Owned
  | [] => []
  | k :: ks => (w.owned? k.1 k.2).toList ++ (w.take k.1 k.2).contents ks

theorem emptied_concat (w : Workspace) (ks : List OwnedSlot) (k : OwnedSlot) :
    w.emptied (ks ++ [k]) = (w.emptied ks).take k.1 k.2 := List.foldl_append

theorem owned_emptied : ∀ (w : Workspace) (ks : List OwnedSlot),
    w.owned.Perm (w.contents ks ++ (w.emptied ks).owned)
  | w, [] => .refl _
  | w, k :: ks => by
    rw [contents, List.append_assoc]
    exact (w.owned_take k.1 k.2).trans ((owned_emptied (w.take k.1 k.2) ks).append_left _)

theorem exprs_emptied (w : Workspace) : ∀ ks : List OwnedSlot, (w.emptied ks).exprs = w.exprs
  | [] => rfl
  | k :: ks => (exprs_emptied (w.take k.1 k.2) ks).trans (w.exprs_take k.1 k.2)

theorem held_emptied (w : Workspace) (ks : List OwnedSlot) :
    w.held.Perm ((w.contents ks).flatMap (·.held) ++ (w.emptied ks).held) := by
  have owned := (w.owned_emptied ks).flatMap_right (·.held)
  rw [List.flatMap_append] at owned
  rw [held, held, exprs_emptied]
  exact (owned.append_left _).trans (List.perm_append_comm_assoc _ _ _)

theorem evaluated_emptied (w : Workspace) (ks : List OwnedSlot) :
    w.evaluated.Perm ((w.contents ks).flatMap (·.evaluated) ++ (w.emptied ks).evaluated) := by
  have owned := (w.owned_emptied ks).flatMap_right (·.evaluated)
  rwa [List.flatMap_append] at owned

/-! ## What an assembly leaves -/

/-- What is left of the workspace in the middle of an assembly that has emptied the slots `ks`. -/
structure Remains (w : Workspace) (ks : List OwnedSlot) (c : Config) : Prop where
  balanced : c.Balanced
  slots : (w.emptied ks).SameSlots c.ws
  names : w.names.texts <+: c.ws.names.texts
  nodes : w.store.Extends c.ws.store
  prevented : ∀ n, (c.ws.store.cell n).prevented = (w.store.cell n).prevented

theorem Remains.refl (h : Config.Balanced ⟨[], w⟩) : w.Remains [] ⟨[], w⟩ :=
  ⟨h, .refl w, List.prefix_refl _, .refl _, fun _ => rfl⟩

end Workspace

namespace Assembly

variable {a : Scope} {c c' : Config}

theorem names (m : Assembly a c c') : c.ws.names.texts <+: c'.ws.names.texts := by
  cases m with
  | grow hg =>
    cases hg with
    | intern s => exact Names.prefix_intern _ s
    | number | node => exact List.prefix_refl _
  | reorder | make | gather | drop => exact List.prefix_refl _

theorem prevented (m : Assembly a c c') (h : c.Balanced) (n : NodeId) :
    (c'.ws.store.cell n).prevented = (c.ws.store.cell n).prevented := by
  rcases m.store_cases with hr | ⟨-, hg⟩
  · exact hr.prevented n
  · exact hg.prevented h.ordered n

end Assembly

namespace Workspace

variable {w w' : Workspace}

/-- **Every move of an assembly leaves as much.** -/
theorem remains_assembles (a : Scope) (w : Workspace) : Assembles a w.Remains where
  balanced h := h.balanced
  move {ks c c'} h m := {
    balanced := m.balanced h.balanced
    slots := h.slots.trans m.sameSlots
    names := h.names.trans m.names
    nodes := h.nodes.trans (m.extends_store h.balanced)
    prevented := fun n => (m.prevented h.balanced n).trans (h.prevented n) }
  take {ks hand v kind x o} h _ owns := {
    balanced := (Move.take (a := .all) kind trivial owns).balanced h.balanced
    slots := by
      rw [emptied_concat]
      exact h.slots.take kind x
    names := by
      have : (v.take kind x).names = v.names := by cases kind <;> rfl
      exact this ▸ h.names
    nodes := by
      rw [store_take]
      exact h.nodes
    prevented := by
      rw [store_take]
      exact h.prevented }

theorem remains_phases (a : Scope) (w : Workspace) : Phases a w.Remains Config.Balanced :=
  ⟨remains_assembles a w, fun h => h.balanced, Config.Balanced.invariant⟩

/-- **`w'` is `w` without what the slots `ks` owned.** -/
structure Without (w : Workspace) (ks : List OwnedSlot) (w' : Workspace) : Prop where
  /-- These slots are empty; statements, blocks, functions, modules and handles elsewhere are as they were. -/
  slots : (w.emptied ks).SameSlots w'
  /-- No name reads differently. -/
  names : w.names.texts <+: w'.names.texts
  /-- The nodes are those that are left when what the slots owned is dropped. -/
  cells : w'.store.cells = (w.discard (w.contents ks)).tidy.store.cells
  live : ∀ n, w'.store.Live n → w.store.Live n
  /-- A node that is left keeps its shape and its type. -/
  node : ∀ n, w'.store.Live n → (w'.store.cell n).node = (w.store.cell n).node
  prevented : ∀ n, w'.store.Live n → (w'.store.cell n).prevented = (w.store.cell n).prevented
  evals : ∀ n, w'.store.Live n →
    (w.store.cell n).evals = (w'.store.cell n).evals + ((w.contents ks).flatMap (·.evaluated)).count n
  holders : ∀ n, w'.store.Live n →
    (w.store.cell n).holders = (w'.store.cell n).holders + ((w.contents ks).flatMap (·.held)).count n +
      (w.store.lost w'.store).count n

/-- A failure leaves what an assembly leaves, tidied. -/
theorem Sound.remains_of_error (h : w.Sound) {c : Command} {e : Failure} (he : (w.step c).1 = .error e) :
    ∃ v, w.Remains (c.spent w) ⟨[], v⟩ ∧ (w.step c).2 = v.tidy := by
  have ends := Command.perform_ends (remains_phases .all w) (.refl h.books) c (c.within_all w)
  obtain ⟨v, failed, eq⟩ := step_error_of_ends ends he
  exact ⟨v, failed.1, eq⟩

/-- What an assembly leaves, tidied, is the workspace without what the emptied slots owned. -/
theorem Sound.without_of_remains (h : w.Sound) {ks : List OwnedSlot} {v : Workspace} (hr : w.Remains ks ⟨[], v⟩) :
    w.Without ks v.tidy := by
  have before : w.store.Books ((w.contents ks).flatMap (·.held) ++ v.held)
      ((w.contents ks).flatMap (·.evaluated) ++ v.evaluated) := by
    rw [hr.slots.held, hr.slots.evaluated]
    exact h.books.perm (w.held_emptied ks) (w.evaluated_emptied ks)
  have after : v.store.Books v.held v.evaluated := hr.balanced
  have cells : v.tidy.store.cells = (w.discard (w.contents ks)).tidy.store.cells :=
    before.cells_givenUp (fun _ => held_of_evaluated) after (fun _ => hr.nodes.node) fun n _ => hr.prevented n
  have tidied : v.tidy.store.Books v.held v.evaluated := after.sweep fun _ => held_of_evaluated
  -- both stores have the same cells, so what is known of the one holds of the other
  have same : ∀ n, v.tidy.store.Live n → w.store.Live n ∧ (v.tidy.store.cell n).node = (w.store.cell n).node ∧
      (v.tidy.store.cell n).prevented = (w.store.cell n).prevented := by
    intro n hn
    have eq : v.tidy.store.cell n = (w.discard (w.contents ks)).tidy.store.cell n := by
      unfold Store.cell Store.find?
      rw [cells]
    unfold Store.Live at hn
    rw [cells] at hn
    rw [eq]
    exact before.cell_givenUp hn
  refine ⟨hr.slots.trans (.mapStore _ _), hr.names, cells, fun n hn => (same n hn).1, fun n hn => (same n hn).2.1,
    fun n hn => (same n hn).2.2, fun n hn => ?_, fun n hn => ?_⟩
  · have := before.evals n
    rw [List.count_append] at this
    rw [this, tidied.evals n, Nat.add_comm]
  · have slots := h.books.ordered.slots_lost tidied.ordered (fun n hn => ⟨(same n hn).1, (same n hn).2.1⟩) n
    have := before.holders n
    rw [List.count_append] at this
    rw [this, tidied.holders n, slots]
    omega

/-- An assembly that has emptied no slot leaves no trace. -/
theorem Sound.cells_of_remains (h : w.Sound) {v : Workspace} (hr : w.Remains [] ⟨[], v⟩) :
    v.tidy.store.cells = w.store.cells := by
  have after : v.store.Books w.held w.evaluated := by
    have slots : w.SameSlots v := hr.slots
    rw [← slots.held, ← slots.evaluated]
    exact hr.balanced
  exact h.books.cells_sweep h.held after (fun _ => hr.nodes.node) (fun _ => held_of_evaluated) fun n _ => hr.prevented n

/-- **A failure is atomic.**  A command that fails has emptied the first few slots of its arguments; apart from that
every slot is as it was, what these slots owned is dropped, and every node that outlasts the drop is as it was, with as
many holders and evaluations less as the dropped objects had.  When no slot was emptied, the nodes with their counters
are the same.  The width that is read off a type changes nothing at all: a type without one is refused, in its own
words, and every other one answers. -/
theorem Reachable.without_of_error (h : w.Reachable) {c : Command} {e : Failure} (he : (w.step c).1 = .error e) :
    c.spent w <+: c.arguments ∧ w.Without (c.spent w) (w.step c).2 ∧
    (c.spent w = [] → w.SameSlots (w.step c).2 ∧ (w.step c).2.store.cells = w.store.cells) ∧
    ∀ t : Ty, (t = .bool ∨ t = .arrayId → Build.ofExcept t.expectWidth w = .error (.refused (.noWidth t)) w) ∧
      ∀ width, t = .bv width ∨ t = .float width ∨ t = .pointer width →
        Build.ofExcept t.expectWidth w = .ok width w := by
  obtain ⟨v, remains, eq⟩ := h.sound.remains_of_error he
  have without := h.sound.without_of_remains remains
  rw [← eq] at without
  refine ⟨c.spent_prefix w, without, fun none => ⟨?_, ?_⟩, fun t => ⟨?_, fun width => ?_⟩⟩
  · have slots := without.slots
    rwa [none] at slots
  · rw [none] at remains
    rw [eq]
    exact h.sound.cells_of_remains remains
  · rintro (rfl | rfl) <;> rfl
  · rintro (rfl | rfl | rfl) <;> rfl

/-- A module with a function, and a function of the same name that evaluates a negation. -/
def usedName : List Command :=
  [.expr (.boolConst true) (some "e"), .module "m" .spir (some "m"), .function "f" (some "f"), .addFunction "m" "f",
    .function "f" (some "g"), .addBlock "g" "entry", .addEval (.inFunction "g" 0) (.unary .not (.slot "e")) (.list [])]

/-- The module refuses the second function, which is dropped: the negation goes with it, and the constant loses the
holder that the negation was. -/
theorem without_of_error_usedName :
    (∃ e, ((empty.run usedName).2.step (.addFunction "m" "g")).1 = .error e) ∧
    (empty.run usedName).2.store.cells.map (fun c => (c.holders, c.evals)) = [(1, 1), (2, 0)] ∧
    ((empty.run usedName).2.step (.addFunction "m" "g")).2.store.cells.map (fun c => (c.holders, c.evals)) = [(1, 0)] ∧
    (empty.run usedName).2.Without [(.function, "g")] ((empty.run usedName).2.step (.addFunction "m" "g")).2 := by
  have reached : (empty.run usedName).2.Reachable := ⟨usedName, rfl⟩
  have failed : ((empty.run usedName).2.step (.addFunction "m" "g")).1 = .error (.refused (.functionName ⟨0⟩ ⟨1⟩)) :=
    rfl
  have spent : (Command.addFunction "m" "g").spent (empty.run usedName).2 = [(.function, "g")] := rfl
  have without := (Reachable.without_of_error reached failed).2.1
  rw [spent] at without
  exact ⟨⟨_, failed⟩, by decide, by decide, without⟩

end Workspace
end KernelIR
