import KernelIR.Proofs.Commands
import KernelIR.Proofs.Store.Sweep
/-!
# Reachable — what holds in every workspace that a script reaches

What every command keeps holds of every reachable workspace (`Reachable.induct`).  In particular every reachable
workspace is `Sound`: its books are in order and everything in its store is held.
-/
namespace KernelIR
namespace Workspace

variable {w : Workspace} {a : Scope} {P : Config → Prop}

/-- The books are in order, with nothing in hand, and every node has a holder. -/
structure Sound (w : Workspace) : Prop where
  books : w.store.Books w.held w.evaluated
  held : ∀ c ∈ w.store.cells, 0 < c.holders

theorem step_of_run {c : Command} {r : Reply} {v : Workspace} (run : c.perform w = .ok r v) :
    w.step c = (.ok r, v.tidy) := by
  unfold step
  rw [run]

theorem step_of_error {c : Command} {e : Failure} {v : Workspace} (run : c.perform w = .error e v) :
    w.step c = (.error e, v.tidy) := by
  unfold step
  rw [run]

theorem run_of_ok {c : Command} {r : Reply} (ok : (w.step c).1 = .ok r) :
    ∃ v, c.perform w = .ok r v ∧ (w.step c).2 = v.tidy := by
  unfold step at ok ⊢
  cases hr : c.perform w with
  | ok r' v =>
    rw [hr] at ok
    cases ok
    exact ⟨v, rfl, rfl⟩
  | error e v =>
    rw [hr] at ok
    cases ok

theorem run_of_error {c : Command} {e : Failure} (he : (w.step c).1 = .error e) :
    ∃ v, c.perform w = .error e v ∧ (w.step c).2 = v.tidy := by
  unfold step at he ⊢
  cases hr : c.perform w with
  | ok r v =>
    rw [hr] at he
    cases he
  | error e' v =>
    rw [hr] at he
    cases he
    exact ⟨v, rfl, rfl⟩

/-- What a command ends with when it succeeds. -/
theorem step_ok_of_ends {c : Command} {Q : Reply → Workspace → Prop} {E : Failure → Workspace → Prop}
    (ends : c.perform.Ends w Q E) {r : Reply} (ok : (w.step c).1 = .ok r) : ∃ v, Q r v ∧ (w.step c).2 = v.tidy := by
  obtain ⟨v, run, after⟩ := run_of_ok ok
  exact ⟨v, ends.ok run, after⟩

/-- What a command ends with when it fails. -/
theorem step_error_of_ends {c : Command} {Q : Reply → Workspace → Prop} {E : Failure → Workspace → Prop}
    (ends : c.perform.Ends w Q E) {e : Failure} (he : (w.step c).1 = .error e) :
    ∃ v, E e v ∧ (w.step c).2 = v.tidy := by
  obtain ⟨v, run, after⟩ := run_of_error he
  exact ⟨v, ends.error run, after⟩

/-- A command makes moves, and then the store is tidied. -/
theorem step_tidy_within (hP : Invariant a P) (h : P ⟨[], w⟩) {c : Command} (hc : c.Within a w) :
    ∃ w', P ⟨[], w'⟩ ∧ (w.step c).2 = w'.tidy := by
  have he := Command.perform_ends hP.phases h c hc
  unfold step
  cases hr : c.perform w with
  | ok r w' => exact ⟨w', he.ok hr, rfl⟩
  | error e w' => exact ⟨w', (he.error hr).1, rfl⟩

theorem step_tidy (hP : Invariant .all P) (h : P ⟨[], w⟩) (c : Command) :
    ∃ w', P ⟨[], w'⟩ ∧ (w.step c).2 = w'.tidy := step_tidy_within hP h (c.within_all w)

/-- **What every command keeps holds of every reachable workspace**, by induction on the script. -/
theorem Reachable.induct {I : Workspace → Prop} (start : I empty) (step : ∀ w c, I w → I (w.step c).2)
    (h : w.Reachable) : I w := by
  obtain ⟨cs, rfl⟩ := h
  suffices hrun : ∀ (cs : List Command) (w : Workspace), I w → I (w.run cs).2 from hrun cs empty start
  intro cs
  induction cs with
  | nil => exact fun _ => id
  | cons c cs ih => exact fun w h => ih _ (step w c h)

theorem run_append (cs cs' : List Command) (w : Workspace) : (w.run (cs ++ cs')).2 = ((w.run cs).2.run cs').2 := by
  induction cs generalizing w with
  | nil => rfl
  | cons c cs ih => exact ih _

theorem Reachable.run (h : w.Reachable) (cs : List Command) : (w.run cs).2.Reachable := by
  obtain ⟨cs₀, rfl⟩ := h
  exact ⟨cs₀ ++ cs, run_append cs₀ cs empty⟩

theorem balanced_tidy (h : Config.Balanced ⟨[], w⟩) : Config.Balanced ⟨[], w.tidy⟩ :=
  Store.Books.sweep h fun _ => held_of_evaluated

theorem sound_tidy (h : Config.Balanced ⟨[], w⟩) : w.tidy.Sound := ⟨balanced_tidy h, h.held_sweep⟩

theorem sound_empty : empty.Sound := ⟨Store.books_empty, fun _ h => nomatch h⟩

theorem Sound.step (h : w.Sound) (c : Command) : (w.step c).2.Sound := by
  obtain ⟨w', h', he⟩ := step_tidy Config.Balanced.invariant h.books c
  rw [he]
  exact sound_tidy h'

/-- **Every reachable workspace is sound.** -/
theorem Reachable.sound (h : w.Reachable) : w.Sound := h.induct sound_empty fun _ c h => h.step c

/-- A node that is there before and after a command is the same node. -/
theorem Sound.step_node (h : w.Sound) (c : Command) {n : NodeId} (hn : w.store.Live n)
    (hn' : (w.step c).2.store.Live n) : ((w.step c).2.store.cell n).node = (w.store.cell n).node := by
  obtain ⟨v, ⟨hb, hx⟩, he⟩ := step_tidy (Config.Balanced.invariant.and_extends w.store) ⟨h.books, .refl _⟩ c
  rw [he] at hn' ⊢
  obtain ⟨k, hk⟩ := Store.Books.cell_sweep hb hn'
  exact (congrArg Cell.node hk).trans (hx.node hn)

/-- It unfolds to the same tree. -/
theorem Sound.step_tree (h : w.Sound) (c : Command) {n : NodeId} (hn : w.store.Live n)
    (hn' : (w.step c).2.store.Live n) : (w.step c).2.store.tree n = w.store.tree n :=
  h.books.ordered.tree_congr (h.step c).books.ordered (fun _ => h.step_node c) hn hn'

theorem Sound.live_of_slot (h : w.Sound) {n : NodeId} (hn : n ∈ w.exprs.values) : w.store.Live n :=
  h.books.live_of_held (List.mem_append_left _ hn)

theorem Sound.yields (h : w.Sound) (t : Term) : Build.Yields w w Build.Stands t.build (t.eval w) :=
  t.build_yields h.books (fun _ hn => h.live_of_slot hn) .refl

/-- No command fails for a fault of the books. -/
theorem Sound.foreseen (h : w.Sound) {c : Command} {e : Failure} (he : (w.step c).1 = .error e) : e.Foreseen := by
  have ends := Command.perform_ends Config.Balanced.invariant.phases h.books c (c.within_all w)
  obtain ⟨v, failed, -⟩ := step_error_of_ends ends he
  exact failed.2

/-- Dropping what a slot owns empties the slot. -/
theorem Sound.step_drop (h : w.Sound) {d : DroppedKind} {kind : OwnedKind} {x : String} {o : Owned}
    (hk : d.owned? = some kind) (owns : w.owned? kind x = some o) :
    (w.take kind x).SameSlots (w.step (.drop d x)).2 := by
  have run : Command.perform (.drop d x) w = .ok .done ((w.take kind x).discard [o]) :=
    Build.run_bind (Build.run_drop hk owns h.books) _
  rw [step_of_run run]
  exact .trans (.mapStore _ _) (.mapStore _ _)

end Workspace
end KernelIR
