import Mathlib.Data.List.Perm.Subperm
import KernelIR.Proofs.Handles
import KernelIR.Proofs.Holders
/-!
# Deduplication — a node is evaluated once at most

A script deduplicates when its evaluations come from `addEval` alone.  In every workspace that such a script reaches, a
node has one live evaluation at most, in whatever block; a node whose evaluation is forbidden gets none from then on;
and `addEval` adds one exactly where there is none and none is forbidden, so also after the one that was there is
dropped.

The guard of `addEval` reads a counter, which the books keep exact (`Store.Books.evals`).  The other commands can only
drop evaluations (`Sound.step_evals`).
-/
namespace KernelIR

/-- No evaluation is made. -/
def Scope.noEval : Scope := { Scope.all with makes := (· ≠ .eval) }

namespace Command

/-- Adds an evaluation where none is alive. -/
def isAddEval : Command → Bool
  | .addEval _ _ _ => true
  | _ => false

/-- No evaluation is made past the guard of `addEval`. -/
def Deduplicates (c : Command) : Prop := c.isAddEval = true ∨ .eval ∉ c.makes

instance (c : Command) : Decidable c.Deduplicates := inferInstanceAs (Decidable (_ ∨ _))

theorem within_noEval {c : Command} (h : .eval ∉ c.makes) (w : Workspace) : c.Within .noEval w where
  makes k hk := fun (he : k = .eval) => h (he ▸ hk)
  takes _ _ := trivial
  fills _ _ := trivial
  forbids _ _ := trivial
  freezes _ _ _ _ _ := trivial
  writes _ _ := trivial

end Command

/-- The evaluations among some statements. -/
def evalsOf (ss : List (Stmt NodeId)) : List (Stmt NodeId) := ss.filter (·.kind == .eval)

theorem mem_evalsOf {ss : List (Stmt NodeId)} {s : Stmt NodeId} : s ∈ evalsOf ss ↔ s ∈ ss ∧ s.kind = .eval := by
  simp [evalsOf, List.mem_filter]

theorem Stmt.kind_eq_eval_iff {s : Stmt NodeId} : s.kind = .eval ↔ ∃ n, s.body = .eval n := by
  unfold kind
  cases s.body <;> simp [StmtBody.kind]

theorem countP_evaluates (n : NodeId) (ss : List (Stmt NodeId)) :
    (evalsOf ss).countP (·.evaluates n) = ss.countP (·.evaluates n) := by
  rw [evalsOf, List.countP_filter]
  refine List.countP_congr fun s _ => ?_
  have : s.evaluates n = true → s.kind = .eval := fun h => Stmt.kind_eq_eval_iff.2 ⟨n, Stmt.evaluates_iff.1 h⟩
  simpa using this

namespace Workspace

/-- The statements that `w` owns and that evaluate. -/
def evals (w : Workspace) : List (Stmt NodeId) := evalsOf w.liveStmts

/-- Some live statement evaluates the node. -/
def Evaluates (w : Workspace) (n : NodeId) : Prop := ∃ s ∈ w.liveStmts, s.body = .eval n

/-- The node may not be evaluated, now and later: its number is not given out again. -/
def Forbids (w : Workspace) (n : NodeId) : Prop :=
  n.index < w.store.next ∧ (w.store.Live n → (w.store.cell n).prevented = true)

/-- What the arguments of an addition come to: a block, a node and locations; `v` is the workspace by then. -/
structure Arguments (w : Workspace) (site : BlockSite) (e : Term) (t : LocsTerm) (b : Block) (n : NodeId) (l : Locs)
    (v : Workspace) : Prop where
  block : w.block? site = some b
  built : ∃ w₁, e.build w = .ok n w₁ ∧ t.build w₁ = .ok l v

/-- An evaluation of `n` comes last in the block `b`, and no other slot changes. -/
def Appends (w : Workspace) (site : BlockSite) (b : Block) (n : NodeId) (l : Locs)
    (p : Except Failure Reply × Workspace) : Prop :=
  p.1 = .ok (.count (b.stmts.length + 1)) ∧
    ∃ id, (w.putBlock site (b.push ⟨id, .eval n, some b.id, l⟩)).SameSlots p.2

/-- No slot changes, and no node: neither its holders nor its markers. -/
def Skips (w : Workspace) (b : Block) (p : Except Failure Reply × Workspace) : Prop :=
  p.1 = .ok (.count b.stmts.length) ∧ w.SameSlots p.2 ∧ p.2.store.cells = w.store.cells

/-- No addition of the script is one of an evaluation of the node. -/
def AddsNo (n : NodeId) : Workspace → List Command → Prop
  | _, [] => True
  | w, c :: cs => (∀ site e t b l v, c = .addEval site e t → ¬ w.Arguments site e t b n l v) ∧ AddsNo n (w.step c).2 cs

/-- A workspace that a deduplicating script reaches. -/
def Deduplicated (w : Workspace) : Prop := ∃ cs : List Command, (∀ c ∈ cs, c.Deduplicates) ∧ (empty.run cs).2 = w

end Workspace

/-! ## Moves that make no evaluation -/

/-- A statement that evaluates comes from an evaluation that no block owns. -/
theorem Arises.eval {w w' : Workspace} {lost : List (Stmt NodeId)} {s : Stmt NodeId} (h : Arises .noEval w w' lost s)
    (he : s.kind = .eval) : ∃ t ∈ lost, t.kind = .eval ∧ t.parent = none := by
  cases h with
  | made locs allowed => exact absurd he allowed
  | gathered => cases he
  | placed mem free =>
    obtain ⟨hp, rfl⟩ := Stmt.place_ok free
    exact ⟨_, mem, he, hp⟩

/-- **What makes no evaluation only drops some**, as long as all of them are in blocks. -/
theorem Move.evals {c c' : Config} (m : Move .noEval c c')
    (placed : ∀ s ∈ evalsOf (c.objects.flatMap (·.stmts)), s.parent ≠ none) :
    (evalsOf (c'.objects.flatMap (·.stmts))).Subperm (evalsOf (c.objects.flatMap (·.stmts))) := by
  obtain ⟨kept, lost, new, before, after, arise⟩ := m.stmts
  have fresh : evalsOf new.toList = [] := by
    refine List.eq_nil_iff_forall_not_mem.2 fun s hs => ?_
    obtain ⟨hs, he⟩ := mem_evalsOf.1 hs
    obtain ⟨t, ht, he, hp⟩ := (arise s (Option.mem_toList.1 hs)).eval he
    exact placed t (mem_evalsOf.2 ⟨before.mem_iff.2 (List.mem_append_right _ ht), he⟩) hp
  have split : ∀ l l' : List (Stmt NodeId), evalsOf (l ++ l') = evalsOf l ++ evalsOf l' := fun l l' =>
    List.filter_append ..
  have after := after.filter (·.kind == .eval)
  have before := before.filter (·.kind == .eval)
  change (evalsOf _).Perm (evalsOf _) at after before
  rw [split, fresh, List.append_nil] at after
  rw [split] at before
  exact after.subperm.trans ((List.sublist_append_left _ _).subperm.trans before.symm.subperm)

/-- The evaluations stay among those of a list. -/
theorem evals_invariant {l : List (Stmt NodeId)} (hl : ∀ s ∈ l, s.parent ≠ none) :
    Invariant .noEval fun c => c.Balanced ∧ (evalsOf (c.objects.flatMap (·.stmts))).Subperm l :=
  ⟨And.left, fun h m => ⟨m.balanced h.1, (m.evals fun s hs => hl s (h.2.subset hs)).trans h.2⟩⟩

theorem Growth.forbids {w w' : Workspace} (h : Growth w w') (ho : w.store.Ordered) {n : NodeId} (hn : w.Forbids n) :
    w'.Forbids n := by
  obtain ⟨old, forbidden⟩ := hn
  refine ⟨?_, fun hl => ?_⟩
  · cases h with
    | intern | number => exact old
    | node => exact Nat.lt_succ_of_lt old
  · rw [h.prevented ho]
    refine forbidden ?_
    cases h with
    | intern | number => exact hl
    | node =>
      refine (Store.live_alloc.1 hl).resolve_left ?_
      rintro rfl
      exact Nat.lt_irrefl _ old

theorem Grows.forbids {w w' : Workspace} (h : Grows w w') {held evaluated : List NodeId}
    (hb : w.store.Books held evaluated) {n : NodeId} (hn : w.Forbids n) : w'.Forbids n := by
  induction h with
  | refl => exact hn
  | tail hg h ih => exact h.forbids (Grows.books hg hb).ordered ih

/-- A node that is forbidden stays so. -/
theorem forbids_invariant (n : NodeId) : Invariant .all fun c => c.Balanced ∧ c.ws.Forbids n := by
  refine ⟨And.left, fun {c c'} h m => ⟨m.balanced h.1, ?_⟩⟩
  obtain ⟨hb, old, forbidden⟩ := h
  rcases m.store_cases with hr | ⟨k, -, hr⟩ | ⟨-, hg⟩
  · refine ⟨by rwa [hr.next], fun hl => ?_⟩
    rw [hr.prevented]
    exact forbidden (hr.live_iff.1 hl)
  · refine ⟨by rw [hr]; exact old, fun hl => ?_⟩
    rw [hr] at hl ⊢
    have hl := (Store.live_mapCells (Store.recounts_prevent k) _).1 hl
    rw [Store.prevent, Store.cell_mapCells (Store.recounts_prevent k) _ hl]
    exact Bool.or_eq_true_iff.2 (.inl (forbidden hl))
  · exact hg.forbids hb.ordered ⟨old, forbidden⟩

namespace Workspace

variable {w : Workspace} {n : NodeId}

theorem stmts_objects (w : Workspace) : (Config.objects ⟨[], w⟩).flatMap (·.stmts) = w.liveStmts := w.stmts_owned

theorem evaluates_iff : w.Evaluates n ↔ 0 < w.evaluated.count n := by
  rw [evaluated_eq, Stmt.count_flatMap_evaluated, List.countP_pos_iff]
  exact exists_congr fun s => and_congr_right fun _ => Stmt.evaluates_iff.symm

theorem SameSlots.liveStmts {w' : Workspace} (h : w.SameSlots w') : w'.liveStmts = w.liveStmts := by
  rw [← stmts_owned, ← stmts_owned, h.owned]

/-- **A command that makes no evaluation only drops some.** -/
theorem Sound.step_evals (h : w.Sound) (placed : ∀ s ∈ w.evals, s.parent ≠ none) {c : Command} (hc : .eval ∉ c.makes) :
    (w.step c).2.evals.Subperm w.evals := by
  have start : (evalsOf ((Config.objects ⟨[], w⟩).flatMap (·.stmts))).Subperm w.evals := by
    rw [stmts_objects]
    exact .refl _
  obtain ⟨w', ⟨-, hw⟩, he⟩ := step_tidy_within (evals_invariant placed) ⟨h.books, start⟩ (c.within_noEval hc w)
  rw [he]
  rw [stmts_objects] at hw
  exact hw

theorem Forbids.tidy (h : w.Forbids n) (hb : Config.Balanced ⟨[], w⟩) : w.tidy.Forbids n := by
  refine ⟨h.1, fun hl => ?_⟩
  obtain ⟨k, hk⟩ := hb.cell_sweep hl
  change (w.store.sweep.cell n).prevented = true
  rw [hk]
  exact h.2 (hb.live_of_sweep hl)

theorem Sound.step_forbids (h : w.Sound) (hn : w.Forbids n) (c : Command) : (w.step c).2.Forbids n := by
  obtain ⟨w', ⟨hb, forbidden⟩, he⟩ := step_tidy (forbids_invariant n) ⟨h.books, hn⟩ c
  rw [he]
  exact forbidden.tidy hb

theorem Sound.step_prevent (h : w.Sound) {x : String} (hx : w.exprs.get? x = some n) :
    w.SameSlots (w.step (.preventEval x)).2 ∧ (w.step (.preventEval x)).2.Forbids n := by
  have run : Command.perform (.preventEval x) w = .ok (.flag true) (w.mapStore (Store.prevent n)) :=
    Build.run_bind (Build.run_slot hx) _
  have live : w.store.Live n := h.live_of_slot (Table.mem_values_of_get? hx)
  have forbidden : (w.mapStore (Store.prevent n)).Forbids n := by
    refine ⟨?_, fun _ => ?_⟩
    · have := h.books.ordered.below _ (h.books.ordered.cell_mem live)
      rwa [Store.cell_id] at this
    · change ((w.store.prevent n).cell n).prevented = true
      rw [Store.prevent, Store.cell_mapCells (Store.recounts_prevent n) _ live]
      simp [Store.cell_id]
  rw [step_of_run run]
  exact ⟨.trans (.mapStore _ _) (.mapStore _ _), forbidden.tidy (Store.Books.prevent h.books n)⟩

/-! ## Adding an evaluation -/

theorem Arguments.unique {site : BlockSite} {e : Term} {t : LocsTerm} {b b' : Block} {n' : NodeId} {l l' : Locs}
    {v v' : Workspace} (h : w.Arguments site e t b n l v) (h' : w.Arguments site e t b' n' l' v') :
    b = b' ∧ n = n' ∧ l = l' ∧ v = v' := by
  obtain ⟨here, w₁, he, ht⟩ := h
  obtain ⟨here', w₁', he', ht'⟩ := h'
  cases here.symm.trans here'
  cases he.symm.trans he'
  cases ht.symm.trans ht'
  exact ⟨rfl, rfl, rfl, rfl⟩

/-- The guard reads the same after the arguments were evaluated. -/
theorem Sound.guard (h : w.Sound) {v : Workspace} (hg : Grows w v) (n : NodeId) :
    ((v.store.cell n).hasEval || (v.store.cell n).prevented) = true ↔
      w.Evaluates n ∨ (w.store.cell n).prevented = true := by
  rw [Bool.or_eq_true_iff, hg.prevented h.books, Cell.hasEval, decide_eq_true_iff, (hg.books h.books).evals,
    evaluates_iff]

theorem run_addEvalTo {site : BlockSite} {b : Block} {l : Locs} (here : w.block? site = some b) :
    Command.addEvalTo site n l w = if (w.store.cell n).hasEval || (w.store.cell n).prevented then
        .ok b.stmts.length w
      else .ok (b.stmts.length + 1)
        ((w.withStmt (.eval n)).putBlock site (b.push ⟨w.supply, .eval n, some b.id, l⟩)) := by
  change (if (w.store.cell n).hasEval || (w.store.cell n).prevented then _ else _ : Build Nat) w = _
  split
  · exact Build.run_bind (Build.run_blockAt here) _
  · have placed : (w.withStmt (.eval n)).block? site = some b := by
      rw [← here]
      cases site <;> rfl
    have made : Build.newStmt (.eval n) l w = .ok ⟨w.supply, .eval n, none, l⟩ (w.withStmt (.eval n)) := rfl
    exact (Build.run_bind made _).trans (Build.run_appendStmt placed rfl)

/-- **An addition** whose arguments come to something skips or appends, as the guard says.  Otherwise it fails, and
leaves only names, numbers and nodes. -/
theorem Sound.addEval_ends (h : w.Sound) (site : BlockSite) (e : Term) (t : LocsTerm) :
    (Command.perform (.addEval site e t)).Ends w
      (fun r w' => ∃ b n l v, w.Arguments site e t b n l v ∧ Grows w v ∧ v.store.Live n ∧
        ((w.Evaluates n ∨ (w.store.cell n).prevented = true) ∧ r = .count b.stmts.length ∧ w' = v ∨
          ¬ (w.Evaluates n ∨ (w.store.cell n).prevented = true) ∧ r = .count (b.stmts.length + 1) ∧
            w' = (v.withStmt (.eval n)).putBlock site (b.push ⟨v.supply, .eval n, some b.id, l⟩)))
      (fun _ w' => Grows w w' ∧ ∀ b n l v, ¬ w.Arguments site e t b n l v) := by
  refine Build.Ends.bind (Q := fun _ w' => w' = w ∧ ∃ b, w.block? site = some b) ?_ ?_
  · refine Build.Ends.mono (Build.Ends.discard (Build.blockAt_finds site)) ?_ ?_
    · rintro _ _ ⟨b, rfl, here⟩
      exact ⟨rfl, b, here⟩
    · rintro _ _ ⟨rfl, absent, -⟩
      exact ⟨.refl, fun b n l v ha => nomatch absent.symm.trans ha.block⟩
  intro _ w' hw
  obtain ⟨hw, b, here⟩ := hw
  rw [hw]
  refine Build.Ends.bind_run (h.yields e) (fun _ w' he hr => ⟨he.1, ?_⟩) fun n w₁ hw hr => ?_
  · rintro b n l v ⟨-, w₁, hb, -⟩
    cases hr.symm.trans hb
  obtain ⟨g₁, u, hn, -⟩ := hw
  refine Build.Ends.bind_run (Build.Growing.locs t w₁) (fun _ w' he hr' => ⟨g₁.trans he.1, ?_⟩) fun l v g₂ hr' => ?_
  · rintro b n l v ⟨-, w₁', hb, hl⟩
    cases hr.symm.trans hb
    cases hr'.symm.trans hl
  have g : Grows w v := g₁.trans g₂
  have args : w.Arguments site e t b n l v := ⟨here, w₁, hr, hr'⟩
  have live : v.store.Live n := g₂.live hn.1
  have guard := h.guard g n
  have run := run_addEvalTo (n := n) (l := l) ((g.sameSlots.block? site).trans here)
  by_cases hc : w.Evaluates n ∨ (w.store.cell n).prevented = true
  · rw [if_pos (guard.2 hc)] at run
    exact Build.ends_of_run (Build.run_bind run _) ⟨b, n, l, v, args, g, live, .inl ⟨hc, rfl, rfl⟩⟩
  · rw [if_neg (mt guard.1 hc)] at run
    exact Build.ends_of_run (Build.run_bind run _) ⟨b, n, l, v, args, g, live, .inr ⟨hc, rfl, rfl⟩⟩

theorem Sound.step_addEval (h : w.Sound) (site : BlockSite) (e : Term) (t : LocsTerm) :
    (∃ b n l v, w.Arguments site e t b n l v ∧
      ((w.Evaluates n ∨ (w.store.cell n).prevented = true) ∧ w.Skips b (w.step (.addEval site e t)) ∨
        ¬ w.Evaluates n ∧ (w.store.cell n).prevented = false ∧ ¬ w.Forbids n ∧
          w.Appends site b n l (w.step (.addEval site e t)))) ∨
    w.SameSlots (w.step (.addEval site e t)).2 ∧ ∀ b n l v, ¬ w.Arguments site e t b n l v := by
  have ends := h.addEval_ends site e t
  unfold Workspace.step
  cases hr : Command.perform (.addEval site e t) w with
  | error f w' =>
    obtain ⟨g, none⟩ := ends.error hr
    exact .inr ⟨g.sameSlots.trans (.mapStore _ _), none⟩
  | ok r w' =>
    obtain ⟨b, n, l, v, args, g, live, ⟨hc, rfl, rfl⟩ | ⟨hc, rfl, rfl⟩⟩ := ends.ok hr
    · refine .inl ⟨b, n, l, w', args, .inl ⟨hc, rfl, g.sameSlots.trans (.mapStore _ _), ?_⟩⟩
      exact h.growth_undone g
    · have free : (w.store.cell n).prevented = false := Bool.eq_false_iff.2 fun hp => hc (.inr hp)
      refine .inl ⟨b, n, l, v, args, .inr ⟨fun hv => hc (.inl hv), free, fun hn => ?_, rfl, v.supply, ?_⟩⟩
      · -- the node is live by now, so it would be marked
        have := (g.forbids h.books hn).2 live
        rw [g.prevented h.books, free] at this
        cases this
      · have slots : w.SameSlots (v.withStmt (.eval n)) := g.sameSlots.trans (.withStmt v _)
        exact (slots.putBlock site _).trans (.mapStore _ _)

theorem evals_of_appends {site : BlockSite} {b : Block} {l : Locs} {p : Except Failure Reply × Workspace}
    (here : w.block? site = some b) (h : w.Appends site b n l p) :
    ∃ s : Stmt NodeId, s.body = .eval n ∧ s.parent ≠ none ∧ p.2.liveStmts.Perm (s :: w.liveStmts) := by
  obtain ⟨-, id, slots⟩ := h
  refine ⟨⟨id, .eval n, some b.id, l⟩, rfl, nofun, ?_⟩
  rw [slots.liveStmts]
  exact liveStmts_push here _

section

variable {site : BlockSite} {e : Term} {t : LocsTerm} {b : Block} {l : Locs} {v : Workspace} (h : w.Sound)
  (args : w.Arguments site e t b n l v)
include h args

theorem Sound.appends_of_free (none : ¬ w.Evaluates n) (free : (w.store.cell n).prevented = false) :
    w.Appends site b n l (w.step (.addEval site e t)) := by
  rcases h.step_addEval site e t with ⟨b', n', l', v', args', ⟨hc, -⟩ | ⟨-, -, -, added⟩⟩ | ⟨-, none'⟩
  · obtain ⟨-, rfl, -, -⟩ := args.unique args'
    rcases hc with hc | hc
    · exact absurd hc none
    · cases free.symm.trans hc
  · obtain ⟨rfl, rfl, rfl, -⟩ := args.unique args'
    exact added
  · exact absurd args (none' b n l v)

theorem Sound.skips_of_guarded (hc : w.Evaluates n ∨ (w.store.cell n).prevented = true) :
    w.Skips b (w.step (.addEval site e t)) := by
  rcases h.step_addEval site e t with ⟨b', n', l', v', args', ⟨-, skips⟩ | ⟨none, free, -, -⟩⟩ | ⟨-, none'⟩
  · obtain ⟨rfl, -, -, -⟩ := args.unique args'
    exact skips
  · obtain ⟨-, rfl, -, -⟩ := args.unique args'
    rcases hc with hc | hc
    · exact absurd hc none
    · cases free.symm.trans hc
  · exact absurd args (none' b n l v)

theorem Sound.settled_of_arguments : (w.step (.addEval site e t)).2.Evaluates n ∨
    ((w.step (.addEval site e t)).2.store.cell n).prevented = true := by
  by_cases hc : w.Evaluates n ∨ (w.store.cell n).prevented = true
  · obtain ⟨-, slots, cells⟩ := h.skips_of_guarded args hc
    refine hc.imp (fun hv => ?_) fun hp => ?_
    · rwa [Evaluates, slots.liveStmts]
    · rwa [Store.cell, Store.find?, cells]
  · have free : (w.store.cell n).prevented = false := Bool.eq_false_iff.2 fun hp => hc (.inr hp)
    obtain ⟨s, body, -, perm⟩ := evals_of_appends args.block (h.appends_of_free args (fun hv => hc (.inl hv)) free)
    exact .inl ⟨s, perm.mem_iff.2 (List.mem_cons_self ..), body⟩

end

/-! ## Dropping -/

/-- **The ways in which what a slot owned is dropped**: the slot is emptied, a new object takes its place, or a module
refuses the function that is to move into it. -/
inductive Drops (w : Workspace) : Command → OwnedKind → String → Prop
  | drop {d : DroppedKind} {kind : OwnedKind} (x : String) (hk : d.owned? = some kind) : Drops w (.drop d x) kind x
  | block {id : BlockId} {name x : String} {r : Reply} (ok : (w.step (.block id name (some x))).1 = .ok r) :
    Drops w (.block id name (some x)) .block x
  | function {name x : String} {r : Reply} (ok : (w.step (.function name (some x))).1 = .ok r) :
    Drops w (.function name (some x)) .function x
  | module {name x : String} {model : ModelTerm} {r : Reply} (ok : (w.step (.module name model (some x))).1 = .ok r) :
    Drops w (.module name model (some x)) .module x
  | refused {m x : String} {md : Module} {e : Failure} (here : w.modules.get? m = some md)
    (he : (w.step (.addFunction m x)).1 = .error e) : Drops w (.addFunction m x) .function x

theorem Drops.deduplicates {c : Command} {kind : OwnedKind} {x : String} (h : w.Drops c kind x) : c.Deduplicates := by
  cases h <;> exact .inr List.not_mem_nil

/-- A new object in place of what a slot owned evaluates nothing. -/
theorem evaluated_replace {o : Owned} (none : o.evaluated = []) (x : String) :
    ((w.take o.kind x).put x o).evaluated.Perm (w.take o.kind x).evaluated := by
  have put := (owned_put_free (w.owned?_take o.kind x)).flatMap_right (·.evaluated)
  rwa [List.flatMap_cons, none, List.nil_append] at put

/-- What is evaluated afterwards is what was evaluated outside the slot. -/
theorem Sound.step_drops (h : w.Sound) {c : Command} {kind : OwnedKind} {x : String} {o : Owned}
    (dropped : w.Drops c kind x) (owns : w.owned? kind x = some o) :
    (w.step c).2.evaluated.Perm (w.take kind x).evaluated := by
  cases dropped with
  | drop x hk =>
    rw [(h.step_drop hk owns).evaluated]
  | block ok =>
    obtain ⟨y, slots⟩ := h.step_block ok
    rw [slots.evaluated]
    exact evaluated_replace (o := .block _) rfl x
  | function ok =>
    obtain ⟨y, slots⟩ := h.step_function ok
    rw [slots.evaluated]
    exact evaluated_replace (o := .function _) rfl x
  | module ok =>
    obtain ⟨y, t, slots⟩ := h.step_module ok
    rw [slots.evaluated]
    exact evaluated_replace (o := .module _) rfl x
  | @refused m x md e here he =>
    obtain ⟨f, hf, -⟩ := Option.map_eq_some_iff.1 owns
    have spent : (Command.addFunction m x).spent w = [(.function, x)] := by
      rw [Command.spent, here, hf]
    obtain ⟨v, remains, after⟩ := h.remains_of_error he
    have slots := (h.without_of_remains remains).slots
    rw [spent, ← after] at slots
    rw [slots.evaluated]
    exact .refl _

/-! ## Deduplicating scripts -/

/-- What a deduplicating script keeps: evaluations are in blocks, and no node has two. -/
structure OnceEach (w : Workspace) : Prop where
  sound : w.Sound
  placed : ∀ s ∈ w.evals, s.parent ≠ none
  once : ∀ n, w.liveStmts.countP (·.evaluates n) ≤ 1

theorem onceEach_empty : empty.OnceEach := ⟨sound_empty, fun _ hs => (nomatch hs), fun _ => Nat.zero_le _⟩

namespace OnceEach

theorem of_subperm {w' : Workspace} (h : w.OnceEach) (hw : w'.Sound) (he : w'.evals.Subperm w.evals) :
    w'.OnceEach where
  sound := hw
  placed s hs := h.placed s (he.subset hs)
  once n := by
    have := he.countP_le (·.evaluates n)
    rw [evals, evals, countP_evaluates, countP_evaluates] at this
    exact Nat.le_trans this (h.once n)

theorem step (h : w.OnceEach) {c : Command} (hc : c.Deduplicates) : (w.step c).2.OnceEach := by
  rcases hc with hc | hc
  · cases c with
    | addEval site e t =>
      have sound := h.sound.step (.addEval site e t)
      rcases h.sound.step_addEval site e t with ⟨b, n, l, v, args, ⟨-, -, slots, -⟩ | ⟨none, -, -, added⟩⟩ | ⟨slots, -⟩
      · exact h.of_subperm sound (by rw [evals, slots.liveStmts]; exact .refl _)
      · obtain ⟨s, body, parent, perm⟩ := evals_of_appends args.block added
        refine ⟨sound, fun p hp => ?_, fun m => ?_⟩
        · obtain ⟨hp, he⟩ := mem_evalsOf.1 hp
          rcases List.mem_cons.1 (perm.mem_iff.1 hp) with rfl | hp
          · exact parent
          · exact h.placed p (mem_evalsOf.2 ⟨hp, he⟩)
        · rw [perm.countP_eq, List.countP_cons]
          have := h.once m
          by_cases hm : s.evaluates m = true
          · -- the new one is the first
            have he : n = m := by simpa [body] using Stmt.evaluates_iff.1 hm
            have : w.liveStmts.countP (·.evaluates m) = 0 := by
              rw [List.countP_eq_zero, ← he]
              exact fun p hp hv => none ⟨p, hp, Stmt.evaluates_iff.1 hv⟩
            rw [if_pos hm]
            omega
          · rw [if_neg hm]
            omega
      · exact h.of_subperm sound (by rw [evals, slots.liveStmts]; exact .refl _)
    | _ => cases hc
  · exact h.of_subperm (h.sound.step c) (h.sound.step_evals h.placed hc)

/-- A node that is forbidden gets no evaluation. -/
theorem step_forbidden (h : w.OnceEach) {c : Command} (hc : c.Deduplicates) (hn : w.Forbids n) {s : Stmt NodeId}
    (hs : s ∈ (w.step c).2.liveStmts) (he : s.body = .eval n) : s ∈ w.liveStmts := by
  rcases hc with hc | hc
  · cases c with
    | addEval site e t =>
      rcases h.sound.step_addEval site e t with ⟨b, k, l, v, args, ⟨-, -, slots, -⟩ | ⟨-, -, free, added⟩⟩ | ⟨slots, -⟩
      · rwa [slots.liveStmts] at hs
      · obtain ⟨p, body, -, perm⟩ := evals_of_appends args.block added
        refine (List.mem_cons.1 (perm.mem_iff.1 hs)).resolve_left ?_
        rintro rfl
        cases he.symm.trans body
        exact free hn
      · rwa [slots.liveStmts] at hs
    | _ => cases hc
  · have : s ∈ (w.step c).2.evals := mem_evalsOf.2 ⟨hs, Stmt.kind_eq_eval_iff.2 ⟨n, he⟩⟩
    exact (mem_evalsOf.1 ((h.sound.step_evals h.placed hc).subset this)).1

theorem run : ∀ (cs : List Command) {w : Workspace}, w.OnceEach → (∀ c ∈ cs, c.Deduplicates) → (w.run cs).2.OnceEach
  | [], _, h, _ => h
  | c :: cs, _, h, hc => run cs (h.step (hc c (List.mem_cons_self ..))) fun d hd => hc d (List.mem_cons_of_mem _ hd)

theorem run_forbidden : ∀ (cs : List Command) {w : Workspace}, w.OnceEach → (∀ c ∈ cs, c.Deduplicates) → w.Forbids n →
    ∀ s ∈ (w.run cs).2.liveStmts, s.body = .eval n → s ∈ w.liveStmts
  | [], _, _, _, _, _, hs, _ => hs
  | c :: cs, w, h, hc, hn, s, hs, he => by
    have first := hc c (List.mem_cons_self ..)
    have others : ∀ d ∈ cs, d.Deduplicates := fun d hd => hc d (List.mem_cons_of_mem _ hd)
    have before := run_forbidden cs (h.step first) others (h.sound.step_forbids hn c) s hs he
    exact h.step_forbidden first hn before he

/-- What is not evaluated stays so until it is added. -/
theorem step_not_evaluates (h : w.OnceEach) {c : Command} (hc : c.Deduplicates) (hn : ¬ w.Evaluates n)
    (other : ∀ site e t b l v, c = .addEval site e t → ¬ w.Arguments site e t b n l v) :
    ¬ (w.step c).2.Evaluates n := by
  rintro ⟨s, hs, he⟩
  rcases hc with hc | hc
  · cases c with
    | addEval site e t =>
      rcases h.sound.step_addEval site e t with ⟨b, k, l, v, args, ⟨-, -, slots, -⟩ | ⟨-, -, -, added⟩⟩ | ⟨slots, -⟩
      · rw [slots.liveStmts] at hs
        exact hn ⟨s, hs, he⟩
      · obtain ⟨p, body, -, perm⟩ := evals_of_appends args.block added
        rcases List.mem_cons.1 (perm.mem_iff.1 hs) with rfl | hs
        · cases he.symm.trans body
          exact other site e t b l v rfl args
        · exact hn ⟨s, hs, he⟩
      · rw [slots.liveStmts] at hs
        exact hn ⟨s, hs, he⟩
    | _ => cases hc
  · have : s ∈ (w.step c).2.evals := mem_evalsOf.2 ⟨hs, Stmt.kind_eq_eval_iff.2 ⟨n, he⟩⟩
    exact hn ⟨s, (mem_evalsOf.1 ((h.sound.step_evals h.placed hc).subset this)).1, he⟩

theorem run_not_evaluates : ∀ (cs : List Command) {w : Workspace}, w.OnceEach → (∀ c ∈ cs, c.Deduplicates) →
    ¬ w.Evaluates n → w.AddsNo n cs → ¬ (w.run cs).2.Evaluates n
  | [], _, _, _, hn, _ => hn
  | c :: cs, _, h, hc, hn, other => by
    have first := hc c (List.mem_cons_self ..)
    exact run_not_evaluates cs (h.step first) (fun d hd => hc d (List.mem_cons_of_mem _ hd))
      (h.step_not_evaluates first hn other.1) other.2

/-- Where the evaluation of a node is dropped, the node has none. -/
theorem not_evaluates_of_drops (h : w.OnceEach) {c : Command} {kind : OwnedKind} {x : String} {o : Owned}
    (dropped : w.Drops c kind x) (owns : w.owned? kind x = some o) (hn : n ∈ o.evaluated) :
    ¬ (w.step c).2.Evaluates n := by
  have once := h.once n
  have here := List.count_pos_iff.2 hn
  have total := evaluated_take owns n
  rw [evaluates_iff, (h.sound.step_drops dropped owns).count_eq]
  rw [← Stmt.count_flatMap_evaluated, ← evaluated_eq] at once
  omega

end OnceEach

/-- **A node is evaluated once at most.**  In every workspace that a deduplicating script reaches, each node has at most
one live evaluation; a node whose evaluation is forbidden gets none from then on; `addEval` puts one at the end of the
block when the node has none and none is forbidden, otherwise it changes nothing, and afterwards the node has one or is
forbidden; and once the object with the evaluation is dropped, in whatever way, the next addition of the node, in
whatever block, adds one again, unless it is forbidden by then. -/
theorem Deduplicated.evaluated_once (h : w.Deduplicated) :
    (∀ n, w.liveStmts.countP (·.evaluates n) ≤ 1) ∧
    (∀ x n cs, w.exprs.get? x = some n → (∀ c ∈ cs, c.Deduplicates) →
      ∀ s ∈ ((w.step (.preventEval x)).2.run cs).2.liveStmts, s.body = .eval n → s ∈ w.liveStmts) ∧
    (∀ site e t b n l v, w.Arguments site e t b n l v →
      (¬ w.Evaluates n ∧ (w.store.cell n).prevented = false → w.Appends site b n l (w.step (.addEval site e t))) ∧
      (w.Evaluates n ∨ (w.store.cell n).prevented = true → w.Skips b (w.step (.addEval site e t))) ∧
      ((w.step (.addEval site e t)).2.Evaluates n ∨
        ((w.step (.addEval site e t)).2.store.cell n).prevented = true)) ∧
    ∀ c kind x o n cs, w.Drops c kind x → w.owned? kind x = some o → n ∈ o.evaluated →
      (∀ d ∈ cs, d.Deduplicates) → (w.step c).2.AddsNo n cs → ∀ w', ((w.step c).2.run cs).2 = w' →
        ∀ site e t b l v, w'.Arguments site e t b n l v → (w'.store.cell n).prevented = false →
          w'.Appends site b n l (w'.step (.addEval site e t)) := by
  have hw : w.OnceEach := by
    obtain ⟨cs, hcs, rfl⟩ := h
    exact onceEach_empty.run cs hcs
  refine ⟨hw.once, fun x n cs hx hcs s hs he => ?_, fun site e t b n l v args => ?_, ?_⟩
  · obtain ⟨slots, forbidden⟩ := hw.sound.step_prevent hx
    have := (hw.step (.inr (List.not_mem_nil))).run_forbidden cs hcs forbidden s hs he
    rwa [slots.liveStmts] at this
  · exact ⟨fun hc => hw.sound.appends_of_free args hc.1 hc.2, fun hc => hw.sound.skips_of_guarded args hc,
      hw.sound.settled_of_arguments args⟩
  · rintro c kind x o n cs dropped owns hn hcs others w' rfl site e t b l v args free
    have after := hw.step dropped.deduplicates
    have none := after.run_not_evaluates cs hcs (hw.not_evaluates_of_drops dropped owns hn) others
    exact (after.run cs hcs).sound.appends_of_free args none free

/-- An evaluation in one block, and a second block beside it. -/
def evaluatedInOne : List Command :=
  [.expr (.boolConst true) (some "e"), .block ⟨0⟩ "a" (some "a"), .addEval (.loose "a") (.slot "e") (.list []),
    .block ⟨1⟩ "b" (some "b")]

/-- The second block gets no evaluation of the node, until the first block is dropped or another takes its place. -/
theorem evaluated_once_evaluatedInOne :
    ((empty.run evaluatedInOne).2.step (.addEval (.loose "b") (.slot "e") (.list []))).1 = .ok (.count 0) ∧
    ((((empty.run evaluatedInOne).2.step (.drop .block "a")).2.step
      (.addEval (.loose "b") (.slot "e") (.list [])))).1 = .ok (.count 1) ∧
    ((((empty.run evaluatedInOne).2.step (.block ⟨2⟩ "c" (some "a"))).2.step
      (.addEval (.loose "b") (.slot "e") (.list [])))).1 = .ok (.count 1) := by
  have h : (empty.run evaluatedInOne).2.Deduplicated := ⟨evaluatedInOne, by decide, rfl⟩
  obtain ⟨-, -, adding, dropping⟩ := Deduplicated.evaluated_once h
  refine ⟨?_, ?_, ?_⟩
  · refine ((adding (.loose "b") (.slot "e") (.list []) ⟨⟨1⟩, ⟨1⟩, []⟩ ⟨0⟩ _ _ ⟨rfl, _, rfl, rfl⟩).2.1 (.inl ?_)).1
    exact ⟨_, List.mem_cons_self .., rfl⟩
  · exact (dropping (.drop .block "a") .block "a" _ ⟨0⟩ [] (.drop "a" rfl) rfl (by decide) nofun trivial _ rfl
      (.loose "b") (.slot "e") (.list []) ⟨⟨1⟩, ⟨1⟩, []⟩ _ _ ⟨rfl, _, rfl, rfl⟩ (by decide)).1
  · exact (dropping (.block ⟨2⟩ "c" (some "a")) .block "a" _ ⟨0⟩ [] (.block rfl) rfl (by decide) nofun trivial _ rfl
      (.loose "b") (.slot "e") (.list []) ⟨⟨1⟩, ⟨1⟩, []⟩ _ _ ⟨rfl, _, rfl, rfl⟩ (by decide)).1

end Workspace
end KernelIR
