import Mathlib.Data.List.Nodup
import KernelIR.Proofs.Callees
import KernelIR.Proofs.Deduplication
/-!
# Immutability — what may change at a node, and which nodes are new

A node is what it was made to be, as long as it lives.  Beside the count of holders only its two markers change, and
each in one way: `preventEval` forbids evaluations for good (`Move.prevented`), and the counter follows the evaluations
that come and go.  To say which come and go, statements are told apart by their numbers: a number is given out once, and
a statement keeps it, with its body, wherever it moves (`Config.Identified`, `Config.Since`).

A constructor answers with a node that was not there before, unless one of the six cancelling rules names a sub-node of
its operand (`Form.Cancels`); then nothing changes at all.

Main statement: `Workspace.Reachable.nodes_immutable`.
-/
namespace KernelIR

/-- **The six cancelling rules**: the constructor, the node of its operand, and the sub-node that is the answer. -/
inductive Form.Cancels (s : Store) : Form NodeId → NodeId → Prop
  | array {e a o : NodeId} (he : (s.cell e).shape = .pointer a o) : Cancels s (.unary .arrayId e) a
  | offset {e a o : NodeId} (he : (s.cell e).shape = .pointer a o) : Cancels s (.unary .arrayOffset e) o
  | inverse {op inv : UnaryOp} {e x : NodeId} (h : op.Inverse inv) (he : (s.cell e).shape = .unary op x) :
    Cancels s (.unary inv e) x

/-- **Statements have numbers**: all were given out, and none twice. -/
structure Config.Identified (c : Config) : Prop where
  old : ∀ s ∈ c.objects.flatMap (·.stmts), s.id < c.ws.supply
  once : ((c.objects.flatMap (·.stmts)).map (·.id)).Nodup

/-- A row of moves from `w` led here: what has an old number was there, with the same body. -/
structure Config.Since (w : Workspace) (a : Scope) (c : Config) : Prop where
  supply : w.supply ≤ c.ws.supply
  same : ∀ s ∈ c.objects.flatMap (·.stmts), s.id < w.supply → ∃ t ∈ w.liveStmts, t.id = s.id ∧ t.body = s.body
  made : ∀ s ∈ c.objects.flatMap (·.stmts), w.supply ≤ s.id → s.kind = .eval → a.makes .eval

/-- The live statements that evaluate the node and that `w'` does not have. -/
def Workspace.evalsBeside (w w' : Workspace) (n : NodeId) : List (Stmt NodeId) :=
  w.liveStmts.filter fun s => s.evaluates n && !w'.liveStmts.any (·.id == s.id)

/-! ## The numbers of statements -/

/-- A statement that comes has a new number, or is one of those that are lost, but for its place. -/
theorem Arises.identity {a : Scope} {w w' : Workspace} {lost : List (Stmt NodeId)} {s : Stmt NodeId}
    (h : Arises a w w' lost s) :
    (s.id = w.supply ∧ w'.supply = w.supply + 1 ∧ (s.kind = .eval → a.makes .eval)) ∨
      ∃ t ∈ lost, t.id = s.id ∧ t.body = s.body := by
  cases h with
  | made locs allowed _ _ _ counted => exact .inl ⟨rfl, counted, fun he => he ▸ allowed⟩
  | gathered locs _ _ counted => exact .inl ⟨rfl, counted, nofun⟩
  | placed mem free =>
    obtain ⟨-, rfl⟩ := Stmt.place_ok free
    exact .inr ⟨_, mem, rfl, rfl⟩

/-- **One move keeps the numbers in order.** -/
theorem Config.Identified.move {a : Scope} {c c' : Config} (h : c.Identified) (m : Move a c c') : c'.Identified := by
  obtain ⟨kept, lost, new, before, after, arise⟩ := m.stmts
  have ids := (before.map (·.id)).nodup_iff.1 h.once
  rw [List.map_append, List.nodup_append] at ids
  obtain ⟨once, -, apart⟩ := ids
  have old : ∀ s ∈ kept, s.id < c.ws.supply := fun s hs => h.old s (before.mem_iff.2 (List.mem_append_left _ hs))
  cases new with
  | none =>
    rw [Option.toList_none, List.append_nil] at after
    refine ⟨fun s hs => Nat.lt_of_lt_of_le (old s (after.mem_iff.1 hs)) m.supply, ?_⟩
    exact (after.map (·.id)).nodup_iff.2 once
  | some p =>
    have after : (c'.objects.flatMap (·.stmts)).Perm (p :: kept) := after.trans (List.perm_append_singleton p kept)
    have number : p.id < c'.ws.supply ∧ ∀ s ∈ kept, s.id ≠ p.id := by
      rcases (arise p rfl).identity with ⟨hp, counted, -⟩ | ⟨t, ht, hp, -⟩
      · exact ⟨by omega, fun s hs => by have := old s hs; omega⟩
      · refine ⟨?_, fun s hs => ?_⟩
        · rw [← hp]
          exact Nat.lt_of_lt_of_le (h.old t (before.mem_iff.2 (List.mem_append_right _ ht))) m.supply
        · rw [← hp]
          exact apart _ (List.mem_map_of_mem hs) _ (List.mem_map_of_mem ht)
    refine ⟨fun s hs => ?_, ?_⟩
    · rcases List.mem_cons.1 (after.mem_iff.1 hs) with rfl | hs
      · exact number.1
      · exact Nat.lt_of_lt_of_le (old s hs) m.supply
    · refine (after.map (·.id)).nodup_iff.2 (List.nodup_cons.2 ⟨fun hp => ?_, once⟩)
      obtain ⟨s, hs, he⟩ := List.mem_map.1 hp
      exact number.2 s hs he

theorem Config.Since.move {w : Workspace} {a : Scope} {c c' : Config} (h : c.Since w a) (m : Move a c c') :
    c'.Since w a := by
  obtain ⟨kept, lost, new, before, after, arise⟩ := m.stmts
  -- what is not new was there before the move, but for its place
  have origin : ∀ s ∈ c'.objects.flatMap (·.stmts),
      (c.ws.supply ≤ s.id ∧ (s.kind = .eval → a.makes .eval)) ∨
        ∃ t ∈ c.objects.flatMap (·.stmts), t.id = s.id ∧ t.body = s.body := by
    intro s hs
    rcases List.mem_append.1 (after.mem_iff.1 hs) with hk | hn
    · exact .inr ⟨s, before.mem_iff.2 (List.mem_append_left _ hk), rfl, rfl⟩
    · rcases (arise s (Option.mem_toList.1 hn)).identity with ⟨hp, -, made⟩ | ⟨t, ht, same⟩
      · exact .inl ⟨Nat.le_of_eq hp.symm, made⟩
      · exact .inr ⟨t, before.mem_iff.2 (List.mem_append_right _ ht), same⟩
  refine ⟨Nat.le_trans h.supply m.supply, fun s hs old => ?_, fun s hs new he => ?_⟩
  · rcases origin s hs with ⟨late, -⟩ | ⟨t, ht, id, body⟩
    · have := h.supply
      omega
    · rw [← id, ← body]
      exact h.same t ht (id ▸ old)
  · rcases origin s hs with ⟨-, made⟩ | ⟨t, ht, id, body⟩
    · exact made he
    · refine h.made t ht (id ▸ new) ?_
      rw [Stmt.kind, body]
      exact he

/-! ## The marker of forbidden nodes -/

theorem Store.prevented_prevent (s : Store) (k n : NodeId) :
    ((s.prevent k).cell n).prevented = true ↔ (s.cell n).prevented = true ∨ n = k ∧ s.Live n := by
  by_cases hn : s.Live n
  · rw [prevent, cell_mapCells (recounts_prevent k) _ hn]
    simp [cell_id, hn]
  · have hn' : ¬ (s.prevent k).Live n := mt (live_mapCells (recounts_prevent k) s).1 hn
    rw [cell_of_not_live hn, cell_of_not_live hn']
    simp [hn]

/-- **Evaluations are forbidden for good**, and only of the nodes that the scope names. -/
theorem Move.prevented {a : Scope} {c c' : Config} (m : Move a c c') (hb : c.Balanced) (n : NodeId) :
    ((c.ws.store.cell n).prevented = true → (c'.ws.store.cell n).prevented = true) ∧
      ((c'.ws.store.cell n).prevented = true → (c.ws.store.cell n).prevented = true ∨ a.forbids n) := by
  rcases m.store_cases with h | ⟨k, allowed, h⟩ | ⟨-, h⟩
  · rw [h.prevented]
    exact ⟨id, .inl⟩
  · rw [h, Store.prevented_prevent]
    refine ⟨.inl, .imp_right ?_⟩
    rintro ⟨rfl, -⟩
    exact allowed
  · rw [h.prevented hb.ordered]
    exact ⟨id, .inl⟩

namespace Workspace

variable {w : Workspace}

/-- What a row of moves from `w` keeps of the markers and of the statements. -/
structure Tracked (w : Workspace) (a : Scope) (c : Config) : Prop where
  balanced : c.Balanced
  since : c.Since w a
  identified : c.Identified
  stays : ∀ n, (w.store.cell n).prevented = true → (c.ws.store.cell n).prevented = true
  named : ∀ n, (c.ws.store.cell n).prevented = true → (w.store.cell n).prevented = true ∨ a.forbids n

theorem tracked_invariant (w : Workspace) (a : Scope) : Invariant a (w.Tracked a) where
  balanced h := h.balanced
  move {c c'} h m := by
    refine ⟨m.balanced h.balanced, h.since.move m, h.identified.move m, fun n hn => ?_, fun n hn => ?_⟩
    · exact (m.prevented h.balanced n).1 (h.stays n hn)
    · exact ((m.prevented h.balanced n).2 hn).elim (h.named n) .inr

theorem identified_iff : Config.Identified ⟨[], w⟩ ↔
    (∀ s ∈ w.liveStmts, s.id < w.supply) ∧ (w.liveStmts.map (·.id)).Nodup := by
  rw [← stmts_objects]
  exact ⟨fun h => ⟨h.old, h.once⟩, fun h => ⟨h.1, h.2⟩⟩

theorem Sound.tracked (h : w.Sound) (hi : Config.Identified ⟨[], w⟩) (a : Scope) : w.Tracked a ⟨[], w⟩ where
  balanced := h.books
  identified := hi
  since := by
    refine ⟨Nat.le_refl _, fun s hs _ => ⟨s, stmts_objects w ▸ hs, rfl, rfl⟩, fun s hs new _ => ?_⟩
    exact absurd (hi.old s hs) (Nat.not_lt.2 new)
  stays _ := id
  named _ := .inl

/-- **No two live statements of a reachable workspace have the same number.** -/
theorem Reachable.identified (h : w.Reachable) : Config.Identified ⟨[], w⟩ := by
  refine (h.induct (I := fun w => w.Sound ∧ Config.Identified ⟨[], w⟩) ?_ fun w c hw => ?_).2
  · exact ⟨sound_empty, fun _ hs => (nomatch hs), .nil⟩
  · obtain ⟨v, tracked, he⟩ := step_tidy (w.tracked_invariant .all) (hw.1.tracked hw.2 .all) c
    refine ⟨hw.1.step c, ?_⟩
    rw [he]
    exact ⟨tracked.identified.old, tracked.identified.once⟩

/-! ## The evaluations that come and go -/

theorem mem_evalsBeside {w' : Workspace} {n : NodeId} {s : Stmt NodeId} :
    s ∈ w.evalsBeside w' n ↔ s ∈ w.liveStmts ∧ s.body = .eval n ∧ ∀ t ∈ w'.liveStmts, t.id ≠ s.id := by
  simp [evalsBeside, Stmt.evaluates_iff]

end Workspace

/-- Among what satisfies `p`, two lists have as much in common as either has of the other. -/
theorem length_common {p : Stmt NodeId → Bool} {l l' : List (Stmt NodeId)} (hl : (l.map (·.id)).Nodup)
    (hl' : (l'.map (·.id)).Nodup) (same : ∀ s ∈ l, ∀ t ∈ l', s.id = t.id → p s = p t) :
    (l.filter fun s => p s && l'.any (·.id == s.id)).length =
      (l'.filter fun s => p s && l.any (·.id == s.id)).length := by
  have ids : ∀ (q : Stmt NodeId → Bool) {k : List (Stmt NodeId)}, (k.map (·.id)).Nodup →
      ((k.filter q).map (·.id)).Nodup := fun q k hk => hk.sublist (List.filter_sublist.map _)
  rw [← List.length_map (fun s : Stmt NodeId => s.id), ← List.length_map (fun s : Stmt NodeId => s.id)]
  refine List.Perm.length_eq ((List.perm_ext_iff_of_nodup (ids _ hl) (ids _ hl')).2 fun i => ?_)
  have one : ∀ {k k' : List (Stmt NodeId)}, (∀ s ∈ k, ∀ t ∈ k', s.id = t.id → p s = p t) →
      i ∈ (k.filter fun s => p s && k'.any (·.id == s.id)).map (·.id) →
      i ∈ (k'.filter fun s => p s && k.any (·.id == s.id)).map (·.id) := by
    intro k k' same hi
    obtain ⟨s, hs, rfl⟩ := List.mem_map.1 hi
    obtain ⟨hs, hp⟩ := List.mem_filter.1 hs
    obtain ⟨hp, shared⟩ := Bool.and_eq_true_iff.1 hp
    obtain ⟨t, ht, he⟩ := List.any_eq_true.1 shared
    have he : t.id = s.id := beq_iff_eq.1 he
    refine List.mem_map.2 ⟨t, List.mem_filter.2 ⟨ht, Bool.and_eq_true_iff.2 ⟨?_, ?_⟩⟩, he⟩
    · rw [← same s hs t ht he.symm]
      exact hp
    · exact List.any_eq_true.2 ⟨s, hs, beq_iff_eq.2 he.symm⟩
  exact ⟨one same, one fun s hs t ht he => (same t ht s hs he.symm).symm⟩

theorem length_filter_split {α : Type} (p q : α → Bool) (l : List α) :
    l.countP p = (l.filter fun s => p s && q s).length + (l.filter fun s => p s && !q s).length := by
  rw [← List.countP_eq_length_filter, ← List.countP_eq_length_filter]
  induction l with
  | nil => rfl
  | cons s l ih =>
    rw [List.countP_cons, List.countP_cons, List.countP_cons, ih]
    cases p s <;> cases q s <;> simp <;> omega

namespace Workspace

variable {w w' : Workspace}

theorem Sound.evals_eq (h : w.Sound) (n : NodeId) : (w.store.cell n).evals = w.liveStmts.countP (·.evaluates n) := by
  rw [h.books.evals, evaluated_eq, Stmt.count_flatMap_evaluated]

/-- **The counter follows the evaluations that come and go.** -/
theorem Tracked.evals {a : Scope} (h : w.Sound) (hi : Config.Identified ⟨[], w⟩) (h' : w'.Sound)
    (since : Config.Since w a ⟨[], w'⟩) (hi' : Config.Identified ⟨[], w'⟩) (n : NodeId) :
    (w'.store.cell n).evals + (w.evalsBeside w' n).length = (w.store.cell n).evals + (w'.evalsBeside w n).length := by
  have ids := (identified_iff.1 hi).2
  have ids' := (identified_iff.1 hi').2
  have same : ∀ s ∈ w.liveStmts, ∀ t ∈ w'.liveStmts, s.id = t.id → s.evaluates n = t.evaluates n := by
    intro s hs t ht he
    obtain ⟨s', hs', id, body⟩ := since.same t (stmts_objects w' ▸ ht) (he ▸ (identified_iff.1 hi).1 s hs)
    obtain rfl : s' = s := List.inj_on_of_nodup_map ids hs' hs (id.trans he.symm)
    rw [Stmt.evaluates, Stmt.evaluates, body]
  have common := length_common ids ids' same
  rw [h.evals_eq, h'.evals_eq, length_filter_split _ (fun s => w'.liveStmts.any (·.id == s.id)) w.liveStmts,
    length_filter_split _ (fun s => w.liveStmts.any (·.id == s.id)) w'.liveStmts, evalsBeside, evalsBeside]
  omega

end Workspace

/-! ## What a constructor answers with -/

theorem UnaryOp.cancels_iff {s : Store} {op : UnaryOp} {e x : NodeId} :
    op.cancel? (s.cell e).shape = some x ↔ Form.Cancels s (.unary op e) x := by
  constructor
  · intro h
    cases hs : (s.cell e).shape with
    | pointer a o =>
      rw [hs] at h
      cases op <;> cases h
      · exact .array hs
      · exact .offset hs
    | unary op' y =>
      rw [hs] at h
      cases op <;> cases op' <;> cases h
      · exact .inverse .floatToBv hs
      · exact .inverse .bvToFloat hs
      · exact .inverse .ptrToBv hs
      · exact .inverse .bvToPtr hs
    | _ =>
      rw [hs] at h
      cases op <;> cases h
  · intro h
    cases h with
    | array he | offset he => rw [he]; rfl
    | inverse hi he => exact hi.cancel_iff.2 he

/-- Where the rule does not cancel, the node that is made was not there before and has no marker. -/
theorem Build.construct_answers {held evaluated : List NodeId} {v v' : Workspace} (hb : v.store.Books held evaluated)
    {f : Form NodeId} (live : ∀ m ∈ f.operands, v.store.Live m) {n : NodeId} (made : construct f v = .ok n v') :
    (f.Cancels v.store n ∧ v' = v) ∨
      (∀ m, ¬ f.Cancels v.store m) ∧ n = ⟨v.store.next⟩ ∧
        ∃ shape t, f.resolve v.store.reader = .ok (.fresh shape t) ∧
          v' = { v with store := (v.store.alloc shape t).2 } := by
  rw [run_construct] at made
  cases hr : f.resolve v.store.reader with
  | error x =>
    rw [hr] at made
    cases made
  | ok b =>
    rw [hr] at made
    have rules := (Form.resolve_ok hr fun m hm => hb.node_typed (live m hm)).2
    cases b with
    | reuse m =>
      cases made
      rcases rules with hs | ⟨-, t, hs⟩
      · cases hs with
        | cancel hc => exact .inl ⟨UnaryOp.cancels_iff.1 hc, rfl⟩
      · cases hs
    | fresh shape t =>
      cases made
      refine .inr ⟨fun m hc => ?_, rfl, shape, t, rfl, rfl⟩
      have cancel : Form.Simplifies v.store.reader f (.reuse m) := by
        cases hc with
        | array he => exact .cancel (UnaryOp.cancels_iff.2 (.array he))
        | offset he => exact .cancel (UnaryOp.cancels_iff.2 (.offset he))
        | inverse hi he => exact .cancel (UnaryOp.cancels_iff.2 (.inverse hi he))
      rcases rules with hs | ⟨plain, -⟩
      · cases hs
        cases cancel
      · exact plain _ cancel

namespace Workspace

variable {w : Workspace}

/-- **Nodes are immutable, and new except where a rule says otherwise.**

Take any command in a reachable workspace and any node that is live before and after it.  Its shape and its type are the
same: kind, constant, offset, handle, and each operand.  Its evaluations are forbidden afterwards exactly when they were
before, or when the command forbids them.  Its counter grows by the evaluations that came and shrinks by those that
went; what came has a new number, and the command makes evaluations.

Take any constructor that succeeds in the middle of a command, on live operands.  Either one of the six cancelling rules
names a sub-node of its operand; then that is the answer, and nothing changes.  Or no such rule applies; then the answer
is a node that was not live, without evaluations and not forbidden, and the nodes that were live have the same shape,
type and markers. -/
theorem Reachable.nodes_immutable (h : w.Reachable) :
    (∀ (c : Command) (n : NodeId), w.store.Live n → (w.step c).2.store.Live n →
      ((w.step c).2.store.cell n).node = (w.store.cell n).node ∧
      (((w.step c).2.store.cell n).prevented = true ↔
        (w.store.cell n).prevented = true ∨ ∃ x, c = .preventEval x ∧ w.exprs.get? x = some n) ∧
      ((w.step c).2.store.cell n).evals + (w.evalsBeside (w.step c).2 n).length =
        (w.store.cell n).evals + ((w.step c).2.evalsBeside w n).length ∧
      ∀ s ∈ (w.step c).2.evalsBeside w n, w.supply ≤ s.id ∧ .eval ∈ c.makes) ∧
    ∀ (hand : List Owned) (v : Workspace), Relation.ReflTransGen (Move .all) ⟨[], w⟩ ⟨hand, v⟩ →
      ∀ (f : Form NodeId) (n : NodeId) (v' : Workspace), (∀ m ∈ f.operands, v.store.Live m) →
        Build.construct f v = .ok n v' →
        (f.Cancels v.store n ∧ v' = v) ∨
        (∀ m, ¬ f.Cancels v.store m) ∧ ¬ v.store.Live n ∧ v'.store.Live n ∧
          (v'.store.cell n).evals = 0 ∧ n ∉ Config.evaluated ⟨hand, v'⟩ ∧ (v'.store.cell n).prevented = false ∧
          ∀ m, v.store.Live m → (v'.store.cell m).node = (v.store.cell m).node ∧
            (v'.store.cell m).evals = (v.store.cell m).evals ∧
            (v'.store.cell m).prevented = (v.store.cell m).prevented := by
  have sound := h.sound
  refine ⟨fun c n live live' => ?_, fun hand v path f n v' operands made => ?_⟩
  · have sound' := sound.step c
    have identified' : Config.Identified ⟨[], (w.step c).2⟩ := (h.run [c]).identified
    obtain ⟨v, tracked, he⟩ :=
      step_tidy_within (w.tracked_invariant (c.scope w)) (sound.tracked h.identified _) (c.within_scope w)
    have since : Config.Since w (c.scope w) ⟨[], (w.step c).2⟩ := by
      rw [he]
      exact ⟨tracked.since.supply, tracked.since.same, tracked.since.made⟩
    have marker : ((w.step c).2.store.cell n).prevented = (v.store.cell n).prevented := by
      rw [he] at live' ⊢
      obtain ⟨k, hk⟩ := Store.Books.cell_sweep tracked.balanced live'
      have same := congrArg Cell.prevented hk
      exact same
    refine ⟨sound.step_node c live live', ⟨fun hp => ?_, ?_⟩, ?_, fun s hs => ?_⟩
    · rcases tracked.named n (marker ▸ hp) with hp | hn
      · exact .inl hp
      · cases c with
        | preventEval x => exact .inr ⟨x, rfl, Option.mem_toList.1 hn⟩
        | _ => cases hn
    · rintro (hp | ⟨x, rfl, hx⟩)
      · rw [marker]
        exact tracked.stays n hp
      · exact (sound.step_prevent hx).2.2 live'
    · exact Tracked.evals sound h.identified sound' since identified' n
    · obtain ⟨hs, body, new⟩ := mem_evalsBeside.1 hs
      have hs : s ∈ (Config.objects ⟨[], (w.step c).2⟩).flatMap (·.stmts) := stmts_objects _ ▸ hs
      have late : w.supply ≤ s.id := by
        refine Nat.le_of_not_lt fun old => ?_
        obtain ⟨t, ht, id, -⟩ := since.same s hs old
        exact new t ht id
      exact ⟨late, since.made s hs late (Stmt.kind_eq_eval_iff.2 ⟨n, body⟩)⟩
  · have books : v.store.Books (Config.held ⟨hand, v⟩) (Config.evaluated ⟨hand, v⟩) :=
      Config.Balanced.invariant.path (c := ⟨[], w⟩) sound.books path
    rcases Build.construct_answers books operands made with cancels | ⟨plain, rfl, shape, t, made, rfl⟩
    · exact .inl cancels
    refine .inr ⟨plain, books.ordered.next_not_live, Store.live_alloc.2 (.inl rfl), ?_, ?_, ?_, fun m hm => ?_⟩
    · rw [Store.cell_alloc_self]
    · -- what is evaluated is live, and has been so before
      exact fun hn => books.ordered.next_not_live (books.live_of_evaluated hn)
    · rw [Store.cell_alloc_self]
    · rw [Store.cell_alloc_of_ne (books.ordered.ne_next hm), Store.retain,
        Store.cell_mapCells (Store.recounts_holders _) _ hm]
      exact ⟨rfl, rfl, rfl⟩

/-- A constant that a statement evaluates, and a bit-vector made of a pointer. -/
def heldEval : List Command :=
  [.expr (.boolConst true) (some "e"), .stmt (.eval (.slot "e") (.list [])) (some "s"),
    .expr (.unary .ptrToBv (.pointer (.arrayRef "a") (.bvZero 8))) none, .module "m" .spir (some "m"),
    .addArray "m" "a" .global (some "a"), .expr (.unary .ptrToBv (.pointer (.arrayRef "a") (.bvZero 8))) (some "b")]

/-- Dropping the statement takes the only evaluation away.  The same constant, built again, is another node; back to a
pointer, the bit-vector gives the node that it was made of. -/
theorem nodes_immutable_heldEval :
    (((empty.run heldEval).2.step (.drop .stmt "s")).2.store.cell ⟨0⟩).evals + 1 = 1 ∧
    (∃ v', Build.construct (.boolConst true) (empty.run heldEval).2 = .ok ⟨5⟩ v' ∧
      ¬ (empty.run heldEval).2.store.Live ⟨5⟩ ∧ v'.store.Live ⟨5⟩) ∧
    Form.Cancels (empty.run heldEval).2.store (.unary .bvToPtr ⟨4⟩) ⟨3⟩ := by
  obtain ⟨commands, constructors⟩ := Reachable.nodes_immutable ⟨heldEval, rfl⟩
  refine ⟨?_, ?_, ?_⟩
  · exact (commands (.drop .stmt "s") ⟨0⟩ (by decide) (by decide)).2.2.1
  · obtain ⟨v', made⟩ : ∃ v', Build.construct (.boolConst true) (empty.run heldEval).2 = .ok ⟨5⟩ v' := ⟨_, rfl⟩
    rcases constructors [] _ .refl (.boolConst true) ⟨5⟩ v' (List.forall_mem_nil _) made with ⟨cancels, -⟩ | fresh
    · cases cancels
    · exact ⟨v', made, fresh.2.1, fresh.2.2.1⟩
  · have made : Build.construct (.unary .bvToPtr ⟨4⟩) (empty.run heldEval).2 = .ok ⟨3⟩ (empty.run heldEval).2 := rfl
    rcases constructors [] _ .refl _ ⟨3⟩ _ (by decide) made with cancels | ⟨-, new, -⟩
    · exact cancels.1
    · exact absurd (by decide) new

end Workspace
end KernelIR
