import KernelIR.Proofs.Holders
import KernelIR.Proofs.Names
import KernelIR.Proofs.Objects
import KernelIR.Script.Action
/-!
# Actions — what every action keeps

An action is a command, or two blocks change places, or a node that is held gets one more holder, or only names are
touched (`Workspace.Acted`).  A change of places moves what the two blocks hold and evaluate, whole, so the books stay
in order and a workspace that actions reach is sound (`Sound.acts`): its markers and its counts are exact.  A law of
single objects that commands keep holds of every such workspace, as soon as a change of places keeps it too
(`ObjectLaw.acts`).
-/
namespace KernelIR

/-- A block in place of another takes what it holds with it. -/
theorem Function.held_setBlock {f : Function} {i : Nat} {b : Block} (here : f.blocks[i]? = some b) (b' : Block) :
    (f.held ++ b'.held).Perm ((f.setBlock i b').held ++ b.held) := by
  refine List.perm_iff_count.2 fun n => ?_
  have counts := count_flatMap_set (f := fun b : Block => b.held) (b := b') n here
  simp only [held, setBlock, clauses, List.count_append] at *
  omega

theorem Function.evaluated_setBlock {f : Function} {i : Nat} {b : Block} (here : f.blocks[i]? = some b) (b' : Block) :
    (f.evaluated ++ b'.evaluated).Perm ((f.setBlock i b').evaluated ++ b.evaluated) := by
  refine List.perm_iff_count.2 fun n => ?_
  have counts := count_flatMap_set (f := fun b : Block => b.evaluated) (b := b') n here
  simp only [evaluated, setBlock, List.count_append] at *
  omega

/-! ## Code on the text of a name -/

theorem Build.run_withText {w : Workspace} (free : w.poisoned = false) (y : Symbol)
    (code : String → Except String String) : Build.withText y code w =
      match code (w.names.text y) with
      | .ok s => .ok s w
      | .error message => .error (.refused (.raised message)) { w with poisoned := true } := by
  have read : (get : Build Workspace) w = .ok w w := rfl
  unfold Build.withText
  rw [Build.run_bind (Build.run_checkNames free), Build.run_bind read]
  cases code (w.names.text y) <;> rfl

namespace Action

variable {w : Workspace} {name : String} {code : String → Except String String}

theorem perform_inspect (free : w.poisoned = false) : (inspect name code).perform w =
    match code name with
    | .ok s => .ok (.text s) { w with names := (w.names.intern name).2 }
    | .error message =>
      .error (.refused (.raised message)) { w with names := (w.names.intern name).2, poisoned := true } := by
  have known : (w.names.intern name).2.text (w.names.intern name).1 = name :=
    Names.text_eq (w.names.texts_intern_get name)
  have read := Build.run_withText (w := { w with names := (w.names.intern name).2 }) free (w.names.intern name).1 code
  rw [known] at read
  refine (Build.run_bind (Build.run_intern free name) _).trans ?_
  cases ran : code name with
  | ok s =>
    rw [ran] at read
    exact Build.run_bind read _
  | error message =>
    rw [ran] at read
    exact Build.run_bind_error read _

theorem perform_inspect_poisoned (poisoned : w.poisoned = true) :
    (inspect name code).perform w = .error (.refused .namesPoisoned) w := by
  have interned : Build.intern name w = .error (.refused .namesPoisoned) w :=
    Build.run_bind_error (Build.run_checkNames_error poisoned) _
  exact Build.run_bind_error interned _

end Action

namespace Workspace

variable {w : Workspace} {f x : String} {i : Nat} {fn : Function} {b b' : Block}

/-- The block `i` of the function in the slot `f` and the block in the slot `x`, each in the place of the other. -/
def exchange (w : Workspace) (f : String) (i : Nat) (x : String) (fn : Function) (b b' : Block) : Workspace :=
  (w.put f (.function (fn.setBlock i b'))).put x (.block b)

/-- **What an action does.** -/
inductive Acted (w : Workspace) : Action → Workspace → Prop
  | command (c : Command) : Acted w (.command c) (w.step c).2
  /-- No slot and no node changes. -/
  | names (a : Action) (names : Names) (poisoned : Bool) :
    Acted w a { w with names := names, poisoned := poisoned }.tidy
  | exchange {f x : String} {i : Nat} {fn : Function} {b b' : Block} (hf : w.functions.get? f = some fn)
    (hb : fn.blocks[i]? = some b) (hx : w.blocks.get? x = some b') :
    Acted w (.exchangeBlock f i x) (w.exchange f i x fn b b').tidy
  | copy {n : NodeId} (a : Action) (into : String) (held : n ∈ w.held) : Acted w a (w.setExpr into n).tidy

/-! ## Every action is one of these -/

theorem acted_of_ends {a : Action}
    (ends : a.perform.Ends w (fun _ v => w.Acted a v.tidy) fun _ v => w.Acted a v.tidy) : w.Acted a (w.act a).2 := by
  unfold act
  cases run : a.perform w with
  | ok r v => exact ends.ok run
  | error e v => exact ends.error run

theorem owned_of_owned? {kind : OwnedKind} {o : Owned} (owns : w.owned? kind x = some o) : o ∈ w.owned := by
  have := w.owned_take kind x
  rw [owns] at this
  exact this.mem_iff.2 (List.mem_cons_self ..)

/-- **Every action is one of these.** -/
theorem acted (w : Workspace) (a : Action) : w.Acted a (w.act a).2 := by
  have same : ∀ a, w.Acted a w.tidy := fun a => .names a w.names w.poisoned
  cases a with
  | command c => exact .command c
  | exchangeBlock f i x =>
    refine acted_of_ends (Build.Ends.bind (Q := fun b v => v = w ∧ w.block? (.inFunction f i) = some b) ?_ ?_)
    · exact (Build.blockAt_finds _).mono (fun _ _ => id) fun _ _ failed => failed.1 ▸ same _
    rintro b v ⟨rfl, here⟩
    obtain ⟨fn, hf, hb⟩ := Option.bind_eq_some_iff.1 here
    refine Build.Ends.bind (Q := fun b' u => u = v ∧ v.blocks.get? x = some b') ?_ ?_
    · exact Build.ends_slot (fun _ hx => ⟨rfl, hx⟩) fun _ => same _
    rintro b' u ⟨rfl, hx⟩
    have swapped : (u.putBlock (.inFunction f i) b').putBlock (.loose x) b = u.exchange f i x fn b b' := by
      rw [putBlock, putBlock, hf]
      rfl
    change Acted _ _ ((u.putBlock (.inFunction f i) b').putBlock (.loose x) b).tidy
    rw [swapped]
    exact .exchange hf hb hx
  | copyHandle kind x i into =>
    refine acted_of_ends (Build.Ends.bind (Q := fun o v => v = w ∧ w.owned? kind x = some o) ?_ ?_)
    · refine Build.ends_get ?_
      split
      · rename_i o owns
        exact Build.ends_pure ⟨rfl, owns⟩
      · exact Build.ends_throw (same _)
    rintro o v ⟨rfl, owns⟩
    split
    · rename_i n hn
      have held : n ∈ v.held := List.mem_append_right _
        (List.mem_flatMap.2 ⟨o, owned_of_owned? owns, List.mem_of_getElem? hn⟩)
      exact .copy _ into held
    · exact same _
  | inspect name code =>
    unfold act
    cases free : w.poisoned with
    | true =>
      rw [Action.perform_inspect_poisoned free]
      exact same _
    | false =>
      rw [Action.perform_inspect free]
      cases code name with
      | ok s => exact .names _ _ w.poisoned
      | error message => exact .names _ _ true

/-! ## The books -/

/-- Two objects are replaced, and the others stay. -/
theorem exchange_objects (hf : w.functions.get? f = some fn) (hx : w.blocks.get? x = some b') : ∃ rest,
    w.owned.Perm (.block b' :: .function fn :: rest) ∧
      (w.exchange f i x fn b b').owned.Perm (.block b :: .function (fn.setBlock i b') :: rest) := by
  have hx' : (w.put f (.function (fn.setBlock i b'))).blocks.get? x = some b' := hx
  obtain ⟨before, after⟩ := owned_swap (w := w.take .block x) (owned?_function hf) (.function (fn.setBlock i b')) rfl
  exact ⟨_, (owned_swap (owned?_block hx) (.block b) rfl).1.trans (before.cons _),
    (owned_swap (owned?_block hx') (.block b) rfl).2.trans (after.cons _)⟩

/-- What the function and the two blocks have, they have afterwards. -/
theorem exchange_perm (hf : w.functions.get? f = some fn) (hx : w.blocks.get? x = some b') {g : Owned → List NodeId}
    (moved : (g (.function fn) ++ g (.block b')).Perm (g (.function (fn.setBlock i b')) ++ g (.block b))) :
    (w.owned.flatMap g).Perm ((w.exchange f i x fn b b').owned.flatMap g) := by
  obtain ⟨rest, before, after⟩ := exchange_objects (i := i) (b := b) hf hx
  refine (before.flatMap_right g).trans (.trans ?_ (after.flatMap_right g).symm)
  simp only [List.flatMap_cons, ← List.append_assoc]
  exact (List.perm_append_comm.trans (moved.trans List.perm_append_comm)).append_right _

theorem Sound.balanced_exchange (h : w.Sound) (hf : w.functions.get? f = some fn) (hb : fn.blocks[i]? = some b)
    (hx : w.blocks.get? x = some b') : Config.Balanced ⟨[], w.exchange f i x fn b b'⟩ :=
  h.books.perm ((exchange_perm hf hx (Function.held_setBlock hb b')).append_left _)
    (exchange_perm hf hx (Function.evaluated_setBlock hb b'))

/-- **One action keeps a workspace sound.** -/
theorem Sound.act (h : w.Sound) (a : Action) : (w.act a).2.Sound := by
  have done := w.acted a
  generalize (w.act a).2 = w' at done
  cases done with
  | command c => exact h.step c
  | names _ names poisoned => exact sound_tidy (w := { w with names := names, poisoned := poisoned }) h.books
  | exchange hf hb hx => exact sound_tidy (h.balanced_exchange hf hb hx)
  | copy _ into held =>
    have move : Move .all ⟨[], w⟩ ⟨[], w.setExpr into _⟩ := .setExpr trivial (h.books.live_of_held held)
    exact sound_tidy (move.balanced h.books)

theorem Sound.acts : ∀ (as : List Action) {w : Workspace}, w.Sound → (w.acts as).Sound
  | [], _, h => h
  | a :: as, _, h => acts as (h.act a)

/-- **Actions keep the markers exact**, also of what a block evaluated before another took its place. -/
theorem acts_markers_exact (as : List Action) : ∀ c ∈ (empty.acts as).store.cells,
    c.evals = (empty.acts as).liveStmts.countP (·.evaluates c.id) ∧
      (c.hasEval = true ↔ ∃ s ∈ (empty.acts as).liveStmts, s.body = .eval c.id) :=
  (sound_empty.acts as).markers_exact.1

/-- **Actions keep the counts exact**: handles that were cloned out of an object, or moved with a block, are counted
where they are. -/
theorem acts_counts_exact (as : List Action) : ∀ c ∈ (empty.acts as).store.cells,
    c.holders = (empty.acts as).exprs.values.count c.id + (empty.acts as).store.slots.count c.id +
      ((empty.acts as).liveStmts.flatMap (·.operands)).count c.id +
      ((empty.acts as).liveClauses.map (·.pred)).count c.id + (empty.acts as).liveAxioms.count c.id :=
  (sound_empty.acts as).counts_exact.1

end Workspace

/-! ## Laws of single objects -/

namespace ObjectLaw

variable {Q : (NodeId → Node NodeId) → Owned → Prop} {w : Workspace}

/-- **One action keeps a law**, where the law survives the change of places that the action may be. -/
theorem act (h : ObjectLaw .all Q) (hw : w.Sound) (hq : ∀ o ∈ w.owned, Q w.store.reader.node o) {a : Action}
    (exchanged : ∀ {f i x fn b b'}, a = .exchangeBlock f i x → fn.blocks[i]? = some b → w.blocks.get? x = some b' →
      Q w.store.reader.node (.function fn) → Q w.store.reader.node (.block b') →
      Q w.store.reader.node (.function (fn.setBlock i b')) ∧ Q w.store.reader.node (.block b)) :
    ∀ o ∈ (w.act a).2.owned, Q (w.act a).2.store.reader.node o := by
  have done := w.acted a
  generalize (w.act a).2 = w' at done
  cases done with
  | command c => exact h.step hw hq (c.within_all w)
  | names _ names poisoned => exact h.tidy (w := { w with names := names, poisoned := poisoned }) hw.books hq
  | exchange hf hb hx =>
    obtain ⟨rest, before, after⟩ := Workspace.exchange_objects hf hx
    refine h.tidy (hw.balanced_exchange hf hb hx) fun o ho => ?_
    obtain ⟨block, function, others⟩ : Q _ (.block _) ∧ Q _ (.function _) ∧ ∀ o ∈ rest, Q _ o := by
      simpa only [List.forall_mem_cons] using fun o ho => hq o (before.mem_iff.2 ho)
    obtain ⟨function, block⟩ := exchanged rfl hb hx function block
    exact List.forall_mem_cons.2 ⟨block, List.forall_mem_cons.2 ⟨function, others⟩⟩ o (after.mem_iff.1 ho)
  | copy _ into held =>
    obtain ⟨balanced, kept⟩ := h.invariant.move (c := ⟨[], w⟩) ⟨hw.books, hq⟩
      (.setExpr (x := into) trivial (hw.books.live_of_held held))
    exact h.tidy balanced kept

/-- **A law that commands and changes of places keep holds of every object that actions reach.** -/
theorem acts (h : ObjectLaw .all Q)
    (exchanged : ∀ {read : NodeId → Node NodeId} {fn : Function} {i : Nat} {b b' : Block}, fn.blocks[i]? = some b →
      Q read (.function fn) → Q read (.block b') → Q read (.function (fn.setBlock i b')) ∧ Q read (.block b)) :
    ∀ (as : List Action) {w : Workspace}, w.Sound → (∀ o ∈ w.owned, Q w.store.reader.node o) →
      ∀ o ∈ (w.acts as).owned, Q (w.acts as).store.reader.node o
  | [], _, _, hq => hq
  | a :: as, _, hw, hq => h.acts exchanged as (hw.act a) (h.act hw hq fun _ hb _ => exchanged hb)

end ObjectLaw
end KernelIR
