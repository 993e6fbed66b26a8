import KernelIR.Proofs.Lookup
/-!
# Admission — which functions a module takes over

A module first asks whether all jumps of a function stay inside it, and then whether its name is free.  The first
question is a search through blocks, statements and targets, so what is refused is the first stray target in that order
(`Function.strayTarget?_eq_some_iff`).  The second is a lookup by symbol, which comes to a comparison of texts
(`Module.Indexed.isSome_lookup_iff`).

A function that is refused is dropped, and nothing else changes; so only functions that the module has take names.

Main statement: `Workspace.Reachable.admits`.
-/
namespace KernelIR

/-- Every target of the statement is below `n`, if it is a jump. -/
def Stmt.JumpsBelow (n : Nat) (s : Stmt NodeId) : Prop := ∀ ts, s.jump? = some ts → ∀ t ∈ ts, t.index < n

/-- **All jumps stay inside the function.** -/
def Function.TargetsInRange (f : Function) : Prop := ∀ b ∈ f.blocks, ∀ s ∈ b.stmts, s.JumpsBelow f.blocks.length

/-- **The first target that is no block of the function**: it stands in the block, and every target before it in the
jump, every statement before the jump and every block before the block stays inside. -/
inductive Function.FirstStray (f : Function) (b : Block) (t : BlockId) : Prop
  | mk {bs bs' : List Block} {ss ss' : List (Stmt NodeId)} {s : Stmt NodeId} {ts ts' : List BlockId}
    (blocks : f.blocks = bs ++ b :: bs') (stmts : b.stmts = ss ++ s :: ss') (jump : s.jump? = some (ts ++ t :: ts'))
    (stray : f.blocks.length ≤ t.index) (targets : ∀ u ∈ ts, u.index < f.blocks.length)
    (before : ∀ s' ∈ ss, s'.JumpsBelow f.blocks.length)
    (earlier : ∀ b' ∈ bs, ∀ s' ∈ b'.stmts, s'.JumpsBelow f.blocks.length)

/-! ## The search for a stray target -/

namespace Stmt

variable {n : Nat} {s : Stmt NodeId} {t : BlockId}

theorem find?_targets_eq_none_iff : (s.body.targets.find? fun t => n ≤ t.index) = none ↔ s.JumpsBelow n := by
  unfold JumpsBelow jump?
  cases s.body <;> simp [StmtBody.targets]

theorem find?_targets_eq_some_iff : (s.body.targets.find? fun t => n ≤ t.index) = some t ↔
    ∃ ts ts', s.jump? = some (ts ++ t :: ts') ∧ n ≤ t.index ∧ ∀ u ∈ ts, u.index < n := by
  have jumps : ∀ targets : List BlockId, (targets.find? fun t => n ≤ t.index) = some t ↔
      ∃ ts ts', some targets = some (ts ++ t :: ts') ∧ n ≤ t.index ∧ ∀ u ∈ ts, u.index < n := by
    intro targets
    rw [List.find?_eq_some_iff_append]
    simp only [Option.some.injEq, decide_eq_true_eq, Bool.not_eq_true', decide_eq_false_iff_not, Nat.not_le]
    exact ⟨fun ⟨stray, ts, ts', split, below⟩ => ⟨ts, ts', split, stray, below⟩,
      fun ⟨ts, ts', split, stray, below⟩ => ⟨stray, ts, ts', split, below⟩⟩
  unfold jump?
  cases s.body with
  | goto targets => exact jumps targets
  | _ => simp [StmtBody.targets]

end Stmt

namespace Block

variable {n : Nat} {b : Block} {t : BlockId}

/-- The targets are looked through statement by statement. -/
theorem find?_successors (b : Block) (n : Nat) : (b.successors.find? fun t => n ≤ t.index) =
    b.stmts.findSome? fun s => s.body.targets.find? fun t => n ≤ t.index := List.find?_flatMap ..

theorem find?_successors_eq_none_iff :
    (b.successors.find? fun t => n ≤ t.index) = none ↔ ∀ s ∈ b.stmts, s.JumpsBelow n := by
  rw [find?_successors, List.findSome?_eq_none_iff]
  exact forall₂_congr fun s _ => Stmt.find?_targets_eq_none_iff

theorem find?_successors_eq_some_iff : (b.successors.find? fun t => n ≤ t.index) = some t ↔
    ∃ ss s ss', b.stmts = ss ++ s :: ss' ∧ (s.body.targets.find? fun t => n ≤ t.index) = some t ∧
      ∀ s' ∈ ss, s'.JumpsBelow n := by
  rw [find?_successors, List.findSome?_eq_some_iff]
  simp only [Stmt.find?_targets_eq_none_iff]

end Block

namespace Function

variable {f : Function} {b : Block} {t : BlockId}

theorem strayTarget?_eq_none_iff : f.strayTarget? = none ↔ f.TargetsInRange := by
  rw [strayTarget?, List.findSome?_eq_none_iff]
  simp only [Option.map_eq_none_iff, Block.find?_successors_eq_none_iff]
  rfl

/-- **The search finds the first stray target.** -/
theorem strayTarget?_eq_some_iff : f.strayTarget? = some (b, t) ↔ f.FirstStray b t := by
  rw [strayTarget?, List.findSome?_eq_some_iff]
  constructor
  · rintro ⟨bs, c, bs', blocks, found, earlier⟩
    obtain ⟨u, here, pair⟩ := Option.map_eq_some_iff.1 found
    cases pair
    obtain ⟨ss, s, ss', stmts, hs, before⟩ := Block.find?_successors_eq_some_iff.1 here
    obtain ⟨ts, ts', jump, stray, targets⟩ := Stmt.find?_targets_eq_some_iff.1 hs
    exact ⟨blocks, stmts, jump, stray, targets, before, fun b' hb' =>
      Block.find?_successors_eq_none_iff.1 (Option.map_eq_none_iff.1 (earlier b' hb'))⟩
  · rintro ⟨blocks, stmts, jump, stray, targets, before, earlier⟩
    have hs := Stmt.find?_targets_eq_some_iff.2 ⟨_, _, jump, stray, targets⟩
    have here := Block.find?_successors_eq_some_iff.2 ⟨_, _, _, stmts, hs, before⟩
    exact ⟨_, b, _, blocks, Option.map_eq_some_iff.2 ⟨t, here, rfl⟩, fun b' hb' =>
      Option.map_eq_none_iff.2 (Block.find?_successors_eq_none_iff.2 (earlier b' hb'))⟩

end Function

/-! ## What a module asks -/

namespace Module

variable {N : Names} {m m' : Module} {f : Function} {e : Fault}

/-- The module with `f` as its last function. -/
def withFunction (f : Function) (m : Module) : Module :=
  { m with functions := m.functions ++ [f], index := m.index ++ [(f.name, m.functions.length)] }

/-- Some function of the module has the name. -/
def Uses (N : Names) (m : Module) (text : String) : Prop := ∃ g ∈ m.functions, N.text g.name = text

theorem Indexed.isSome_lookup_iff (h : m.Indexed N) (named : ∃ s, N.texts[f.name.index]? = some s) :
    (m.index.lookup f.name).isSome ↔ m.Uses N (N.text f.name) := by
  obtain ⟨s, hs⟩ := named
  rw [Option.isSome_iff_exists]
  constructor
  · rintro ⟨i, hi⟩
    obtain ⟨g, hg, same⟩ := (h.index f.name i).1 hi
    exact ⟨g, List.mem_of_getElem? hg, by rw [same]⟩
  · rintro ⟨g, hg, same⟩
    obtain ⟨t, ht⟩ := h.interned g hg
    rw [Names.text_eq ht, Names.text_eq hs] at same
    obtain ⟨i, hi⟩ := List.mem_iff_getElem?.1 hg
    exact ⟨i, (h.index f.name i).2 ⟨g, hi, (Names.symbol_eq_iff ht hs).2 same⟩⟩

/-- **A module takes a function** whose jumps stay inside and whose name is free. -/
theorem Indexed.accept_ok_iff (h : m.Indexed N) (named : ∃ s, N.texts[f.name.index]? = some s) :
    m.accept f = .ok m' ↔ f.TargetsInRange ∧ ¬ m.Uses N (N.text f.name) ∧ m' = m.withFunction f := by
  rw [Module.accept_ok_iff, Function.strayTarget?_eq_none_iff, ← h.isSome_lookup_iff named,
    Option.not_isSome_iff_eq_none]
  rfl

/-- **A module refuses a function** for its first stray target, or else for its name. -/
theorem Indexed.accept_error_iff (h : m.Indexed N) (named : ∃ s, N.texts[f.name.index]? = some s) :
    m.accept f = .error e ↔ (∃ b t, f.FirstStray b t ∧ e = .jumpTarget f.name b.name t) ∨
      f.TargetsInRange ∧ m.Uses N (N.text f.name) ∧ e = .functionName m.name f.name := by
  rw [← h.isSome_lookup_iff named, ← Function.strayTarget?_eq_none_iff, Module.accept]
  simp only [← Function.strayTarget?_eq_some_iff]
  cases f.strayTarget? with
  | some p =>
    obtain ⟨b, t⟩ := p
    simp only [Except.error.injEq, Option.some.injEq, Prod.mk.injEq, reduceCtorEq, false_and, or_false]
    exact ⟨fun he => ⟨b, t, ⟨rfl, rfl⟩, he.symm⟩, fun ⟨_, _, ⟨hb, ht⟩, he⟩ => by rw [he, hb, ht]⟩
  | none =>
    by_cases used : (m.index.lookup f.name).isSome
    · simp [used, eq_comm]
    · simp [used]

/-- Whether a name is in use does not depend on the names that are interned in addition. -/
theorem Indexed.uses_later {N' : Names} (h : m.Indexed N) (named : ∃ s, N.texts[f.name.index]? = some s)
    (grows : N.texts <+: N'.texts) : m.Uses N' (N'.text f.name) ↔ m.Uses N (N.text f.name) := by
  obtain ⟨s, hs⟩ := named
  rw [Names.text_eq hs, Names.text_eq (getElem?_mono grows hs)]
  exact exists_congr fun g => and_congr_right fun hg => by rw [h.text_later grows hg]

end Module

/-! ## What a workspace does -/

namespace Workspace

variable {w : Workspace} {x y x' y' : String} {m m' : Module} {f : Function}

/-- A function that is taken leaves its slot and is the last one of the module; nothing else changes. -/
theorem Sound.step_accepted (h : w.Sound) (hm : w.modules.get? x = some m) (hf : w.functions.get? y = some f)
    (fits : m.accept f = .ok m') : w.step (.addFunction x y) =
      (.ok (.count m'.functions.length), (w.take .function y).putModule x m') := by
  have taken : (modify (Workspace.take .function y) : Build Unit) w = .ok () (w.take .function y) := rfl
  have run : Build.moveFunction x y w = .ok m'.functions.length ((w.take .function y).putModule x m') := by
    refine (Build.run_bind (Build.run_slot_iff.2 ⟨hm, rfl⟩) _).trans
      ((Build.run_bind (Build.run_slot_iff.2 ⟨hf, rfl⟩) _).trans ((Build.run_bind taken _).trans ?_))
    rw [fits]
    rfl
  have tidied : ((w.take .function y).putModule x m').tidy = (w.take .function y).putModule x m' := h.tidy_eq rfl
  rw [step_of_run (Build.run_bind run _), tidied]

/-- A function that is refused leaves its slot and is dropped; nothing else changes. -/
theorem Sound.step_refused (h : w.Sound) (hm : w.modules.get? x = some m) (hf : w.functions.get? y = some f) {e : Fault}
    (refused : m.accept f = .error e) : w.step (.addFunction x y) =
      (.error (.refused e), ((w.take .function y).discard [.function f]).tidy) := by
  have taken : (modify (Workspace.take .function y) : Build Unit) w = .ok () (w.take .function y) := rfl
  have owns : w.owned? .function y = some (.function f) := congrArg (Option.map Owned.function) hf
  have balanced : Config.Balanced ⟨[.function f], w.take .function y⟩ :=
    (Move.take (a := .all) .function trivial owns).balanced h.books
  have run : Build.moveFunction x y w = .error (.refused e) ((w.take .function y).discard [.function f]) := by
    refine (Build.run_bind (Build.run_slot_iff.2 ⟨hm, rfl⟩) _).trans
      ((Build.run_bind (Build.run_slot_iff.2 ⟨hf, rfl⟩) _).trans ((Build.run_bind taken _).trans ?_))
    rw [refused]
    exact Build.run_bind (Build.dropOwned_eq balanced) _
  rw [step_of_error (Build.run_bind_error run _)]

theorem Reachable.accepted_iff (h : w.Reachable) (hm : w.modules.get? x = some m) (hf : w.functions.get? y = some f) :
    (∃ r, (w.step (.addFunction x y)).1 = .ok r) ↔
      f.TargetsInRange ∧ ¬ m.Uses w.names (w.names.text f.name) := by
  have named := h.interned_loose hf
  constructor
  · rintro ⟨r, ok⟩
    obtain ⟨v, run, -⟩ := run_of_ok ok
    obtain ⟨md, fn, m', hm', hf', fits, -⟩ := addFunction_runs run
    cases hm.symm.trans hm'
    cases hf.symm.trans hf'
    obtain ⟨inside, free, -⟩ := ((h.indexed hm).accept_ok_iff named).1 fits
    exact ⟨inside, free⟩
  · rintro ⟨inside, free⟩
    rw [h.sound.step_accepted hm hf (((h.indexed hm).accept_ok_iff named).2 ⟨inside, free, rfl⟩)]
    exact ⟨_, rfl⟩

/-- What happens to another function leaves the module and the function, unless the module takes it. -/
theorem Sound.step_other (h : w.Sound) (hm : w.modules.get? x = some m) (hf : w.functions.get? y = some f)
    (other : y' ≠ y) (apart : x' ≠ x ∨ ∃ e, (w.step (.addFunction x' y')).1 = .error e) :
    (w.step (.addFunction x' y')).2.modules.get? x = some m ∧
      (w.step (.addFunction x' y')).2.functions.get? y = some f := by
  have kept : ((w.take .function y').functions.get? y) = some f :=
    (Table.get?_erase_of_ne (Ne.symm other) w.functions).trans hf
  cases step : (w.step (.addFunction x' y')).1 with
  | ok r =>
    have elsewhere : x' ≠ x := apart.resolve_right fun ⟨e, he⟩ => by cases step.symm.trans he
    obtain ⟨v, run, eq⟩ := run_of_ok step
    obtain ⟨md, fn, md', -, -, -, -, rfl⟩ := addFunction_runs run
    rw [eq]
    exact ⟨(Table.get?_put_of_ne (Ne.symm elsewhere) md' w.modules).trans hm, kept⟩
  | error e =>
    obtain ⟨v, remains, eq⟩ := h.remains_of_error step
    have slots : (w.emptied ((Command.addFunction x' y').spent w)).SameSlots v := remains.slots
    rw [eq]
    change v.modules.get? x = some m ∧ v.functions.get? y = some f
    rw [slots.modules, slots.functions, Command.spent]
    split
    · exact ⟨hm, kept⟩
    · exact ⟨hm, hf⟩

/-- A refused function is let go once: what it held and what it evaluated, occurrence by occurrence. -/
theorem Sound.counts_refused (h : w.Sound) (hm : w.modules.get? x = some m) (hf : w.functions.get? y = some f)
    {e : Failure} (failed : (w.step (.addFunction x y)).1 = .error e) {n : NodeId}
    (hn : (w.step (.addFunction x y)).2.store.Live n) :
    (w.store.cell n).evals = ((w.step (.addFunction x y)).2.store.cell n).evals + f.evaluated.count n ∧
    (w.store.cell n).holders = ((w.step (.addFunction x y)).2.store.cell n).holders + f.held.count n +
      (w.store.lost (w.step (.addFunction x y)).2.store).count n := by
  obtain ⟨v, remains, eq⟩ := h.remains_of_error failed
  have without := h.without_of_remains remains
  rw [← eq] at without
  have spent : (Command.addFunction x y).spent w = [(.function, y)] := by rw [Command.spent, hm, hf]
  have owns : w.owned? .function y = some (.function f) := congrArg (Option.map Owned.function) hf
  have contents : w.contents [(.function, y)] = [.function f] := by
    rw [Workspace.contents, owns]
    rfl
  have evals := without.evals n hn
  have holders := without.holders n hn
  rw [spent, contents, List.flatMap_singleton] at evals holders
  exact ⟨evals, holders⟩

/-- **A module takes exactly the closed functions with a free name.**

A module takes a function over exactly if all jumps of the function stay inside it and no function of the module has a
name of its text.  Then the function leaves its slot and becomes the last one of the module; all others keep their
positions, and nothing else changes.

Otherwise the refusal is about the first target that is no block of the function, in the order of blocks, statements and
targets; only where there is none, it is about the name.  The function leaves its slot and is dropped, with what its
statements and clauses held and what it evaluated, each let go once; no module changes.

A function that was refused, and one that another module has taken, take no name: what the module does with the next
function does not depend on them. -/
theorem Reachable.admits (h : w.Reachable) (hm : w.modules.get? x = some m) (hf : w.functions.get? y = some f) :
    ((∃ r, (w.step (.addFunction x y)).1 = .ok r) ↔
      f.TargetsInRange ∧ ¬ m.Uses w.names (w.names.text f.name)) ∧
    (∀ r, (w.step (.addFunction x y)).1 = .ok r → w.step (.addFunction x y) =
      (.ok (.count (m.functions.length + 1)), (w.take .function y).putModule x (m.withFunction f))) ∧
    (∀ e, (w.step (.addFunction x y)).1 = .error e →
      ((∃ b t, f.FirstStray b t ∧ e = .refused (.jumpTarget f.name b.name t)) ∨
        f.TargetsInRange ∧ m.Uses w.names (w.names.text f.name) ∧ e = .refused (.functionName m.name f.name)) ∧
      (w.step (.addFunction x y)).2 = ((w.take .function y).discard [.function f]).tidy ∧
      (w.step (.addFunction x y)).2.modules = w.modules ∧
      (w.step (.addFunction x y)).2.functions.get? y = none ∧
      ∀ n, (w.step (.addFunction x y)).2.store.Live n →
        (w.store.cell n).evals = ((w.step (.addFunction x y)).2.store.cell n).evals + f.evaluated.count n ∧
        (w.store.cell n).holders = ((w.step (.addFunction x y)).2.store.cell n).holders + f.held.count n +
          (w.store.lost (w.step (.addFunction x y)).2.store).count n) ∧
    ∀ x' y', y' ≠ y → (x' ≠ x ∨ ∃ e, (w.step (.addFunction x' y')).1 = .error e) →
      ((∃ r, ((w.step (.addFunction x' y')).2.step (.addFunction x y)).1 = .ok r) ↔
        ∃ r, (w.step (.addFunction x y)).1 = .ok r) := by
  have indexed := h.indexed hm
  have named := h.interned_loose hf
  refine ⟨h.accepted_iff hm hf, fun r ok => ?_, fun e failed => ?_, fun x' y' other apart => ?_⟩
  · obtain ⟨inside, free⟩ := (h.accepted_iff hm hf).1 ⟨r, ok⟩
    rw [h.sound.step_accepted hm hf ((indexed.accept_ok_iff named).2 ⟨inside, free, rfl⟩), Module.withFunction,
      List.length_append, List.length_singleton]
  · cases decided : m.accept f with
    | ok m' =>
      rw [h.sound.step_accepted hm hf decided] at failed
      cases failed
    | error fault =>
      have step := h.sound.step_refused hm hf decided
      have counts := fun n hn => h.sound.counts_refused hm hf failed (n := n) hn
      rw [step] at failed counts ⊢
      cases failed
      refine ⟨?_, rfl, rfl, Table.get?_erase .., counts⟩
      rcases (indexed.accept_error_iff named).1 decided with ⟨b, t, stray, rfl⟩ | ⟨inside, used, rfl⟩
      · exact .inl ⟨b, t, stray, rfl⟩
      · exact .inr ⟨inside, used, rfl⟩
  · obtain ⟨hm', hf'⟩ := h.sound.step_other hm hf other apart
    have reached : (w.step (.addFunction x' y')).2.Reachable := h.run [.addFunction x' y']
    rw [h.accepted_iff hm hf, reached.accepted_iff hm' hf']
    exact and_congr_right fun _ => not_congr (indexed.uses_later named (h.run_names [_]))

/-- A module with a function; another function of the same name, with two jumps out of it; and a third. -/
def strayAndUsed : List Command :=
  [.module "m" .spir (some "m"), .function "f" (some "f"), .addFunction "m" "f", .function "f" (some "g"),
    .addBlock "g" "entry", .addBlock "g" "exit", .addStmt (.inFunction "g" 0) (.goto [⟨1⟩, ⟨7⟩]),
    .addStmt (.inFunction "g" 1) (.goto [⟨9⟩]), .function "h" (some "h")]

/-- The second function is refused for the second target of its entry block, not for its name.  The module is as before,
and takes the third function. -/
theorem admits_strayAndUsed :
    (∃ f b, (empty.run strayAndUsed).2.functions.get? "g" = some f ∧ f.FirstStray b ⟨7⟩ ∧
      ((empty.run strayAndUsed).2.step (.addFunction "m" "g")).1 =
        .error (.refused (.jumpTarget f.name b.name ⟨7⟩))) ∧
    ((empty.run strayAndUsed).2.step (.addFunction "m" "g")).2.modules = (empty.run strayAndUsed).2.modules ∧
    ∃ reply, (((empty.run strayAndUsed).2.step (.addFunction "m" "g")).2.step (.addFunction "m" "h")).1 =
      .ok reply := by
  obtain ⟨m, hm⟩ : ∃ m, (empty.run strayAndUsed).2.modules.get? "m" = some m := ⟨_, rfl⟩
  obtain ⟨g, hg⟩ : ∃ g, (empty.run strayAndUsed).2.functions.get? "g" = some g := ⟨_, rfl⟩
  obtain ⟨h, hh⟩ : ∃ h, (empty.run strayAndUsed).2.functions.get? "h" = some h := ⟨_, rfl⟩
  have failed : ((empty.run strayAndUsed).2.step (.addFunction "m" "g")).1 =
      .error (.refused (.jumpTarget ⟨1⟩ ⟨2⟩ ⟨7⟩)) := rfl
  obtain ⟨-, -, refusals, -⟩ := Reachable.admits ⟨strayAndUsed, rfl⟩ hm hg
  obtain ⟨cause, -, modules, -⟩ := refusals _ failed
  obtain ⟨-, -, -, later⟩ := Reachable.admits ⟨strayAndUsed, rfl⟩ hm hh
  refine ⟨?_, modules, (later "m" "g" (by decide) (.inr ⟨_, failed⟩)).2 ⟨.count 2, rfl⟩⟩
  rcases cause with ⟨b, t, stray, same⟩ | ⟨-, -, same⟩
  · obtain ⟨name, block, rfl⟩ := Fault.jumpTarget.inj (Failure.refused.inj same)
    exact ⟨g, b, hg, stray, by rw [failed, name, block]⟩
  · cases same

end Workspace
end KernelIR
