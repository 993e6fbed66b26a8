import KernelIR.Proofs.Handles
/-!
# Frame — what a command leaves as it was

The content of an object is what the producer put into it: the callee handle of a function and the index of a module
are left out, since both follow from the rest.  A command writes one slot at most (`Command.writes`) and empties those
whose objects move out of them; the content of every other slot is the same before and after.

Main statements: `Sound.content_of_ok` for a command that succeeds, `Sound.content_of_error` for one that fails.
-/
namespace KernelIR

def Function.content (f : Function) : Function := { f with callee := none }

def Module.content (m : Module) : Module := { m with functions := m.functions.map Function.content, index := [] }

def Owned.content : Owned → Owned
  | .stmt s => .stmt s
  | .block b => .block b
  | .function f => .function f.content
  | .module m => .module m.content

theorem Module.content_setFunction {m : Module} {i : Nat} {f f' : Function} (here : m.functions[i]? = some f)
    (same : f'.content = f.content) : (m.setFunction i f').content = m.content := by
  have functions : (m.functions.set i f').map Function.content = m.functions.map Function.content := by
    rw [List.map_set, same]
    refine List.ext_getElem? fun j => ?_
    rw [List.getElem?_set]
    split
    · rename_i hj
      subst hj
      rw [List.getElem?_map, here, List.length_map, if_pos (List.getElem?_eq_some_iff.1 here).1]
      rfl
    · rfl
  unfold setFunction content
  rw [functions]

namespace Workspace

/-- The content of what a slot owns. -/
def content? (w : Workspace) (k : OwnedSlot) : Option Owned := (w.owned? k.1 k.2).map Owned.content

variable {w w' : Workspace} {k : OwnedSlot} {x : String}

theorem content?_block {b : Block} (here : w.blocks.get? x = some b) : w.content? (.block, x) = some (.block b) :=
  congrArg (Option.map Owned.content ∘ Option.map Owned.block) here

theorem content?_function {f : Function} (here : w.functions.get? x = some f) :
    w.content? (.function, x) = some (.function f.content) :=
  congrArg (Option.map Owned.content ∘ Option.map Owned.function) here

theorem content?_module {m : Module} (here : w.modules.get? x = some m) :
    w.content? (.module, x) = some (.module m.content) :=
  congrArg (Option.map Owned.content ∘ Option.map Owned.module) here

/-! ## What a slot owns after a change elsewhere -/

theorem owned?_put_of_ne {o : Owned} (h : k ≠ (o.kind, x)) : (w.put x o).owned? k.1 k.2 = w.owned? k.1 k.2 := by
  obtain ⟨kind, y⟩ := k
  have apart : kind = o.kind → y ≠ x := fun hk hy => h (by rw [hk, hy])
  cases o <;> cases kind <;> first | rfl | exact congrArg (Option.map _) (Table.get?_put_of_ne (apart rfl) _ _)

theorem owned?_take_of_ne {kind : OwnedKind} (h : k ≠ (kind, x)) :
    (w.take kind x).owned? k.1 k.2 = w.owned? k.1 k.2 := by
  obtain ⟨kind', y⟩ := k
  have apart : kind' = kind → y ≠ x := fun hk hy => h (by rw [hk, hy])
  cases kind <;> cases kind' <;> first
    | rfl
    | exact congrArg (Option.map _) (Table.get?_erase_of_ne (apart rfl) _)

theorem content?_put {o : Owned} :
    (w.put x o).content? k = if k = (o.kind, x) then some o.content else w.content? k := by
  unfold content?
  split
  · rename_i hk
    rw [hk, owned?_put]
    rfl
  · rename_i hk
    rw [owned?_put_of_ne hk]

theorem content?_take {kind : OwnedKind} :
    (w.take kind x).content? k = if k = (kind, x) then none else w.content? k := by
  unfold content?
  split
  · rename_i hk
    rw [hk, owned?_take]
    rfl
  · rename_i hk
    rw [owned?_take_of_ne hk]

theorem SameSlots.content? (h : w.SameSlots w') (k : OwnedSlot) : w'.content? k = w.content? k := by
  obtain ⟨kind, x⟩ := k
  rw [h]
  cases kind <;> rfl

theorem content?_emptied : ∀ (w : Workspace) (ks : List OwnedSlot),
    (w.emptied ks).content? k = if k ∈ ks then none else w.content? k
  | w, [] => rfl
  | w, l :: ks => by
    refine (content?_emptied (w.take l.1 l.2) ks).trans ?_
    rw [content?_take]
    by_cases hk : k = l <;> simp [hk]

/-- Writing a block back changes one slot. -/
theorem content?_putBlock {site : BlockSite} {b : Block} (h : k ≠ site.owner) :
    (w.putBlock site b).content? k = w.content? k := by
  cases site with
  | loose x => exact (content?_put (o := .block b)).trans (if_neg h)
  | inFunction x i =>
    rw [putBlock]
    split
    · rename_i f _
      exact (content?_put (o := .function (f.setBlock i b))).trans (if_neg h)
    · rfl

/-- Writing a function back with the same content changes none. -/
theorem content?_putFunction {site : FunctionSite} {f f' : Function} (here : w.function? site = some f)
    (same : f'.content = f.content) : (w.putFunction site f').content? k = w.content? k := by
  cases site with
  | loose x =>
    refine (content?_put (o := .function f')).trans ?_
    split
    · rename_i hk
      subst hk
      exact (congrArg (some ∘ Owned.function) same).trans (content?_function here).symm
    · rfl
  | inModule x i =>
    obtain ⟨m, hm, hf⟩ := Option.bind_eq_some_iff.1 here
    rw [putFunction, hm]
    refine (content?_put (o := .module (m.setFunction i f'))).trans ?_
    split
    · rename_i hk
      subst hk
      exact (congrArg (some ∘ Owned.module) (Module.content_setFunction hf same)).trans (content?_module hm).symm
    · rfl

end Workspace

/-! ## Moves and commands -/

variable {a : Scope} {k : OwnedSlot} {o : Option Owned}

/-- **A move leaves the content of a slot as it was**, unless it writes the slot or empties it. -/
theorem Move.content? {c c' : Config} (m : Move a c c') (unwritten : ¬ a.writes k.1 k.2)
    (kept : a.takes k.1 k.2 → c.ws.content? k = none) : c'.ws.content? k = c.ws.content? k := by
  have tables : ∀ {w w' : Workspace}, w'.stmts = w.stmts → w'.blocks = w.blocks → w'.functions = w.functions →
      w'.modules = w.modules → w'.content? k = w.content? k := by
    intro w w' hs hb hf hm
    unfold Workspace.content? Workspace.owned?
    rw [hs, hb, hf, hm]
  -- a slot that is written is another one
  have apart : ∀ {l : OwnedSlot}, a.writes l.1 l.2 → k ≠ l := fun hl he => unwritten (he ▸ hl)
  cases m with
  | assemble ha => exact ha.sameSlots.content? k
  | setExpr | eraseExpr | setVar | eraseVar | setArray | setCallee | setLocs | prevent | blank =>
    exact tables rfl rfl rfl rfl
  | @take hand w kind x o allowed owns =>
    rw [Workspace.content?_take]
    split
    · rename_i hk
      subst hk
      exact (kept allowed).symm
    · rfl
  | put _ allowed => exact Workspace.content?_put.trans (if_neg (apart allowed))
  | place _ _ allowed => exact Workspace.content?_putBlock (apart allowed)
  | @accept _ w x m m' f _ _ allowed => exact (Workspace.content?_put (o := .module m')).trans (if_neg (apart allowed))
  | @edit _ w x f f' _ _ allowed => exact (Workspace.content?_put (o := .function f')).trans (if_neg (apart allowed))
  | @addClause _ w x f n kind l _ _ _ allowed =>
    refine (Workspace.content?_put (o := .function (f.addClause kind ⟨n, l⟩))).trans ?_
    rw [if_neg (apart allowed)]
    exact tables rfl rfl rfl rfl
  | @freeze _ w site f _ here =>
    have here : { w with supply := w.supply + 1 }.function? site = some f := by
      rw [← here]
      cases site <;> rfl
    have same : { f with callee := some (f.signature w.supply) }.content = f.content := rfl
    exact (Workspace.content?_putFunction here same).trans (tables rfl rfl rfl rfl)
  | @addArray _ w x m r _ allowed =>
    exact (Workspace.content?_put (o := .module (m.addArray r))).trans (if_neg (apart allowed))
  | @addAxiom _ w x m n _ _ _ allowed =>
    refine (Workspace.content?_put (o := .module (m.addAxiom n))).trans ?_
    rw [if_neg (apart allowed)]
    exact tables rfl rfl rfl rfl

/-- What is known of a slot that is not written stays so, if it is not emptied or is empty already. -/
theorem frame_invariant (unwritten : ¬ a.writes k.1 k.2) (kept : a.takes k.1 k.2 → o = none) :
    Invariant a fun c => c.Balanced ∧ c.ws.content? k = o :=
  ⟨And.left, fun h m => ⟨m.balanced h.1, (m.content? unwritten fun ht => h.2.trans (kept ht)).trans h.2⟩⟩

namespace Workspace

variable {w v : Workspace} {c : Command} {r : Reply}

/-- Once built, a statement is in hand, and the slots of its arguments are empty. -/
theorem Sound.build_remains (h : w.Sound) {s : StmtTerm} {st : Stmt NodeId} (built : s.build w = .ok st v) :
    w.Remains (StmtTerm.slots s.takes) ⟨[.stmt st], v⟩ := by
  have ends := Build.stmtTerm_ends s (remains_assembles .all w) ⟨fun _ _ => trivial, fun _ _ => trivial⟩
    (.refl h.books)
  have remains := ends.ok built
  rwa [List.nil_append, (s.spent_ends w).ok built] at remains

theorem Remains.content? {ks : List OwnedSlot} {c : Config} (h : w.Remains ks c) (k : OwnedSlot) :
    c.ws.content? k = if k ∈ ks then none else w.content? k := (h.slots.content? k).trans (w.content?_emptied ks)

/-- A statement that is made is kept in its slot, or dropped. -/
theorem stmt_runs {s : StmtTerm} {into : Option String} (run : Command.perform (.stmt s into) w = .ok r v) :
    ∃ st u, s.build w = .ok st u ∧ Build.keepOwned into (.stmt st) u = .ok () v := by
  obtain ⟨st, u, built, rest⟩ := Build.run_bind_iff.1 run
  obtain ⟨_, _, read, rest⟩ := Build.run_bind_iff.1 rest
  cases read
  obtain ⟨_, _, kept, rest⟩ := Build.run_bind_iff.1 rest
  cases rest
  exact ⟨st, u, built, kept⟩

/-- A statement that is added goes to the end of the block, which owns it from then on. -/
theorem Sound.addStmt_runs (h : w.Sound) {site : BlockSite} {s : StmtTerm}
    (run : Command.perform (.addStmt site s) w = .ok r v) : ∃ st u b, s.build w = .ok st u ∧
      u.block? site = some b ∧ v = u.putBlock site (b.push { st with parent := some b.id }) := by
  obtain ⟨_, w', found, rest⟩ := Build.run_bind_iff.1 run
  obtain ⟨_, hw, -⟩ := (Build.Ends.discard (Build.blockAt_finds site)).ok found
  rw [hw] at rest
  obtain ⟨st, u, built, rest⟩ := Build.run_bind_iff.1 rest
  obtain ⟨_, _, placed, rest⟩ := Build.run_bind_iff.1 rest
  cases rest
  have assembles := Config.Balanced.invariant.assembles (a := .all)
  have remains := h.build_remains built
  obtain ⟨b, p, here, free, -, rfl⟩ := (Build.appendStmt_placed assembles (k := []) remains.balanced).ok placed
  obtain ⟨-, rfl⟩ := Stmt.place_ok free
  exact ⟨st, u, b, built, here, rfl⟩

/-- A command that succeeds leaves the slots empty whose objects move out of them. -/
theorem Sound.content_of_taken (h : w.Sound) (run : c.perform w = .ok r v) (taken : k ∈ c.takes)
    (unwritten : k ∉ c.writes) : v.content? k = none := by
  cases c with
  | stmt s into =>
    have taken : k ∈ StmtTerm.slots s.takes := (List.mem_append.1 taken).resolve_right unwritten
    obtain ⟨st, u, built, kept⟩ := stmt_runs run
    have remains := h.build_remains built
    have empty : u.content? k = none := (remains.content? k).trans (if_pos taken)
    have frame : Invariant ((Command.stmt s into).scope w) fun c => c.Balanced ∧ c.ws.content? k = none :=
      frame_invariant unwritten fun _ => rfl
    obtain ⟨-, allowed⟩ := ((Command.stmt s into).within_scope w).stmtTerm
    have written := ((Command.stmt s into).within_scope w).written rfl
    exact ((Build.keepOwned_ends (E := fun _ _ => True) frame allowed written ⟨remains.balanced, empty⟩).ok kept).2
  | addStmt site s =>
    obtain ⟨st, u, b, built, -, rfl⟩ := h.addStmt_runs run
    have elsewhere : k ≠ site.owner := fun hk => unwritten (List.mem_singleton.2 hk)
    exact (content?_putBlock elsewhere).trans (((h.build_remains built).content? k).trans (if_pos taken))
  | drop d x =>
    obtain ⟨kind, hd, rfl⟩ := List.mem_map.1 taken
    have step := step_of_run run
    have dropped := h.step_dropped (Option.mem_toList.1 hd) (congrArg Prod.fst step)
    rw [congrArg Prod.snd step] at dropped
    exact ((dropped.content? _).trans content?_take).trans (if_pos rfl)
  | addFunction m f =>
    obtain ⟨md, fn, md', -, -, -, -, rfl⟩ := addFunction_runs run
    have other : k ≠ (.module, m) := fun hk => unwritten (List.mem_singleton.2 hk)
    have hk : k = (.function, f) := List.mem_singleton.1 taken
    exact ((content?_put (o := .module md')).trans (if_neg other)).trans (content?_take.trans (if_pos hk))
  | block | function | module => exact absurd taken unwritten
  | _ => cases taken

/-- **A command that succeeds** empties the slots that it takes, and leaves the content of every other slot that it does
not write. -/
theorem Sound.content_of_ok (h : w.Sound) (run : c.perform w = .ok r v) (unwritten : k ∉ c.writes) :
    v.content? k = if k ∈ c.takes then none else w.content? k := by
  split
  · rename_i taken
    exact h.content_of_taken run taken unwritten
  · rename_i kept
    have frame : Invariant (c.scope w) fun c => c.Balanced ∧ c.ws.content? k = w.content? k :=
      frame_invariant unwritten fun taken => absurd taken kept
    exact ((Command.perform_ends frame.phases ⟨h.books, rfl⟩ c (c.within_scope w)).ok run).2

/-- **A command that fails** empties the slots of the arguments that it had reached, and leaves every other content. -/
theorem Sound.content_of_error (h : w.Sound) {e : Failure} (run : c.perform w = .error e v) (k : OwnedSlot) :
    v.content? k = if k ∈ c.spent w then none else w.content? k := by
  have ends := Command.perform_ends (remains_phases .all w) (.refl h.books) c (c.within_all w)
  exact (ends.error run).1.content? k

end Workspace
end KernelIR
