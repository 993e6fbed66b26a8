import KernelIR.Proofs.Evaluations
/-!
# Objects — what a move does to the objects of a workspace

The objects are those in slots and those that a command has in hand.  A move changes few of them: some are gone, some
came instead, and the others are as they were (`Move.objects`).  What a move can put in place of what is listed once
(`Change`), so a property of single objects holds of every reachable workspace as soon as every change keeps it
(`ObjectLaw.reachable`).
-/
namespace KernelIR

namespace Owned

/-- The statements of the object, where they are owned directly; listed calls are no statements of their own. -/
def stmts : Owned → List (Stmt NodeId)
  | .stmt s => [s]
  | .block b => b.stmts
  | .function f => f.blocks.flatMap (·.stmts)
  | .module m => m.functions.flatMap fun f => f.blocks.flatMap (·.stmts)

def functions : Owned → List Function
  | .function f => [f]
  | .module m => m.functions
  | .stmt _ | .block _ => []

/-- An object with the block `b'` in place of its block `b`. -/
inductive WithBlock (b b' : Block) : Owned → Owned → Prop
  | loose : WithBlock b b' (.block b) (.block b')
  | inFunction {f : Function} {i : Nat} (here : f.blocks[i]? = some b) :
    WithBlock b b' (.function f) (.function (f.setBlock i b'))

/-- An object with the function `f'` in place of its function `f`. -/
inductive WithFunction (f f' : Function) : Owned → Owned → Prop
  | loose : WithFunction f f' (.function f) (.function f')
  | inModule {m : Module} {i : Nat} (here : m.functions[i]? = some f) :
    WithFunction f f' (.module m) (.module (m.setFunction i f'))

end Owned

/-- **What can come in place of what**, from the workspace `w` to `w'`: the objects on the left are gone, those on the
right came. -/
inductive Change (a : Scope) (w w' : Workspace) : List Owned → List Owned → Prop
  | same : Change a w w' [] []
  | make {body : StmtBody NodeId} (locs : Locs) (allowed : a.makes body.kind)
    (direct : body.Direct w.store.reader.node) (known : ∀ c ∈ body.callees, c ∈ w.callees.values)
    (meets : body.check w.store.reader = .ok ()) (counted : w'.supply = w.supply + 1) :
    Change a w w' [] [.stmt (w.newStmt body locs)]
  | gather {func : NodeId} {stmts : List (Stmt NodeId)} {calls : List (CallStmt NodeId)} (locs : Locs)
    (meets : StmtBody.checkIndirect w.store.reader func = .ok ())
    (listed : stmts.mapM (Stmt.asCall w.store.reader) = .ok calls) (counted : w'.supply = w.supply + 1) :
    Change a w w' (stmts.map .stmt) [.stmt (w.newStmt (.callMemberOf func calls) locs)]
  | drop (os : List Owned) : Change a w w' os []
  | blank {o : Owned} (h : o.Blank) : Change a w w' [] [o]
  | place {b : Block} {s placed : Stmt NodeId} {o o' : Owned} (free : s.place b.id = .ok placed)
    (h : o.WithBlock b (b.push placed) o') : Change a w w' [.stmt s, o] [o']
  | accept {m m' : Module} {f : Function} (fits : m.accept f = .ok m') :
    Change a w w' [.function f, .module m] [.module m']
  | edit {f f' : Function} (h : f.Edit f') : Change a w w' [.function f] [.function f']
  | addClause {f : Function} {n : NodeId} (kind : ClauseKind) (l : Locs)
    (meets : checkPredicate w.store.reader .contractClause n = .ok ()) :
    Change a w w' [.function f] [.function (f.addClause kind ⟨n, l⟩)]
  | freeze {f : Function} {o o' : Owned} (first : f.callee = none) (counted : w'.supply = w.supply + 1)
    (h : o.WithFunction f { f with callee := some (f.signature w.supply) } o') : Change a w w' [o] [o']
  | addArray {m : Module} (r : GlobalArray) : Change a w w' [.module m] [.module (m.addArray r)]
  | addAxiom {m : Module} {n : NodeId} (meets : checkPredicate w.store.reader .moduleAxiom n = .ok ()) :
    Change a w w' [.module m] [.module (m.addAxiom n)]

/-- The objects in hand and in slots. -/
def Config.objects (c : Config) : List Owned := c.hand ++ c.ws.owned

namespace Workspace

variable {w : Workspace} {x : String} {o : Owned}

theorem stmts_owned (w : Workspace) : w.owned.flatMap (·.stmts) = w.liveStmts := by
  simp only [owned, liveStmts, liveBlocks, liveFunctions, List.flatMap_append, List.flatMap_map, List.flatMap_assoc,
    Owned.stmts, List.flatMap_singleton', List.append_assoc]

theorem functions_owned (w : Workspace) : w.owned.flatMap (·.functions) = w.liveFunctions := by
  simp only [owned, liveFunctions, List.flatMap_append, List.flatMap_map, Owned.functions, List.flatMap_singleton',
    List.flatMap_eq_nil_iff.2 fun _ _ => rfl, List.nil_append]

theorem module_mem_owned {m : Module} (h : m ∈ w.modules.values) : .module m ∈ w.owned :=
  List.mem_append_right _ (List.mem_map_of_mem h)

/-- What a slot owns, replaced. -/
theorem owned_swap (owns : w.owned? o.kind x = some o) (o' : Owned) (kind : o'.kind = o.kind) :
    w.owned.Perm (o :: (w.take o.kind x).owned) ∧ (w.put x o').owned.Perm (o' :: (w.take o.kind x).owned) := by
  have before := w.owned_take o.kind x
  have after := (w.put x o').owned_take o'.kind x
  rw [owns] at before
  rw [owned?_put, take_put, kind] at after
  exact ⟨before, after⟩

theorem owned_put_free (free : w.owned? o.kind x = none) : (w.put x o).owned.Perm (o :: w.owned) := by
  have := (w.put x o).owned_take o.kind x
  rwa [owned?_put, take_put, take_of_none free] at this

theorem owned_putBlock {site : BlockSite} {b : Block} (here : w.block? site = some b) (b' : Block) :
    ∃ o o' rest, o.WithBlock b b' o' ∧ w.owned.Perm (o :: rest) ∧ (w.putBlock site b').owned.Perm (o' :: rest) := by
  cases site with
  | loose x =>
    rw [block?] at here
    exact ⟨.block b, .block b', _, .loose, owned_swap (owned?_block here) (.block b') rfl⟩
  | inFunction x i =>
    obtain ⟨f, hf, hb⟩ := Option.bind_eq_some_iff.1 here
    rw [putBlock, hf]
    exact ⟨.function f, .function (f.setBlock i b'), _, .inFunction hb,
      owned_swap (owned?_function hf) (.function (f.setBlock i b')) rfl⟩

theorem owned_putFunction {site : FunctionSite} {f : Function} (here : w.function? site = some f) (f' : Function) :
    ∃ o o' rest, o.WithFunction f f' o' ∧ w.owned.Perm (o :: rest) ∧
      (w.putFunction site f').owned.Perm (o' :: rest) := by
  cases site with
  | loose x => exact ⟨.function f, .function f', _, .loose, owned_swap (owned?_function here) (.function f') rfl⟩
  | inModule x i =>
    obtain ⟨m, hm, hf⟩ := Option.bind_eq_some_iff.1 here
    rw [putFunction, hm]
    exact ⟨.module m, .module (m.setFunction i f'), _, .inModule hf,
      owned_swap (owned?_module hm) (.module (m.setFunction i f')) rfl⟩

end Workspace

/-- **Every move is one change of the objects.** -/
theorem Move.objects {a : Scope} {c c' : Config} (m : Move a c c') :
    ∃ gone came rest, Change a c.ws c'.ws gone came ∧ c.objects.Perm (gone ++ rest) ∧
      c'.objects.Perm (came ++ rest) := by
  -- one object of the workspace is replaced, beside objects that leave the hand
  have swap : ∀ (gone : List Owned) {hand rest : List Owned} {w w' : Workspace} {o o' : Owned},
      Change a w w' (gone ++ [o]) [o'] → w.owned.Perm (o :: rest) → w'.owned.Perm (o' :: rest) →
      ∃ gone' came rest, Change a w w' gone' came ∧ (gone ++ hand ++ w.owned).Perm (gone' ++ rest) ∧
        (hand ++ w'.owned).Perm (came ++ rest) := by
    intro gone hand rest w w' o o' ch before after
    refine ⟨gone ++ [o], [o'], hand ++ rest, ch, ?_, ?_⟩
    · calc (gone ++ hand ++ w.owned).Perm (gone ++ hand ++ o :: rest) := before.append_left _
        _ = gone ++ (hand ++ o :: rest) := List.append_assoc ..
        List.Perm _ (gone ++ o :: (hand ++ rest)) := List.perm_middle.append_left _
        _ = gone ++ [o] ++ (hand ++ rest) := by simp
    · exact (after.append_left hand).trans List.perm_middle
  cases m with
  | assemble h =>
    cases h with
    | grow hg =>
      refine ⟨[], [], _, .same, .refl _, ?_⟩
      rw [hg.tables]
      exact .refl _
    | reorder hp => exact ⟨[], [], _, .same, .refl _, hp.symm.append_right _⟩
    | make locs allowed direct known _ meets =>
      exact ⟨[], [_], _, .make locs allowed direct known meets rfl, .refl _, .refl _⟩
    | gather locs _ _ meets listed =>
      refine ⟨_, [_], _, .gather locs meets listed rfl, ?_, .refl _⟩
      exact .of_eq (List.append_assoc ..)
    | drop os => exact ⟨os, [], _, .drop os, .of_eq (List.append_assoc ..), .refl _⟩
  | setExpr | eraseExpr | setVar | eraseVar | setArray | setCallee | setLocs | prevent =>
    exact ⟨[], [], _, .same, .refl _, .refl _⟩
  | blank h => exact ⟨[], [_], _, .blank h, .refl _, .refl _⟩
  | @take hand w kind x o _ owns =>
    refine ⟨[], [], _, .same, .refl _, ?_⟩
    have := w.owned_take kind x
    rw [owns] at this
    exact (List.perm_middle.symm.trans (this.symm.append_left hand))
  | put free =>
    exact ⟨[], [], _, .same, .refl _, ((Workspace.owned_put_free free).append_left _).trans List.perm_middle⟩
  | @place hand w site b s placed here free =>
    obtain ⟨o, o', rest, h, before, after⟩ := Workspace.owned_putBlock here (b.push placed)
    exact swap [.stmt s] (.place free h) before after
  | @accept hand w x m m' f here fits =>
    obtain ⟨before, after⟩ := Workspace.owned_swap (Workspace.owned?_module here) (.module m') rfl
    exact swap [.function f] (.accept fits) before after
  | @edit hand w x f f' here h =>
    obtain ⟨before, after⟩ := Workspace.owned_swap (Workspace.owned?_function here) (.function f') rfl
    exact swap [] (.edit h) before after
  | @addClause hand w x f n kind l here _ meets =>
    obtain ⟨before, after⟩ := Workspace.owned_swap (Workspace.owned?_function here)
      (.function (f.addClause kind ⟨n, l⟩)) rfl
    exact swap [] (.addClause kind l meets) before after
  | @freeze hand w site f _ here first =>
    obtain ⟨o, o', rest, h, before, after⟩ := Workspace.owned_putFunction (w := { w with supply := w.supply + 1 }) here
      { f with callee := some (f.signature w.supply) }
    exact swap [] (.freeze first (Workspace.supply_putFunction _ _ _) h) before after
  | @addArray hand w x m r here =>
    obtain ⟨before, after⟩ := Workspace.owned_swap (Workspace.owned?_module here) (.module (m.addArray r)) rfl
    exact swap [] (.addArray r) before after
  | @addAxiom hand w x m n here _ meets =>
    obtain ⟨before, after⟩ := Workspace.owned_swap (Workspace.owned?_module here) (.module (m.addAxiom n)) rfl
    exact swap [] (.addAxiom meets) before after

/-! ## What a move does to the nodes -/

/-- Only holders and evaluations are counted anew. -/
def Store.Recounted (s s' : Store) : Prop :=
  ∃ f : Cell → Cell, Recounts f ∧ (∀ c, (f c).prevented = c.prevented) ∧ s' = s.mapCells f

namespace Store.Recounted

variable {s s' s'' : Store}

theorem refl (s : Store) : s.Recounted s := ⟨id, ⟨fun _ => rfl, fun _ => rfl⟩, fun _ => rfl, by simp [mapCells]⟩

theorem trans (h : s.Recounted s') (h' : s'.Recounted s'') : s.Recounted s'' := by
  obtain ⟨f, hf, pf, rfl⟩ := h
  obtain ⟨g, hg, pg, rfl⟩ := h'
  refine ⟨g ∘ f, ⟨fun c => (hg.id _).trans (hf.id c), fun c => (hg.node _).trans (hf.node c)⟩,
    fun c => (pg _).trans (pf c), ?_⟩
  simp [mapCells]

theorem holders (s : Store) (g : Cell → Nat) : s.Recounted (s.mapCells fun c => { c with holders := g c }) :=
  ⟨_, recounts_holders g, fun _ => rfl, rfl⟩

theorem evals (s : Store) (g : Cell → Nat) : s.Recounted (s.mapCells fun c => { c with evals := g c }) :=
  ⟨_, recounts_evals g, fun _ => rfl, rfl⟩

theorem acquire (w : Workspace) (held evaluated : List NodeId) : w.store.Recounted (w.acquire held evaluated).store :=
  (holders w.store fun c => c.holders + held.count c.id).trans (evals _ fun c => c.evals + evaluated.count c.id)

theorem giveUp (w : Workspace) (held evaluated : List NodeId) : w.store.Recounted (w.giveUp held evaluated).store :=
  (evals w.store fun c => c.evals - evaluated.count c.id).trans (holders _ fun c => c.holders - held.count c.id)

theorem of_eq (h : s' = s) : s.Recounted s' := h ▸ refl s

theorem live_iff (h : s.Recounted s') {n : NodeId} : s'.Live n ↔ s.Live n := by
  obtain ⟨f, hf, -, rfl⟩ := h
  exact live_mapCells hf s

theorem node (h : s.Recounted s') (n : NodeId) : (s'.cell n).node = (s.cell n).node := by
  obtain ⟨f, hf, -, rfl⟩ := h
  exact node_mapCells hf s

theorem typ (h : s.Recounted s') : s'.typ = s.typ := by
  obtain ⟨f, hf, -, rfl⟩ := h
  exact funext fun _ => typ_mapCells hf s

theorem tree (h : s.Recounted s') (n : NodeId) : s'.tree n = s.tree n := by
  obtain ⟨f, hf, -, rfl⟩ := h
  exact treeIn_map hf s.cells n

theorem prevented (h : s.Recounted s') (n : NodeId) : (s'.cell n).prevented = (s.cell n).prevented := by
  obtain ⟨f, hf, pf, rfl⟩ := h
  exact prevented_mapCells hf s pf n

theorem next (h : s.Recounted s') : s'.next = s.next := by
  obtain ⟨f, -, -, rfl⟩ := h
  rfl

end Store.Recounted

theorem Assembly.store_cases {a : Scope} {c c' : Config} (m : Assembly a c c') :
    c.ws.store.Recounted c'.ws.store ∨ c'.hand = c.hand ∧ Growth c.ws c'.ws := by
  cases m with
  | grow hg => exact .inr ⟨rfl, hg⟩
  | reorder => exact .inl (.refl _)
  | make => exact .inl (.acquire _ _ _)
  | gather => exact .inl (.trans (.acquire _ _ _) (.giveUp _ _ _))
  | drop => exact .inl (.giveUp _ _ _)

/-- A move counts anew, or forbids the evaluation of a node, or lets the store grow. -/
theorem Move.store_cases {a : Scope} {c c' : Config} (m : Move a c c') :
    c.ws.store.Recounted c'.ws.store ∨ (∃ n, a.forbids n ∧ c'.ws.store = c.ws.store.prevent n) ∨
      c'.hand = c.hand ∧ Growth c.ws c'.ws := by
  cases m with
  | assemble h => exact h.store_cases.imp_right .inr
  | setExpr => exact .inl (.trans (.acquire _ _ _) (.giveUp _ _ _))
  | eraseExpr => exact .inl (.giveUp _ _ _)
  | prevent allowed => exact .inr (.inl ⟨_, allowed, rfl⟩)
  | addClause | addAxiom => exact .inl (.acquire _ _ _)
  | take => exact .inl (.of_eq (Workspace.store_take _ _ _))
  | put => exact .inl (.of_eq (Workspace.store_put _ _ _))
  | place => exact .inl (.of_eq (Workspace.store_putBlock _ _ _))
  | freeze => exact .inl (.of_eq (Workspace.store_putFunction _ _ _))
  | setVar | eraseVar | setArray | setCallee | setLocs | blank | accept | edit | addArray => exact .inl (.refl _)

/-- Only the making of nodes changes what nodes are read, and it changes no object. -/
theorem Move.nodes_read {a : Scope} {c c' : Config} (m : Move a c c') :
    c'.ws.store.reader.node = c.ws.store.reader.node ∨ c'.objects = c.objects := by
  rcases m.store_cases with h | ⟨n, -, h⟩ | ⟨hand, h⟩
  · exact .inl (funext h.node)
  · rw [h]
    exact .inl (funext fun _ => Store.node_mapCells (Store.recounts_prevent n) _)
  · right
    rw [Config.objects, Config.objects, hand, h.tables]
    rfl

/-! ## What a move does to the statements -/

/-- How a statement comes into being, out of statements that are lost. -/
inductive Arises (a : Scope) (w w' : Workspace) (lost : List (Stmt NodeId)) : Stmt NodeId → Prop
  | made {body : StmtBody NodeId} (locs : Locs) (allowed : a.makes body.kind)
    (direct : body.Direct w.store.reader.node) (known : ∀ c ∈ body.callees, c ∈ w.callees.values)
    (meets : body.check w.store.reader = .ok ()) (counted : w'.supply = w.supply + 1) :
    Arises a w w' lost (w.newStmt body locs)
  | gathered {func : NodeId} {calls : List (CallStmt NodeId)} (locs : Locs)
    (meets : StmtBody.checkIndirect w.store.reader func = .ok ())
    (listed : lost.mapM (Stmt.asCall w.store.reader) = .ok calls) (counted : w'.supply = w.supply + 1) :
    Arises a w w' lost (w.newStmt (.callMemberOf func calls) locs)
  | placed {s placed : Stmt NodeId} {b : BlockId} (mem : s ∈ lost) (free : s.place b = .ok placed) :
    Arises a w w' lost placed

theorem exists_set {α : Type} {l : List α} {i : Nat} {a : α} (h : l[i]? = some a) (b : α) :
    ∃ l₁ l₂, l = l₁ ++ a :: l₂ ∧ l.set i b = l₁ ++ b :: l₂ := by
  obtain ⟨hi, rfl⟩ := List.getElem?_eq_some_iff.1 h
  obtain ⟨l₁, l₂, he, -, hs⟩ := List.exists_of_set hi
  exact ⟨l₁, l₂, he, hs⟩

namespace Owned

variable {o o' : Owned}

theorem WithBlock.stmts {b b' : Block} (h : o.WithBlock b b' o') :
    ∃ l₁ l₂, o.stmts = l₁ ++ b.stmts ++ l₂ ∧ o'.stmts = l₁ ++ b'.stmts ++ l₂ := by
  cases h with
  | loose => exact ⟨[], [], by simp [Owned.stmts], by simp [Owned.stmts]⟩
  | inFunction here =>
    obtain ⟨l₁, l₂, he, hs⟩ := exists_set here b'
    exact ⟨l₁.flatMap (·.stmts), l₂.flatMap (·.stmts), by simp [Owned.stmts, he],
      by simp [Owned.stmts, Function.setBlock, hs]⟩

theorem WithFunction.functions {f f' : Function} (h : o.WithFunction f f' o') :
    ∃ l₁ l₂, o.functions = l₁ ++ f :: l₂ ∧ o'.functions = l₁ ++ f' :: l₂ := by
  cases h with
  | loose => exact ⟨[], [], rfl, rfl⟩
  | inModule here => exact exists_set here f'

theorem WithFunction.stmts {f f' : Function} (h : o.WithFunction f f' o') (same : f'.blocks = f.blocks) :
    o'.stmts = o.stmts := by
  cases h with
  | loose => rw [Owned.stmts, Owned.stmts, same]
  | inModule here =>
    obtain ⟨l₁, l₂, he, hs⟩ := exists_set here f'
    rw [Owned.stmts, Owned.stmts, Module.setFunction, hs, he, List.flatMap_append, List.flatMap_append,
      List.flatMap_cons, List.flatMap_cons, same]

end Owned

theorem Module.accept_ok_iff {m m' : Module} {f : Function} : m.accept f = .ok m' ↔
    f.strayTarget? = none ∧ m.index.lookup f.name = none ∧
      m' = { m with functions := m.functions ++ [f], index := m.index ++ [(f.name, m.functions.length)] } := by
  unfold Module.accept
  cases f.strayTarget? with
  | some p => simp
  | none => cases m.index.lookup f.name <;> simp [eq_comm]

theorem Function.Edit.stmts {f f' : Function} (h : f.Edit f') :
    f'.blocks.flatMap (·.stmts) = f.blocks.flatMap (·.stmts) := by
  cases h with
  | @addVar role v _ => cases role <;> rfl
  | addBlock y => simp [Function.addBlock, Block.new]
  | addAttribute y => rfl

/-- **The statements after a change** are those before it, without those that are lost, and at most one new one. -/
theorem Change.stmts {a : Scope} {w w' : Workspace} {gone came : List Owned} (h : Change a w w' gone came) :
    ∃ (kept lost : List (Stmt NodeId)) (new : Option (Stmt NodeId)), (gone.flatMap (·.stmts)).Perm (kept ++ lost) ∧
      (came.flatMap (·.stmts)).Perm (kept ++ new.toList) ∧ ∀ s ∈ new, Arises a w w' lost s := by
  -- most changes leave the statements of an object as they are
  have same : ∀ {o o' : Owned}, o'.stmts = o.stmts → ∃ (kept lost : List (Stmt NodeId)) (new : Option (Stmt NodeId)),
      ([o].flatMap (·.stmts)).Perm (kept ++ lost) ∧ ([o'].flatMap (·.stmts)).Perm (kept ++ new.toList) ∧
        ∀ s ∈ new, Arises a w w' lost s := by
    intro o o' he
    refine ⟨o.stmts, [], none, ?_, ?_, fun _ hs => nomatch hs⟩
    · simp
    · simp [he]
  cases h with
  | same => exact ⟨[], [], none, .refl _, .refl _, fun _ hs => nomatch hs⟩
  | make locs allowed direct known meets counted =>
    refine ⟨[], [], some _, .refl _, .refl _, fun s hs => ?_⟩
    rw [← Option.some.inj hs]
    exact .made locs allowed direct known meets counted
  | @gather func stmts calls locs meets listed counted =>
    refine ⟨[], stmts, some _, ?_, .refl _, fun s hs => ?_⟩
    · simp [List.flatMap_map, Owned.stmts]
    · rw [← Option.some.inj hs]
      exact .gathered locs meets listed counted
  | drop os => exact ⟨[], _, none, .refl _, .refl _, fun _ hs => nomatch hs⟩
  | blank hb =>
    refine ⟨[], [], none, .refl _, ?_, fun _ hs => nomatch hs⟩
    cases hb <;> exact .refl _
  | @place b s placed o o' free hb =>
    obtain ⟨l₁, l₂, before, after⟩ := hb.stmts
    refine ⟨o.stmts, [s], some placed, ?_, ?_, fun p hp => ?_⟩
    · simpa [Owned.stmts] using (List.perm_append_singleton s o.stmts).symm
    · have move : (placed :: l₂).Perm (l₂ ++ [placed]) := (List.perm_append_singleton placed l₂).symm
      rw [List.flatMap_singleton, after, before, Block.push]
      simpa only [List.append_assoc, List.singleton_append, Option.toList_some] using
        (move.append_left b.stmts).append_left l₁
    · rw [← Option.some.inj hp]
      exact .placed (List.mem_singleton_self s) free
  | @accept m m' f fits =>
    obtain ⟨-, -, rfl⟩ := Module.accept_ok_iff.1 fits
    refine ⟨m.functions.flatMap (fun f => f.blocks.flatMap (·.stmts)) ++ f.blocks.flatMap (·.stmts), [], none, ?_, ?_,
      fun _ hs => nomatch hs⟩
    · simpa [Owned.stmts] using List.perm_append_comm
    · simp [Owned.stmts]
  | edit he => exact same he.stmts
  | addClause kind => exact same (by cases kind <;> rfl)
  | freeze _ _ hf => exact same (hf.stmts rfl)
  | addArray | addAxiom => exact same rfl

theorem Move.stmts {a : Scope} {c c' : Config} (m : Move a c c') :
    ∃ (kept lost : List (Stmt NodeId)) (new : Option (Stmt NodeId)),
      (c.objects.flatMap (·.stmts)).Perm (kept ++ lost) ∧
      (c'.objects.flatMap (·.stmts)).Perm (kept ++ new.toList) ∧ ∀ s ∈ new, Arises a c.ws c'.ws lost s := by
  obtain ⟨gone, came, rest, ch, before, after⟩ := m.objects
  obtain ⟨kept, lost, new, hg, hc, arise⟩ := ch.stmts
  have beside : ∀ {os os' : List Owned} {l : List (Stmt NodeId)}, os.Perm (os' ++ rest) →
      (os'.flatMap (·.stmts)).Perm (kept ++ l) →
      (os.flatMap (·.stmts)).Perm (kept ++ rest.flatMap (·.stmts) ++ l) := by
    intro os os' l hp hl
    have all := hp.flatMap_right (·.stmts)
    rw [List.flatMap_append] at all
    refine all.trans ((hl.append_right _).trans ?_)
    rw [List.append_assoc, List.append_assoc]
    exact List.perm_append_comm.append_left kept
  exact ⟨kept ++ rest.flatMap (·.stmts), lost, new, beside before hg, beside after hc, arise⟩

theorem Workspace.liveStmts_push {w : Workspace} {site : BlockSite} {b : Block} (here : w.block? site = some b)
    (s : Stmt NodeId) : (w.putBlock site (b.push s)).liveStmts.Perm (s :: w.liveStmts) := by
  obtain ⟨o, o', rest, h, before, after⟩ := owned_putBlock here (b.push s)
  obtain ⟨l₁, l₂, eqn, eqn'⟩ := h.stmts
  have grown : o'.stmts.Perm (s :: o.stmts) := by
    have middle : (l₁ ++ b.stmts ++ s :: l₂).Perm (s :: (l₁ ++ b.stmts ++ l₂)) := List.perm_middle
    rw [eqn, eqn', Block.push]
    simpa only [List.append_assoc, List.singleton_append] using middle
  rw [← stmts_owned, ← stmts_owned]
  calc ((w.putBlock site (b.push s)).owned.flatMap (·.stmts)).Perm ((o' :: rest).flatMap (·.stmts)) :=
        after.flatMap_right _
    _ = o'.stmts ++ rest.flatMap (·.stmts) := List.flatMap_cons ..
    List.Perm _ (s :: o.stmts ++ rest.flatMap (·.stmts)) := grown.append_right _
    _ = s :: (o :: rest).flatMap (·.stmts) := by rw [List.flatMap_cons, List.cons_append]
    List.Perm _ (s :: w.owned.flatMap (·.stmts)) := (before.symm.flatMap_right _).cons s

/-! ## Laws of single objects -/

/-- A property of single objects, given the nodes that they hold, which every change keeps. -/
structure ObjectLaw (a : Scope) (Q : (NodeId → Node NodeId) → Owned → Prop) : Prop where
  congr : ∀ {read read' : NodeId → Node NodeId} {o}, (∀ n ∈ o.held, read' n = read n) → Q read o → Q read' o
  change : ∀ {w w' gone came}, Change a w w' gone came → (∀ o ∈ gone, Q w.store.reader.node o) →
    ∀ o ∈ came, Q w.store.reader.node o

/-- A property of single statements which all of them have when they arise, and keep when they are placed. -/
structure StmtLaw (a : Scope) (Q : (NodeId → Node NodeId) → Stmt NodeId → Prop) : Prop where
  congr : ∀ {read read' : NodeId → Node NodeId} {s : Stmt NodeId}, (∀ n ∈ s.operands, read' n = read n) →
    Q read s → Q read' s
  arises : ∀ {w w' lost s}, Arises a w w' lost s → (∀ t ∈ lost, Q w.store.reader.node t) → Q w.store.reader.node s

namespace ObjectLaw

variable {a : Scope} {Q : (NodeId → Node NodeId) → Owned → Prop} {w : Workspace}

theorem held_live {c : Config} (h : c.Balanced) {o : Owned} (ho : o ∈ c.objects) {n : NodeId} (hn : n ∈ o.held) :
    c.ws.store.Live n := by
  rcases List.mem_append.1 ho with ho | ho
  · exact h.live_of_hand ho hn
  · refine h.live_of_held (List.mem_append_right _ (List.mem_append_right _ ?_))
    exact List.mem_flatMap.2 ⟨o, ho, hn⟩

theorem invariant (h : ObjectLaw a Q) :
    Invariant a fun c => c.Balanced ∧ ∀ o ∈ c.objects, Q c.ws.store.reader.node o := by
  refine ⟨And.left, fun {c c'} hc m => ⟨m.balanced hc.1, fun o ho => ?_⟩⟩
  obtain ⟨hb, hq⟩ := hc
  rcases m.nodes_read with hr | hs
  · obtain ⟨gone, came, rest, ch, before, after⟩ := m.objects
    rw [hr]
    rcases List.mem_append.1 (after.mem_iff.1 ho) with hm | hm
    · exact h.change ch (fun p hp => hq p (before.mem_iff.2 (List.mem_append_left _ hp))) o hm
    · exact hq o (before.mem_iff.2 (List.mem_append_right _ hm))
  · rw [hs] at ho
    exact h.congr (fun n hn => (m.extends_store hb).node (held_live hb ho hn)) (hq o ho)

theorem tidy (h : ObjectLaw a Q) (hb : Config.Balanced ⟨[], w⟩) (hq : ∀ o ∈ w.owned, Q w.store.reader.node o) :
    ∀ o ∈ w.tidy.owned, Q w.tidy.store.reader.node o := fun o ho => by
  refine h.congr (fun n hn => ?_) (hq o ho)
  have held : n ∈ w.held := List.mem_append_right _ (List.mem_flatMap.2 ⟨o, ho, hn⟩)
  exact hb.node_sweep (fun _ _ => rfl) (hb.live_of_held held) (hb.live_sweep held)

theorem step (h : ObjectLaw a Q) (hw : w.Sound) (hq : ∀ o ∈ w.owned, Q w.store.reader.node o) {c : Command}
    (hc : c.Within a w) : ∀ o ∈ (w.step c).2.owned, Q (w.step c).2.store.reader.node o := by
  obtain ⟨w', ⟨hb, hq'⟩, he⟩ := Workspace.step_tidy_within h.invariant ⟨hw.books, hq⟩ hc
  rw [he]
  exact h.tidy hb hq'

/-- **A law that every change keeps holds of every object in every reachable workspace.** -/
theorem reachable (h : ObjectLaw .all Q) (hw : w.Reachable) : ∀ o ∈ w.owned, Q w.store.reader.node o := by
  refine (hw.induct (I := fun w => w.Sound ∧ ∀ o ∈ w.owned, Q w.store.reader.node o) ?_ fun w c hw => ?_).2
  · exact ⟨Workspace.sound_empty, fun _ ho => nomatch ho⟩
  · exact ⟨hw.1.step c, h.step hw.1 hw.2 (c.within_all w)⟩

end ObjectLaw

theorem Owned.held_of_stmt {o : Owned} {s : Stmt NodeId} (hs : s ∈ o.stmts) {n : NodeId} (hn : n ∈ s.operands) :
    n ∈ o.held := by
  cases o with
  | stmt t =>
    cases List.mem_singleton.1 hs
    exact hn
  | block b => exact List.mem_flatMap.2 ⟨s, hs, hn⟩
  | function f =>
    obtain ⟨b, hb, hs⟩ := List.mem_flatMap.1 hs
    exact List.mem_append_left _ (List.mem_flatMap.2 ⟨b, hb, List.mem_flatMap.2 ⟨s, hs, hn⟩⟩)
  | module m =>
    obtain ⟨f, hf, hs⟩ := List.mem_flatMap.1 hs
    obtain ⟨b, hb, hs⟩ := List.mem_flatMap.1 hs
    refine List.mem_append_left _ (List.mem_flatMap.2 ⟨f, hf, List.mem_append_left _ ?_⟩)
    exact List.mem_flatMap.2 ⟨b, hb, List.mem_flatMap.2 ⟨s, hs, hn⟩⟩

namespace StmtLaw

variable {a : Scope} {Q : (NodeId → Node NodeId) → Stmt NodeId → Prop} {w : Workspace}

/-- A law of statements is one of the objects that own them. -/
theorem objects (h : StmtLaw a Q) : ObjectLaw a fun read o => ∀ s ∈ o.stmts, Q read s where
  congr same hq s hs := h.congr (fun n hn => same n (Owned.held_of_stmt hs hn)) (hq s hs)
  change {w w' gone came} ch hq o ho s hs := by
    obtain ⟨kept, lost, new, before, after, arise⟩ := ch.stmts
    have old : ∀ t ∈ kept ++ lost, Q w.store.reader.node t := by
      intro t ht
      obtain ⟨p, hp, ht⟩ := List.mem_flatMap.1 (before.mem_iff.2 ht)
      exact hq p hp t ht
    rcases List.mem_append.1 (after.mem_iff.1 (List.mem_flatMap.2 ⟨o, ho, hs⟩)) with hk | hn
    · exact old s (List.mem_append_left _ hk)
    · exact h.arises (arise s (Option.mem_toList.1 hn)) fun t ht => old t (List.mem_append_right _ ht)

/-- **A law of statements holds of every live statement of every reachable workspace.** -/
theorem reachable (h : StmtLaw .all Q) (hw : w.Reachable) : ∀ s ∈ w.liveStmts, Q w.store.reader.node s := by
  intro s hs
  rw [← Workspace.stmts_owned] at hs
  obtain ⟨o, ho, hs⟩ := List.mem_flatMap.1 hs
  exact h.objects.reachable hw o ho s hs

end StmtLaw
end KernelIR
