import KernelIR.Proofs.Statements
/-!
# Callees — a handle belongs to one function

A callee handle comes into being when the signature of a function is fixed, under a number that was never given out.
From there it spreads to slots, to nodes and to statements (`Config.Knows`).  Two handles with one number are the same
handle, and at most one function has it (`Config.Signed`).  A function that has its handle keeps the signature that the
handle shows (`signature_law`), and every call was checked against the handle that it names (`StmtBody.Meets.calls`).
-/
namespace KernelIR

/-- The calls that a statement makes, those listed by an indirect call included, with their arguments. -/
def StmtBody.calls {α : Type} : StmtBody α → List (Callee × List α)
  | .call c args => [(c, args)]
  | .callMemberOf _ calls => calls.map fun c => (c.callee, c.arguments)
  | _ => []

/-- The handles of the functions in the object. -/
def Owned.callees (o : Owned) : List Callee := o.functions.filterMap (·.callee)

/-- The handle is in a slot, in a call, or in the function that it belongs to. -/
inductive Config.Knows (c : Config) (k : Callee) : Prop
  | slot (h : k ∈ c.ws.callees.values)
  | node {n : NodeId} {args : List NodeId} (h : (c.ws.store.cell n).shape = .call k args)
  | stmt {s : Stmt NodeId} (hs : s ∈ c.objects.flatMap (·.stmts)) (h : k ∈ s.body.callees)
  | function (h : k ∈ c.objects.flatMap (·.callees))

/-- **The handles in use** have old numbers; the number tells the handle, and the function that has it. -/
structure Config.Signed (c : Config) : Prop where
  old : ∀ k, c.Knows k → k.id < c.ws.supply
  same : ∀ k k', c.Knows k → c.Knows k' → k.id = k'.id → k = k'
  once : ((c.objects.flatMap (·.callees)).map (·.id)).Nodup

/-! ## Where handles come from -/

theorem StmtBody.callees_eq {α : Type} (b : StmtBody α) : b.callees = b.calls.map (·.1) := by
  cases b with
  | callMemberOf func listed => simp [callees, calls]
  | _ => rfl

/-- The listed calls are the calls that the statements were. -/
theorem Stmt.asCall_calls {r : Reader NodeId} : ∀ {stmts : List (Stmt NodeId)} {calls : List (CallStmt NodeId)},
    stmts.mapM (Stmt.asCall r) = .ok calls →
      calls.map (fun c => (c.callee, c.arguments)) = stmts.flatMap fun s => s.body.calls
  | [], _, h => by
    cases h
    rfl
  | s :: stmts, _, h => by
    rw [List.mapM_cons] at h
    obtain ⟨c, hc, h⟩ := bind_ok_iff.1 h
    obtain ⟨cs, hcs, h⟩ := bind_ok_iff.1 h
    cases h
    rw [List.map_cons, List.flatMap_cons, asCall_calls hcs]
    unfold Stmt.asCall at hc
    split at hc
    · rename_i callee args hbody
      cases hc
      rw [hbody]
      rfl
    · cases hc

/-- A call in a statement that arises was in a lost one, or it was made with a handle from a slot. -/
theorem Arises.calls {a : Scope} {w w' : Workspace} {lost : List (Stmt NodeId)} {s : Stmt NodeId}
    (h : Arises a w w' lost s) {p : Callee × List NodeId} (hp : p ∈ s.body.calls) :
    (∃ t ∈ lost, p ∈ t.body.calls) ∨ p.1 ∈ w.callees.values := by
  cases h with
  | @made body locs _ _ known =>
    refine .inr (known _ ?_)
    rw [StmtBody.callees_eq]
    exact List.mem_map_of_mem hp
  | gathered locs _ listed =>
    change p ∈ List.map _ _ at hp
    rw [Stmt.asCall_calls listed] at hp
    exact .inl (List.mem_flatMap.1 hp)
  | placed mem free =>
    obtain ⟨-, rfl⟩ := Stmt.place_ok free
    exact .inl ⟨_, mem, hp⟩

theorem Form.callees_of_resolve {r : Reader NodeId} {f : Form NodeId} {k : Callee} {args : List NodeId} {t : Ty}
    (h : f.resolve r = .ok (.fresh (.call k args) t)) (ho : ∀ n ∈ f.operands, (r.node n).Typed r.typ) :
    k ∈ f.callees := by
  rcases (resolve_ok h ho).2 with hs | ⟨-, u, hu⟩
  · cases hs
  · cases f with
    | call c args =>
      cases hu
      exact List.mem_singleton_self _
    | extend x e width => cases x <;> cases hu
    | bvConst | bvZero | boolConst | arrayRef | varRef | pointer | load | bvExtract | unary | binary => cases hu

theorem Function.Edit.callee {f f' : Function} (h : f.Edit f') : f'.callee = f.callee := by
  cases h with
  | @addVar role v _ => cases role <;> rfl
  | addBlock | addAttribute => rfl

/-- The handles of the functions after a change are some of those before it, or a new one is there besides. -/
theorem Change.callees {a : Scope} {w w' : Workspace} {gone came : List Owned} (h : Change a w w' gone came) :
    (∃ lost, (gone.flatMap (·.callees)).Perm (came.flatMap (·.callees) ++ lost)) ∨
    ∃ k : Callee, k.id = w.supply ∧ w'.supply = w.supply + 1 ∧
      (came.flatMap (·.callees)).Perm (k :: gone.flatMap (·.callees)) := by
  -- most changes leave the handles of an object as they are
  have same : ∀ {o o' : Owned}, o'.callees = o.callees →
      ∃ lost, ([o].flatMap (·.callees)).Perm ([o'].flatMap (·.callees) ++ lost) := by
    intro o o' he
    exact ⟨[], by simp [he]⟩
  cases h with
  | same | make => exact .inl ⟨[], .refl _⟩
  | gather | drop => exact .inl ⟨_, .refl _⟩
  | blank hb =>
    refine .inl ⟨[], ?_⟩
    cases hb <;> exact .refl _
  | @place b s placed o o' free hb =>
    have kept : o'.callees = o.callees := by
      cases hb with
      | loose => rfl
      | inFunction => rfl
    have none : (Owned.stmt s).callees = [] := rfl
    exact .inl ⟨[], by simp [kept, none]⟩
  | accept fits =>
    obtain ⟨-, -, rfl⟩ := Module.accept_ok_iff.1 fits
    refine .inl ⟨[], ?_⟩
    simpa [Owned.callees, Owned.functions] using List.perm_append_comm
  | edit he => exact .inl (same (by simp [Owned.callees, Owned.functions, List.filterMap_cons, he.callee]))
  | addClause kind => exact .inl (same (by cases kind <;> rfl))
  | @freeze f o o' first counted hf =>
    obtain ⟨l₁, l₂, before, after⟩ := hf.functions
    refine .inr ⟨f.signature w.supply, rfl, counted, ?_⟩
    simp only [List.flatMap_singleton, Owned.callees, before, after, List.filterMap_append, List.filterMap_cons, first]
    exact List.perm_middle
  | addArray | addAxiom => exact .inl (same rfl)

theorem Move.callees {a : Scope} {c c' : Config} (m : Move a c c') :
    (∃ lost, (c.objects.flatMap (·.callees)).Perm (c'.objects.flatMap (·.callees) ++ lost)) ∨
    ∃ k : Callee, k.id = c.ws.supply ∧ c'.ws.supply = c.ws.supply + 1 ∧
      (c'.objects.flatMap (·.callees)).Perm (k :: c.objects.flatMap (·.callees)) := by
  obtain ⟨gone, came, rest, ch, before, after⟩ := m.objects
  have before := before.flatMap_right (·.callees)
  have after := after.flatMap_right (·.callees)
  rw [List.flatMap_append] at before after
  rcases ch.callees with ⟨lost, hl⟩ | ⟨k, hk, counted, hc⟩
  · refine .inl ⟨lost, before.trans ?_⟩
    refine (hl.append_right _).trans (.trans ?_ (after.symm.append_right _))
    simp only [List.append_assoc]
    exact List.perm_append_comm.append_left _
  · exact .inr ⟨k, hk, counted, after.trans ((hc.append_right _).trans (before.symm.cons k))⟩

/-- A number that is given out is not taken back. -/
theorem Move.supply {a : Scope} {c c' : Config} (m : Move a c c') : c.ws.supply ≤ c'.ws.supply := by
  cases m with
  | assemble h =>
    cases h with
    | grow hg =>
      cases hg with
      | number => exact Nat.le_succ _
      | intern | node => exact Nat.le_refl _
    | make | gather => exact Nat.le_succ _
    | reorder | drop => exact Nat.le_refl _
  | @take hand w kind => cases kind <;> exact Nat.le_refl _
  | @put hand w x o => cases o <;> exact Nat.le_refl _
  | place => exact Nat.le_of_eq (Workspace.supply_putBlock ..).symm
  | freeze =>
    rw [Workspace.supply_putFunction]
    exact Nat.le_succ _
  | _ => exact Nat.le_refl _

namespace Workspace

variable {w : Workspace}

theorem function_mem {site : FunctionSite} {f : Function} (here : w.function? site = some f) :
    f ∈ w.liveFunctions := by
  cases site with
  | loose x => exact List.mem_append_left _ (Table.mem_values_of_get? here)
  | inModule x i =>
    obtain ⟨m, hm, hf⟩ := Option.bind_eq_some_iff.1 here
    exact List.mem_append_right _ (List.mem_flatMap.2 ⟨m, Table.mem_values_of_get? hm, List.mem_of_getElem? hf⟩)

theorem callees_owned (w : Workspace) :
    w.owned.flatMap (·.callees) = w.liveFunctions.filterMap (·.callee) := by
  rw [← functions_owned, List.filterMap_flatMap]
  rfl

end Workspace

/-- A slot gets the handle of a function, and no other. -/
theorem Move.slots {a : Scope} {c c' : Config} (m : Move a c c') {k : Callee} (h : k ∈ c'.ws.callees.values) :
    k ∈ c.ws.callees.values ∨ k ∈ c.objects.flatMap (·.callees) := by
  cases m with
  | assemble ha =>
    rw [ha.sameSlots.callees] at h
    exact .inl h
  | @setCallee hand w site f k' x here known =>
    rcases Table.mem_values_put h with rfl | h
    · right
      have mem : k ∈ w.owned.flatMap (·.callees) := by
        rw [Workspace.callees_owned]
        exact List.mem_filterMap.2 ⟨f, Workspace.function_mem here, known⟩
      rw [Config.objects, List.flatMap_append]
      exact List.mem_append_right _ mem
    · exact .inl h
  | @take hand w kind => cases kind <;> exact .inl h
  | @put hand w x o => cases o <;> exact .inl h
  | @place hand w site =>
    rw [Workspace.callees_putBlock] at h
    exact .inl h
  | freeze =>
    rw [Workspace.callees_putFunction] at h
    exact .inl h
  | _ => exact .inl h

/-- A node gets its handle from a slot. -/
theorem Growth.nodes {w w' : Workspace} {held evaluated : List NodeId} (h : Growth w w')
    (hb : w.store.Books held evaluated) {k : Callee} {n : NodeId} {args : List NodeId}
    (hk : (w'.store.cell n).shape = .call k args) : (w.store.cell n).shape = .call k args ∨ k ∈ w.callees.values := by
  cases h with
  | intern | number => exact .inl hk
  | node live known made =>
    by_cases hn : n = ⟨w.store.next⟩
    · rw [hn, Store.cell_alloc_self] at hk
      cases hk
      exact .inr (known k (Form.callees_of_resolve made fun m hm => hb.node_typed (live m hm)))
    · rw [Store.cell_alloc_of_ne hn] at hk
      exact .inl ((congrArg Node.shape (Store.node_mapCells (Store.recounts_holders _) _)).symm.trans hk)

theorem Move.nodes {a : Scope} {c c' : Config} (m : Move a c c') (hb : c.Balanced) {k : Callee} {n : NodeId}
    {args : List NodeId} (h : (c'.ws.store.cell n).shape = .call k args) : c.Knows k := by
  rcases m.store_cases with hr | ⟨p, -, hr⟩ | ⟨-, hg⟩
  · exact .node ((congrArg Node.shape (hr.node n)).symm.trans h)
  · rw [hr] at h
    exact .node ((congrArg Node.shape (Store.node_mapCells (Store.recounts_prevent p) _)).symm.trans h)
  · exact (hg.nodes hb h).elim .node .slot

/-- **A handle spreads from where it is**, unless it is the one that a function gets in this move. -/
theorem Move.knows {a : Scope} {c c' : Config} (m : Move a c c') (hb : c.Balanced) {k : Callee} (h : c'.Knows k) :
    c.Knows k ∨ k ∈ c'.objects.flatMap (·.callees) := by
  cases h with
  | slot h => exact .inl ((m.slots h).elim .slot .function)
  | node h => exact .inl (m.nodes hb h)
  | @stmt s hs h =>
    obtain ⟨kept, lost, new, before, after, arise⟩ := m.stmts
    rcases List.mem_append.1 (after.mem_iff.1 hs) with hk | hn
    · exact .inl (.stmt (before.mem_iff.2 (List.mem_append_left _ hk)) h)
    · rw [StmtBody.callees_eq] at h
      obtain ⟨p, hp, rfl⟩ := List.mem_map.1 h
      rcases (arise s (Option.mem_toList.1 hn)).calls hp with ⟨t, ht, hp⟩ | known
      · refine .inl (.stmt (before.mem_iff.2 (List.mem_append_right _ ht)) ?_)
        rw [StmtBody.callees_eq]
        exact List.mem_map_of_mem hp
      · exact .inl (.slot known)
  | function h => exact .inr h

/-- **One move keeps the handles in order.** -/
theorem Config.Signed.move {a : Scope} {c c' : Config} (h : c.Signed) (hb : c.Balanced) (m : Move a c c') :
    c'.Signed := by
  rcases m.callees with ⟨lost, hl⟩ | ⟨k, hk, counted, hc⟩
  · have known : ∀ k, c'.Knows k → c.Knows k := fun k hk =>
      (m.knows hb hk).elim id fun hf => .function (hl.mem_iff.2 (List.mem_append_left _ hf))
    refine ⟨fun k hk => Nat.lt_of_lt_of_le (h.old k (known k hk)) m.supply,
      fun k k' hk hk' => h.same k k' (known k hk) (known k' hk'), ?_⟩
    have ids := hl.map (·.id)
    rw [List.map_append] at ids
    exact (List.nodup_append.1 (ids.nodup_iff.1 h.once)).1
  · have known : ∀ k', c'.Knows k' → k' = k ∨ c.Knows k' := fun k' hk' =>
      (m.knows hb hk').elim .inr fun hf => (List.mem_cons.1 (hc.mem_iff.1 hf)).imp_right .function
    have new : ∀ k', c.Knows k' → k'.id ≠ k.id := fun k' hk' he => by
      have := h.old k' hk'
      omega
    refine ⟨fun k' hk' => ?_, fun k₁ k₂ h₁ h₂ he => ?_, ?_⟩
    · rcases known k' hk' with rfl | hk'
      · omega
      · have := h.old k' hk'
        omega
    · rcases known k₁ h₁ with rfl | h₁ <;> rcases known k₂ h₂ with rfl | h₂
      · rfl
      · exact absurd he.symm (new k₂ h₂)
      · exact absurd he (new k₁ h₁)
      · exact h.same k₁ k₂ h₁ h₂ he
    · have ids := hc.map (·.id)
      refine ids.nodup_iff.2 (List.nodup_cons.2 ⟨fun hm => ?_, h.once⟩)
      obtain ⟨k', hk', he⟩ := List.mem_map.1 hm
      exact new k' (.function hk') he

/-! ## What a handle says of its function and of its calls -/

/-- How a function comes about: it has no handle, or it goes on from one with its signature, whose handle it has unless
it was given one now. -/
theorem Change.functions {a : Scope} {w w' : Workspace} {gone came : List Owned} (h : Change a w w' gone came)
    {f' : Function} (hf : f' ∈ came.flatMap (·.functions)) : f'.callee = none ∨
      ∃ f ∈ gone.flatMap (·.functions), (f'.callee = f.callee ∨ f'.callee = some (f.signature w.supply)) ∧
        ∀ id, f'.signature id = f.signature id := by
  cases h with
  | same | drop => cases hf
  | make | gather => cases hf
  | blank hb =>
    cases hb with
    | block | module => cases hf
    | function y =>
      cases List.mem_singleton.1 hf
      exact .inl rfl
  | @place b s placed o o' free hb =>
    cases hb with
    | loose => cases hf
    | inFunction here =>
      cases List.mem_singleton.1 hf
      exact .inr ⟨_, List.mem_singleton_self _, .inl rfl, fun _ => rfl⟩
  | @accept m m' f fits =>
    obtain ⟨-, -, rfl⟩ := Module.accept_ok_iff.1 fits
    refine .inr ⟨f', ?_, .inl rfl, fun _ => rfl⟩
    simpa [Owned.functions, or_comm] using hf
  | @edit f f' he =>
    cases List.mem_singleton.1 hf
    cases he with
    | @addVar role v free =>
      cases role with
      | localVar => exact .inr ⟨f, List.mem_singleton_self _, .inl rfl, fun _ => rfl⟩
      | parameter | returnValue =>
        left
        unfold Function.checkOpen at free
        cases hc : f.callee with
        | none => exact hc
        | some k =>
          rw [hc] at free
          cases free
    | addBlock | addAttribute => exact .inr ⟨f, List.mem_singleton_self _, .inl rfl, fun _ => rfl⟩
  | @addClause f n kind =>
    cases List.mem_singleton.1 hf
    cases kind <;> exact .inr ⟨f, List.mem_singleton_self _, .inl rfl, fun _ => rfl⟩
  | @freeze f o o' _ _ hw =>
    obtain ⟨l₁, l₂, before, after⟩ := hw.functions
    simp only [List.flatMap_singleton] at hf ⊢
    rw [after] at hf
    rw [before]
    rcases List.mem_append.1 hf with hf | hf
    · exact .inr ⟨f', List.mem_append_left _ hf, .inl rfl, fun _ => rfl⟩
    rcases List.mem_cons.1 hf with rfl | hf
    · exact .inr ⟨f, List.mem_append_right _ (List.mem_cons_self ..), .inr rfl, fun _ => rfl⟩
    · exact .inr ⟨f', List.mem_append_right _ (List.mem_cons_of_mem _ hf), .inl rfl, fun _ => rfl⟩
  | addArray | addAxiom => exact .inr ⟨f', hf, .inl rfl, fun _ => rfl⟩

/-- **A function has the signature that its handle shows.** -/
theorem signature_law : ObjectLaw .all fun _ o => ∀ f ∈ o.functions, ∀ k, f.callee = some k → k = f.signature k.id where
  congr _ h := h
  change {w w' gone came} ch h o ho f hf k hk := by
    rcases ch.functions (List.mem_flatMap.2 ⟨o, ho, hf⟩) with none | ⟨f₀, hf₀, handle, signature⟩
    · cases none.symm.trans hk
    rw [signature]
    rcases handle with same | new
    · obtain ⟨p, hp, hf₀⟩ := List.mem_flatMap.1 hf₀
      exact h p hp f₀ hf₀ k (same.symm.trans hk)
    · cases new.symm.trans hk
      rfl

/-- **A call passes what the handle asks for.** -/
theorem StmtBody.Meets.calls {α : Type} {typ : α → Ty} {b : StmtBody α} (h : b.Meets typ) {p : Callee × List α}
    (hp : p ∈ b.calls) : p.2.map typ = p.1.parameters := by
  cases b with
  | call c args =>
    cases List.mem_singleton.1 hp
    exact h
  | callMemberOf func listed =>
    obtain ⟨c, hc, rfl⟩ := List.mem_map.1 hp
    exact h.2 c hc
  | eval | store | varAssign | goto | ret | assume | assert | waitGroupEvent => cases hp

/-! ## Reachable workspaces -/

namespace Workspace

variable {w : Workspace}

theorem signed_empty : Config.Signed ⟨[], empty⟩ := by
  have none : ∀ k, ¬ Config.Knows ⟨[], empty⟩ k := by
    intro k h
    cases h with
    | slot h | node h | stmt h | function h => cases h
  exact ⟨fun k h => absurd h (none k), fun k _ h => absurd h (none k), .nil⟩

theorem signed_tidy (hb : Config.Balanced ⟨[], w⟩) (h : Config.Signed ⟨[], w⟩) : Config.Signed ⟨[], w.tidy⟩ := by
  have known : ∀ k, Config.Knows ⟨[], w.tidy⟩ k → Config.Knows ⟨[], w⟩ k := by
    intro k hk
    cases hk with
    | slot hk => exact .slot hk
    | @node n args hk =>
      by_cases hn : w.store.sweep.Live n
      · obtain ⟨holders, eq⟩ := hb.cell_sweep hn
        have shape := congrArg Cell.shape eq
        exact .node (n := n) (shape.symm.trans hk)
      · change (w.store.sweep.cell n).shape = _ at hk
        rw [Store.cell_of_not_live hn] at hk
        cases hk
    | stmt hs hk => exact .stmt hs hk
    | function hk => exact .function hk
  exact ⟨fun k hk => h.old k (known k hk), fun k k' hk hk' => h.same k k' (known k hk) (known k' hk'), h.once⟩

theorem signed_invariant : Invariant .all fun c => c.Balanced ∧ c.Signed :=
  ⟨And.left, fun h m => ⟨m.balanced h.1, h.2.move h.1 m⟩⟩

/-- **In every reachable workspace the handles are in order.** -/
theorem Reachable.signed (h : w.Reachable) : Config.Signed ⟨[], w⟩ := by
  refine (h.induct (I := fun w => w.Sound ∧ Config.Signed ⟨[], w⟩) ⟨sound_empty, signed_empty⟩ fun w c hw => ?_).2
  obtain ⟨v, ⟨hb, hs⟩, he⟩ := step_tidy signed_invariant ⟨hw.1.books, hw.2⟩ c
  refine ⟨hw.1.step c, ?_⟩
  rw [he]
  exact signed_tidy hb hs

theorem Sound.supply_step (h : w.Sound) (c : Command) : w.supply ≤ (w.step c).2.supply := by
  have counts : Invariant .all fun c => c.Balanced ∧ w.supply ≤ c.ws.supply :=
    ⟨And.left, fun h m => ⟨m.balanced h.1, Nat.le_trans h.2 m.supply⟩⟩
  obtain ⟨v, ⟨-, hs⟩, he⟩ := step_tidy counts ⟨h.books, Nat.le_refl _⟩ c
  rw [he]
  exact hs

theorem Sound.call_typed (h : w.Sound) {c : Cell} (hc : c ∈ w.store.cells) {k : Callee} {args : List NodeId}
    (hs : c.shape = .call k args) : args.map w.store.typ = k.parameters ∧ k.returns = [c.typ] := by
  have typed := (h.books.typed c hc).inTable
  rw [Cell.node, hs] at typed
  exact Form.Typed.of_call typed

end Workspace
end KernelIR
