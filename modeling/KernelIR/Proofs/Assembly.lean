import KernelIR.Proofs.Terms
/-!
# Assembly — how statements are put together

The evaluation of a statement term takes statements out of their slots, makes new ones in hand and lists calls in
indirect calls.  When it fails, it drops what it has in hand: the slots that it has emptied by then (`StmtTerm.spent`)
stay empty, and nothing else is left of it.

Main statement: `Build.stmtTerm_ends`, for whatever the moves of an assembly keep (`Assembles`).
-/
namespace KernelIR

namespace StmtTerm

mutual

/-- The kinds of statements that the term makes. -/
def makes : StmtTerm → List StmtKind
  | .slot _ => []
  | .eval _ _ => [.eval]
  | .store _ _ _ _ => [.store]
  | .varAssign _ _ => [.varAssign]
  | .goto _ => [.goto]
  | .ret => [.ret]
  | .assume _ _ => [.assume]
  | .assert _ _ _ _ _ | .badAccess _ | .blockSourceLoc _ => [.assert]
  | .call _ _ _ => [.call]
  | .callMemberOf _ _ calls => .callMemberOf :: makesList calls
  | .waitGroupEvent _ _ => [.waitGroupEvent]

def makesList : List StmtTerm → List StmtKind
  | [] => []
  | s :: ss => s.makes ++ makesList ss

end

mutual

/-- The slots whose statements are arguments of the term, in the order of evaluation. -/
def takes : StmtTerm → List String
  | .slot x => [x]
  | .callMemberOf _ _ calls => takesList calls
  | .eval _ _ | .store _ _ _ _ | .varAssign _ _ | .goto _ | .ret | .assume _ _ | .assert _ _ _ _ _ | .badAccess _
  | .blockSourceLoc _ | .call _ _ _ | .waitGroupEvent _ _ => []

def takesList : List StmtTerm → List String
  | [] => []
  | s :: ss => s.takes ++ takesList ss

end

mutual

/-- The slots that the evaluation of the term empties before it ends, in order: all of `takes` when it succeeds, and
those that come before the failure when it does not. -/
def spent (w : Workspace) : StmtTerm → List OwnedSlot
  | .slot x => match w.stmts.get? x with
    | some _ => [(.stmt, x)]
    | none => []
  | .callMemberOf func locs calls => match func.build w with
    | .ok _ w => match locs.build w with
      | .ok _ w => spentList w calls
      | .error _ _ => []
    | .error _ _ => []
  | .eval _ _ | .store _ _ _ _ | .varAssign _ _ | .goto _ | .ret | .assume _ _ | .assert _ _ _ _ _ | .badAccess _
  | .blockSourceLoc _ | .call _ _ _ | .waitGroupEvent _ _ => []

def spentList (w : Workspace) : List StmtTerm → List OwnedSlot
  | [] => []
  | s :: ss => s.spent w ++ match s.build w with
    | .ok _ w => spentList w ss
    | .error _ _ => []

end

/-- The term makes and takes only what the scope lets it. -/
structure Within (a : Scope) (s : StmtTerm) : Prop where
  makes : ∀ k ∈ s.makes, a.makes k
  takes : ∀ x ∈ s.takes, a.takes .stmt x

structure WithinList (a : Scope) (ss : List StmtTerm) : Prop where
  makes : ∀ k ∈ makesList ss, a.makes k
  takes : ∀ x ∈ takesList ss, a.takes .stmt x

variable {a : Scope}

theorem Within.calls {func : Term} {locs : LocsTerm} {calls : List StmtTerm}
    (h : Within a (.callMemberOf func locs calls)) : a.makes .callMemberOf ∧ WithinList a calls := by
  obtain ⟨makes, takes⟩ := h
  rw [StmtTerm.makes, List.forall_mem_cons] at makes
  rw [StmtTerm.takes] at takes
  exact ⟨makes.1, makes.2, takes⟩

theorem WithinList.cons {s : StmtTerm} {ss : List StmtTerm} (h : WithinList a (s :: ss)) :
    s.Within a ∧ WithinList a ss := by
  obtain ⟨makes, takes⟩ := h
  rw [makesList, List.forall_mem_append] at makes
  rw [takesList, List.forall_mem_append] at takes
  exact ⟨⟨makes.1, takes.1⟩, makes.2, takes.2⟩

end StmtTerm

/-- How a computation ends that fails with these objects in hand. -/
def Failed (P : Config → Prop) (hand : List Owned) (e : Failure) (w : Workspace) : Prop := P ⟨hand, w⟩ ∧ e.Foreseen

namespace Build

variable {α β : Type}

/-! ## Computations that only add -/

/-- Only names, numbers and nodes are added, whatever the workspace. -/
def Growing (act : Build α) : Prop :=
  ∀ w, act.Ends w (fun _ w' => Grows w w') (fun e w' => Grows w w' ∧ e.Foreseen)

namespace Growing

theorem of_reads {act : Build α} (h : Reads act) : Growing act := fun w => by
  refine (h w).mono (fun _ _ hw => ?_) fun _ _ hw => ⟨?_, hw.2⟩
  · rw [hw]
    exact .refl
  · rw [hw.1]
    exact .refl

theorem bind {act : Build α} {f : α → Build β} (h : Growing act) (hf : ∀ a, Growing (f a)) : Growing (act >>= f) :=
  fun w => (h w).bind fun a w' hw => (hf a w').mono (fun _ _ hw' => hw.trans hw') fun _ _ hw' => ⟨hw.trans hw'.1, hw'.2⟩

theorem pure (a : α) : Growing (pure a) := of_reads (.pure a)

theorem mapM {f : β → Build α} (hf : ∀ b, Growing (f b)) : ∀ l : List β, Growing (l.mapM f)
  | [] => pure _
  | b :: l => by
    rw [List.mapM_cons]
    exact (hf b).bind fun _ => (mapM hf l).bind fun _ => pure _

theorem intern (s : String) : Growing (intern s) :=
  (of_reads .checkNames).bind fun _ _ => ends_modifyGet (.single (.intern s))

theorem freshId : Growing freshId := fun _ => ends_modifyGet (.single .number)

theorem newVar (name : String) (t : Ty) : Growing (newVar name t) :=
  (intern name).bind fun _ => freshId.bind fun _ => pure _

theorem newArray (name : String) (space : MemorySpace) : Growing (newArray name space) :=
  (intern name).bind fun _ => freshId.bind fun _ => pure _

theorem newLocs (list : List SourceLoc) : Growing (newLocs list) := freshId.bind fun _ => pure _

theorem loc (l : LocTerm) : Growing l.build :=
  (intern _).bind fun _ => (intern _).bind fun _ =>
    (of_reads (.ofExcept (Fault.plainly_wordOfInt _).foreseen)).bind fun _ =>
      (of_reads (.ofExcept (Fault.plainly_wordOfInt _).foreseen)).bind fun _ => pure _

theorem locs : ∀ t : LocsTerm, Growing t.build
  | .slot x => of_reads (.slot _ _ x)
  | .list ls => (mapM loc ls).bind fun _ => newLocs _

end Growing

/-! ## Reading -/

section

variable {P : Config → Prop} {hand : List Owned} {w : Workspace}

theorem Reads.keeps {act : Build α} (h : Reads act) (hp : P ⟨hand, w⟩) :
    act.Ends w (fun _ w' => P ⟨hand, w'⟩) (Failed P hand) :=
  (h w).mono (fun _ _ hw => by rwa [hw]) fun _ _ hw => ⟨by rwa [hw.1], hw.2⟩

theorem check_ends {x : Except Fault α} (hx : Fault.Foreseen x) (hp : P ⟨hand, w⟩) :
    (ofExcept x).Ends w (fun a w' => w' = w ∧ x = .ok a) (Failed P hand) :=
  ends_ofExcept (fun _ ha => ⟨rfl, ha⟩) fun e he => ⟨hp, Failure.foreseen_refused (hx e he)⟩

theorem read_ends {kind : SlotKind} {table : Workspace → Table α} {x : String} (hp : P ⟨hand, w⟩) :
    (slot kind table x).Ends w (fun a w' => w' = w ∧ (table w).get? x = some a) (Failed P hand) :=
  ends_slot (fun _ ha => ⟨rfl, ha⟩) fun _ => ⟨hp, Failure.foreseen_missing _⟩

theorem blockAt_finds (site : BlockSite) : (blockAt site).Ends w (fun b w' => w' = w ∧ w.block? site = some b)
    (fun e w' => w' = w ∧ w.block? site = none ∧ e.Foreseen) := by
  cases site with
  | loose x => exact ends_slot (fun _ hb => ⟨rfl, hb⟩) fun hb => ⟨rfl, hb, Failure.foreseen_missing _⟩
  | inFunction x i =>
    refine Ends.bind (Q := fun f w' => w' = w ∧ w.functions.get? x = some f) (ends_slot (fun _ hf => ⟨rfl, hf⟩) ?_) ?_
    · intro hf
      exact ⟨rfl, by rw [Workspace.block?, hf]; rfl, Failure.foreseen_missing _⟩
    · intro f w' hw
      obtain ⟨rfl, hf⟩ := hw
      have here : w'.block? (.inFunction x i) = f.blocks[i]? := by rw [Workspace.block?, hf]; rfl
      rw [here]
      unfold Function.block
      split
      · rename_i b hb
        exact ⟨rfl, hb⟩
      · rename_i hb
        refine ⟨rfl, hb, Failure.foreseen_refused fun he => ?_⟩
        cases he

theorem run_blockAt {site : BlockSite} {b : Block} (here : w.block? site = some b) : blockAt site w = .ok b w := by
  have ends := blockAt_finds (w := w) site
  cases hr : blockAt site w with
  | ok b' w' =>
    obtain ⟨rfl, hb⟩ := ends.ok hr
    cases here.symm.trans hb
    rfl
  | error e w' => cases here.symm.trans (ends.error hr).2.1

theorem blockAt_ends (site : BlockSite) (hp : P ⟨hand, w⟩) :
    (blockAt site).Ends w (fun b w' => w' = w ∧ w.block? site = some b) (Failed P hand) :=
  (blockAt_finds site).mono (fun _ _ => id) fun _ _ he => ⟨he.1 ▸ hp, he.2.2⟩

theorem reads_varSlots : ∀ xs : List String, Reads (xs.mapM varSlot) := Reads.mapM (.slot _ _)

end

variable {a : Scope} {P : List OwnedSlot → Config → Prop} (hP : Assembles a P) {k : List OwnedSlot} {hand : List Owned}
  {w : Workspace}
include hP

theorem Growing.keeps {act : Build α} (h : Growing act) (hp : P k ⟨hand, w⟩) :
    act.Ends w (fun _ w' => P k ⟨hand, w'⟩ ∧ Grows w w') (Failed (P k) hand) :=
  (h w).mono (fun _ _ hw => ⟨hP.grows hp hw, hw⟩) fun _ _ hw => ⟨hP.grows hp hw.1, hw.2⟩

theorem term_ends (t : Term) (hp : P k ⟨hand, w⟩) :
    t.build.Ends w (fun n w' => P k ⟨hand, w'⟩ ∧ Grows w w' ∧ w'.store.Live n) (Failed (P k) hand) := by
  have hb := hP.balanced hp
  have hx : ∀ n ∈ w.exprs.values, w.store.Live n := fun n hn =>
    hb.live_of_held (List.mem_append_right _ (List.mem_append_left _ hn))
  refine Ends.mono (Term.build_yields hb hx t .refl) ?_ fun _ _ h => ⟨hP.grows hp h.1, h.2.1⟩
  intro n w' hw
  obtain ⟨hg, u, hn, -⟩ := hw
  exact ⟨hP.grows hp hg, hg, hn.1⟩

theorem termList_ends (ts : List Term) (hp : P k ⟨hand, w⟩) :
    (Term.buildList ts).Ends w (fun ns w' => P k ⟨hand, w'⟩ ∧ Grows w w' ∧ ∀ n ∈ ns, w'.store.Live n)
      (Failed (P k) hand) := by
  have hb := hP.balanced hp
  have hx : ∀ n ∈ w.exprs.values, w.store.Live n := fun n hn =>
    hb.live_of_held (List.mem_append_right _ (List.mem_append_left _ hn))
  refine Ends.mono (Term.buildList_yields hb hx ts .refl) ?_ fun _ _ h => ⟨hP.grows hp h.1, h.2.1⟩
  intro ns w' hw
  obtain ⟨hg, us, hns, -⟩ := hw
  exact ⟨hP.grows hp hg, hg, hns.1⟩

/-! ## Objects in hand -/

omit hP in
/-- Objects in hand can be dropped: every evaluation that ends is alive. -/
theorem dropOwned_eq {os : List Owned} (hb : Config.Balanced ⟨os ++ hand, w⟩) :
    dropOwned os w = .ok () (w.discard os) := by
  have back : w.backs (os.flatMap (·.evaluated)) = true := by
    unfold Workspace.backs
    rw [List.all_eq_true]
    intro n _
    have := hb.evals n
    simp only [Config.evaluated, List.flatMap_append, List.count_append] at this
    simp only [decide_eq_true_eq]
    omega
  change (if w.backs _ then modify _ else refuse _ : Build Unit) w = _
  rw [back]
  rfl

theorem dropOwned_ends (os : List Owned) {E : Failure → Workspace → Prop} (hp : P k ⟨os ++ hand, w⟩) :
    (dropOwned os).Ends w (fun _ w' => P k ⟨hand, w'⟩) E := by
  unfold Ends
  rw [dropOwned_eq (hP.balanced hp)]
  exact hP.move hp (.drop os)

/-- A failure in the scope of some statements drops them. -/
theorem dropOnFailure_ends (ss : List (Stmt NodeId)) {act : Build α} {Q : α → Workspace → Prop}
    (h : act.Ends w Q (Failed (P k) (ss.map .stmt ++ hand))) :
    (dropOnFailure ss act).Ends w Q (Failed (P k) hand) := by
  unfold Ends dropOnFailure
  unfold Ends at h
  cases hr : act w with
  | ok a w' =>
    rw [hr] at h
    exact h
  | error e w' =>
    rw [hr] at h
    have : (do dropStmts ss; throw e : Build α).Ends w' Q (Failed (P k) hand) :=
      (dropOwned_ends hP _ h.1).bind fun _ _ hp => ends_throw ⟨hp, h.2⟩
    exact this

theorem newStmt_ends (body : StmtBody NodeId) {locs : Locs} (allowed : a.makes body.kind)
    (direct : body.Direct w.store.reader.node) (known : ∀ c ∈ body.callees, c ∈ w.callees.values) (hp : P k ⟨hand, w⟩)
    (live : ∀ n ∈ body.operands, w.store.Live n) :
    (newStmt body locs).Ends w (fun s w' => P k ⟨.stmt s :: hand, w'⟩) (Failed (P k) hand) := by
  unfold newStmt
  refine ends_get ((check_ends (Fault.plainly_check _ body).foreseen hp).bind ?_)
  intro _ w hw
  obtain ⟨rfl, meets⟩ := hw
  exact hP.move hp (.make locs allowed direct known live meets)

theorem located_ends (body : StmtBody NodeId) (allowed : a.makes body.kind) (direct : ∀ read, body.Direct read)
    (known : ∀ c ∈ body.callees, c ∈ w.callees.values) (hp : P k ⟨hand, w⟩)
    (live : ∀ n ∈ body.operands, w.store.Live n) {locs : Build Locs} (hl : Growing locs) :
    (locs >>= newStmt body).Ends w (fun s w' => P k ⟨.stmt s :: hand, w'⟩) (Failed (P k) hand) := by
  refine (hl.keeps hP hp).bind ?_
  intro l w' hw
  obtain ⟨hp, hg⟩ := hw
  rw [← congrArg (·.callees) hg.tables] at known
  exact newStmt_ends hP _ allowed (direct _) known hp fun n hn => hg.live (live n hn)

theorem termStmt_ends (e : Term) (body : NodeId → StmtBody NodeId) (one : ∀ n, (body n).operands = [n])
    (allowed : ∀ n, a.makes (body n).kind) (direct : ∀ n read, (body n).Direct read)
    (none : ∀ n, (body n).callees = []) (hp : P k ⟨hand, w⟩) {locs : Build Locs} (hl : Growing locs) :
    (e.build >>= fun n => locs >>= newStmt (body n)).Ends w (fun s w' => P k ⟨.stmt s :: hand, w'⟩)
      (Failed (P k) hand) := by
  refine (term_ends hP e hp).bind ?_
  intro n w hw
  obtain ⟨hp, -, live⟩ := hw
  have known : ∀ c ∈ (body n).callees, c ∈ w.callees.values := by
    rw [none n]
    exact List.forall_mem_nil _
  refine located_ends hP (body n) (allowed n) (direct n) known hp (fun m hm => ?_) hl
  rw [one n] at hm
  rwa [List.mem_singleton.1 hm]

/-- An indirect call takes the calls from the hand, or they are dropped. -/
theorem newIndirectCall_ends {func : NodeId} {stmts : List (Stmt NodeId)} {locs : Locs}
    (allowed : a.makes .callMemberOf)
    (hp : P k ⟨stmts.map .stmt ++ hand, w⟩) (live : w.store.Live func) :
    (newIndirectCall func stmts locs).Ends w (fun s w' => P k ⟨.stmt s :: hand, w'⟩) (Failed (P k) hand) := by
  unfold newIndirectCall dropAfter
  refine Ends.bind (dropOnFailure_ends hP _ (Q := fun s w' => ∃ calls,
    stmts.mapM (Stmt.asCall w.store.reader) = .ok calls ∧ StmtBody.checkIndirect w.store.reader func = .ok () ∧
    s = w.newStmt (.callMemberOf func calls) locs ∧ w' = w.withStmt (.callMemberOf func calls)) ?_) ?_
  · refine ends_get ((check_ends (Fault.plainly_indirect _ func).foreseen hp).bind ?_)
    intro _ w hw
    obtain ⟨rfl, meets⟩ := hw
    refine (check_ends (Fault.Plainly.mapM (Fault.plainly_asCall _) stmts).foreseen hp).bind ?_
    intro calls w hw
    obtain ⟨rfl, listed⟩ := hw
    unfold newStmt
    refine ends_get ((check_ends (Fault.plainly_check _ (.callMemberOf func calls)).foreseen hp).bind ?_)
    intro _ w hw
    obtain ⟨rfl, -⟩ := hw
    exact ⟨calls, listed, meets, rfl, rfl⟩
  · intro s _ hw
    obtain ⟨calls, listed, meets, rfl, rfl⟩ := hw
    refine Ends.bind (Q := fun _ w' => w' = (w.withStmt (.callMemberOf func calls)).discard (stmts.map .stmt)) ?_ ?_
    · unfold Ends
      rw [dropStmts, dropOwned_eq ((hP.balanced hp).calls locs live listed)]
    · rintro _ _ rfl
      exact ends_pure (hP.move hp (.gather locs allowed live meets listed))

theorem marked_ends {value : Bool} {facets : Facets} {locs : LocsTerm} (allowed : a.makes .assert)
    (fits : facets.Fits (.boolConst value : Shape NodeId)) (hp : P k ⟨hand, w⟩) :
    (StmtTerm.buildMarked value facets locs).Ends w (fun s w' => P k ⟨.stmt s :: hand, w'⟩) (Failed (P k) hand) := by
  unfold StmtTerm.buildMarked
  refine ((Growing.locs locs).keeps hP hp).bind ?_
  intro l w hw
  obtain ⟨hp, -⟩ := hw
  -- the constant is a node of its own, so its shape is known
  have grown : Growth w { w with store := (w.store.alloc (.boolConst value) .bool).2 } :=
    .node (f := .boolConst value) (List.forall_mem_nil _) (List.forall_mem_nil _) rfl
  refine Ends.bind (Q := fun n w' => P k ⟨hand, w'⟩ ∧ w'.store.Live n ∧ (w'.store.cell n).shape = .boolConst value)
    (ends_of_run (run_construct (.boolConst value) w) ⟨hP.move hp (.grow grown), Store.live_alloc.2 (.inl rfl), ?_⟩) ?_
  · rw [Store.cell_alloc_self]
  · intro n w hw
    obtain ⟨hp, live, shape⟩ := hw
    have direct : StmtBody.Direct w.store.reader.node (.assert n facets) := by
      change facets.Fits (w.store.cell n).shape
      rwa [shape]
    exact newStmt_ends hP _ allowed direct (List.forall_mem_nil _) hp (by simpa [StmtBody.operands] using live)

/-- A statement goes into a block, or it is dropped. -/
theorem appendStmt_placed {site : BlockSite} {s : Stmt NodeId} (hp : P k ⟨.stmt s :: hand, w⟩) :
    (appendStmt site s).Ends w
      (fun r w' => ∃ b placed, w.block? site = some b ∧ s.place b.id = .ok placed ∧ r = b.stmts.length + 1 ∧
        w' = w.putBlock site (b.push placed)) (Failed (P k) hand) := by
  unfold appendStmt
  refine Ends.bind (dropOnFailure_ends hP [s] (Q := fun b' w' => w' = w ∧ ∃ b placed, w.block? site = some b ∧
    s.place b.id = .ok placed ∧ b' = b.push placed) ?_) ?_
  · refine (blockAt_ends site hp).bind ?_
    intro b w hw
    obtain ⟨rfl, here⟩ := hw
    refine (check_ends (Fault.foreseen_place b.id s) hp).bind ?_
    intro placed w hw
    obtain ⟨rfl, free⟩ := hw
    exact ends_pure ⟨rfl, b, placed, here, free, rfl⟩
  · intro _ w hw
    obtain ⟨rfl, b, placed, here, free, rfl⟩ := hw
    exact ⟨b, placed, here, free, List.length_append, rfl⟩

omit hP in
theorem run_appendStmt {site : BlockSite} {b : Block} {s : Stmt NodeId} (here : w.block? site = some b)
    (free : s.parent = none) : appendStmt site s w =
      .ok (b.stmts.length + 1) (w.putBlock site (b.push { s with parent := some b.id })) := by
  have placed : s.place b.id = .ok { s with parent := some b.id } := by rw [Stmt.place, free]
  have body : dropOnFailure [s] (do let b ← blockAt site; return b.push (← ofExcept (s.place b.id))) w =
      .ok (b.push { s with parent := some b.id }) w := by
    unfold dropOnFailure
    rw [run_bind (run_blockAt here), placed]
    rfl
  have length : (b.push { s with parent := some b.id }).stmts.length = b.stmts.length + 1 := List.length_append
  rw [← length]
  exact run_bind body _

/-! ## Statement terms -/

omit hP

mutual

/-- **The evaluation of a statement term** ends with the statement in hand, or with nothing. -/
theorem stmtTerm_ends : ∀ (s : StmtTerm) {a : Scope} {P : List OwnedSlot → Config → Prop} (_ : Assembles a P)
    (_ : s.Within a) {k : List OwnedSlot} {hand : List Owned} {w : Workspace}, P k ⟨hand, w⟩ →
    s.build.Ends w (fun st w' => P (k ++ s.spent w) ⟨.stmt st :: hand, w'⟩) (Failed (P (k ++ s.spent w)) hand)
  | .slot x, a, P, hP, hs, k, hand, w, hp => by
    rw [StmtTerm.build, StmtTerm.spent]
    refine (ends_slot (Q := fun s w' => w' = w ∧ w.stmts.get? x = some s) (fun _ hx => ⟨rfl, hx⟩) fun hx => ?_).bind ?_
    · rw [hx, List.append_nil]
      exact ⟨hp, Failure.foreseen_missing _⟩
    · intro s w hw
      obtain ⟨rfl, hx⟩ := hw
      rw [hx]
      exact hP.take hp (hs.takes x (List.mem_singleton_self x)) (congrArg (Option.map Owned.stmt) hx)
  | .eval e locs, a, P, hP, hs, k, hand, w, hp => by
    rw [StmtTerm.build, StmtTerm.spent, List.append_nil]
    exact termStmt_ends hP e .eval (fun _ => rfl) (fun _ => hs.makes _ (List.mem_singleton_self _)) (fun _ _ => trivial)
      (fun _ => rfl) hp (.locs locs)
  | .store r o v locs, a, P, hP, hs, k, hand, w, hp => by
    rw [StmtTerm.build, StmtTerm.spent, List.append_nil]
    refine (term_ends hP r hp).bind ?_
    intro r w hw
    obtain ⟨hp, -, la⟩ := hw
    refine (term_ends hP o hp).bind ?_
    intro o w hw
    obtain ⟨hp, go, lo⟩ := hw
    refine (term_ends hP v hp).bind ?_
    intro v w hw
    obtain ⟨hp, gv, lv⟩ := hw
    have live : ∀ n ∈ [r, o, v], w.store.Live n := by
      simpa using ⟨gv.live (go.live la), gv.live lo, lv⟩
    exact located_ends hP (.store r o v) (hs.makes _ (List.mem_singleton_self _)) (fun _ => trivial)
      (List.forall_mem_nil _) hp live (.locs locs)
  | .varAssign vars values, a, P, hP, hs, k, hand, w, hp => by
    rw [StmtTerm.build, StmtTerm.spent, List.append_nil]
    refine ((reads_varSlots vars).keeps hp).bind ?_
    intro vars w hp
    refine (termList_ends hP values hp).bind ?_
    intro ns w hw
    obtain ⟨hp, -, live⟩ := hw
    exact located_ends hP (.varAssign vars ns) (hs.makes _ (List.mem_singleton_self _)) (fun _ => trivial)
      (List.forall_mem_nil _) hp live (.newLocs [])
  | .goto targets, a, P, hP, hs, k, hand, w, hp => by
    rw [StmtTerm.build, StmtTerm.spent, List.append_nil]
    exact located_ends hP (.goto targets) (hs.makes _ (List.mem_singleton_self _)) (fun _ => trivial)
      (List.forall_mem_nil _) hp (List.forall_mem_nil _) (.newLocs [])
  | .ret, a, P, hP, hs, k, hand, w, hp => by
    rw [StmtTerm.build, StmtTerm.spent, List.append_nil]
    exact located_ends hP .ret (hs.makes _ (List.mem_singleton_self _)) (fun _ => trivial) (List.forall_mem_nil _) hp
      (List.forall_mem_nil _) (.newLocs [])
  | .assume e partition, a, P, hP, hs, k, hand, w, hp => by
    rw [StmtTerm.build, StmtTerm.spent, List.append_nil]
    exact termStmt_ends hP e (.assume · partition) (fun _ => rfl) (fun _ => hs.makes _ (List.mem_singleton_self _))
      (fun _ _ => trivial) (fun _ => rfl) hp (.newLocs [])
  | .assert e global candidate invariant locs, a, P, hP, hs, k, hand, w, hp => by
    rw [StmtTerm.build, StmtTerm.spent, List.append_nil]
    exact termStmt_ends hP e (.assert · (StmtTerm.facets global candidate invariant)) (fun _ => rfl)
      (fun _ => hs.makes _ (List.mem_singleton_self _)) (fun _ _ => ⟨nofun, nofun⟩) (fun _ => rfl) hp (.locs locs)
  | .badAccess locs, a, P, hP, hs, k, hand, w, hp => by
    rw [StmtTerm.build, StmtTerm.spent, List.append_nil]
    exact marked_ends hP (hs.makes _ (List.mem_singleton_self _)) ⟨fun _ => ⟨rfl, rfl⟩, nofun⟩ hp
  | .blockSourceLoc locs, a, P, hP, hs, k, hand, w, hp => by
    rw [StmtTerm.build, StmtTerm.spent, List.append_nil]
    exact marked_ends hP (hs.makes _ (List.mem_singleton_self _)) ⟨nofun, fun _ => ⟨rfl, rfl⟩⟩ hp
  | .call x args locs, a, P, hP, hs, k, hand, w, hp => by
    rw [StmtTerm.build, StmtTerm.spent, List.append_nil]
    refine (read_ends hp).bind ?_
    intro c w hw
    obtain ⟨rfl, hc⟩ := hw
    have known : c ∈ w.callees.values := Table.mem_values_of_get? hc
    refine (termList_ends hP args hp).bind ?_
    intro ns w' hw
    obtain ⟨hp, hg, live⟩ := hw
    rw [← congrArg (·.callees) hg.tables] at known
    exact located_ends hP (.call c ns) (hs.makes _ (List.mem_singleton_self _)) (fun _ => trivial)
      (List.forall_mem_singleton.2 known)
      hp live (.locs locs)
  | .callMemberOf func locs calls, a, P, hP, hs, k, hand, w, hp => by
    obtain ⟨allowed, within⟩ := hs.calls
    rw [StmtTerm.build, StmtTerm.spent]
    refine (term_ends hP func hp).bind_run (fun e w' he hr => ?_) fun n w₁ hw hr => ?_
    · rw [hr, List.append_nil]
      exact he
    obtain ⟨hp, -, live⟩ := hw
    simp only [hr]
    refine ((Growing.locs locs).keeps hP hp).bind_run (fun e w' he hr => ?_) fun l w₂ hw hr => ?_
    · rw [hr, List.append_nil]
      exact he
    obtain ⟨hp, hg⟩ := hw
    rw [hr]
    -- the function stays live while the calls are built
    refine ((stmtTermList_ends calls (hP.and_live n) within ⟨hp, hg.live live⟩).mono (fun _ _ => id)
      fun _ _ he => ⟨he.1.1, he.2⟩).bind ?_
    intro sts w hw
    obtain ⟨hp, live⟩ := hw
    exact newIndirectCall_ends hP allowed hp live
  | .waitGroupEvent h locs, a, P, hP, hs, k, hand, w, hp => by
    rw [StmtTerm.build, StmtTerm.spent, List.append_nil]
    exact termStmt_ends hP h .waitGroupEvent (fun _ => rfl) (fun _ => hs.makes _ (List.mem_singleton_self _))
      (fun _ _ => trivial) (fun _ => rfl) hp (.locs locs)

theorem stmtTermList_ends : ∀ (ss : List StmtTerm) {a : Scope} {P : List OwnedSlot → Config → Prop} (_ : Assembles a P)
    (_ : StmtTerm.WithinList a ss) {k : List OwnedSlot} {hand : List Owned} {w : Workspace}, P k ⟨hand, w⟩ →
    (StmtTerm.buildList ss).Ends w (fun sts w' => P (k ++ StmtTerm.spentList w ss) ⟨sts.map .stmt ++ hand, w'⟩)
      (Failed (P (k ++ StmtTerm.spentList w ss)) hand)
  | [], a, P, hP, hs, k, hand, w, hp => by
    rw [StmtTerm.buildList, StmtTerm.spentList, List.append_nil]
    exact ends_pure hp
  | s :: ss, a, P, hP, hs, k, hand, w, hp => by
    obtain ⟨first, others⟩ := hs.cons
    rw [StmtTerm.buildList, StmtTerm.spentList]
    refine (stmtTerm_ends s hP first hp).bind_run (fun e w' he hr => ?_) fun st w₁ hp hr => ?_
    · rw [hr, List.append_nil]
      exact he
    rw [hr, ← List.append_assoc]
    refine (dropOnFailure_ends hP [st] (stmtTermList_ends ss hP others hp)).bind ?_
    intro sts w hp
    exact ends_pure (hP.move hp (.reorder List.perm_middle))

end

end Build
end KernelIR
