import KernelIR.Proofs.Handles
import KernelIR.Proofs.Interning
/-!
# Signatures — a signature is fixed once its handle is taken

The handle of a function is made when it is first taken, and from then on parameters and return values are refused.  A
function is followed through a script: it stays where it is until the slot that owns it is taken, or it moves to the end
of a module (`Workspace.Follows`).  Wherever it is, it has the handle that was first taken of it, and no other function
has that handle, now or later (`Workspace.Frozen`).

A handle that a function has after one command was first taken by the command or was the function's before
(`Sound.step_handle?`), so one that it has after a script was first taken at some point of it (`Sound.run_handle?`).
-/
namespace KernelIR

namespace Workspace

/-- Where a function is after a command: where it was, unless the command has taken what owns it, or last in the module
that it moved to. -/
inductive Carries (w : Workspace) (c : Command) : FunctionSite → FunctionSite → Prop
  | stays {site : FunctionSite} (kept : site.owner ∉ c.takes) : Carries w c site site
  | spared {site : FunctionSite} {e : Failure} (failed : (w.step c).1 = .error e) (kept : site.owner ∉ c.spent w) :
    Carries w c site site
  | moves {m x : String} {n : Nat} (moved : c = .addFunction m x) (done : (w.step c).1 = .ok (.count (n + 1))) :
    Carries w c (.loose x) (.inModule m n)

/-- Where a function is after a script. -/
def Follows : Workspace → List Command → FunctionSite → FunctionSite → Prop
  | _, [], site, site' => site' = site
  | w, c :: cs, site, site' => ∃ next, w.Carries c site next ∧ Follows (w.step c).2 cs next site'

/-- The command makes the handle of the function at the site. -/
def FirstTaken (w : Workspace) (c : Command) (site : FunctionSite) (k : Callee) : Prop :=
  ∃ ref into f, c = .callee ref into ∧ ref.site? w = some site ∧ w.function? site = some f ∧ f.callee = none ∧
    k = f.signature w.supply

/-- The handle of the function at the site was the function's before the command, or the command makes it. -/
def Arrives (w : Workspace) (c : Command) (site' : FunctionSite) (k : Callee) : Prop :=
  ∃ site, w.Carries c site site' ∧ (w.handle? site = some k ∨ w.FirstTaken c site k)

/-- In the course of the script, which starts with nothing, the handle was taken of the function that is at the site in
the end. -/
def Taken (cs : List Command) (site : FunctionSite) : Prop :=
  ∃ cs₁ ref into cs₂ site₁ f, cs = cs₁ ++ .callee ref into :: cs₂ ∧ ref.site? (empty.run cs₁).2 = some site₁ ∧
    (empty.run cs₁).2.function? site₁ = some f ∧ (empty.run cs₁).2.Follows (.callee ref into :: cs₂) site₁ site

/-- **`k` is the handle of the function `f` at the site**: it shows the signature of `f`, it stays with `f` and no other
function has it, and what is passed in a call of it is what `f` takes. -/
structure Frozen (w : Workspace) (site : FunctionSite) (f : Function) (k : Callee) : Prop where
  name : k.name = f.name
  parameters : k.parameters = f.args.map (·.typ)
  returns : k.returns = f.returns.map (·.typ)
  /-- The function has the handle wherever it goes. -/
  keeps : ∀ cs site', w.Follows cs site site' → (w.run cs).2.handle? site' = some k
  /-- A function that has the handle at any time is this one. -/
  own : ∀ cs site' k', (w.run cs).2.handle? site' = some k' → k'.id = k.id → w.Follows cs site site'
  exprs : ∀ c ∈ w.store.cells, ∀ k' args, c.shape = .call k' args → k'.id = k.id →
    args.map w.store.typ = f.args.map (·.typ) ∧ f.returns.map (·.typ) = [c.typ]
  stmts : ∀ s ∈ w.liveStmts, ∀ p ∈ s.body.calls, p.1.id = k.id → p.2.map w.store.typ = f.args.map (·.typ)

variable {w : Workspace} {site site' : FunctionSite} {k : Callee}

/-! ## Where a handle comes from -/

theorem FirstTaken.ok {c : Command} (h : w.FirstTaken c site k) : ∃ r, (w.step c).1 = .ok r := by
  obtain ⟨ref, into, f, rfl, hs, here, -, -⟩ := h
  obtain ⟨k, -, answer, -⟩ := step_callee hs here into
  exact ⟨_, answer.1⟩

/-- After a failure every function is where it was, but for those that were dropped. -/
theorem carries_of_error {c : Command} {e : Failure} (he : (w.step c).1 = .error e) :
    w.Carries c site site' ↔ site' = site ∧ site.owner ∉ c.spent w := by
  constructor
  · intro h
    cases h with
    | stays kept => exact ⟨rfl, fun hs => kept (c.arguments_subset ((c.spent_prefix w).subset hs))⟩
    | spared _ kept => exact ⟨rfl, kept⟩
    | moves _ done => cases he.symm.trans done
  · rintro ⟨rfl, kept⟩
    exact .spared he kept

theorem carries_of_ok {c : Command} {r : Reply} (ok : (w.step c).1 = .ok r) (moves : ∀ m x, c ≠ .addFunction m x) :
    w.Carries c site site' ↔ site' = site ∧ site.owner ∉ c.takes := by
  constructor
  · intro h
    cases h with
    | stays kept => exact ⟨rfl, kept⟩
    | spared failed _ => cases ok.symm.trans failed
    | moves moved _ => exact absurd moved (moves _ _)
  · rintro ⟨rfl, kept⟩
    exact .stays kept

/-- Where no handle is made and no function moves, it is enough to know which functions stay. -/
theorem arrives_kept {c : Command} {gone : List OwnedSlot} (made : ∀ site, ¬ w.FirstTaken c site k)
    (carried : ∀ {site}, w.Carries c site site' ↔ site' = site ∧ site.owner ∉ gone)
    (after : (w.step c).2.handle? site' = if site'.owner ∈ gone then none else w.handle? site') :
    (w.step c).2.handle? site' = some k ↔ w.Arrives c site' k := by
  rw [after]
  constructor
  · intro hk
    split at hk
    · cases hk
    · rename_i stays
      exact ⟨site', carried.2 ⟨rfl, stays⟩, .inl hk⟩
  · rintro ⟨site, goes, hk⟩
    obtain ⟨rfl, stays⟩ := carried.1 goes
    rw [if_neg stays]
    exact hk.resolve_right (made _)

theorem arrives_callee {ref : FunctionRef} {into : Option String} {r : Reply}
    (ok : (w.step (.callee ref into)).1 = .ok r) :
    (w.step (.callee ref into)).2.handle? site' = some k ↔ w.Arrives (.callee ref into) site' k := by
  obtain ⟨asked, f, hs, here⟩ := found_of_callee ok
  obtain ⟨k', made, -, after⟩ := step_callee hs here into
  have stays : ∀ {site}, w.Carries (.callee ref into) site site' ↔ site' = site := by
    intro site
    rw [carries_of_ok ok nofun]
    exact and_iff_left List.not_mem_nil
  have first : ∀ {site}, w.FirstTaken (.callee ref into) site k ↔
      site = asked ∧ f.callee = none ∧ k = f.signature w.supply := by
    intro site
    constructor
    · rintro ⟨_, _, f', hc, hs', here', new, rfl⟩
      cases hc
      cases hs.symm.trans hs'
      cases here.symm.trans here'
      exact ⟨rfl, new, rfl⟩
    · rintro ⟨rfl, new, rfl⟩
      exact ⟨ref, into, f, rfl, hs, here, new, rfl⟩
  rw [after]
  simp only [Arrives, stays, first, exists_eq_left']
  by_cases ho : site' = asked
  · rw [if_pos ho, ho, handle?_of_function? here]
    rcases made with taken | ⟨new, rfl⟩
    · simp [taken]
    · simp [new, eq_comm]
  · simp [ho]

theorem arrives_moved {m x : String} {r : Reply} (ok : (w.step (.addFunction m x)).1 = .ok r) :
    (w.step (.addFunction m x)).2.handle? site' = some k ↔ w.Arrives (.addFunction m x) site' k := by
  obtain ⟨n, rfl, vacant, after⟩ := step_moved ok
  have taken : ∀ site : FunctionSite, site.owner ∈ (Command.addFunction m x).takes ↔ site = .loose x := by
    intro site
    cases site <;> simp [FunctionSite.owner, Command.takes]
  rw [after]
  constructor
  · intro hk
    split at hk
    · rename_i last
      rw [last]
      exact ⟨_, .moves rfl ok, .inl hk⟩
    split at hk
    · cases hk
    · rename_i other
      exact ⟨site', .stays fun hm => other ((taken site').1 hm), .inl hk⟩
  · rintro ⟨site, goes, hk⟩
    have made : ¬ w.FirstTaken (.addFunction m x) site k := by
      rintro ⟨ref, into, f, hc, -⟩
      cases hc
    have hk := hk.resolve_right made
    cases goes with
    | stays untaken =>
      have last : site' ≠ .inModule m n := fun he => by
        rw [he, vacant] at hk
        cases hk
      have loose : site' ≠ .loose x := fun he => untaken ((taken site').2 he)
      rw [if_neg last, if_neg loose]
      exact hk
    | spared failed _ => cases ok.symm.trans failed
    | moves moved done =>
      cases moved
      cases ok.symm.trans done
      rw [if_pos rfl]
      exact hk

/-- **Where a handle comes from in one command.** -/
theorem Sound.step_handle? (h : w.Sound) (c : Command) (site' : FunctionSite) (k : Callee) :
    (w.step c).2.handle? site' = some k ↔ w.Arrives c site' k := by
  cases hr : (w.step c).1 with
  | error e =>
    refine arrives_kept (fun site first => ?_) (carries_of_error hr) (h.step_error hr site')
    obtain ⟨r, ok⟩ := first.ok
    cases hr.symm.trans ok
  | ok r =>
    by_cases asks : ∃ ref into, c = .callee ref into
    · obtain ⟨ref, into, rfl⟩ := asks
      exact arrives_callee hr
    by_cases moves : ∃ m x, c = .addFunction m x
    · obtain ⟨m, x, rfl⟩ := moves
      exact arrives_moved hr
    have asks' : ∀ ref into, c ≠ .callee ref into := fun ref into hc => asks ⟨ref, into, hc⟩
    have moves' : ∀ m x, c ≠ .addFunction m x := fun m x hc => moves ⟨m, x, hc⟩
    refine arrives_kept (fun site first => ?_) (carries_of_ok hr moves') (h.step_ok hr asks' moves' site')
    obtain ⟨ref, into, _, hc, -⟩ := first
    exact asks' ref into hc

/-- **Where a handle comes from in a script**, by induction on the script. -/
theorem Sound.run_handle? (site' : FunctionSite) (k : Callee) : ∀ (cs : List Command) {w : Workspace}, w.Sound →
    ((w.run cs).2.handle? site' = some k ↔ (∃ site, w.Follows cs site site' ∧ w.handle? site = some k) ∨
      ∃ cs₁ c cs₂ site, cs = cs₁ ++ c :: cs₂ ∧ (w.run cs₁).2.FirstTaken c site k ∧
        (w.run cs₁).2.Follows (c :: cs₂) site site')
  | [], w, _ => by
    constructor
    · exact fun hk => .inl ⟨site', rfl, hk⟩
    · rintro (⟨site, rfl, hk⟩ | ⟨cs₁, c, cs₂, _, hcs, -⟩)
      · exact hk
      · cases cs₁ <;> cases hcs
  | c :: cs, w, h => by
    refine (run_handle? site' k cs (h.step c)).trans ?_
    constructor
    · rintro (⟨next, goes, hk⟩ | ⟨cs₁, c', cs₂, site, rfl, first, goes⟩)
      · obtain ⟨site, carried, hk | first⟩ := (h.step_handle? c next k).1 hk
        · exact .inl ⟨site, ⟨next, carried, goes⟩, hk⟩
        · exact .inr ⟨[], c, cs, site, rfl, first, next, carried, goes⟩
      · exact .inr ⟨c :: cs₁, c', cs₂, site, rfl, first, goes⟩
    · rintro (⟨site, ⟨next, carried, goes⟩, hk⟩ | ⟨cs₁, c', cs₂, site, hcs, first, goes⟩)
      · exact .inl ⟨next, goes, (h.step_handle? c next k).2 ⟨site, carried, .inl hk⟩⟩
      · cases cs₁ with
        | nil =>
          cases hcs
          obtain ⟨next, carried, goes⟩ := goes
          exact .inl ⟨next, goes, (h.step_handle? c next k).2 ⟨site, carried, .inr first⟩⟩
        | cons c₁ cs₁ =>
          cases hcs
          exact .inr ⟨cs₁, c', cs₂, site, rfl, first, goes⟩

theorem Sound.supply_run : ∀ (cs : List Command) {w : Workspace}, w.Sound → w.supply ≤ (w.run cs).2.supply
  | [], _, _ => Nat.le_refl _
  | c :: cs, _, h => Nat.le_trans (h.supply_step c) (supply_run cs (h.step c))

/-! ## One handle, one function -/

theorem knows_of_handle? (hk : w.handle? site = some k) : Config.Knows ⟨[], w⟩ k := by
  obtain ⟨f, here, hf⟩ := handle?_eq_some.1 hk
  refine .function ?_
  change k ∈ w.owned.flatMap (·.callees)
  rw [callees_owned]
  exact List.mem_filterMap.2 ⟨f, function_mem here, hf⟩

/-- Two functions that are there at the same time have different handles. -/
theorem site_of_handle? (hw : Config.Signed ⟨[], w⟩) {k' : Callee} (hk : w.handle? site = some k)
    (hk' : w.handle? site' = some k') (same : k'.id = k.id) : site' = site := by
  refine Decidable.byContradiction fun other => ?_
  obtain ⟨f, here, hf⟩ := handle?_eq_some.1 hk
  -- without this handle the other one is still there
  obtain ⟨o, o', rest, swap, before, after⟩ := owned_putFunction here { f with callee := none }
  obtain ⟨l₁, l₂, had, has⟩ := swap.functions
  have handles : (w.owned.flatMap (·.callees)).Perm
      (k :: (w.putFunction site { f with callee := none }).owned.flatMap (·.callees)) := by
    refine (before.flatMap_right _).trans (.trans ?_ ((after.flatMap_right (·.callees)).symm.cons k))
    simp only [List.flatMap_cons, Owned.callees, had, has, List.filterMap_append, List.filterMap_cons, hf]
    simp
  have once := (handles.map (·.id)).nodup_iff.1 hw.once
  have left : (w.putFunction site { f with callee := none }).handle? site' = some k' := by
    rw [handle?_putFunction here, if_neg other, hk']
  obtain ⟨f', here', hf'⟩ := handle?_eq_some.1 left
  refine (List.nodup_cons.1 once).1 (List.mem_map.2 ⟨k', ?_, same⟩)
  rw [callees_owned]
  exact List.mem_filterMap.2 ⟨f', function_mem here', hf'⟩

/-- A function keeps its handle. -/
theorem Sound.keeps (h : w.Sound) (hk : w.handle? site = some k) {cs : List Command} (goes : w.Follows cs site site') :
    (w.run cs).2.handle? site' = some k := (h.run_handle? site' k cs).2 (.inl ⟨site, goes, hk⟩)

/-- A function that has the handle later is the one that has it now: a handle that is made later has a new number. -/
theorem Sound.follows_of_handle? (h : w.Sound) (hw : Config.Signed ⟨[], w⟩) (hk : w.handle? site = some k)
    {cs : List Command} {k' : Callee} (hk' : (w.run cs).2.handle? site' = some k') (same : k'.id = k.id) :
    w.Follows cs site site' := by
  rcases (h.run_handle? site' k' cs).1 hk' with ⟨site₀, goes, before⟩ | ⟨cs₁, c, cs₂, site₀, rfl, first, -⟩
  · rwa [← site_of_handle? hw hk before same]
  · obtain ⟨_, _, f, -, -, -, -, rfl⟩ := first
    have grown := h.supply_run cs₁
    have old : k.id < w.supply := hw.old k (knows_of_handle? hk)
    change (w.run cs₁).2.supply = k.id at same
    omega

/-- Taking the handle leaves the function where it is, with the handle. -/
theorem Sound.follows_callee (h : w.Sound) {ref : FunctionRef} {f : Function} (hs : ref.site? w = some site)
    (here : w.function? site = some f) (into : Option String) :
    ∃ k, w.Gives ref into k ∧ ∀ cs site', w.Follows (.callee ref into :: cs) site site' →
      (w.run (.callee ref into :: cs)).2.handle? site' = some k := by
  obtain ⟨k, -, gives, after⟩ := step_callee hs here into
  refine ⟨k, gives, fun cs site' goes => ?_⟩
  obtain ⟨next, carried, goes⟩ := goes
  obtain ⟨rfl, -⟩ := (carries_of_ok gives.1 nofun).1 carried
  exact (h.step _).keeps ((after _).trans (if_pos rfl)) goes

/-- A function that has its handle gives this one. -/
theorem gives_of_handle? {ref : FunctionRef} (hs : ref.site? w = some site) (hk : w.handle? site = some k)
    (into : Option String) : w.Gives ref into k := by
  obtain ⟨f, here, hf⟩ := handle?_eq_some.1 hk
  obtain ⟨k', made, gives, -⟩ := step_callee hs here into
  rcases made with taken | ⟨none, -⟩
  · cases hf.symm.trans taken
    exact gives
  · cases hf.symm.trans none

/-- A function has a handle just when it was taken of it at some point. -/
theorem taken_iff (cs : List Command) (site : FunctionSite) :
    Taken cs site ↔ ∃ k, (empty.run cs).2.handle? site = some k := by
  constructor
  · rintro ⟨cs₁, ref, into, cs₂, site₁, f, rfl, hs, here, goes⟩
    have reached : (empty.run cs₁).2.Reachable := ⟨cs₁, rfl⟩
    obtain ⟨k, -, stays⟩ := reached.sound.follows_callee hs here into
    refine ⟨k, ?_⟩
    rw [run_append]
    exact stays cs₂ site goes
  · rintro ⟨k, hk⟩
    rcases (sound_empty.run_handle? site k cs).1 hk with ⟨site₀, -, before⟩ | ⟨cs₁, c, cs₂, site₁, hcs, first, goes⟩
    · cases site₀ <;> cases before
    · obtain ⟨ref, into, f, rfl, hs, here, -⟩ := first
      exact ⟨cs₁, ref, into, cs₂, site₁, f, hcs, hs, here, goes⟩

/-! ## What the handle shows -/

/-- **In every reachable workspace the handle of a function is frozen with its signature.** -/
theorem Reachable.frozen (h : w.Reachable) {f : Function} (here : w.function? site = some f) (hf : f.callee = some k) :
    w.Frozen site f k := by
  have hk : w.handle? site = some k := (handle?_of_function? here).trans hf
  have signed := h.signed
  have shows : k = f.signature k.id := by
    have mem : f ∈ w.owned.flatMap (·.functions) := by
      rw [functions_owned]
      exact function_mem here
    obtain ⟨o, ho, mem⟩ := List.mem_flatMap.1 mem
    exact signature_law.reachable h o ho f mem k hf
  -- a handle with the number of this one is this one
  have named : ∀ k', Config.Knows ⟨[], w⟩ k' → k'.id = k.id → k' = k := fun k' hk' =>
    signed.same k' k hk' (knows_of_handle? hk)
  have parameters : k.parameters = f.args.map (·.typ) := congrArg Callee.parameters shows
  have returns : k.returns = f.returns.map (·.typ) := congrArg Callee.returns shows
  refine ⟨congrArg Callee.name shows, parameters, returns, fun cs site' => h.sound.keeps hk,
    fun cs site' k' => h.sound.follows_of_handle? signed hk, fun c hc k' args hs same => ?_, fun s hs p hp same => ?_⟩
  · have stands : (w.store.cell c.id).shape = .call k' args := by
      rw [h.sound.books.ordered.cell_of_mem hc]
      exact hs
    obtain rfl := named k' (.node stands) same
    obtain ⟨passed, result⟩ := h.sound.call_typed hc hs
    exact ⟨passed.trans parameters, returns.symm.trans result⟩
  · have mem : s ∈ w.owned.flatMap (·.stmts) := by
      rw [stmts_owned]
      exact hs
    have known : p.1 ∈ s.body.callees := by
      rw [StmtBody.callees_eq]
      exact List.mem_map_of_mem hp
    have passed : p.2.map w.store.typ = p.1.parameters := (h.wellFormed s hs).meets.calls hp
    rw [passed, named p.1 (.stmt mem known) same]
    exact parameters

/-- A parameter or a return value of a type that exists is added as long as no handle was taken. -/
theorem step_addVar (free : w.poisoned = false) {x : String} {f : Function} (here : w.functions.get? x = some f)
    {role : VarRole} {typ : TyTerm} {t : Ty} (part : role ≠ .localVar) (ht : typ.eval = .ok t) (name : String)
    (into : Option String) :
    (∃ r, (w.step (.addVar role x name typ into)).1 = .ok r) ↔ f.callee = none := by
  have checked : Command.perform (.addVar role x name typ into) w =
      (Build.ofExcept (f.checkOpen role) >>= _ : Build Reply) w :=
    (Build.run_bind (Build.run_slot here) _).trans (Build.run_bind (Build.run_ofResult ht w) _)
  unfold Workspace.step
  rw [checked]
  cases hc : f.callee with
  | some k =>
    have refused : ∃ e, f.checkOpen role = .error e := by
      cases role with
      | localVar => exact absurd rfl part
      | parameter | returnValue =>
        unfold Function.checkOpen
        rw [hc]
        exact ⟨_, rfl⟩
    obtain ⟨e, refused⟩ := refused
    rw [refused]
    constructor
    · rintro ⟨r, hr⟩
      cases hr
    · exact nofun
  | none =>
    have opened : f.checkOpen role = .ok () := by
      unfold Function.checkOpen
      rw [hc]
      cases role <;> rfl
    have passed : Build.ofExcept (f.checkOpen role) w = .ok () w := Build.run_ofExcept_iff.2 ⟨opened, rfl⟩
    have made : Build.newVar name t w = .ok ⟨w.supply, (w.names.intern name).1, t⟩ _ :=
      Build.run_bind (Build.run_intern free name) _
    rw [Build.run_bind passed, Build.run_bind made]
    refine iff_of_true ?_ rfl
    cases into <;> exact ⟨_, rfl⟩

/-- **A signature is fixed once its handle is taken.**  A function at any site of any reachable workspace has a handle
just when the handle was taken of it at some point, and then its signature is frozen.  The handle that it gives now is
the one that it gives later, wherever it is then.  Parameters and return values of it are accepted just when its handle
was never taken. -/
theorem signature_frozen {cs : List Command} {f : Function} (here : (empty.run cs).2.function? site = some f) :
    (Taken cs site ↔ ∃ k, f.callee = some k) ∧
    (∀ k, f.callee = some k → (empty.run cs).2.Frozen site f k) ∧
    (∀ ref into, ref.site? (empty.run cs).2 = some site → ∃ k, (empty.run cs).2.Gives ref into k ∧
      ∀ cs' site', (empty.run cs).2.Follows (.callee ref into :: cs') site site' →
        ((empty.run cs).2.run (.callee ref into :: cs')).2.handle? site' = some k ∧
        ∀ ref' into', ref'.site? ((empty.run cs).2.run (.callee ref into :: cs')).2 = some site' →
          ((empty.run cs).2.run (.callee ref into :: cs')).2.Gives ref' into' k) ∧
    (∀ x role name typ t into, site = .loose x → role ≠ .localVar → typ.eval = .ok t →
      ((∃ r, ((empty.run cs).2.step (.addVar role x name typ into)).1 = .ok r) ↔ ¬ Taken cs site)) := by
  have reached : (empty.run cs).2.Reachable := ⟨cs, rfl⟩
  have taken : Taken cs site ↔ ∃ k, f.callee = some k := by
    rw [taken_iff, handle?_of_function? here]
  refine ⟨taken, fun k => reached.frozen here, fun ref into hs => ?_, fun x role name typ t into loose part ht => ?_⟩
  · obtain ⟨k, gives, stays⟩ := reached.sound.follows_callee hs here into
    refine ⟨k, gives, fun cs' site' goes => ?_⟩
    have hk := stays cs' site' goes
    exact ⟨hk, fun ref' into' hs' => gives_of_handle? hs' hk into'⟩
  · rw [loose] at here
    rw [step_addVar reached.free here part ht, taken]
    cases f.callee <;> simp

/-- A function that calls itself, in an expression and in a statement, and then moves into a module. -/
def recursive : List Command :=
  [.function "f" (some "f"), .addVar .parameter "f" "x" .bool (some "x"), .addVar .returnValue "f" "r" .bool none,
    .addBlock "f" "entry", .callee (.loose "f") (some "k"),
    .addEval (.inFunction "f" 0) (.call "k" [.varRef "x"]) (.list []),
    .addStmt (.inFunction "f" 0) (.call "k" [.varRef "x"] (.list [])), .module "m" .spir (some "m"),
    .addFunction "m" "f"]

/-- In the module it has the handle that was taken before, and the module finds it by name. -/
theorem signature_frozen_recursive :
    ∃ f k, (empty.run recursive).2.function? (.inModule "m" 0) = some f ∧ f.callee = some k ∧
      (empty.run recursive).2.callees.get? "k" = some k ∧ Taken recursive (.inModule "m" 0) ∧
      (empty.run recursive).2.Frozen (.inModule "m" 0) f k ∧
      ∃ k', (empty.run recursive).2.Gives (.named "m" "f") none k' := by
  obtain ⟨f, k, here, hf, slot⟩ : ∃ f k, (empty.run recursive).2.function? (.inModule "m" 0) = some f ∧
      f.callee = some k ∧ (empty.run recursive).2.callees.get? "k" = some k := ⟨_, _, rfl, rfl, rfl⟩
  obtain ⟨taken, frozen, gives, -⟩ := signature_frozen here
  obtain ⟨k', given, -⟩ := gives (.named "m" "f") none rfl
  exact ⟨f, k, here, hf, slot, taken.2 ⟨k, hf⟩, frozen k hf, k', given⟩

end Workspace
end KernelIR
