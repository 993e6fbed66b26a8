import KernelIR.Proofs.Atomicity
import KernelIR.Proofs.Callees
/-!
# Handles — what a command does to the handles of functions

Most commands leave every function where it is, with its handle: no move within the scope `Scope.calm` touches one
(`Calm.move`).  What is left are the commands that take a slot of a function or a module (`Sound.step_ok`), the move of
a function into a module (`step_moved`), the command that asks for a handle (`step_callee`), and failures
(`Sound.step_error`).
-/
namespace KernelIR

/-- Statements and blocks may be taken; functions and modules stay, and no signature is fixed. -/
def Scope.calm : Scope :=
  { Scope.all with takes := fun kind _ => kind = .stmt ∨ kind = .block, freezes := fun _ => False }

namespace Workspace

/-- The handle of the function at a site, once it was taken. -/
def handle? (w : Workspace) (site : FunctionSite) : Option Callee := (w.function? site).bind (·.callee)

/-- Asked for the handle of a function, the workspace answers with `k` and puts it into the slot that is named. -/
def Gives (w : Workspace) (ref : FunctionRef) (into : Option String) (k : Callee) : Prop :=
  (w.step (.callee ref into)).1 = .ok (.callee (w.reportCallee k) (w.callees.namesWhere (·.id == k.id))) ∧
  ∀ x, into = some x → (w.step (.callee ref into)).2.callees.get? x = some k

variable {w w' : Workspace} {site : FunctionSite} {k : Callee}

/-! ## The handle at a site -/

theorem handle?_loose (w : Workspace) (x : String) :
    w.handle? (.loose x) = (w.functions.get? x).bind (·.callee) := rfl

theorem handle?_inModule (w : Workspace) (m : String) (i : Nat) : w.handle? (.inModule m i) =
    (w.modules.get? m).bind fun md => (md.functions[i]?).bind (·.callee) := Option.bind_assoc ..

theorem handle?_congr (hf : w'.functions = w.functions) (hm : w'.modules = w.modules) (site : FunctionSite) :
    w'.handle? site = w.handle? site := by
  cases site with
  | loose x => rw [handle?_loose, handle?_loose, hf]
  | inModule m i => rw [handle?_inModule, handle?_inModule, hm]

theorem SameSlots.handle? (h : w.SameSlots w') (site : FunctionSite) : w'.handle? site = w.handle? site := by
  rw [h]
  exact handle?_congr rfl rfl site

theorem handle?_eq_some : w.handle? site = some k ↔ ∃ f, w.function? site = some f ∧ f.callee = some k :=
  Option.bind_eq_some_iff

theorem handle?_of_function? {f : Function} (here : w.function? site = some f) : w.handle? site = f.callee := by
  rw [handle?, here]
  rfl

/-- Writing a function back changes no other handle. -/
theorem handle?_putFunction {f : Function} (here : w.function? site = some f) (f' : Function) (other : FunctionSite) :
    (w.putFunction site f').handle? other = if other = site then f'.callee else w.handle? other := by
  by_cases ho : other = site
  · rw [ho, if_pos rfl, handle?_of_function? (function?_putFunction here f')]
  rw [if_neg ho]
  cases site with
  | loose x =>
    cases other with
    | loose y =>
      have hy : y ≠ x := fun he => ho (congrArg _ he)
      exact congrArg (Option.bind · _) (Table.get?_put_of_ne hy f' w.functions)
    | inModule m i => rfl
  | inModule x i =>
    obtain ⟨m, hm, hf⟩ := Option.bind_eq_some_iff.1 here
    rw [putFunction, hm]
    cases other with
    | loose y => rfl
    | inModule y j =>
      rw [handle?_inModule, handle?_inModule, Table.get?_put_eq]
      by_cases hy : y = x
      · have hj : i ≠ j := fun he => ho (by rw [hy, he])
        rw [if_pos hy, hy, hm]
        exact congrArg (fun o : Option Function => o.bind (·.callee)) (List.getElem?_set_ne hj)
      · rw [if_neg hy]

theorem handle?_edit {x : String} {f f' : Function} (here : w.functions.get? x = some f) (same : f'.callee = f.callee)
    (site : FunctionSite) : (w.putFunction (.loose x) f').handle? site = w.handle? site := by
  have here : w.function? (.loose x) = some f := here
  rw [handle?_putFunction here]
  split
  · rename_i hs
    rw [hs, handle?_of_function? here, same]
  · rfl

theorem handle?_putBlock {place : BlockSite} {b : Block} (here : w.block? place = some b) (b' : Block)
    (site : FunctionSite) : (w.putBlock place b').handle? site = w.handle? site := by
  cases place with
  | loose x => exact handle?_congr rfl rfl site
  | inFunction x i =>
    obtain ⟨f, hf, -⟩ := Option.bind_eq_some_iff.1 here
    have edit : w.putBlock (.inFunction x i) b' = w.putFunction (.loose x) (f.setBlock i b') := by
      rw [putBlock, hf]
      rfl
    have same : (f.setBlock i b').callee = f.callee := rfl
    rw [edit, handle?_edit hf same]

theorem handle?_putModule {x : String} {m m' : Module} (here : w.modules.get? x = some m)
    (same : ∀ i : Nat, (m'.functions[i]?).bind (·.callee) = (m.functions[i]?).bind (·.callee)) (site : FunctionSite) :
    (w.putModule x m').handle? site = w.handle? site := by
  cases site with
  | loose y => rfl
  | inModule y i =>
    rw [handle?_inModule, handle?_inModule, putModule, Table.get?_put_eq]
    by_cases hy : y = x
    · rw [if_pos hy, hy, here]
      exact same i
    · rw [if_neg hy]

/-- Emptying a slot takes away the handles of the functions that it owns. -/
theorem handle?_take (w : Workspace) (kind : OwnedKind) (x : String) (site : FunctionSite) :
    (w.take kind x).handle? site = if site.owner = (kind, x) then none else w.handle? site := by
  cases site with
  | loose y =>
    rw [handle?_loose, handle?_loose, FunctionSite.owner]
    cases kind with
    | function =>
      rw [take, Table.get?_erase_eq]
      by_cases hy : y = x <;> simp [hy]
    | stmt | block | module => simp [take]
  | inModule y i =>
    rw [handle?_inModule, handle?_inModule, FunctionSite.owner]
    cases kind with
    | module =>
      rw [take, Table.get?_erase_eq]
      by_cases hy : y = x <;> simp [hy]
    | stmt | block | function => simp [take]

theorem handle?_emptied (site : FunctionSite) : ∀ (w : Workspace) (ks : List OwnedSlot),
    (w.emptied ks).handle? site = if site.owner ∈ ks then none else w.handle? site
  | w, [] => rfl
  | w, k :: ks => by
    have rest := handle?_emptied site (w.take k.1 k.2) ks
    rw [handle?_take] at rest
    refine Eq.trans rest ?_
    by_cases hk : site.owner = k <;> simp [hk]

/-- An object without handles adds none. -/
theorem handle?_put {x : String} {o : Owned} (none : o.callees = []) (free : w.owned? o.kind x = .none)
    (site : FunctionSite) : (w.put x o).handle? site = w.handle? site := by
  cases o with
  | stmt | block => exact handle?_congr rfl rfl site
  | function f =>
    have unfixed : f.callee = .none := List.filterMap_eq_nil_iff.1 none f (List.mem_singleton_self f)
    have free : w.functions.get? x = .none := Option.map_eq_none_iff.1 free
    cases site with
    | inModule m i => rfl
    | loose y =>
      rw [handle?_loose, handle?_loose, put, Table.get?_put_eq]
      by_cases hy : y = x <;> simp [hy, free, unfixed]
  | module m =>
    have unfixed : ∀ f ∈ m.functions, f.callee = .none := List.filterMap_eq_nil_iff.1 none
    have free : w.modules.get? x = .none := Option.map_eq_none_iff.1 free
    have absent : ∀ i : Nat, (m.functions[i]?).bind (·.callee) = .none := fun i =>
      Option.bind_eq_none_iff.2 fun f hf => unfixed f (List.mem_of_getElem? hf)
    cases site with
    | loose y => rfl
    | inModule y i =>
      rw [handle?_inModule, handle?_inModule, put, Table.get?_put_eq]
      by_cases hy : y = x <;> simp [hy, free, absent]

/-! ## Commands that leave functions where they are -/

/-- No handle has changed, and none is in hand. -/
structure Calm (w : Workspace) (c : Config) : Prop where
  balanced : c.Balanced
  hand : ∀ o ∈ c.hand, o.callees = []
  handles : ∀ site, c.ws.handle? site = w.handle? site

theorem getElem?_concat_bind {α β : Type} (l : List α) (a : α) (g : α → Option β) (i : Nat) :
    ((l ++ [a])[i]?).bind g = if i = l.length then g a else (l[i]?).bind g := by
  rcases Nat.lt_trichotomy i l.length with hlt | rfl | hgt
  · rw [if_neg (Nat.ne_of_lt hlt), List.getElem?_append_left hlt]
  · simp
  · rw [if_neg (Nat.ne_of_gt hgt), List.getElem?_eq_none (Nat.le_of_lt hgt), List.getElem?_eq_none (by simp; omega)]

theorem callees_of_owned? {kind : OwnedKind} {x : String} {o : Owned} (owns : w.owned? kind x = some o)
    (hk : kind = .stmt ∨ kind = .block) : o.callees = [] := by
  rcases hk with rfl | rfl
  · obtain ⟨s, -, rfl⟩ := Option.map_eq_some_iff.1 owns
    rfl
  · obtain ⟨b, -, rfl⟩ := Option.map_eq_some_iff.1 owns
    rfl

theorem Calm.hand_assembly {a : Scope} {c c' : Config} (h : ∀ o ∈ c.hand, o.callees = []) (m : Assembly a c c') :
    ∀ o ∈ c'.hand, o.callees = [] := by
  cases m with
  | grow => exact h
  | reorder hp => exact fun o ho => h o (hp.mem_iff.2 ho)
  | make => exact List.forall_mem_cons.2 ⟨rfl, h⟩
  | gather => exact List.forall_mem_cons.2 ⟨rfl, fun o ho => h o (List.mem_append_right _ ho)⟩
  | drop => exact fun o ho => h o (List.mem_append_right _ ho)

/-- One move of this scope leaves every handle where it is. -/
theorem Calm.move {c c' : Config} (h : w.Calm c) (m : Move .calm c c') : w.Calm c' := by
  have balanced := m.balanced h.balanced
  cases m with
  | assemble ha =>
    exact ⟨balanced, hand_assembly h.hand ha, fun site => (ha.sameSlots.handle? site).trans (h.handles site)⟩
  | setExpr | eraseExpr | setVar | eraseVar | setArray | setCallee | setLocs | prevent =>
    exact ⟨balanced, h.hand, fun site => (handle?_congr rfl rfl site).trans (h.handles site)⟩
  | blank hb =>
    refine ⟨balanced, List.forall_mem_cons.2 ⟨?_, h.hand⟩, h.handles⟩
    cases hb <;> rfl
  | @take hand v kind x o allowed owns =>
    refine ⟨balanced, List.forall_mem_cons.2 ⟨callees_of_owned? owns allowed, h.hand⟩, fun site => ?_⟩
    refine Eq.trans ?_ (h.handles site)
    rcases allowed with rfl | rfl <;> exact handle?_congr rfl rfl site
  | put free =>
    obtain ⟨none, hand⟩ := List.forall_mem_cons.1 h.hand
    exact ⟨balanced, hand, fun site => (handle?_put none free site).trans (h.handles site)⟩
  | place here =>
    obtain ⟨-, hand⟩ := List.forall_mem_cons.1 h.hand
    exact ⟨balanced, hand, fun site => (handle?_putBlock here _ site).trans (h.handles site)⟩
  | @accept hand v x m m' f here fits =>
    obtain ⟨none, hand⟩ := List.forall_mem_cons.1 h.hand
    have unfixed : f.callee = .none := List.filterMap_eq_nil_iff.1 none f (List.mem_singleton_self f)
    obtain ⟨-, -, rfl⟩ := Module.accept_ok_iff.1 fits
    refine ⟨balanced, hand, fun site => (handle?_putModule here (fun i => ?_) site).trans (h.handles site)⟩
    rw [getElem?_concat_bind, unfixed]
    split
    · rename_i hi
      rw [hi, List.getElem?_eq_none (Nat.le_refl _)]
      rfl
    · rfl
  | edit here he => exact ⟨balanced, h.hand, fun site => (handle?_edit here he.callee site).trans (h.handles site)⟩
  | @addClause hand v x f n kind l here =>
    have same : (f.addClause kind ⟨n, l⟩).callee = f.callee := by cases kind <;> rfl
    refine ⟨balanced, h.hand, fun site => Eq.trans ?_ (h.handles site)⟩
    exact (handle?_edit (w := v.acquire [n] []) here same site).trans (handle?_congr rfl rfl site)
  | freeze allowed => exact allowed.elim
  | @addArray hand v x m r here =>
    have same : ∀ i : Nat, ((m.addArray r).functions[i]?).bind (·.callee) = (m.functions[i]?).bind (·.callee) :=
      fun _ => rfl
    exact ⟨balanced, h.hand, fun site => (handle?_putModule here same site).trans (h.handles site)⟩
  | @addAxiom hand v x m n here =>
    have same : ∀ i : Nat, ((m.addAxiom n).functions[i]?).bind (·.callee) = (m.functions[i]?).bind (·.callee) :=
      fun _ => rfl
    refine ⟨balanced, h.hand, fun site => Eq.trans ?_ (h.handles site)⟩
    exact (handle?_putModule (w := v.acquire [n] []) here same site).trans (handle?_congr rfl rfl site)

theorem calm_invariant (w : Workspace) : Invariant .calm w.Calm := ⟨Calm.balanced, Calm.move⟩

/-! ## What a command does to the handles -/

/-- A command that takes statements and blocks only, and no handle, leaves every handle where it is. -/
theorem Sound.step_calm (h : w.Sound) {c : Command} (asks : ∀ ref into, c ≠ .callee ref into)
    (takes : ∀ p ∈ c.takes, p.1 = .stmt ∨ p.1 = .block) (site : FunctionSite) :
    (w.step c).2.handle? site = if site.owner ∈ c.takes then none else w.handle? site := by
  have within : c.Within .calm w :=
    { Command.within_all w c with takes := takes, freezes := fun ref into _ hc => absurd hc (asks ref into) }
  obtain ⟨v, calm, he⟩ := step_tidy_within (calm_invariant w) ⟨h.books, List.forall_mem_nil _, fun _ => rfl⟩ within
  have untaken : site.owner ∉ c.takes := fun hs => by
    have := takes _ hs
    cases site <;> simp [FunctionSite.owner] at this
  rw [if_neg untaken, he]
  exact (handle?_congr rfl rfl site).trans (calm.handles site)

theorem Sound.step_error (h : w.Sound) {c : Command} {e : Failure} (he : (w.step c).1 = .error e)
    (site : FunctionSite) : (w.step c).2.handle? site = if site.owner ∈ c.spent w then none else w.handle? site := by
  obtain ⟨v, remains, eq⟩ := h.remains_of_error he
  have slots := (h.without_of_remains remains).slots
  rw [← eq] at slots
  rw [slots.handle?, handle?_emptied]

/-- A new object in place of what a slot owned. -/
theorem handle?_replace {x : String} {o : Owned} (none : o.callees = []) (site : FunctionSite) :
    ((w.take o.kind x).put x o).handle? site = if site.owner ∈ [(o.kind, x)] then .none else w.handle? site :=
  (handle?_put none (w.owned?_take o.kind x) site).trans (handle?_emptied site w [(o.kind, x)])

/-- A new object is put into a slot, whatever names there are. -/
theorem Sound.run_blank (h : w.Sound) {o : Owned} (blank : o.Blank) (x : String) (names : Names) :
    ∃ v, Build.setOwned x o { w with names := names } = .ok () v ∧ ((w.take o.kind x).put x o).SameSlots v := by
  have inHand : Config.Balanced ⟨[o], { w with names := names }⟩ := (Move.blank (a := .all) blank).balanced h.books
  refine ⟨_, Build.run_setOwned inHand, ?_⟩
  cases blank <;> rfl

theorem Sound.step_block (h : w.Sound) {id : BlockId} {name x : String} {r : Reply}
    (ok : (w.step (.block id name (some x))).1 = .ok r) :
    ∃ y, ((w.take .block x).put x (.block (.new id y))).SameSlots (w.step (.block id name (some x))).2 := by
  obtain ⟨_, run, after⟩ := run_of_ok ok
  obtain ⟨y, _, interned, rest⟩ := Build.run_bind_iff.1 run
  obtain ⟨-, rfl, rfl⟩ := Build.run_intern_iff.1 interned
  obtain ⟨v, filled, slots⟩ := h.run_blank (.block id _) x (w.names.intern name).2
  cases (Build.run_bind filled _).symm.trans rest
  refine ⟨(w.names.intern name).1, ?_⟩
  rw [after]
  exact slots.trans (.mapStore _ _)

theorem Sound.step_function (h : w.Sound) {name x : String} {r : Reply}
    (ok : (w.step (.function name (some x))).1 = .ok r) :
    ∃ y, ((w.take .function x).put x (.function (.new y))).SameSlots (w.step (.function name (some x))).2 := by
  obtain ⟨_, run, after⟩ := run_of_ok ok
  obtain ⟨y, _, interned, rest⟩ := Build.run_bind_iff.1 run
  obtain ⟨-, rfl, rfl⟩ := Build.run_intern_iff.1 interned
  obtain ⟨v, filled, slots⟩ := h.run_blank (.function _) x (w.names.intern name).2
  cases (Build.run_bind filled _).symm.trans rest
  refine ⟨(w.names.intern name).1, ?_⟩
  rw [after]
  exact slots.trans (.mapStore _ _)

theorem Sound.step_module (h : w.Sound) {name x : String} {model : ModelTerm} {r : Reply}
    (ok : (w.step (.module name model (some x))).1 = .ok r) :
    ∃ y t, ((w.take .module x).put x (.module (.new y t))).SameSlots (w.step (.module name model (some x))).2 := by
  obtain ⟨_, run, after⟩ := run_of_ok ok
  obtain ⟨t, _, decoded, rest⟩ := Build.run_bind_iff.1 run
  obtain ⟨-, rfl⟩ := Build.run_ofResult_iff.1 decoded
  obtain ⟨y, _, interned, rest⟩ := Build.run_bind_iff.1 rest
  obtain ⟨-, rfl, rfl⟩ := Build.run_intern_iff.1 interned
  obtain ⟨v, filled, slots⟩ := h.run_blank (.module _ t) x (w.names.intern name).2
  cases (Build.run_bind filled _).symm.trans rest
  refine ⟨(w.names.intern name).1, t, ?_⟩
  rw [after]
  exact slots.trans (.mapStore _ _)

theorem owned_of_drop {d : DroppedKind} {kind : OwnedKind} {x : String} (hk : d.owned? = some kind) {v : Workspace}
    (run : Build.drop d x w = .ok () v) : ∃ o, w.owned? kind x = some o := by
  cases d with
  | expr | var => cases hk
  | stmt | block | function | module =>
    cases hk
    obtain ⟨_, _, found, -⟩ := Build.run_bind_iff.1 run
    exact ⟨_, congrArg (Option.map _) (Build.run_slot_iff.1 found).1⟩

theorem Sound.step_dropped (h : w.Sound) {d : DroppedKind} {kind : OwnedKind} {x : String} {r : Reply}
    (hk : d.owned? = some kind) (ok : (w.step (.drop d x)).1 = .ok r) :
    (w.take kind x).SameSlots (w.step (.drop d x)).2 := by
  obtain ⟨_, run, -⟩ := run_of_ok ok
  obtain ⟨_, _, dropped, -⟩ := Build.run_bind_iff.1 run
  obtain ⟨o, owns⟩ := owned_of_drop hk dropped
  exact h.step_drop hk owns

/-- **A command that succeeds** takes away the handles of the functions that it takes, and no other; unless it moves a
function or takes a handle. -/
theorem Sound.step_ok (h : w.Sound) {c : Command} {r : Reply} (ok : (w.step c).1 = .ok r)
    (asks : ∀ ref into, c ≠ .callee ref into) (moves : ∀ m x, c ≠ .addFunction m x) (site : FunctionSite) :
    (w.step c).2.handle? site = if site.owner ∈ c.takes then none else w.handle? site := by
  have stmts : ∀ (xs : List String) (p : OwnedSlot), p ∈ xs.map (OwnedKind.stmt, ·) → p.1 = .stmt ∨ p.1 = .block := by
    intro xs p hp
    obtain ⟨x, -, rfl⟩ := List.mem_map.1 hp
    exact .inl rfl
  have none : ∀ p ∈ ([] : List OwnedSlot), p.1 = .stmt ∨ p.1 = .block := List.forall_mem_nil _
  cases c with
  | callee ref into => exact absurd rfl (asks ref into)
  | addFunction m x => exact absurd rfl (moves m x)
  | function name into =>
    cases into with
    | none => exact h.step_calm asks none site
    | some x =>
      obtain ⟨y, slots⟩ := h.step_function ok
      exact (slots.handle? site).trans (handle?_replace (o := .function (.new y)) rfl site)
  | module name model into =>
    cases into with
    | none => exact h.step_calm asks none site
    | some x =>
      obtain ⟨y, t, slots⟩ := h.step_module ok
      exact (slots.handle? site).trans (handle?_replace (o := .module (.new y t)) rfl site)
  | drop kind x =>
    cases kind with
    | expr | var => exact h.step_calm asks none site
    | stmt | block | function | module =>
      exact ((h.step_dropped rfl ok).handle? site).trans (handle?_emptied site w [(_, x)])
  | stmt s into =>
    refine h.step_calm asks (fun p hp => ?_) site
    exact (List.mem_append.1 hp).elim (stmts _ p) (stmts _ p)
  | addStmt place s => exact h.step_calm asks (stmts _) site
  | block id name into =>
    refine h.step_calm asks (fun p hp => ?_) site
    obtain ⟨x, -, rfl⟩ := List.mem_map.1 hp
    exact .inr rfl
  | _ => exact h.step_calm asks none site

theorem addFunction_runs {m x : String} {r : Reply} {v : Workspace}
    (run : Command.perform (.addFunction m x) w = .ok r v) : ∃ md f md', w.modules.get? m = some md ∧
      w.functions.get? x = some f ∧ md.accept f = .ok md' ∧ r = .count md'.functions.length ∧
      v = (w.take .function x).putModule m md' := by
  obtain ⟨_, _, moved, rest⟩ := Build.run_bind_iff.1 run
  cases rest
  obtain ⟨md, _, found, rest⟩ := Build.run_bind_iff.1 moved
  obtain ⟨hm, rfl⟩ := Build.run_slot_iff.1 found
  obtain ⟨f, _, owned, rest⟩ := Build.run_bind_iff.1 rest
  obtain ⟨hf, rfl⟩ := Build.run_slot_iff.1 owned
  obtain ⟨_, _, taken, rest⟩ := Build.run_bind_iff.1 rest
  cases taken
  cases fits : md.accept f with
  | ok md' =>
    rw [fits] at rest
    cases rest
    exact ⟨md, f, md', hm, hf, fits, rfl, rfl⟩
  | error fault =>
    rw [fits] at rest
    obtain ⟨_, _, -, refused⟩ := Build.run_bind_iff.1 rest
    cases refused

/-- A function that moves is the last one of the module. -/
theorem handle?_moved {m x : String} {md md' : Module} {f : Function} (hm : w.modules.get? m = some md)
    (hf : w.functions.get? x = some f) (fits : md.accept f = .ok md') (site : FunctionSite) :
    ((w.take .function x).putModule m md').handle? site =
      if site = .inModule m md.functions.length then w.handle? (.loose x)
      else if site = .loose x then none else w.handle? site := by
  obtain ⟨-, -, rfl⟩ := Module.accept_ok_iff.1 fits
  cases site with
  | loose y =>
    have taken := handle?_take w .function x (.loose y)
    rw [if_neg nofun]
    refine Eq.trans taken ?_
    by_cases hy : y = x <;> simp [FunctionSite.owner, hy]
  | inModule y i =>
    rw [handle?_inModule, handle?_inModule, handle?_loose, putModule, Table.get?_put_eq, hf]
    by_cases hy : y = m
    · rw [if_pos hy, hy, hm]
      refine (getElem?_concat_bind md.functions f (·.callee) i).trans ?_
      by_cases hi : i = md.functions.length <;> simp [hi]
    · simp [hy, take]

theorem step_moved {m x : String} {r : Reply} (ok : (w.step (.addFunction m x)).1 = .ok r) :
    ∃ n, r = .count (n + 1) ∧ w.handle? (.inModule m n) = none ∧ ∀ site, (w.step (.addFunction m x)).2.handle? site =
      if site = .inModule m n then w.handle? (.loose x) else if site = .loose x then none else w.handle? site := by
  obtain ⟨v, run, after⟩ := run_of_ok ok
  obtain ⟨md, f, md', hm, hf, fits, rfl, rfl⟩ := addFunction_runs run
  rw [after]
  refine ⟨md.functions.length, ?_, ?_,
    fun site => (handle?_congr rfl rfl site).trans (handle?_moved hm hf fits site)⟩
  · obtain ⟨-, -, rfl⟩ := Module.accept_ok_iff.1 fits
    simp
  · rw [handle?_inModule, hm, Option.bind_some, List.getElem?_eq_none (Nat.le_refl _)]
    rfl

/-- A handle that is there is answered; otherwise one is made of the signature and kept. -/
theorem run_calleeOf {f : Function} (here : w.function? site = some f) :
    ∃ k v, (f.callee = some k ∨ f.callee = none ∧ k = f.signature w.supply) ∧ Build.calleeOf site f w = .ok k v ∧
      v.names = w.names ∧ v.callees = w.callees ∧
      ∀ other, v.handle? other = if other = site then some k else w.handle? other := by
  cases hc : f.callee with
  | some k =>
    have run : Build.calleeOf site f w = .ok k w := by
      unfold Build.calleeOf
      rw [hc]
      rfl
    refine ⟨k, w, .inl rfl, run, rfl, rfl, fun other => ?_⟩
    split
    · rename_i ho
      rw [ho, handle?_of_function? here, hc]
    · rfl
  | none =>
    let v : Workspace := { w with supply := w.supply + 1 }
    have run : Build.calleeOf site f w =
        .ok (f.signature w.supply) (v.putFunction site { f with callee := some (f.signature w.supply) }) := by
      unfold Build.calleeOf
      rw [hc]
      rfl
    have stands : v.function? site = some f := by
      rw [← here]
      cases site <;> rfl
    refine ⟨_, _, .inr ⟨rfl, rfl⟩, run, ?_, callees_putFunction .., fun other => ?_⟩
    · rw [putFunction_tables]
    · rw [handle?_putFunction stands]
      rfl

/-- **Taking the handle of a function** answers with it; the first time it is made. -/
theorem step_callee {ref : FunctionRef} {f : Function} (hs : ref.site? w = some site)
    (here : w.function? site = some f) (into : Option String) :
    ∃ k, (f.callee = some k ∨ f.callee = none ∧ k = f.signature w.supply) ∧ w.Gives ref into k ∧
      ∀ other, (w.step (.callee ref into)).2.handle? other = if other = site then some k else w.handle? other := by
  obtain ⟨k, v, made, run, names, callees, handles⟩ := run_calleeOf here
  have report : v.reportCallee k = w.reportCallee k := by
    unfold Workspace.reportCallee Workspace.text
    rw [names]
  have found := Build.run_findFunction hs here
  refine ⟨k, made, ?_⟩
  unfold Gives
  cases into with
  | none =>
    have perform : Command.perform (.callee ref none) w =
        .ok (.callee (v.reportCallee k) (v.callees.namesWhere (·.id == k.id))) v :=
      (Build.run_bind found _).trans (Build.run_bind run _)
    rw [step_of_run perform, report, callees]
    exact ⟨⟨rfl, nofun⟩, fun other => (handle?_congr rfl rfl other).trans (handles other)⟩
  | some x =>
    have perform : Command.perform (.callee ref (some x)) w =
        .ok (.callee (v.reportCallee k) (v.callees.namesWhere (·.id == k.id))) (v.setCallee x k) :=
      (Build.run_bind found _).trans (Build.run_bind run _)
    rw [step_of_run perform, report, callees]
    refine ⟨⟨rfl, fun y hy => ?_⟩, fun other => (handle?_congr rfl rfl other).trans (handles other)⟩
    cases hy
    exact Table.get?_put ..

/-- A handle is taken of a function that is there. -/
theorem found_of_callee {ref : FunctionRef} {into : Option String} {r : Reply}
    (ok : (w.step (.callee ref into)).1 = .ok r) : ∃ site f, ref.site? w = some site ∧ w.function? site = some f := by
  obtain ⟨_, run, -⟩ := run_of_ok ok
  obtain ⟨p, _, found, -⟩ := Build.run_bind_iff.1 run
  obtain ⟨-, hs, here⟩ := (Build.findFunction_finds ref).ok found
  exact ⟨p.1, p.2, hs, here⟩

end Workspace
end KernelIR
