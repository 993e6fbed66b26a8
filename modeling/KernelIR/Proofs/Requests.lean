import Mathlib.Data.List.Forall2
import KernelIR.Proofs.Assembly
/-!
# Requests — what a statement is made of, and when it is made

A statement term first evaluates its arguments (`StmtTerm.ask`); what they come to is a request, and a request is all
that the constructor of the statement reads (`StmtTerm.build_eq`).  The checks of the constructors are loops with early
exits; a requirement (`StmtBody.Meets`) says what they come to.

Main statement: `Request.make_eq_ok_iff`, a request is granted exactly when its requirement holds, and then the
statement is the one that was asked for.
-/
namespace KernelIR

/-- **The requirement of a statement**, given the types of its expressions. -/
def StmtBody.Meets {α : Type} (typ : α → Ty) : StmtBody α → Prop
  | .store a o v => typ a = .arrayId ∧ (∃ width, typ o = .bv width) ∧ typ v = .bv 8
  | .varAssign vars values => vars ≠ [] ∧ List.Forall₂ (fun v e => v.typ = typ e) vars values
  | .assume p _ | .assert p _ => typ p = .bool
  | .call c args => args.map typ = c.parameters
  | .callMemberOf func calls =>
    (∃ width, typ func = .pointer width) ∧ ∀ c ∈ calls, c.arguments.map typ = c.callee.parameters
  | .eval _ | .goto _ | .ret | .waitGroupEvent _ => True

/-- The statement as a listed call, if it is a call. -/
def Stmt.call? {α : Type} (s : Stmt α) : Option (CallStmt α) :=
  match s.body with
  | .call c args => some ⟨s.id, c, args, s.parent, s.locs⟩
  | _ => none

/-- A constructor of statements and its arguments, evaluated. -/
inductive Request where
  /-- A statement that is there already. -/
  | given (s : Stmt NodeId)
  | made (body : StmtBody NodeId) (plain : body.kind ≠ .callMemberOf) (locs : Locs)
  /-- An indirect call, and the statements that it is to list. -/
  | gathered (func : NodeId) (stmts : List (Stmt NodeId)) (locs : Locs)

namespace Request

def Meets (typ : NodeId → Ty) : Request → Prop
  | .given _ => True
  | .made body _ _ => body.Meets typ
  | .gathered func stmts _ => (∃ width, typ func = .pointer width) ∧ ∀ s ∈ stmts, s.kind = .call

def make : Request → Build (Stmt NodeId)
  | .given s => pure s
  | .made body _ locs => Build.newStmt body locs
  | .gathered func stmts locs => Build.newIndirectCall func stmts locs

/-- The statement that is asked for; a new one gets this number. -/
def stmt (id : Nat) : Request → Stmt NodeId
  | .given s => s
  | .made body _ locs => ⟨id, body, none, locs⟩
  | .gathered func stmts locs => ⟨id, .callMemberOf func (stmts.filterMap (·.call?)), none, locs⟩

end Request

namespace StmtTerm

/-- The request for an assertion of a constant. -/
def askMarked (value : Bool) (facets : Facets) (locs : LocsTerm) : Build Request := do
  let locs ← locs.build
  let p ← Build.construct (.boolConst value)
  return .made (.assert p facets) nofun locs

/-- **The arguments of a statement**, from left to right. -/
def ask : StmtTerm → Build Request
  | .slot x => do
    let s ← Build.stmtSlot x
    modify (Workspace.take .stmt x)
    return .given s
  | .eval e locs => do
    let e ← e.build
    return .made (.eval e) nofun (← locs.build)
  | .store a o v locs => do
    let a ← a.build
    let o ← o.build
    let v ← v.build
    return .made (.store a o v) nofun (← locs.build)
  | .varAssign vars values => do
    let vars ← vars.mapM Build.varSlot
    let values ← Term.buildList values
    return .made (.varAssign vars values) nofun (← Build.newLocs [])
  | .goto targets => do return .made (.goto targets) nofun (← Build.newLocs [])
  | .ret => do return .made .ret nofun (← Build.newLocs [])
  | .assume e partition => do
    let e ← e.build
    return .made (.assume e partition) nofun (← Build.newLocs [])
  | .assert e global candidate invariant locs => do
    let e ← e.build
    return .made (.assert e ⟨global, candidate, invariant, false, false⟩) nofun (← locs.build)
  | .badAccess locs => askMarked false ⟨false, false, false, true, false⟩ locs
  | .blockSourceLoc locs => askMarked true ⟨false, false, false, false, true⟩ locs
  | .call c args locs => do
    let c ← Build.calleeSlot c
    let args ← Term.buildList args
    return .made (.call c args) nofun (← locs.build)
  | .callMemberOf func locs calls => do
    let func ← func.build
    let locs ← locs.build
    return .gathered func (← buildList calls) locs
  | .waitGroupEvent h locs => do
    let h ← h.build
    return .made (.waitGroupEvent h) nofun (← locs.build)

/-- **A statement is built by evaluating its arguments and granting the request.** -/
theorem build_eq (s : StmtTerm) : s.build = s.ask >>= Request.make := by
  cases s <;>
    simp only [build, ask, buildMarked, askMarked, facets, Facets.none, Build.newUnlocated, Request.make, bind_assoc,
      pure_bind]

end StmtTerm

/-! ## The checks -/

section Checks

variable {α : Type} {r : Reader α}

theorem Ty.isPointer_iff {t : Ty} : t.isPointer = true ↔ ∃ width, t = .pointer width := by
  cases t <;> simp [isPointer]

theorem checkPredicate_iff {role : PredicateRole} {p : α} : checkPredicate r role p = .ok () ↔ r.typ p = .bool := by
  unfold checkPredicate Reader.typ
  cases (r.node p).typ <;> simp [Ty.isBool]

namespace StmtBody

theorem checkStore_iff {a o v : α} :
    checkStore r a o v = .ok () ↔ r.typ a = .arrayId ∧ (∃ width, r.typ o = .bv width) ∧ r.typ v = .bv 8 := by
  unfold checkStore Reader.typ
  generalize (r.node a).typ = ta
  generalize (r.node o).typ = tb
  cases ta with
  | arrayId => cases tb <;> simp [Ty.isArrayId, Ty.isBv]
  | bv | bool | float | pointer => simp [Ty.isArrayId]

theorem checkPairs_iff : ∀ pairs : List (Var × α), checkPairs r pairs = .ok () ↔ ∀ p ∈ pairs, p.1.typ = r.typ p.2
  | [] => by simp [checkPairs]
  | (v, e) :: pairs => by
    rw [checkPairs, List.forall_mem_cons, ← checkPairs_iff pairs]
    change _ ↔ v.typ = (r.node e).typ ∧ _
    by_cases same : v.typ = (r.node e).typ
    · simp [same]
    · simp [same]

/-- The lengths are compared first, so that no pair is missed. -/
theorem checkAssign_iff {vars : List Var} {values : List α} :
    checkAssign r vars values = .ok () ↔ vars ≠ [] ∧ List.Forall₂ (fun v e => v.typ = r.typ e) vars values := by
  unfold checkAssign
  rw [List.forall₂_iff_zip]
  split
  · rename_i empty
    exact ⟨nofun, fun h => absurd (List.isEmpty_iff.1 empty) h.1⟩
  rename_i some
  split
  · rename_i counts
    exact ⟨nofun, fun h => absurd h.2.1 (by simpa using counts)⟩
  rename_i counts
  rw [checkPairs_iff]
  have nonempty : vars ≠ [] := mt List.isEmpty_iff.2 some
  have counts : vars.length = values.length := by simpa using counts
  exact ⟨fun h => ⟨nonempty, counts, fun hp => h _ hp⟩, fun h p hp => h.2.2 hp⟩

theorem checkCall_iff {c : Callee} {args : List α} : checkCall r c args = .ok () ↔ args.map r.typ = c.parameters := by
  unfold checkCall Callee.accepts
  change (if (args.map r.typ == c.parameters) = true then _ else _) = _ ↔ _
  simp

theorem checkIndirect_iff {func : α} : checkIndirect r func = .ok () ↔ ∃ width, r.typ func = .pointer width := by
  unfold checkIndirect Reader.typ
  rw [← Ty.isPointer_iff]
  simp

/-- **The check of a statement is its requirement.** -/
theorem check_iff {body : StmtBody α} (plain : body.kind ≠ .callMemberOf) :
    body.check r = .ok () ↔ body.Meets r.typ := by
  cases body with
  | store => exact checkStore_iff
  | varAssign => exact checkAssign_iff
  | assume | assert => exact checkPredicate_iff
  | call => exact checkCall_iff
  | callMemberOf => exact absurd rfl plain
  | eval | goto | ret | waitGroupEvent => exact iff_of_true rfl trivial

end StmtBody

namespace Stmt

theorem call?_eq_some {s : Stmt α} {c : CallStmt α} : s.call? = some c ↔ s = c.toStmt := by
  obtain ⟨id, body, parent, locs⟩ := s
  obtain ⟨id', callee, arguments, parent', locs'⟩ := c
  unfold call? CallStmt.toStmt
  cases body <;> simp [and_assoc]

theorem asCall_ok_iff {s : Stmt α} {c : CallStmt α} : s.asCall r = .ok c ↔ s.call? = some c := by
  unfold asCall call?
  cases s.body <;> simp

theorem kind_eq_call_iff {s : Stmt α} : s.kind = .call ↔ ∃ c, s.call? = some c := by
  unfold kind call?
  cases s.body <;> simp [StmtBody.kind]

/-- Statements can be listed exactly when all of them are calls. -/
theorem mapM_asCall_iff : ∀ {stmts : List (Stmt α)} {calls : List (CallStmt α)},
    stmts.mapM (asCall r) = .ok calls ↔ (∀ s ∈ stmts, s.kind = .call) ∧ calls = stmts.filterMap (·.call?)
  | [], calls => by simp [pure, Except.pure, eq_comm]
  | s :: stmts, calls => by
    rw [List.mapM_cons, List.forall_mem_cons, bind_ok_iff]
    constructor
    · rintro ⟨c, hc, h⟩
      obtain ⟨cs, hcs, h⟩ := bind_ok_iff.1 h
      obtain ⟨all, rfl⟩ := mapM_asCall_iff.1 hcs
      have hc := asCall_ok_iff.1 hc
      cases h
      exact ⟨⟨kind_eq_call_iff.2 ⟨c, hc⟩, all⟩, (List.filterMap_cons_some hc).symm⟩
    · rintro ⟨⟨hs, all⟩, rfl⟩
      obtain ⟨c, hc⟩ := kind_eq_call_iff.1 hs
      refine ⟨c, asCall_ok_iff.2 hc, bind_ok_iff.2 ⟨_, mapM_asCall_iff.2 ⟨all, rfl⟩, ?_⟩⟩
      rw [List.filterMap_cons_some hc]
      rfl

end Stmt

end Checks

/-! ## The constructors -/

namespace Build

variable {α : Type} {w w' : Workspace}

theorem run_newStmt (body : StmtBody NodeId) (locs : Locs) (w : Workspace) : newStmt body locs w =
    match body.check w.store.reader with
    | .error x => .error (.refused x) w
    | .ok () => .ok (w.newStmt body locs) (w.withStmt body) := by
  have read : (get : Build Workspace) w = .ok w w := rfl
  unfold newStmt
  rw [run_bind read]
  cases body.check w.store.reader <;> rfl

theorem newStmt_ok_iff {body : StmtBody NodeId} {locs : Locs} {s : Stmt NodeId} :
    newStmt body locs w = .ok s w' ↔
      body.check w.store.reader = .ok () ∧ s = w.newStmt body locs ∧ w' = w.withStmt body := by
  rw [run_newStmt]
  cases body.check w.store.reader <;> simp [eq_comm]

theorem dropOnFailure_ok_iff {ss : List (Stmt NodeId)} {act : Build α} {a : α} :
    dropOnFailure ss act w = .ok a w' ↔ act w = .ok a w' := by
  unfold dropOnFailure
  cases act w with
  | ok b v => exact Iff.rfl
  | error e v =>
    refine ⟨fun h => ?_, nofun⟩
    obtain ⟨_, _, -, h⟩ := run_bind_iff.1 h
    cases h

/-- Calls evaluate nothing, so they can always be dropped. -/
theorem run_dropCalls {stmts : List (Stmt NodeId)} (calls : ∀ s ∈ stmts, s.kind = .call) :
    dropStmts stmts w = .ok () (w.discard (stmts.map .stmt)) := by
  have quiet : (stmts.map Owned.stmt).flatMap (·.evaluated) = [] := by
    rw [List.flatMap_map, List.flatMap_eq_nil_iff]
    intro s hs
    obtain ⟨c, hc⟩ := Stmt.kind_eq_call_iff.1 (calls s hs)
    rw [Stmt.call?_eq_some.1 hc]
    rfl
  unfold dropStmts dropOwned Workspace.discard
  rw [quiet]
  rfl

theorem newIndirectCall_ok_iff {func : NodeId} {stmts : List (Stmt NodeId)} {locs : Locs} {s : Stmt NodeId} :
    newIndirectCall func stmts locs w = .ok s w' ↔
      ((∃ width, w.store.typ func = .pointer width) ∧ ∀ s ∈ stmts, s.kind = .call) ∧
        s = w.newStmt (.callMemberOf func (stmts.filterMap (·.call?))) locs ∧
        w' = (w.withStmt (.callMemberOf func (stmts.filterMap (·.call?)))).discard (stmts.map .stmt) := by
  have listing : ∀ {s' : Stmt NodeId} {v : Workspace}, dropOnFailure stmts (do
      let r := (← get).store.reader
      ofExcept (StmtBody.checkIndirect r func)
      let calls ← ofExcept (stmts.mapM (Stmt.asCall r))
      newStmt (.callMemberOf func calls) locs) w = .ok s' v ↔
        ((∃ width, w.store.typ func = .pointer width) ∧ ∀ s ∈ stmts, s.kind = .call) ∧
          s' = w.newStmt (.callMemberOf func (stmts.filterMap (·.call?))) locs ∧
          v = w.withStmt (.callMemberOf func (stmts.filterMap (·.call?))) := by
    intro s' v
    rw [dropOnFailure_ok_iff]
    constructor
    · intro h
      obtain ⟨_, _, hw, h⟩ := run_bind_iff.1 h
      cases hw
      obtain ⟨_, _, hf, h⟩ := run_bind_iff.1 h
      obtain ⟨pointer, rfl⟩ := run_ofExcept_iff.1 hf
      obtain ⟨_, _, hc, h⟩ := run_bind_iff.1 h
      obtain ⟨listed, rfl⟩ := run_ofExcept_iff.1 hc
      obtain ⟨calls, rfl⟩ := Stmt.mapM_asCall_iff.1 listed
      exact ⟨⟨StmtBody.checkIndirect_iff.1 pointer, calls⟩, (newStmt_ok_iff.1 h).2⟩
    · rintro ⟨⟨pointer, calls⟩, rfl, rfl⟩
      have pointer := StmtBody.checkIndirect_iff (r := w.store.reader).2 pointer
      refine run_bind_iff.2 ⟨w, w, rfl, run_bind_iff.2 ⟨(), w, run_ofExcept_iff.2 ⟨pointer, rfl⟩, ?_⟩⟩
      exact run_bind_iff.2 ⟨_, w, run_ofExcept_iff.2 ⟨Stmt.mapM_asCall_iff.2 ⟨calls, rfl⟩, rfl⟩,
        newStmt_ok_iff.2 ⟨pointer, rfl, rfl⟩⟩
  unfold newIndirectCall dropAfter
  constructor
  · intro h
    obtain ⟨s', v, made, h⟩ := run_bind_iff.1 h
    obtain ⟨fits, rfl, rfl⟩ := listing.1 made
    rw [run_bind (run_dropCalls fits.2)] at h
    cases h
    exact ⟨fits, rfl, rfl⟩
  · rintro ⟨fits, rfl, rfl⟩
    rw [run_bind (listing.2 ⟨fits, rfl, rfl⟩), run_bind (run_dropCalls fits.2)]
    rfl

end Build

namespace Request

variable {w w' : Workspace} {s : Stmt NodeId}

/-- The workspace after a request is granted. -/
def after (w : Workspace) : Request → Workspace
  | .given _ => w
  | .made body _ _ => w.withStmt body
  | .gathered func stmts _ =>
    (w.withStmt (.callMemberOf func (stmts.filterMap (·.call?)))).discard (stmts.map .stmt)

/-- **A request is granted exactly when it meets its requirement**, and then the statement is the one that was asked
for. -/
theorem make_eq_ok_iff {r : Request} :
    r.make w = .ok s w' ↔ r.Meets w.store.typ ∧ s = r.stmt w.supply ∧ w' = r.after w := by
  cases r with
  | given t =>
    change EStateM.Result.ok t w = _ ↔ _
    simp [Meets, stmt, after, eq_comm]
  | made body plain locs => exact Build.newStmt_ok_iff.trans (and_congr_left fun _ => StmtBody.check_iff plain)
  | gathered func stmts locs => exact Build.newIndirectCall_ok_iff

end Request

/-- **A statement is built exactly when its arguments come to something that meets its requirement.** -/
theorem StmtTerm.build_eq_ok_iff {s : StmtTerm} {w w' : Workspace} {st : Stmt NodeId} :
    s.build w = .ok st w' ↔ ∃ r v, s.ask w = .ok r v ∧ r.Meets v.store.typ ∧ st = r.stmt v.supply ∧ w' = r.after v := by
  rw [build_eq, Build.run_bind_iff]
  exact exists_congr fun r => exists_congr fun v => and_congr_right fun _ => Request.make_eq_ok_iff

end KernelIR
