import KernelIR.Proofs.Objects
import KernelIR.Proofs.Requests
/-!
# Statements — every live statement is well formed

A statement meets its requirement when it is made, and the nodes that it holds do not change; so it meets it wherever it
is kept, until it is dropped.  A mark on an assertion stands alone, on the constant that the assertion was made with
(`Facets.Fits`).  The calls that an indirect call lists were well-formed statements before (`wellFormed_law`).

Main statement: `Workspace.Reachable.statements_well_formed`.
-/
namespace KernelIR

/-- The statement meets its requirement, and the marks of an assertion fit its predicate. -/
structure Stmt.WellFormed (read : NodeId → Node NodeId) (s : Stmt NodeId) : Prop where
  meets : s.body.Meets fun n => (read n).typ
  marks : ∀ p facets, s.body = .assert p facets → facets.Fits (read p).shape

/-- The calls that an indirect call lists, as statements of their own. -/
def Stmt.nested (s : Stmt NodeId) : List (Stmt NodeId) :=
  match s.body with
  | .callMemberOf _ calls => calls.map (·.toStmt)
  | _ => []

/-- The live statements, those listed by indirect calls included. -/
def Workspace.everyStmt (w : Workspace) : List (Stmt NodeId) := w.liveStmts ++ w.liveStmts.flatMap (·.nested)

namespace StmtBody

variable {α : Type}

theorem Meets.congr {typ typ' : α → Ty} {body : StmtBody α} (h : body.Meets typ)
    (same : ∀ a ∈ body.operands, typ' a = typ a) : body.Meets typ' := by
  cases body with
  | store a o v =>
    simp only [operands, List.forall_mem_cons] at same
    obtain ⟨ha, ho, hv, -⟩ := same
    exact ⟨ha.trans h.1, h.2.1.imp fun _ => ho.trans, hv.trans h.2.2⟩
  | varAssign vars values =>
    obtain ⟨nonempty, pairs⟩ := h
    obtain ⟨counts, pairs⟩ := List.forall₂_iff_zip.1 pairs
    refine ⟨nonempty, List.forall₂_iff_zip.2 ⟨counts, fun hp => ?_⟩⟩
    exact (pairs hp).trans (same _ (List.of_mem_zip hp).2).symm
  | assume p | assert p => exact (same p (List.mem_singleton_self p)).trans h
  | call c args => exact (List.map_congr_left same).trans h
  | callMemberOf func calls =>
    simp only [operands, List.forall_mem_cons] at same
    refine ⟨h.1.imp fun _ => same.1.trans, fun c hc => (List.map_congr_left fun a ha => ?_).trans (h.2 c hc)⟩
    exact same.2 a (List.mem_flatMap.2 ⟨c, hc, ha⟩)
  | eval | goto | ret | waitGroupEvent => trivial

theorem Direct.plain {read : α → Node α} {body : StmtBody α} (h : body.Direct read) : body.kind ≠ .callMemberOf := by
  cases body with
  | callMemberOf => exact h.elim
  | store | varAssign | assume | assert | call | eval | goto | ret | waitGroupEvent => nofun

end StmtBody

/-- **Statements are well formed**: what is made was checked, what is gathered was well formed before, and what is
placed keeps its body. -/
theorem wellFormed_law : StmtLaw .all Stmt.WellFormed where
  congr {read read' s} same h := by
    refine ⟨h.meets.congr fun n hn => congrArg Node.typ (same n hn), fun p facets hs => ?_⟩
    have held : p ∈ s.operands := by
      rw [Stmt.operands, hs]
      exact List.mem_singleton_self p
    rw [same p held]
    exact h.marks p facets hs
  arises {w w' lost s} h hl := by
    cases h with
    | made locs _ direct _ meets =>
      refine ⟨(StmtBody.check_iff direct.plain).1 meets, fun p facets hs => ?_⟩
      cases hs
      exact direct
    | gathered locs meets listed =>
      refine ⟨⟨StmtBody.checkIndirect_iff.1 meets, fun c hc => ?_⟩, fun p facets hs => by cases hs⟩
      obtain ⟨-, rfl⟩ := Stmt.mapM_asCall_iff.1 listed
      obtain ⟨t, ht, hc⟩ := List.mem_filterMap.1 hc
      have typed := (hl t ht).meets
      rw [Stmt.call?_eq_some.1 hc] at typed
      exact typed
    | placed mem free =>
      obtain ⟨-, rfl⟩ := Stmt.place_ok free
      exact ⟨(hl _ mem).meets, (hl _ mem).marks⟩

namespace Workspace

variable {w : Workspace}

theorem Reachable.wellFormed (h : w.Reachable) : ∀ s ∈ w.liveStmts, s.WellFormed w.store.reader.node :=
  wellFormed_law.reachable h

theorem mem_nested {s t : Stmt NodeId} (h : t ∈ s.nested) :
    ∃ func calls, ∃ c ∈ calls, s.body = .callMemberOf func calls ∧ c.toStmt = t := by
  unfold Stmt.nested at h
  split at h
  · rename_i func calls hs
    obtain ⟨c, hc, rfl⟩ := List.mem_map.1 h
    exact ⟨func, calls, c, hc, hs, rfl⟩
  · cases h

theorem Reachable.wellFormed_every (h : w.Reachable) : ∀ s ∈ w.everyStmt, s.WellFormed w.store.reader.node := by
  intro s hs
  rcases List.mem_append.1 hs with hs | hs
  · exact h.wellFormed s hs
  · obtain ⟨t, ht, hs⟩ := List.mem_flatMap.1 hs
    obtain ⟨func, calls, c, hc, body, rfl⟩ := mem_nested hs
    have lists := (h.wellFormed t ht).meets
    rw [body] at lists
    exact ⟨lists.2 c hc, nofun⟩

/-- A new statement can always be kept, or dropped. -/
theorem Sound.step_stmt_iff (h : w.Sound) (s : StmtTerm) (into : Option String) :
    (∃ r, (w.step (.stmt s into)).1 = .ok r) ↔ ∃ st w', s.build w = .ok st w' := by
  have ends := Build.stmtTerm_ends s (Invariant.assembles Config.Balanced.invariant (a := .all))
    ⟨fun _ _ => trivial, fun _ _ => trivial⟩ (k := []) (show Config.Balanced ⟨[], w⟩ from h.books)
  have built : ∀ {st v}, s.build w = .ok st v → ∃ r v', Command.perform (.stmt s into) w = .ok r v' := by
    intro st v hs
    have kept := Build.keepOwned_ends (a := .all) Config.Balanced.invariant (E := fun _ _ => False)
      (fun x (_ : into = some x) => trivial) (fun _ _ => trivial) (ends.ok hs)
    cases hk : Build.keepOwned into (.stmt st) v with
    | ok _ v' => exact ⟨_, v', (Build.run_bind hs _).trans (Build.run_bind hk _)⟩
    | error e v' => exact (kept.error hk).elim
  unfold Workspace.step
  constructor
  · rintro ⟨r, hr⟩
    cases hc : Command.perform (.stmt s into) w with
    | ok r' v =>
      obtain ⟨st, w', hs, -⟩ := Build.run_bind_iff.1 hc
      exact ⟨st, w', hs⟩
    | error e v =>
      rw [hc] at hr
      cases hr
  · rintro ⟨st, v, hs⟩
    obtain ⟨r, v', hc⟩ := built hs
    rw [hc]
    exact ⟨r, rfl⟩

/-- **Statements are well formed over whole runs.**

A statement is made exactly when its arguments come to something that meets its requirement, whatever the operands and
however long the lists; then it is the statement that was asked for.

Every statement of a reachable workspace meets its requirement: in a slot, in a block, in a function of a module, or
listed by an indirect call.  An assertion is at most one of loop invariant, bad access and source location; a bad access
asserts the constant `false` and a source location the constant `true`, neither global nor candidate.  An indirect call
lists calls only. -/
theorem Reachable.statements_well_formed (h : w.Reachable) :
    (∀ (s : StmtTerm) (into : Option String), (∃ reply, (w.step (.stmt s into)).1 = .ok reply) ↔
      ∃ r v, s.ask w = .ok r v ∧ r.Meets v.store.typ) ∧
    (∀ (s : StmtTerm) (v : Workspace) (st : Stmt NodeId), (∃ v', s.build v = .ok st v') ↔
      ∃ r v', s.ask v = .ok r v' ∧ r.Meets v'.store.typ ∧ st = r.stmt v'.supply) ∧
    ∀ s ∈ w.everyStmt, s.body.Meets w.store.typ ∧
      (∀ p f, s.body = .assert p f → [f.invariant, f.badAccess, f.blockSourceLoc].count true ≤ 1 ∧
        (f.badAccess = true →
          (w.store.cell p).shape = .boolConst false ∧ f.global = false ∧ f.candidate = false) ∧
        (f.blockSourceLoc = true →
          (w.store.cell p).shape = .boolConst true ∧ f.global = false ∧ f.candidate = false)) ∧
      ∀ t ∈ s.nested, t.kind = .call := by
  refine ⟨fun s into => ?_, fun s v st => ?_, fun s hs => ⟨(h.wellFormed_every s hs).meets, ?_, fun t ht => ?_⟩⟩
  · rw [h.sound.step_stmt_iff]
    constructor
    · rintro ⟨st, w', built⟩
      obtain ⟨r, v, asked, meets, -⟩ := StmtTerm.build_eq_ok_iff.1 built
      exact ⟨r, v, asked, meets⟩
    · rintro ⟨r, v, asked, meets⟩
      exact ⟨_, _, StmtTerm.build_eq_ok_iff.2 ⟨r, v, asked, meets, rfl, rfl⟩⟩
  · constructor
    · rintro ⟨w', built⟩
      obtain ⟨r, v', asked, meets, same, -⟩ := StmtTerm.build_eq_ok_iff.1 built
      exact ⟨r, v', asked, meets, same⟩
    · rintro ⟨r, v', asked, meets, same⟩
      exact ⟨_, StmtTerm.build_eq_ok_iff.2 ⟨r, v', asked, meets, same, rfl⟩⟩
  · intro p f body
    obtain ⟨bad, located⟩ := (h.wellFormed_every s hs).marks p f body
    refine ⟨?_, fun hf => ?_, fun hf => ?_⟩
    · cases hb : f.badAccess with
      | true =>
        obtain ⟨rfl, -⟩ := bad hb
        decide
      | false =>
        cases hl : f.blockSourceLoc with
        | true =>
          obtain ⟨rfl, -⟩ := located hl
          decide
        | false => cases f.invariant <;> decide
    · obtain ⟨rfl, shape⟩ := bad hf
      exact ⟨shape, rfl, rfl⟩
    · obtain ⟨rfl, shape⟩ := located hf
      exact ⟨shape, rfl, rfl⟩
  · obtain ⟨func, calls, c, -, -, rfl⟩ := mem_nested ht
    rfl

/-- A source location, and an indirect call that lists a call. -/
def indirectCall : List Command :=
  [.stmt (.blockSourceLoc (.list [])) (some "s"), .function "f" (some "f"), .callee (.loose "f") (some "c"),
    .stmt (.callMemberOf (.unary .bvToPtr (.bvZero 8)) (.list []) [.call "c" [] (.list [])]) (some "t")]

/-- Nothing cannot be assigned; the three statements are well formed. -/
theorem statements_well_formed_indirectCall :
    (¬ ∃ reply, ((empty.run indirectCall).2.step (.stmt (.varAssign [] []) none)).1 = .ok reply) ∧
    (empty.run indirectCall).2.everyStmt.map (·.kind) = [.assert, .callMemberOf, .call] ∧
    ∀ s ∈ (empty.run indirectCall).2.everyStmt, s.body.Meets (empty.run indirectCall).2.store.typ := by
  obtain ⟨commands, -, statements⟩ := Reachable.statements_well_formed ⟨indirectCall, rfl⟩
  refine ⟨fun made => ?_, by decide, fun s hs => (statements s hs).1⟩
  obtain ⟨r, v, asked, meets⟩ := (commands _ none).1 made
  cases asked
  exact meets.1 rfl

end Workspace
end KernelIR
