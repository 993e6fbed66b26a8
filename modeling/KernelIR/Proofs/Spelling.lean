import KernelIR.Proofs.Interning
import KernelIR.Proofs.Requests
/-!
# Spelling — what is written down for names, and how much of it is interned

A command spells the names of the objects that it makes (`Command.spells`).  When it succeeds it has interned them all
(`Command.interns_of_ok`); when it fails it has interned the first part of them (`Command.interns_prefix`), and a
location whose numbers are refused is the last to be part of it (`LocTerm.internsList_stops`).
-/
namespace KernelIR

def LocsTerm.spells : LocsTerm → List String
  | .slot _ => []
  | .list ls => ls.flatMap (·.spells)

namespace StmtTerm

mutual

def spells : StmtTerm → List String
  | .slot _ | .varAssign _ _ | .goto _ | .ret | .assume _ _ => []
  | .eval _ locs | .assert _ _ _ _ locs | .waitGroupEvent _ locs | .store _ _ _ locs | .badAccess locs
  | .blockSourceLoc locs | .call _ _ locs => locs.spells
  | .callMemberOf _ locs calls => locs.spells ++ spellsList calls

def spellsList : List StmtTerm → List String
  | [] => []
  | s :: ss => s.spells ++ spellsList ss

end

end StmtTerm

/-- The texts in a command that are to become names of objects.  A text that a command only looks for is none. -/
def Command.spells : Command → List String
  | .locs t _ | .addEval _ _ t | .addClause _ _ _ t => t.spells
  | .stmt s _ | .addStmt _ s => s.spells
  | .block _ name _ | .function name _ | .addVar _ _ name _ _ | .addBlock _ name | .addAttribute _ name
  | .module name _ _ | .addArray _ name _ _ => [name]
  | .expr _ _ | .operand _ _ _ | .info _ | .dump _ | .refCount _ | .markers _ | .preventEval _ | .sameNode _ _
  | .typecheckCall _ _ | .distinct _ _ | .debug _ _ | .drop _ _ | .compareLocs _ _ | .showStmt _ | .sourceLocs _
  | .showBlock _ | .hasAttribute _ _ | .callee _ _ | .showFunction _ | .addFunction _ _ | .addAxiom _ _
  | .showModule _ => []

/-! ## How far a computation gets -/

namespace Build

variable {α : Type} {w : Workspace} {act : Build α} {k : α → Workspace → List String} {texts texts' : List String}

/-- What follows an answer in a computation that succeeds. -/
theorem onAnswer_of_run {β : Type} {f : α → Build β} {b : β} {v : Workspace} (run : (act >>= f) w = .ok b v)
    (h : ∀ a w', f a w' = .ok b v → k a w' = texts) : act.onAnswer w k = texts := by
  obtain ⟨a, w', ha, run⟩ := run_bind_iff.1 run
  rw [onAnswer_of_ok ha]
  exact h a w' run

theorem onAnswer_prefix (h : ∀ a w', k a w' <+: texts) : act.onAnswer w k <+: texts := by
  unfold onAnswer
  split
  · exact h _ _
  · exact List.nil_prefix

/-- What follows comes after all that stands before it. -/
theorem append_onAnswer_prefix {part : List String} (first : part <+: texts)
    (whole : ∀ a w', act w = .ok a w' → part = texts) (rest : ∀ a w', k a w' <+: texts') :
    part ++ act.onAnswer w k <+: texts ++ texts' := by
  cases run : act w with
  | ok a w' =>
    rw [onAnswer_of_ok run, whole a w' run]
    exact (List.prefix_append_right_inj texts).2 (rest a w')
  | error e w' =>
    have none : act.onAnswer w k = [] := by rw [onAnswer, run]
    rw [none, List.append_nil]
    exact first.trans (List.prefix_append _ _)

end Build

open Build

/-! ## Locations -/

namespace LocTerm

theorem inRange_of_buildList : ∀ {ls : List LocTerm} {w : Workspace} {xs : List SourceLoc} {v : Workspace},
    ls.mapM build w = .ok xs v → ∀ l ∈ ls, l.InRange
  | [], _, _, _, _ => List.forall_mem_nil _
  | l :: ls, w, _, _, run => by
    rw [List.mapM_cons] at run
    obtain ⟨x, _, hl, run⟩ := run_bind_iff.1 run
    obtain ⟨xs, _, hls, -⟩ := run_bind_iff.1 run
    exact List.forall_mem_cons.2 ⟨inRange_of_build hl, inRange_of_buildList hls⟩

theorem internsList_of_inRange : ∀ {ls : List LocTerm}, (∀ l ∈ ls, l.InRange) → internsList ls = ls.flatMap (·.spells)
  | [], _ => rfl
  | l :: ls, h => by
    obtain ⟨first, rest⟩ := List.forall_mem_cons.1 h
    rw [internsList, if_pos first, internsList_of_inRange rest, List.flatMap_cons]

/-- The first location that is out of range is the last one whose texts are interned. -/
theorem internsList_stops {l : LocTerm} (out : ¬l.InRange) (post : List LocTerm) : ∀ {pre : List LocTerm},
    (∀ l ∈ pre, l.InRange) → internsList (pre ++ l :: post) = (pre ++ [l]).flatMap (·.spells)
  | [], _ => by simp [internsList, if_neg out]
  | l' :: pre, h => by
    obtain ⟨first, rest⟩ := List.forall_mem_cons.1 h
    rw [List.cons_append, internsList, if_pos first, internsList_stops out post rest, List.cons_append,
      List.flatMap_cons]

theorem internsList_prefix : ∀ ls : List LocTerm, internsList ls <+: ls.flatMap (·.spells)
  | [] => List.prefix_rfl
  | l :: ls => by
    rw [internsList, List.flatMap_cons, List.prefix_append_right_inj]
    split
    · exact internsList_prefix ls
    · exact List.nil_prefix

end LocTerm

namespace LocsTerm

theorem interns_of_ok {t : LocsTerm} {w v : Workspace} {l : Locs} (run : t.build w = .ok l v) :
    t.interns = t.spells := by
  cases t with
  | slot x => rfl
  | list ls =>
    obtain ⟨_, _, made, -⟩ := run_bind_iff.1 run
    exact LocTerm.internsList_of_inRange (LocTerm.inRange_of_buildList made)

theorem interns_of_run {β : Type} {t : LocsTerm} {f : Locs → Build β} {w v : Workspace} {b : β}
    (run : (t.build >>= f) w = .ok b v) : t.interns = t.spells := by
  obtain ⟨_, _, made, -⟩ := run_bind_iff.1 run
  exact interns_of_ok made

theorem interns_prefix : ∀ t : LocsTerm, t.interns <+: t.spells
  | .slot _ => List.prefix_rfl
  | .list ls => LocTerm.internsList_prefix ls

end LocsTerm

/-! ## Statements -/

namespace StmtTerm

mutual

/-- A statement that is made has interned all that it spells. -/
theorem interns_of_ok : ∀ (s : StmtTerm) {w v : Workspace} {st : Stmt NodeId}, s.build w = .ok st v →
    s.interns w = s.spells
  | .slot _, _, _, _, _ | .varAssign _ _, _, _, _, _ | .goto _, _, _, _, _ | .ret, _, _, _, _
  | .assume _ _, _, _, _, _ => rfl
  | .eval _ locs, _, _, _, run => onAnswer_of_run run fun _ _ run => locs.interns_of_run run
  | .assert _ _ _ _ locs, _, _, _, run => onAnswer_of_run run fun _ _ run => locs.interns_of_run run
  | .waitGroupEvent _ locs, _, _, _, run => onAnswer_of_run run fun _ _ run => locs.interns_of_run run
  | .store _ _ _ locs, _, _, _, run => onAnswer_of_run run fun _ _ run => onAnswer_of_run run fun _ _ run =>
      onAnswer_of_run run fun _ _ run => locs.interns_of_run run
  | .badAccess locs, _, _, _, run => locs.interns_of_run run
  | .blockSourceLoc locs, _, _, _, run => locs.interns_of_run run
  | .call _ _ locs, _, _, _, run => onAnswer_of_run run fun _ _ run => onAnswer_of_run run fun _ _ run =>
      locs.interns_of_run run
  | .callMemberOf _ locs calls, _, _, _, run => onAnswer_of_run run fun _ _ run => by
      obtain ⟨_, _, hl, run⟩ := run_bind_iff.1 run
      obtain ⟨_, _, hs, -⟩ := run_bind_iff.1 run
      rw [onAnswer_of_ok hl, locs.interns_of_ok hl, internsList_of_ok calls hs, spells]

theorem internsList_of_ok : ∀ (ss : List StmtTerm) {w v : Workspace} {sts : List (Stmt NodeId)},
    buildList ss w = .ok sts v → internsList w ss = spellsList ss
  | [], _, _, _, _ => rfl
  | s :: ss, _, _, _, run => by
    obtain ⟨_, _, hs, run⟩ := run_bind_iff.1 run
    obtain ⟨_, _, hss, -⟩ := run_bind_iff.1 run
    rw [internsList, onAnswer_of_ok hs, interns_of_ok s hs, internsList_of_ok ss (dropOnFailure_ok_iff.1 hss),
      spellsList]

end

mutual

/-- A statement that is refused has interned the first part of it. -/
theorem interns_prefix : ∀ (s : StmtTerm) (w : Workspace), s.interns w <+: s.spells
  | .slot _, _ | .varAssign _ _, _ | .goto _, _ | .ret, _ | .assume _ _, _ => List.prefix_rfl
  | .eval _ locs, _ | .assert _ _ _ _ locs, _ | .waitGroupEvent _ locs, _ =>
    onAnswer_prefix fun _ _ => locs.interns_prefix
  | .store _ _ _ locs, _ => onAnswer_prefix fun _ _ => onAnswer_prefix fun _ _ => onAnswer_prefix fun _ _ =>
      locs.interns_prefix
  | .badAccess locs, _ | .blockSourceLoc locs, _ => locs.interns_prefix
  | .call _ _ locs, _ => onAnswer_prefix fun _ _ => onAnswer_prefix fun _ _ => locs.interns_prefix
  | .callMemberOf _ locs calls, _ => onAnswer_prefix fun _ _ => append_onAnswer_prefix locs.interns_prefix
      (fun _ _ run => locs.interns_of_ok run) fun _ w => internsList_prefix calls w

theorem internsList_prefix : ∀ (ss : List StmtTerm) (w : Workspace), internsList w ss <+: spellsList ss
  | [], _ => List.prefix_rfl
  | s :: ss, w => append_onAnswer_prefix (s.interns_prefix w) (fun _ _ run => s.interns_of_ok run) fun _ w =>
      internsList_prefix ss w

end

end StmtTerm

/-! ## Commands -/

namespace Command

/-- **A command that succeeds has interned all that it spells.** -/
theorem interns_of_ok {c : Command} {w v : Workspace} {r : Reply} (run : c.perform w = .ok r v) :
    c.interns w = c.spells := by
  cases c with
  | locs t into => exact t.interns_of_run run
  | stmt s into =>
    obtain ⟨_, _, hs, -⟩ := run_bind_iff.1 run
    exact s.interns_of_ok hs
  | addStmt site s =>
    rw [interns, ← onAnswer_discard]
    refine onAnswer_of_run run fun _ _ run => ?_
    obtain ⟨_, _, hs, -⟩ := run_bind_iff.1 run
    exact s.interns_of_ok hs
  | addEval site e t =>
    rw [interns, ← onAnswer_discard]
    exact onAnswer_of_run run fun _ _ run => onAnswer_of_run run fun _ _ run => t.interns_of_run run
  | addClause kind f e t =>
    exact onAnswer_of_run run fun _ _ run => onAnswer_of_run run fun _ _ run => t.interns_of_run run
  | addVar role f name typ into =>
    refine onAnswer_of_run run fun fn _ run => onAnswer_of_run run fun _ _ run => ?_
    obtain ⟨_, _, ok, -⟩ := run_bind_iff.1 run
    exact if_pos (Function.checkOpen_ok_iff.1 (run_ofExcept_iff.1 ok).1)
  | addBlock | addAttribute | module | addArray => exact onAnswer_of_run run fun _ _ _ => rfl
  | _ => rfl

/-- **A command that fails has interned the first part of what it spells.** -/
theorem interns_prefix (c : Command) (w : Workspace) : c.interns w <+: c.spells := by
  cases c with
  | locs t into => exact t.interns_prefix
  | stmt s into => exact s.interns_prefix w
  | addStmt site s => exact onAnswer_prefix fun _ w => s.interns_prefix w
  | addEval site e t | addClause kind f e t =>
    exact onAnswer_prefix fun _ _ => onAnswer_prefix fun _ _ => t.interns_prefix
  | addVar role f name typ into =>
    refine onAnswer_prefix fun fn _ => onAnswer_prefix fun _ _ => ?_
    split
    · exact List.prefix_rfl
    · exact List.nil_prefix
  | addBlock | addAttribute | module | addArray => exact onAnswer_prefix fun _ _ => List.prefix_rfl
  | _ => exact List.prefix_rfl

end Command

theorem Workspace.interns_of_step_ok {w : Workspace} {c : Command} {r : Reply} (ok : (w.step c).1 = .ok r) :
    c.interns w = c.spells := by
  obtain ⟨v, run, -⟩ := run_of_ok ok
  exact Command.interns_of_ok run

end KernelIR
