import KernelIR.Proofs.Names
import KernelIR.Proofs.Reachable
/-!
# Interning — which texts a command interns

A name is interned where an object gets it: some constructors do so before their checks, and some after.  So which texts
a command interns depends on how far it gets, and a command that fails may have interned some.  `Command.interns` lists
them, from left to right, each with what must be answered before it is its turn.

Every computation is given once with the texts that it interns (`Build.Interns`); most intern none (`Build.Quiet`).
All of this is about a table of names that can be had; once it is poisoned, a computation is refused where it would
intern.

Main statement: `Workspace.step_names`, the names after a command are the names before it with these texts interned,
whether the command succeeds or fails.
-/
namespace KernelIR

/-! ## The texts that are interned -/

def LocTerm.spells (l : LocTerm) : List String := [l.file, l.path]

/-- What follows an answer; nothing follows a failure. -/
def Build.onAnswer {α : Type} (act : Build α) (w : Workspace) (next : α → Workspace → List String) : List String :=
  match act w with
  | .ok a w' => next a w'
  | .error _ _ => []

/-- Line and column are words. -/
def LocTerm.InRange (l : LocTerm) : Prop :=
  (0 ≤ l.line ∧ l.line < UInt64.size) ∧ 0 ≤ l.column ∧ l.column < UInt64.size

instance (l : LocTerm) : Decidable l.InRange := inferInstanceAs (Decidable ((_ ∧ _) ∧ _ ∧ _))

/-- The texts of every location that is made: those up to the first that is out of range, which has its names already
when it is refused. -/
def LocTerm.internsList : List LocTerm → List String
  | [] => []
  | l :: ls => l.spells ++ if l.InRange then internsList ls else []

def LocsTerm.interns : LocsTerm → List String
  | .slot _ => []
  | .list ls => LocTerm.internsList ls

namespace StmtTerm

mutual

/-- The texts that the evaluation of the term interns: those of its locations, when its expressions are answered. -/
def interns (w : Workspace) : StmtTerm → List String
  | .slot _ | .varAssign _ _ | .goto _ | .ret | .assume _ _ => []
  | .eval e locs | .assert e _ _ _ locs | .waitGroupEvent e locs => e.build.onAnswer w fun _ _ => locs.interns
  | .store a o v locs => a.build.onAnswer w fun _ w => o.build.onAnswer w fun _ w => v.build.onAnswer w fun _ _ =>
      locs.interns
  | .badAccess locs | .blockSourceLoc locs => locs.interns
  | .call c args locs => (Build.calleeSlot c).onAnswer w fun _ w => (Term.buildList args).onAnswer w fun _ _ =>
      locs.interns
  | .callMemberOf func locs calls => func.build.onAnswer w fun _ w => locs.interns ++ locs.build.onAnswer w fun _ w =>
      internsList w calls

def internsList (w : Workspace) : List StmtTerm → List String
  | [] => []
  | s :: ss => s.interns w ++ s.build.onAnswer w fun _ w => internsList w ss

end

end StmtTerm

/-- **The texts that a command interns**, in order.  A parameter or a return value whose signature is in use is refused
before it gets its name; locals are no part of the signature. -/
def Command.interns (w : Workspace) : Command → List String
  | .locs t _ => t.interns
  | .stmt s _ => s.interns w
  | .block _ name _ | .function name _ => [name]
  | .addStmt site s => (Build.blockAt site).onAnswer w fun _ w => s.interns w
  | .addEval site e t => (Build.blockAt site).onAnswer w fun _ w => e.build.onAnswer w fun _ _ => t.interns
  | .addVar role f name typ _ => (Build.functionSlot f).onAnswer w fun fn w => (Build.ofResult typ.eval).onAnswer w
      fun _ _ => if role = .localVar ∨ fn.callee = none then [name] else []
  | .addBlock f name | .addAttribute f name => (Build.functionSlot f).onAnswer w fun _ _ => [name]
  | .addClause _ f e t => (Build.functionSlot f).onAnswer w fun _ w => e.build.onAnswer w fun _ _ => t.interns
  | .module name model _ => (Build.ofResult model.eval).onAnswer w fun _ _ => [name]
  | .addArray m name _ _ => (Build.moduleSlot m).onAnswer w fun _ _ => [name]
  | .expr _ _ | .operand _ _ _ | .info _ | .dump _ | .refCount _ | .markers _ | .preventEval _ | .sameNode _ _
  | .typecheckCall _ _ | .distinct _ _ | .debug _ _ | .drop _ _ | .compareLocs _ _ | .showStmt _ | .sourceLocs _
  | .showBlock _ | .hasAttribute _ _ | .callee _ _ | .showFunction _ | .addFunction _ _ | .addAxiom _ _
  | .showModule _ => []

/-! ## What a computation interns -/

namespace Workspace

/-- The table of names is the same one, and can be had as before. -/
structure SameNames (w w' : Workspace) : Prop where
  names : w'.names = w.names
  poisoned : w'.poisoned = w.poisoned

variable (w : Workspace)

theorem sameNames_mapStore (f : Store → Store) : w.SameNames (w.mapStore f) := ⟨rfl, rfl⟩

theorem sameNames_acquire (held evaluated : List NodeId) : w.SameNames (w.acquire held evaluated) := ⟨rfl, rfl⟩

theorem sameNames_putModule (x : String) (m : Module) : w.SameNames (w.putModule x m) := ⟨rfl, rfl⟩

theorem sameNames_take (kind : OwnedKind) (x : String) : w.SameNames (w.take kind x) := by
  cases kind <;> exact ⟨rfl, rfl⟩

theorem sameNames_put (x : String) (o : Owned) : w.SameNames (w.put x o) := by
  cases o <;> exact ⟨rfl, rfl⟩

theorem sameNames_putBlock (site : BlockSite) (b : Block) : w.SameNames (w.putBlock site b) := by
  rw [putBlock_tables]
  exact ⟨rfl, rfl⟩

theorem sameNames_putFunction (site : FunctionSite) (f : Function) : w.SameNames (w.putFunction site f) := by
  rw [putFunction_tables]
  exact ⟨rfl, rfl⟩

/-- These texts, and no others, were interned on the way to `w'`, where the table can still be had. -/
structure Interned (texts : List String) (w' : Workspace) : Prop where
  names : w'.names = w.names.internAll texts
  free : w'.poisoned = false

end Workspace

namespace Build

variable {α β : Type} {w : Workspace} {act : Build α} {texts : List String}

/-- **The computation interns these texts**, in this order and no others, whether it succeeds or fails. -/
def Interns (act : Build α) (w : Workspace) (texts : List String) : Prop :=
  w.poisoned = false → act.Ends w (fun _ w' => w.Interned texts w') fun _ w' => w.Interned texts w'

/-- The computation interns nothing, wherever it is run. -/
def Quiet (act : Build α) : Prop := ∀ w, act.Interns w []

theorem onAnswer_of_ok {k : α → Workspace → List String} {a : α} {w' : Workspace} (run : act w = .ok a w') :
    act.onAnswer w k = k a w' := by
  rw [onAnswer, run]

theorem onAnswer_discard (act : Build α) (w : Workspace) (next : Workspace → List String) :
    ((discard act).onAnswer w fun _ => next) = act.onAnswer w fun _ => next := by
  unfold onAnswer
  simp only [Functor.discard, Functor.mapConst, Function.comp, EStateM.map]
  cases act w <;> rfl

theorem onAnswer_nil (act : Build α) (w : Workspace) : (act.onAnswer w fun _ _ => []) = [] := by
  unfold onAnswer
  split <;> rfl

namespace Interns

theorem congr {texts' : List String} (h : act.Interns w texts) (same : texts = texts') : act.Interns w texts' :=
  same ▸ h

/-- What is interned after a computation is interned when it answers. -/
theorem bind {f : α → Build β} {k : α → Workspace → List String} (h : act.Interns w texts)
    (hf : ∀ a w', act w = .ok a w' → (f a).Interns w' (k a w')) :
    (act >>= f).Interns w (texts ++ act.onAnswer w k) := fun free => by
  refine Ends.bind_run (h free) (fun e w' first run => ?_) fun a w' first run => ?_
  · unfold onAnswer
    rw [run, List.append_nil]
    exact first
  · have both : ∀ {w''}, w'.Interned (k a w') w'' → w.Interned (texts ++ act.onAnswer w k) w'' := fun later => by
      refine ⟨?_, later.free⟩
      rw [onAnswer_of_ok run, Names.internAll_append, ← first.names, later.names]
    exact (hf a w' run first.free).mono (fun _ _ => both) fun _ _ => both

/-- Nothing is interned after the computation. -/
theorem quietly {f : α → Build β} (h : act.Interns w texts) (hf : ∀ a, Quiet (f a)) : (act >>= f).Interns w texts :=
  (h.bind (k := fun _ _ => []) fun a w' _ => hf a w').congr (by rw [onAnswer_nil, List.append_nil])

theorem intern (s : String) (w : Workspace) : (intern s).Interns w [s] := fun free =>
  ends_of_run (run_intern free s) ⟨rfl, free⟩

end Interns

namespace Quiet

/-- Nothing is interned before the computation. -/
theorem bind {f : α → Build β} {k : α → Workspace → List String} (h : Quiet act)
    (hf : ∀ a w', act w = .ok a w' → (f a).Interns w' (k a w')) : (act >>= f).Interns w (act.onAnswer w k) :=
  (h w).bind hf

theorem quietly {f : α → Build β} (h : Quiet act) (hf : ∀ a, Quiet (f a)) : Quiet (act >>= f) := fun w =>
  (h w).quietly hf

theorem of_reads (h : Reads act) : Quiet act := fun w free => by
  have both : ∀ {w'}, w' = w → w.Interned [] w' := fun same => by
    rw [same]
    exact ⟨rfl, free⟩
  exact (h w).mono (fun _ _ => both) fun _ _ same => both same.1

theorem pure (a : α) : Quiet (pure a) := of_reads (.pure a)

theorem throw (e : Failure) : Quiet (throw e : Build α) := fun _ free => ⟨rfl, free⟩

theorem get {f : Workspace → Build α} (hf : ∀ w, Quiet (f w)) : Quiet (get >>= f) := fun w free =>
  ends_get (hf w w free)

theorem modify {g : Workspace → Workspace} (same : ∀ w : Workspace, w.SameNames (g w)) :
    Quiet (modify g : Build Unit) := fun w free => ⟨(same w).names, (same w).poisoned.trans free⟩

theorem modifyGet {g : Workspace → α × Workspace} (same : ∀ w : Workspace, w.SameNames (g w).2) : Quiet (modifyGet g) :=
  fun w free => ⟨(same w).names, (same w).poisoned.trans free⟩

theorem discard (h : Quiet act) : Quiet (discard act) := fun w free =>
  (Ends.discard (h w free)).imp fun _ _ ⟨_, nothing⟩ => nothing

theorem mapM {f : β → Build α} (hf : ∀ b, Quiet (f b)) : ∀ l : List β, Quiet (l.mapM f)
  | [] => pure _
  | b :: l => by
    rw [List.mapM_cons]
    exact (hf b).quietly fun _ => (mapM hf l).quietly fun _ => pure _

theorem slot (kind : SlotKind) (table : Workspace → Table α) (x : String) : Quiet (slot kind table x) :=
  of_reads (.slot kind table x)

theorem ofExcept (x : Except Fault α) : Quiet (ofExcept x) := fun _ free =>
  ends_ofExcept (fun _ _ => ⟨rfl, free⟩) fun _ _ => ⟨rfl, free⟩

theorem ofResult (x : Except Failure α) : Quiet (ofResult x) := fun _ free =>
  ends_ofResult (fun _ _ => ⟨rfl, free⟩) fun _ _ => ⟨rfl, free⟩

theorem freshId : Quiet freshId := modifyGet fun _ => ⟨rfl, rfl⟩

theorem newLocs (list : List SourceLoc) : Quiet (newLocs list) := freshId.quietly fun _ => pure _

theorem keep {set : String → α → Workspace → Workspace} (into : Option String) {a : α}
    (same : ∀ x (w : Workspace), w.SameNames (set x a w)) : Quiet (keep set into a) := by
  cases into with
  | some x => exact modify (same x)
  | none => exact pure ()

theorem giveUp (held evaluated : List NodeId) : Quiet (giveUp held evaluated) := .get fun w => by
  split
  · exact modify fun _ => ⟨rfl, rfl⟩
  · exact throw _

theorem dropOwned (os : List Owned) : Quiet (dropOwned os) := giveUp _ _

theorem setOwned (x : String) (o : Owned) : Quiet (setOwned x o) :=
  .get fun _ => (modify fun w => w.sameNames_take o.kind x).quietly fun _ => (dropOwned _).quietly fun _ =>
    modify fun w => w.sameNames_put x o

theorem keepOwned (into : Option String) (o : Owned) : Quiet (keepOwned into o) := by
  cases into with
  | some x => exact setOwned x o
  | none => exact dropOwned [o]

theorem remove (x : String) (o : Owned) : Quiet (remove x o) :=
  (modify fun w => w.sameNames_take o.kind x).quietly fun _ => dropOwned [o]

end Quiet

/-- What is dropped after a failure interns nothing. -/
theorem Interns.dropOnFailure (ss : List (Stmt NodeId)) (h : act.Interns w texts) :
    (dropOnFailure ss act).Interns w texts := fun free => by
  have before := h free
  unfold Ends Build.dropOnFailure
  cases run : act w with
  | ok a w' => exact before.ok run
  | error e w' =>
    have first := before.error run
    have both : ∀ {w''}, w'.Interned [] w'' → w.Interned texts w'' := fun later =>
      ⟨later.names.trans first.names, later.free⟩
    have dropped : Quiet (do dropStmts ss; throw e : Build α) := (Quiet.dropOwned _).quietly fun _ => .throw e
    exact (dropped w' first.free).mono (fun _ _ => both) fun _ _ => both

namespace Quiet

theorem dropOnFailure (ss : List (Stmt NodeId)) (h : Quiet act) : Quiet (dropOnFailure ss act) := fun w =>
  (h w).dropOnFailure ss

/-! ## Nodes and statements -/

theorem construct (f : Form NodeId) : Quiet (construct f) := .get fun w => (ofExcept _).quietly fun b => by
  cases b with
  | reuse n => exact pure n
  | fresh shape t => exact modifyGet fun _ => ⟨rfl, rfl⟩

theorem newStmt (body : StmtBody NodeId) (locs : Locs) : Quiet (newStmt body locs) :=
  .get fun _ => (ofExcept _).quietly fun _ => (modify fun w => w.sameNames_acquire _ _).quietly fun _ =>
    freshId.quietly fun _ => pure _

theorem newUnlocated (body : StmtBody NodeId) : Quiet (newUnlocated body) :=
  (newLocs []).quietly fun l => newStmt body l

theorem newIndirectCall (func : NodeId) (ss : List (Stmt NodeId)) (locs : Locs) :
    Quiet (newIndirectCall func ss locs) := by
  have made : Quiet (Build.dropOnFailure ss do
      let r := (← MonadState.get).store.reader
      Build.ofExcept (StmtBody.checkIndirect r func)
      let calls ← Build.ofExcept (ss.mapM (Stmt.asCall r))
      Build.newStmt (.callMemberOf func calls) locs) :=
    dropOnFailure ss (.get fun _ => (ofExcept _).quietly fun _ => (ofExcept _).quietly fun _ => newStmt _ locs)
  exact made.quietly fun s => (dropOwned _).quietly fun _ => pure s

theorem blockAt (site : BlockSite) : Quiet (blockAt site) := by
  cases site with
  | loose x => exact slot _ _ x
  | inFunction x i => exact (slot _ _ x).quietly fun _ => ofExcept _

theorem appendStmt (site : BlockSite) (s : Stmt NodeId) : Quiet (appendStmt site s) := by
  have pushed : Quiet (Build.dropOnFailure [s] do
      let b ← Build.blockAt site
      return b.push (← Build.ofExcept (s.place b.id))) :=
    dropOnFailure [s] ((blockAt site).quietly fun _ => (ofExcept _).quietly fun _ => pure _)
  exact pushed.quietly fun b => (modify fun w => w.sameNames_putBlock site b).quietly fun _ => pure _

theorem addEvalTo (site : BlockSite) (n : NodeId) (locs : Locs) : Quiet (Command.addEvalTo site n locs) := by
  refine .get fun w => ?_
  dsimp only
  split
  · exact (blockAt site).quietly fun _ => pure _
  · exact (newStmt _ locs).quietly fun s => appendStmt site s

theorem calleeOf (site : FunctionSite) (f : Function) : Quiet (calleeOf site f) := by
  unfold Build.calleeOf
  split
  · exact pure _
  · exact freshId.quietly fun _ => (modify fun w => w.sameNames_putFunction site _).quietly fun _ => pure _

theorem moveFunction (m f : String) : Quiet (moveFunction m f) := by
  refine (slot _ _ m).quietly fun md => (slot _ _ f).quietly fun fn =>
    (modify fun w => w.sameNames_take .function f).quietly fun _ => ?_
  split
  · exact (modify fun w => w.sameNames_putModule m _).quietly fun _ => pure _
  · exact (dropOwned _).quietly fun _ => throw _

theorem drop (kind : DroppedKind) (x : String) : Quiet (drop kind x) := by
  cases kind with
  | expr | var => exact (slot _ _ x).discard.quietly fun _ => modify fun _ => ⟨rfl, rfl⟩
  | stmt | block | function | module => exact (slot _ _ x).quietly fun _ => remove x _

end Quiet

namespace Interns

theorem newVar (name : String) (t : Ty) (w : Workspace) : (newVar name t).Interns w [name] :=
  (intern name w).quietly fun _ => Quiet.freshId.quietly fun _ => .pure _

theorem newArray (name : String) (space : MemorySpace) (w : Workspace) : (newArray name space).Interns w [name] :=
  (intern name w).quietly fun _ => Quiet.freshId.quietly fun _ => .pure _

end Interns

end Build

open Build

/-! ## Locations -/

theorem wordOfInt_ok_iff {n : Int} : (∃ w, wordOfInt n = .ok w) ↔ 0 ≤ n ∧ n < UInt64.size := by
  unfold wordOfInt
  split
  · exact iff_of_false nofun (by omega)
  · split
    · exact iff_of_true ⟨_, rfl⟩ (by omega)
    · exact iff_of_false nofun (by omega)

namespace LocTerm

/-- The names come first, so a location that is refused has interned them. -/
theorem interns_build (l : LocTerm) (w : Workspace) : l.build.Interns w l.spells := fun free => by
  have named : l.build.Interns w ([l.file] ++ (intern l.file).onAnswer w fun _ _ => [l.path]) :=
    (Interns.intern l.file w).bind fun _ w' _ => (Interns.intern l.path w').quietly fun _ =>
      (Quiet.ofExcept _).quietly fun _ => (Quiet.ofExcept _).quietly fun _ => .pure _
  rw [onAnswer_of_ok (run_intern free l.file)] at named
  exact named free

/-- A location is made only when its numbers are words. -/
theorem inRange_of_build {l : LocTerm} {w v : Workspace} {x : SourceLoc} (run : l.build w = .ok x v) : l.InRange := by
  obtain ⟨_, _, -, run⟩ := run_bind_iff.1 run
  obtain ⟨_, _, -, run⟩ := run_bind_iff.1 run
  obtain ⟨line, _, hl, run⟩ := run_bind_iff.1 run
  obtain ⟨column, _, hc, -⟩ := run_bind_iff.1 run
  exact ⟨wordOfInt_ok_iff.1 ⟨line, (run_ofExcept_iff.1 hl).1⟩, wordOfInt_ok_iff.1 ⟨column, (run_ofExcept_iff.1 hc).1⟩⟩

/-- When they are, it is made, if the table of names can be had. -/
theorem build_of_inRange {l : LocTerm} {w : Workspace} (free : w.poisoned = false) (range : l.InRange) :
    ∃ x v, l.build w = .ok x v := by
  obtain ⟨line, hl⟩ := wordOfInt_ok_iff.2 range.1
  obtain ⟨column, hc⟩ := wordOfInt_ok_iff.2 range.2
  have named := run_intern (w := { w with names := (w.names.intern l.file).2 }) free l.path
  exact ⟨_, _, run_bind_iff.2 ⟨_, _, run_intern free l.file, run_bind_iff.2 ⟨_, _, named, run_bind_iff.2 ⟨line, _,
    run_ofExcept_iff.2 ⟨hl, rfl⟩, run_bind_iff.2 ⟨column, _, run_ofExcept_iff.2 ⟨hc, rfl⟩, rfl⟩⟩⟩⟩⟩

theorem onAnswer_build (l : LocTerm) {w : Workspace} (free : w.poisoned = false) (texts : List String) :
    (l.build.onAnswer w fun _ _ => texts) = if l.InRange then texts else [] := by
  split
  · rename_i range
    obtain ⟨_, _, run⟩ := build_of_inRange free range
    exact onAnswer_of_ok run
  · rename_i out
    unfold onAnswer
    split
    · rename_i run
      exact absurd (inRange_of_build run) out
    · rfl

theorem interns_buildList : ∀ (ls : List LocTerm) (w : Workspace), (ls.mapM build).Interns w (internsList ls)
  | [], w => Quiet.pure _ w
  | l :: ls, w => fun free => by
    rw [List.mapM_cons, internsList, ← l.onAnswer_build free]
    exact (l.interns_build w).bind (fun _ w' _ => (interns_buildList ls w').quietly fun _ => .pure _) free

end LocTerm

namespace LocsTerm

theorem interns_build : ∀ (t : LocsTerm) (w : Workspace), t.build.Interns w t.interns
  | .slot x, w => Quiet.slot _ _ x w
  | .list ls, w => (LocTerm.interns_buildList ls w).quietly fun _ => .newLocs _

end LocsTerm

/-! ## Terms -/

namespace Term

mutual

theorem quiet_build : ∀ t : Term, Quiet t.build
  | .slot x => .slot _ _ x
  | .bvConst _ _ | .bvZero _ | .boolConst _ => .construct _
  | .arrayRef x | .varRef x => (Quiet.slot _ _ x).quietly fun _ => .construct _
  | .pointer a o | .load a o => a.quiet_build.quietly fun _ => o.quiet_build.quietly fun _ => .construct _
  | .call c args => (Quiet.slot _ _ c).quietly fun _ => (quiet_buildList args).quietly fun _ => .construct _
  | .bvExtract e _ _ | .extend _ e _ | .unary _ e => e.quiet_build.quietly fun _ => .construct _
  | .binary _ l r => l.quiet_build.quietly fun _ => r.quiet_build.quietly fun _ => .construct _

theorem quiet_buildList : ∀ ts : List Term, Quiet (buildList ts)
  | [] => .pure _
  | t :: ts => t.quiet_build.quietly fun _ => (quiet_buildList ts).quietly fun _ => .pure _

end

end Term

namespace StmtTerm

theorem interns_buildMarked (value : Bool) (facets : Facets) (locs : LocsTerm) (w : Workspace) :
    (buildMarked value facets locs).Interns w locs.interns :=
  (locs.interns_build w).quietly fun _ => (Quiet.construct _).quietly fun _ => .newStmt _ _

/-- A located statement interns what its locations do. -/
theorem interns_located (body : StmtBody NodeId) (locs : LocsTerm) (w : Workspace) :
    (locs.build >>= newStmt body).Interns w locs.interns := (locs.interns_build w).quietly fun _ => .newStmt _ _

mutual

theorem interns_build : ∀ (s : StmtTerm) (w : Workspace), s.build.Interns w (s.interns w)
  | .slot x, w => ((Quiet.slot _ _ x).quietly fun _ => (Quiet.modify fun w => w.sameNames_take .stmt x).quietly fun _ =>
      .pure _) w
  | .eval e locs, _ => e.quiet_build.bind fun _ w _ => interns_located _ locs w
  | .store a o v locs, _ => a.quiet_build.bind fun _ _ _ => o.quiet_build.bind fun _ _ _ => v.quiet_build.bind
      fun _ w _ => interns_located _ locs w
  | .varAssign vars values, w => ((Quiet.mapM (.slot _ _) vars).quietly fun _ =>
      (Term.quiet_buildList values).quietly fun _ => .newUnlocated _) w
  | .goto _, w => Quiet.newUnlocated _ w
  | .ret, w => Quiet.newUnlocated _ w
  | .assume e _, w => (e.quiet_build.quietly fun _ => .newUnlocated _) w
  | .assert e _ _ _ locs, _ => e.quiet_build.bind fun _ w _ => interns_located _ locs w
  | .badAccess locs, w => interns_buildMarked _ _ locs w
  | .blockSourceLoc locs, w => interns_buildMarked _ _ locs w
  | .call c args locs, _ => (Quiet.slot _ _ c).bind fun _ _ _ => (Term.quiet_buildList args).bind fun _ w _ =>
      interns_located _ locs w
  | .callMemberOf func locs calls, _ => func.quiet_build.bind fun _ w _ => (locs.interns_build w).bind fun _ w _ =>
      (interns_buildList calls w).quietly fun _ => .newIndirectCall _ _ _
  | .waitGroupEvent e locs, _ => e.quiet_build.bind fun _ w _ => interns_located _ locs w

theorem interns_buildList : ∀ (ss : List StmtTerm) (w : Workspace), (buildList ss).Interns w (internsList w ss)
  | [], w => Quiet.pure _ w
  | s :: ss, w => (s.interns_build w).bind fun st w _ =>
      ((interns_buildList ss w).dropOnFailure [st]).quietly fun _ => .pure _

end

end StmtTerm

/-! ## Commands -/

theorem Function.checkOpen_ok_iff {f : Function} {role : VarRole} :
    f.checkOpen role = .ok () ↔ role = .localVar ∨ f.callee = none := by
  unfold checkOpen
  cases role <;> cases f.callee <;> simp [VarRole.part?]

namespace Command

/-- What the declaration of a variable goes on with, when the signature does not refuse it. -/
theorem interns_open {α : Type} {act : Build α} {w : Workspace} {texts : List String} (role : VarRole) (f : Function)
    (h : act.Interns w texts) :
    (ofExcept (f.checkOpen role) >>= fun _ => act).Interns w
      (if role = .localVar ∨ f.callee = none then texts else []) := by
  cases check : f.checkOpen role with
  | ok u =>
    rw [if_pos (Function.checkOpen_ok_iff.1 check)]
    exact h
  | error e =>
    have used : ¬(role = .localVar ∨ f.callee = none) := fun free => by
      cases check.symm.trans (Function.checkOpen_ok_iff.2 free)
    rw [if_neg used]
    exact fun free => ⟨rfl, free⟩

/-- **A command interns its texts**, and nothing else. -/
theorem interns_perform : ∀ (c : Command) (w : Workspace), c.perform.Interns w (c.interns w)
  | .expr e into, w => (e.quiet_build.quietly fun n => .get fun _ =>
      (Quiet.keep into fun _ _ => ⟨rfl, rfl⟩).quietly fun _ => .pure _) w
  | .operand x i into, w => by
    refine ((Quiet.slot _ _ x).quietly fun n => .get fun w => ?_) w
    split
    · exact (Quiet.keep into fun _ _ => ⟨rfl, rfl⟩).quietly fun _ => .pure _
    · exact .throw _
  | .info x, w | .dump x, w | .refCount x, w | .markers x, w | .showModule x, w =>
    ((Quiet.slot _ _ x).quietly fun _ => .get fun _ => .pure _) w
  | .preventEval x, w => ((Quiet.slot _ _ x).quietly fun n => (Quiet.modify fun w =>
      w.sameNames_mapStore (Store.prevent n)).quietly fun _ => .pure _) w
  | .sameNode x y, w | .compareLocs x y, w =>
    ((Quiet.slot _ _ x).quietly fun _ => (Quiet.slot _ _ y).quietly fun _ => .pure _) w
  | .typecheckCall c args, w => ((Quiet.slot _ _ c).quietly fun _ => (Term.quiet_buildList args).quietly fun _ =>
      .get fun _ => .pure _) w
  | .distinct kind xs, w => ((Quiet.of_reads (reads_distinct kind xs)).quietly fun _ => .pure _) w
  | .debug kind x, w => ((Quiet.of_reads (reads_debug kind x)).quietly fun _ => .pure _) w
  | .drop kind x, w => ((Quiet.drop kind x).quietly fun _ => .pure _) w
  | .locs t into, w => (t.interns_build w).quietly fun _ => (Quiet.keep into fun _ _ => ⟨rfl, rfl⟩).quietly fun _ =>
      .get fun _ => .pure _
  | .stmt s into, w => (s.interns_build w).quietly fun _ => .get fun _ => (Quiet.keepOwned into _).quietly fun _ =>
      .pure _
  | .showStmt s, w => ((Quiet.of_reads (reads_findStmt s)).quietly fun _ => .get fun _ => .pure _) w
  | .sourceLocs s, w => by
    refine ((Quiet.of_reads (reads_findStmt s)).quietly fun s => ?_) w
    split
    · exact (Quiet.throw _).quietly fun _ => .get fun _ => .pure _
    · exact .get fun _ => .pure _
  | .block id name into, w => (Interns.intern name w).quietly fun _ => (Quiet.keepOwned into _).quietly fun _ =>
      .get fun _ => .pure _
  | .addStmt site s, w => by
    rw [interns, ← onAnswer_discard]
    exact (Quiet.blockAt site).discard.bind fun _ w _ => (s.interns_build w).quietly fun s =>
      (Quiet.appendStmt site s).quietly fun _ => .pure _
  | .addEval site e t, w => by
    rw [interns, ← onAnswer_discard]
    exact (Quiet.blockAt site).discard.bind fun _ _ _ => e.quiet_build.bind fun n w _ =>
      (t.interns_build w).quietly fun l => (Quiet.addEvalTo site n l).quietly fun _ => .pure _
  | .showBlock b, w => ((Quiet.of_reads (reads_findBlock b)).quietly fun _ => .get fun _ => .pure _) w
  | .function name into, w => (Interns.intern name w).quietly fun _ => (Quiet.keepOwned into _).quietly fun _ =>
      .get fun _ => .pure _
  | .addVar role f name typ into, _ => (Quiet.slot _ _ f).bind fun fn _ _ => (Quiet.ofResult _).bind fun t w _ =>
      interns_open role fn ((Interns.newVar name t w).quietly fun v =>
        (Quiet.modify fun w => w.sameNames_putFunction (.loose f) _).quietly fun _ =>
          (Quiet.keep into fun _ _ => ⟨rfl, rfl⟩).quietly fun _ => .pure _)
  | .addBlock f name, w => (Quiet.slot _ _ f).bind fun fn w _ => (Interns.intern name w).quietly fun y =>
      (Quiet.modify fun w => w.sameNames_putFunction (.loose f) _).quietly fun _ => .pure _
  | .addAttribute f name, w => (Quiet.slot _ _ f).bind fun fn w _ => (Interns.intern name w).quietly fun y =>
      (Quiet.modify fun w => w.sameNames_putFunction (.loose f) _).quietly fun _ => .pure _
  | .addClause kind f e t, _ => (Quiet.slot _ _ f).bind fun fn _ _ => e.quiet_build.bind fun n w _ =>
      (t.interns_build w).quietly fun l => .get fun _ => (Quiet.ofExcept _).quietly fun _ =>
        (Quiet.modify fun w => w.sameNames_acquire [n] []).quietly fun _ =>
          (Quiet.modify fun w => w.sameNames_putFunction (.loose f) _).quietly fun _ => .pure _
  | .hasAttribute f name, w => by
    refine ((Quiet.of_reads (reads_findFunction f)).quietly fun p => ?_) w
    split
    · exact (Quiet.of_reads .checkNames).quietly fun _ => .get fun _ => .pure _
    · exact .get fun _ => .pure _
  | .callee f into, w => ((Quiet.of_reads (reads_findFunction f)).quietly fun p => (Quiet.calleeOf p.1 p.2).quietly
      fun _ => .get fun _ => (Quiet.keep into fun _ _ => ⟨rfl, rfl⟩).quietly fun _ => .pure _) w
  | .showFunction f, w => ((Quiet.of_reads (reads_findFunction f)).quietly fun _ => .get fun _ => .pure _) w
  | .module name model into, _ => (Quiet.ofResult _).bind fun _ w _ => (Interns.intern name w).quietly fun _ =>
      (Quiet.keepOwned into _).quietly fun _ => .get fun _ => .pure _
  | .addArray m name space into, _ => (Quiet.slot _ _ m).bind fun md w _ => (Interns.newArray name space w).quietly
      fun a => (Quiet.modify fun w => w.sameNames_putModule m _).quietly fun _ =>
        (Quiet.keep into fun _ _ => ⟨rfl, rfl⟩).quietly fun _ => .get fun _ => .pure _
  | .addFunction m f, w => ((Quiet.moveFunction m f).quietly fun _ => .pure _) w
  | .addAxiom m e, w => ((Quiet.slot _ _ m).quietly fun md => e.quiet_build.quietly fun n => .get fun _ =>
      (Quiet.ofExcept _).quietly fun _ => (Quiet.modify fun w => w.sameNames_acquire [n] []).quietly fun _ =>
        (Quiet.modify fun w => w.sameNames_putModule m _).quietly fun _ => .pure _) w

end Command

/-- **The names after a command** are those before it, with the texts that the command interns. -/
theorem Workspace.step_names {w : Workspace} (free : w.poisoned = false) (c : Command) :
    w.Interned (c.interns w) (w.step c).2 := by
  have ends := c.interns_perform w free
  cases run : c.perform w with
  | ok r v =>
    obtain ⟨names, free⟩ := ends.ok run
    rw [step_of_run run]
    exact ⟨names, free⟩
  | error e v =>
    obtain ⟨names, free⟩ := ends.error run
    rw [step_of_error run]
    exact ⟨names, free⟩

/-- No command poisons the table of names. -/
theorem Workspace.Reachable.free {w : Workspace} (h : w.Reachable) : w.poisoned = false :=
  h.induct (I := fun w => w.poisoned = false) rfl fun _ c free => (step_names free c).free

/-- Names are only added. -/
theorem Workspace.Reachable.run_names (cs : List Command) {w : Workspace} (h : w.Reachable) :
    w.names.texts <+: (w.run cs).2.names.texts := by
  induction cs generalizing w with
  | nil => exact List.prefix_rfl
  | cons c cs ih =>
    have first : w.names.texts <+: (w.step c).2.names.texts := by
      rw [(step_names h.free c).names]
      exact Names.prefix_internAll _ _
    exact first.trans (ih (h.run [c]))

end KernelIR
