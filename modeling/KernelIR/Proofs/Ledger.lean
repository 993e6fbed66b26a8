import KernelIR.Proofs.Frame
import KernelIR.Proofs.Requests
/-!
# Ledger — what the producer wrote

The ledger has one log for each slot that owns an object: the calls on that object which succeeded, in their order, with
the handles that they were given.  A log is only appended to (`Log.Extends`).  A failure appends nothing, an evaluation
that is left out appends nothing, and a function that a module accepts becomes, log and all, an entry of the module.

What a consumer should find is read off the log by picking the entries of one kind (`Log.object`).  Each append does to
it what the call does to the object (`FunctionLog.function_addBlock` and its neighbours).
-/
namespace KernelIR

/-! ## Logs -/

/-- What was asked of a block: statements, each as it was built. -/
structure BlockLog where
  id : BlockId
  name : Symbol
  stmts : List (Stmt NodeId)

/-- What can be asked of a function. -/
inductive FunctionEntry where
  | var (role : VarRole) (v : Var)
  | block (name : Symbol)
  /-- A statement for the block at a position. -/
  | stmt (position : Nat) (s : Stmt NodeId)
  | clause (kind : ClauseKind) (c : Clause)
  | attribute (name : Symbol)

structure FunctionLog where
  name : Symbol
  entries : List FunctionEntry

/-- What can be asked of a module. -/
inductive ModuleEntry where
  | array (r : GlobalArray)
  | function (l : FunctionLog)
  | predicate (n : NodeId)

structure ModuleLog where
  name : Symbol
  model : MachineModel
  entries : List ModuleEntry

inductive Log where
  | stmt (s : Stmt NodeId)
  | block (l : BlockLog)
  | function (l : FunctionLog)
  | module (l : ModuleLog)

namespace FunctionEntry

def var? (role : VarRole) : FunctionEntry → Option Var
  | .var r v => if r = role then some v else none
  | _ => none

def block? : FunctionEntry → Option Symbol
  | .block y => some y
  | _ => none

def stmt? (position : Nat) : FunctionEntry → Option (Stmt NodeId)
  | .stmt i s => if i = position then some s else none
  | _ => none

def clause? (kind : ClauseKind) : FunctionEntry → Option Clause
  | .clause k c => if k = kind then some c else none
  | _ => none

def attribute? : FunctionEntry → Option Symbol
  | .attribute y => some y
  | _ => none

end FunctionEntry

namespace ModuleEntry

def array? : ModuleEntry → Option GlobalArray
  | .array r => some r
  | _ => none

def function? : ModuleEntry → Option FunctionLog
  | .function l => some l
  | _ => none

def predicate? : ModuleEntry → Option NodeId
  | .predicate n => some n
  | _ => none

end ModuleEntry

namespace BlockLog

def add (s : Stmt NodeId) (l : BlockLog) : BlockLog := { l with stmts := l.stmts ++ [s] }

/-- The block that the log describes: it owns exactly these statements. -/
def block (l : BlockLog) : Block := ⟨l.id, l.name, l.stmts.map fun s => { s with parent := some l.id }⟩

end BlockLog

namespace FunctionLog

def add (e : FunctionEntry) (l : FunctionLog) : FunctionLog := { l with entries := l.entries ++ [e] }

/-- The blocks in the order in which they were added, each with the statements for its position. -/
def blocks (l : FunctionLog) : List Block :=
  (l.entries.filterMap (·.block?)).mapIdx fun i y => BlockLog.block ⟨⟨i⟩, y, l.entries.filterMap (·.stmt? i)⟩

/-- The function that the log describes. -/
def function (l : FunctionLog) : Function where
  name := l.name
  args := l.entries.filterMap (·.var? .parameter)
  returns := l.entries.filterMap (·.var? .returnValue)
  locals := l.entries.filterMap (·.var? .localVar)
  blocks := l.blocks
  requires := l.entries.filterMap (·.clause? .requires)
  ensures := l.entries.filterMap (·.clause? .ensures)
  attributes := l.entries.filterMap (·.attribute?)
  callee := none

/-- No statement is for a block that is still to come. -/
def Inside (l : FunctionLog) : Prop := ∀ i s, .stmt i s ∈ l.entries → i < l.blocks.length

end FunctionLog

namespace ModuleLog

def add (e : ModuleEntry) (l : ModuleLog) : ModuleLog := { l with entries := l.entries ++ [e] }

/-- The module that the log describes. -/
def module (l : ModuleLog) : Module where
  name := l.name
  model := l.model
  arrays := l.entries.filterMap (·.array?)
  functions := (l.entries.filterMap (·.function?)).map (·.function)
  index := []
  axioms := l.entries.filterMap (·.predicate?)

end ModuleLog

namespace Log

/-- **What a consumer should find.** -/
def object : Log → Owned
  | .stmt s => .stmt s
  | .block l => .block l.block
  | .function l => .function l.function
  | .module l => .module l.module

/-- The second log is the first one, with more entries at most. -/
def Extends : Log → Log → Prop
  | .stmt s, .stmt s' => s' = s
  | .block l, .block l' => ∃ more, l' = { l with stmts := l.stmts ++ more }
  | .function l, .function l' => ∃ more, l' = { l with entries := l.entries ++ more }
  | .module l, .module l' => ∃ more, l' = { l with entries := l.entries ++ more }
  | _, _ => False

def Inside : Log → Prop
  | .function l => l.Inside
  | .stmt _ | .block _ | .module _ => True

theorem Extends.refl : ∀ l : Log, l.Extends l
  | .stmt _ => rfl
  | .block _ | .function _ | .module _ => ⟨[], by rw [List.append_nil]⟩

end Log

/-! ## Each append does what the call does -/

theorem BlockLog.block_add (l : BlockLog) (s : Stmt NodeId) :
    (l.add s).block = l.block.push { s with parent := some l.id } := by
  unfold block add Block.push
  rw [List.map_append]
  rfl

namespace FunctionLog

variable {l : FunctionLog}

theorem length_blocks (l : FunctionLog) : l.blocks.length = (l.entries.filterMap (·.block?)).length := by
  rw [blocks, List.length_mapIdx]

theorem getElem?_blocks (l : FunctionLog) (i : Nat) : l.blocks[i]? = ((l.entries.filterMap (·.block?))[i]?).map fun y =>
    BlockLog.block ⟨⟨i⟩, y, l.entries.filterMap (·.stmt? i)⟩ := by
  rw [blocks, List.getElem?_mapIdx]

/-- An entry that is neither a block nor a statement leaves the blocks. -/
theorem blocks_add {e : FunctionEntry} (block : e.block? = none) (stmt : ∀ i, e.stmt? i = none) :
    (l.add e).blocks = l.blocks := by
  simp only [blocks, add, List.filterMap_append, List.filterMap_cons, List.filterMap_nil, block, stmt, List.append_nil]

theorem function_addVar (l : FunctionLog) (role : VarRole) (v : Var) :
    (l.add (.var role v)).function = l.function.addVar role v := by
  have blocks : (l.add (.var role v)).blocks = l.blocks := blocks_add rfl fun _ => rfl
  unfold function
  rw [blocks]
  cases role <;>
    simp [add, Function.addVar, FunctionEntry.var?, FunctionEntry.clause?, FunctionEntry.attribute?]

theorem function_addClause (l : FunctionLog) (kind : ClauseKind) (c : Clause) :
    (l.add (.clause kind c)).function = l.function.addClause kind c := by
  have blocks : (l.add (.clause kind c)).blocks = l.blocks := blocks_add rfl fun _ => rfl
  unfold function
  rw [blocks]
  cases kind <;>
    simp [add, Function.addClause, FunctionEntry.var?, FunctionEntry.clause?, FunctionEntry.attribute?]

theorem function_addAttribute (l : FunctionLog) (y : Symbol) :
    (l.add (.attribute y)).function = l.function.addAttribute y := by
  have blocks : (l.add (.attribute y)).blocks = l.blocks := blocks_add rfl fun _ => rfl
  unfold function
  rw [blocks]
  simp [add, Function.addAttribute, FunctionEntry.var?, FunctionEntry.clause?, FunctionEntry.attribute?]

/-- A block that is added is empty: the statements before it are for other blocks. -/
theorem function_addBlock (h : l.Inside) (y : Symbol) : (l.add (.block y)).function = l.function.addBlock y := by
  have empty : l.entries.filterMap (·.stmt? l.blocks.length) = [] := by
    refine List.filterMap_eq_nil_iff.2 fun e he => ?_
    cases e with
    | stmt i s => exact if_neg (Nat.ne_of_lt (h i s he))
    | _ => rfl
  have blocks : (l.add (.block y)).blocks = l.blocks ++ [.new ⟨l.blocks.length⟩ y] := by
    have stmts : ∀ i, (l.add (.block y)).entries.filterMap (·.stmt? i) = l.entries.filterMap (·.stmt? i) := fun i => by
      simp [add, FunctionEntry.stmt?]
    have names : (l.add (.block y)).entries.filterMap (·.block?) = l.entries.filterMap (·.block?) ++ [y] := by
      simp [add, FunctionEntry.block?]
    unfold FunctionLog.blocks
    simp only [stmts, names]
    rw [List.mapIdx_concat, ← length_blocks, empty]
    rfl
  unfold function
  rw [blocks]
  simp [add, Function.addBlock, FunctionEntry.var?, FunctionEntry.clause?, FunctionEntry.attribute?]

theorem function_addStmt {i : Nat} {b : Block} (here : l.blocks[i]? = some b) (s : Stmt NodeId) :
    (l.add (.stmt i s)).function = l.function.setBlock i (b.push { s with parent := some b.id }) := by
  have names : (l.add (.stmt i s)).entries.filterMap (·.block?) = l.entries.filterMap (·.block?) := by
    simp [add, FunctionEntry.block?]
  have blocks : (l.add (.stmt i s)).blocks = l.blocks.set i (b.push { s with parent := some b.id }) := by
    refine List.ext_getElem? fun j => ?_
    rw [getElem?_blocks, names, List.getElem?_set]
    split
    · rename_i hj
      subst hj
      rw [if_pos (List.getElem?_eq_some_iff.1 here).1]
      rw [getElem?_blocks] at here
      obtain ⟨y, hy, rfl⟩ := Option.map_eq_some_iff.1 here
      have stmts : (l.add (.stmt i s)).entries.filterMap (·.stmt? i) = l.entries.filterMap (·.stmt? i) ++ [s] := by
        simp [add, FunctionEntry.stmt?]
      have pushed := BlockLog.block_add ⟨⟨i⟩, y, l.entries.filterMap (·.stmt? i)⟩ s
      rw [hy, Option.map_some, stmts]
      exact congrArg some pushed
    · rename_i hj
      rw [getElem?_blocks]
      simp [add, FunctionEntry.stmt?, hj]
  unfold function
  rw [blocks]
  simp [add, Function.setBlock, FunctionEntry.var?, FunctionEntry.clause?, FunctionEntry.attribute?]

theorem Inside.add (h : l.Inside) {e : FunctionEntry} (he : ∀ i s, e = .stmt i s → i < l.blocks.length) :
    (l.add e).Inside := by
  have grows : l.blocks.length ≤ (l.add e).blocks.length := by
    rw [length_blocks, length_blocks, FunctionLog.add, List.filterMap_append, List.length_append]
    exact Nat.le_add_right _ _
  intro i s hs
  rcases List.mem_append.1 hs with hs | hs
  · exact Nat.lt_of_lt_of_le (h i s hs) grows
  · exact Nat.lt_of_lt_of_le (he i s (List.mem_singleton.1 hs).symm) grows

end FunctionLog

namespace ModuleLog

theorem module_addArray (l : ModuleLog) (r : GlobalArray) : (l.add (.array r)).module = l.module.addArray r := by
  simp [module, add, Module.addArray, ModuleEntry.array?, ModuleEntry.function?, ModuleEntry.predicate?]

theorem module_addFunction (l : ModuleLog) (f : FunctionLog) :
    (l.add (.function f)).module = { l.module with functions := l.module.functions ++ [f.function] } := by
  simp [module, add, ModuleEntry.array?, ModuleEntry.function?, ModuleEntry.predicate?]

/-- A function keeps its position, whatever is entered later. -/
theorem module_function (l : ModuleLog) (f : FunctionLog) (later : List ModuleEntry) :
    { l.add (.function f) with entries := (l.add (.function f)).entries ++ later }.module.functions[
      l.module.functions.length]? = some f.function := by
  simp [module, add, ModuleEntry.function?]

theorem module_addPredicate (l : ModuleLog) (n : NodeId) : (l.add (.predicate n)).module = l.module.addAxiom n := by
  simp [module, add, Module.addAxiom, ModuleEntry.array?, ModuleEntry.function?, ModuleEntry.predicate?]

end ModuleLog

/-! ## The ledger -/

/-- What a computation answers, if it does. -/
def Build.answer? {α : Type} (act : Build α) (w : Workspace) : Option α :=
  match act w with
  | .ok a _ => some a
  | .error _ _ => none

/-- The statement that a term asks for. -/
def StmtTerm.asked (w : Workspace) (s : StmtTerm) : Option (Stmt NodeId) :=
  Build.answer? (do let r ← s.ask; return r.stmt (← get).supply) w

/-- An evaluation is left out where its node has one already, and where none may be made. -/
def Workspace.leavesOut (w : Workspace) (s : Stmt NodeId) : Bool :=
  s.evaluated.any fun n => w.liveStmts.any (·.evaluates n) || (w.store.cell n).prevented

abbrev Ledger := OwnedSlot → Option Log

namespace Ledger

def block? (L : Ledger) (x : String) : Option BlockLog :=
  match L (.block, x) with
  | some (.block l) => some l
  | _ => none

def function? (L : Ledger) (x : String) : Option FunctionLog :=
  match L (.function, x) with
  | some (.function l) => some l
  | _ => none

def module? (L : Ledger) (x : String) : Option ModuleLog :=
  match L (.module, x) with
  | some (.module l) => some l
  | _ => none

/-- The log of a function with one entry more. -/
def addToFunction (L : Ledger) (f : String) (e : FunctionEntry) : Option Log :=
  (L.function? f).map fun l => .function (l.add e)

def addToModule (L : Ledger) (m : String) (e : ModuleEntry) : Option Log :=
  (L.module? m).map fun l => .module (l.add e)

def addStmt (L : Ledger) (s : Stmt NodeId) : BlockSite → Option Log
  | .loose x => (L.block? x).map fun l => .block (l.add s)
  | .inFunction f i => L.addToFunction f (.stmt i s)

/-- **The log of the slot that a command writes**, once the command has succeeded. -/
def written (L : Ledger) (w : Workspace) : Command → Option Log
  | .stmt s _ => (s.asked w).map .stmt
  | .block id name _ => some (.block ⟨id, (w.names.intern name).1, []⟩)
  | .function name _ => some (.function ⟨(w.names.intern name).1, []⟩)
  | .module name model _ => do return .module ⟨(w.names.intern name).1, ← model.eval.toOption, []⟩
  | .addStmt site s => do L.addStmt (← s.asked w) site
  | .addEval site e t => do
    let s ← (StmtTerm.eval e t).asked w
    if w.leavesOut s then L site.owner else L.addStmt s site
  | .addVar role f name typ _ => do
    L.addToFunction f (.var role ⟨w.supply, (w.names.intern name).1, ← typ.eval.toOption⟩)
  | .addBlock f name => L.addToFunction f (.block (w.names.intern name).1)
  | .addClause kind f e t => do
    let c ← Build.answer? (do let n ← e.build; return ⟨n, ← t.build⟩) w
    L.addToFunction f (.clause kind c)
  | .addAttribute f name => L.addToFunction f (.attribute (w.names.intern name).1)
  | .addArray m name space _ => L.addToModule m (.array ⟨w.supply, (w.names.intern name).1, space⟩)
  | .addFunction m f => do L.addToModule m (.function (← L.function? f))
  | .addAxiom m e => do L.addToModule m (.predicate (← Build.answer? e.build w))
  | _ => none

/-- **The ledger after a command.**  The logs of the slots that the command empties go; a command that fails writes
none. -/
def record (L : Ledger) (w : Workspace) (c : Command) : Ledger := fun k =>
  match (w.step c).1 with
  | .ok _ => if k ∈ c.writes then L.written w c else if k ∈ c.takes then none else L k
  | .error _ => if k ∈ c.spent w then none else L k

/-- The ledger after a script. -/
def along (L : Ledger) (w : Workspace) : List Command → Ledger
  | [] => L
  | c :: cs => (L.record w c).along (w.step c).2 cs

/-- The ledger of a script that starts with nothing. -/
def ofScript (cs : List Command) : Ledger := along (fun _ => none) .empty cs

end Ledger
end KernelIR
