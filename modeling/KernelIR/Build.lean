import KernelIR.Workspace
/-!
# Build — computations over a workspace

`Build α` answers an `α` or fails, and changes the workspace in both cases.  Here are the reads of slots, the makers of
handles, nodes and statements, and the moves of statements into blocks and of functions into modules.
-/
namespace KernelIR

/-- A computation over a workspace; a failure keeps the changes made before it. -/
abbrev Build := EStateM Failure Workspace

namespace Build

variable {α : Type}

def refuse (f : Fault) : Build α := throw (.refused f)

def ofResult : Except Failure α → Build α
  | .ok a => pure a
  | .error e => throw e

/-- The value, or the refusal. -/
def ofExcept : Except Fault α → Build α
  | .ok a => pure a
  | .error f => refuse f

/-- The content of a slot. -/
def slot (kind : SlotKind) (table : Workspace → Table α) (x : String) : Build α := do
  match (table (← get)).get? x with
  | some a => return a
  | none => throw (.missing (.slot kind x))

def exprSlot (x : String) : Build NodeId := slot .expr (·.exprs) x

def varSlot (x : String) : Build Var := slot .var (·.vars) x

def arraySlot (x : String) : Build GlobalArray := slot .array (·.arrays) x

def calleeSlot (x : String) : Build Callee := slot .callee (·.callees) x

def locsSlot (x : String) : Build Locs := slot .locs (·.locs) x

def stmtSlot (x : String) : Build (Stmt NodeId) := slot .stmt (·.stmts) x

def blockSlot (x : String) : Build Block := slot .block (·.blocks) x

def functionSlot (x : String) : Build Function := slot .function (·.functions) x

def moduleSlot (x : String) : Build Module := slot .module (·.modules) x

def checkNames : Build Unit := do ofExcept (← get).checkNames

/-- The symbol of a text. -/
def intern (s : String) : Build Symbol := do
  checkNames
  modifyGet fun w => let p := w.names.intern s; (p.1, { w with names := p.2 })

/-- An identity that was never given out. -/
def freshId : Build Nat := modifyGet fun w => (w.supply, { w with supply := w.supply + 1 })

def newVar (name : String) (typ : Ty) : Build Var := do
  let y ← intern name
  return ⟨← freshId, y, typ⟩

def newArray (name : String) (space : MemorySpace) : Build GlobalArray := do
  let y ← intern name
  return ⟨← freshId, y, space⟩

def newLocs (list : List SourceLoc) : Build Locs := do return ⟨← freshId, list⟩

/-- Applies an expression constructor to nodes. -/
def construct (f : Form NodeId) : Build NodeId := do
  match ← ofExcept (f.resolve (← get).store.reader) with
  | .reuse n => return n
  | .fresh shape typ =>
    modifyGet fun w => let p := w.store.alloc shape typ; (p.1, { w with store := p.2 })

/-- Makes a statement of a body that meets its requirement; the new statement holds its nodes. -/
def newStmt (body : StmtBody NodeId) (locs : Locs) : Build (Stmt NodeId) := do
  ofExcept (body.check (← get).store.reader)
  modify (Workspace.acquire body.operands body.evaluated)
  return ⟨← freshId, body, none, locs⟩

/-- Makes a statement that has no place in the source. -/
def newUnlocated (body : StmtBody NodeId) : Build (Stmt NodeId) := do newStmt body (← newLocs [])

/-- Accounts for slots that go and evaluations that end.  An evaluation that ends must have been alive. -/
def giveUp (held evaluated : List NodeId) : Build Unit := do
  if (← get).backs evaluated then modify (Workspace.giveUp held evaluated)
  else refuse .noLiveEval

def dropOwned (os : List Owned) : Build Unit := giveUp (os.flatMap (·.held)) (os.flatMap (·.evaluated))

def dropStmts (ss : List (Stmt NodeId)) : Build Unit := dropOwned (ss.map .stmt)

/-- Puts an object into a slot and drops the one that was there. -/
def setOwned (x : String) (o : Owned) : Build Unit := do
  let old := (← get).owned? o.kind x
  modify (Workspace.take o.kind x)
  dropOwned old.toList
  modify (Workspace.put x o)

/-- Takes an object, which the slot owns, out of it and drops it. -/
def remove (x : String) (o : Owned) : Build Unit := do
  modify (Workspace.take o.kind x)
  dropOwned [o]

/-- Runs `act`; when it fails, the statements are dropped. -/
def dropOnFailure (ss : List (Stmt NodeId)) (act : Build α) : Build α := fun w =>
  match act w with
  | .ok a w' => .ok a w'
  | .error e w' => (do dropStmts ss; throw e) w'

/-- Runs `act` and drops the statements in any case. -/
def dropAfter (ss : List (Stmt NodeId)) (act : Build α) : Build α := do
  let a ← dropOnFailure ss act
  dropStmts ss
  return a

/-- Makes an indirect call that lists the given statements, which it takes over: it holds what they held. -/
def newIndirectCall (func : NodeId) (stmts : List (Stmt NodeId)) (locs : Locs) : Build (Stmt NodeId) :=
  dropAfter stmts do
    let r := (← get).store.reader
    ofExcept (StmtBody.checkIndirect r func)
    let calls ← ofExcept (stmts.mapM (Stmt.asCall r))
    newStmt (.callMemberOf func calls) locs

/-- The block at a site. -/
def blockAt : BlockSite → Build Block
  | .loose x => blockSlot x
  | .inFunction x i => do ofExcept ((← functionSlot x).block i)

/-- Adds a statement to the block at a site and answers the new number of statements. -/
def appendStmt (site : BlockSite) (s : Stmt NodeId) : Build Nat := do
  let b ← dropOnFailure [s] do
    let b ← blockAt site
    return b.push (← ofExcept (s.place b.id))
  modify (Workspace.putBlock site b)
  return b.stmts.length

/-- The callee handle of a function; the first time, it is made from the signature and kept. -/
def calleeOf (site : FunctionSite) (f : Function) : Build Callee := do
  match f.callee with
  | some c => return c
  | none =>
    let c := f.signature (← freshId)
    modify (Workspace.putFunction site { f with callee := some c })
    return c

/-- Moves the function of a slot into a module.  When the module refuses it, it is dropped. -/
def moveFunction (m f : String) : Build Nat := do
  let md ← moduleSlot m
  let fn ← functionSlot f
  modify (Workspace.take .function f)
  match md.accept fn with
  | .ok md' =>
    modify (Workspace.putModule m md')
    return md'.functions.length
  | .error fault =>
    dropOwned [.function fn]
    refuse fault

end Build
end KernelIR
