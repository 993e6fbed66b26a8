import KernelIR.Module
import KernelIR.Table
/-!
# Workspace — everything a producer holds, and how it changes

A workspace has nine tables of named slots, one for each class of objects, beside the store of nodes and the table of
names.  A slot of the expression table holds a node; the statements, blocks, functions and modules in their tables are
owned, with the nodes that they hold and the evaluations that they make.

Every change of the tables keeps the books of the store: what comes into being retains its nodes (`acquire`), what is
dropped releases them (`giveUp`), and what moves from slot to slot does neither (`take`, `put`).  A node that nothing
holds stays readable until `tidy`, at the end of a command, so a command may work with new nodes before it decides who
holds them.
-/
namespace KernelIR

/-- The classes of slots. -/
inductive SlotKind where
  | expr
  | var
  | array
  | callee
  | locs
  | stmt
  | block
  | function
  | module
  deriving DecidableEq, Inhabited

/-- What a command asks for and does not find. -/
inductive Missing where
  | slot (kind : SlotKind) (name : String)
  | operand
  | stmtOfBlock
  | functionOfModule
  deriving DecidableEq, Inhabited

/-- Why a command has no answer. -/
inductive Failure where
  | refused (fault : Fault)
  | missing (what : Missing)
  /-- A data value is no type, or no machine model. -/
  | undecodable
  deriving Inhabited

structure Workspace where
  names : Names
  store : Store
  /-- The identity that the next handle or location list gets. -/
  supply : Nat
  exprs : Table NodeId
  vars : Table Var
  arrays : Table GlobalArray
  callees : Table Callee
  locs : Table Locs
  stmts : Table (Stmt NodeId)
  blocks : Table Block
  functions : Table Function
  modules : Table Module
  /-- Code of a producer failed while it had the table of names; nobody gets the table any more. -/
  poisoned : Bool
  deriving Inhabited

namespace SlotKind

def display : SlotKind → String
  | .expr => "expr"
  | .var => "var"
  | .array => "array"
  | .callee => "callee"
  | .locs => "locs"
  | .stmt => "stmt"
  | .block => "block"
  | .function => "function"
  | .module => "module"

end SlotKind

namespace Missing

def message : Missing → String
  | .slot kind name => kind.display ++ " " ++ name
  | .operand => "operand"
  | .stmtOfBlock => "stmt of block"
  | .functionOfModule => "function of module"

end Missing

/-- Where a function is kept. -/
inductive FunctionSite where
  | loose (slot : String)
  | inModule (slot : String) (position : Nat)
  deriving DecidableEq, Inhabited

/-- Where a block to be filled is kept: alone, or in a function that no module owns yet. -/
inductive BlockSite where
  | loose (slot : String)
  | inFunction (slot : String) (position : Nat)
  deriving DecidableEq, Inhabited

/-- What a slot can own: dropping it drops what it holds. -/
inductive Owned where
  | stmt (s : Stmt NodeId)
  | block (b : Block)
  | function (f : Function)
  | module (m : Module)
  deriving Inhabited

inductive OwnedKind where
  | stmt
  | block
  | function
  | module
  deriving DecidableEq, Inhabited

namespace OwnedKind

/-- The class of the slots of this kind. -/
def slot : OwnedKind → SlotKind
  | .stmt => .stmt
  | .block => .block
  | .function => .function
  | .module => .module

end OwnedKind

namespace Owned

def kind : Owned → OwnedKind
  | .stmt _ => .stmt
  | .block _ => .block
  | .function _ => .function
  | .module _ => .module

/-- The nodes that the object holds. -/
def held : Owned → List NodeId
  | .stmt s => s.operands
  | .block b => b.held
  | .function f => f.held
  | .module m => m.held

/-- The nodes that the object evaluates. -/
def evaluated : Owned → List NodeId
  | .stmt s => s.evaluated
  | .block b => b.evaluated
  | .function f => f.evaluated
  | .module m => m.evaluated

end Owned

namespace Workspace

def empty : Workspace :=
  ⟨.empty, .empty, 0, .empty, .empty, .empty, .empty, .empty, .empty, .empty, .empty, .empty, false⟩

/-- Everything that slots own. -/
def owned (w : Workspace) : List Owned :=
  w.stmts.values.map .stmt ++ w.blocks.values.map .block ++ w.functions.values.map .function ++
    w.modules.values.map .module

/-- The slots that hold nodes, outside the store: expression slots, statements, clauses and axioms. -/
def held (w : Workspace) : List NodeId := w.exprs.values ++ w.owned.flatMap (·.held)

/-- The expressions of all live evaluations. -/
def evaluated (w : Workspace) : List NodeId := w.owned.flatMap (·.evaluated)

def mapStore (f : Store → Store) (w : Workspace) : Workspace := { w with store := f w.store }

/-- Accounts for slots that come into being and evaluations that begin. -/
def acquire (held evaluated : List NodeId) (w : Workspace) : Workspace :=
  w.mapStore fun s => (s.retain held).mark evaluated

/-- Accounts for slots that go and evaluations that end: a statement's marker goes before its hold does. -/
def giveUp (held evaluated : List NodeId) (w : Workspace) : Workspace :=
  w.mapStore fun s => (s.unmark evaluated).release held

/-- Every evaluation in the list is alive, as often as it stands there. -/
def backs (evaluated : List NodeId) (w : Workspace) : Bool :=
  evaluated.all fun n => evaluated.count n ≤ (w.store.cell n).evals

/-- Removes the nodes that nothing holds. -/
def tidy (w : Workspace) : Workspace := w.mapStore Store.sweep

/-- The table of names can still be had. -/
def checkNames (w : Workspace) : Except Fault Unit := if w.poisoned then .error .namesPoisoned else .ok ()

/-! ## Filling and emptying slots -/

/-- Puts a node into an expression slot; the node that was there loses this holder. -/
def setExpr (x : String) (n : NodeId) (w : Workspace) : Workspace :=
  let w' := (w.acquire [n] []).giveUp (w.exprs.get? x).toList []
  { w' with exprs := w'.exprs.put x n }

def setVar (x : String) (v : Var) (w : Workspace) : Workspace := { w with vars := w.vars.put x v }

def setArray (x : String) (a : GlobalArray) (w : Workspace) : Workspace := { w with arrays := w.arrays.put x a }

def setCallee (x : String) (c : Callee) (w : Workspace) : Workspace := { w with callees := w.callees.put x c }

def setLocs (x : String) (l : Locs) (w : Workspace) : Workspace := { w with locs := w.locs.put x l }

/-- Takes an expression slot away. -/
def eraseExpr (x : String) (w : Workspace) : Workspace :=
  let w' := w.giveUp (w.exprs.get? x).toList []
  { w' with exprs := w'.exprs.erase x }

def eraseVar (x : String) (w : Workspace) : Workspace := { w with vars := w.vars.erase x }

/-- What a slot owns. -/
def owned? (kind : OwnedKind) (x : String) (w : Workspace) : Option Owned :=
  match kind with
  | .stmt => (w.stmts.get? x).map .stmt
  | .block => (w.blocks.get? x).map .block
  | .function => (w.functions.get? x).map .function
  | .module => (w.modules.get? x).map .module

/-- Moves what a slot owns out of it, whole. -/
def take (kind : OwnedKind) (x : String) (w : Workspace) : Workspace :=
  match kind with
  | .stmt => { w with stmts := w.stmts.erase x }
  | .block => { w with blocks := w.blocks.erase x }
  | .function => { w with functions := w.functions.erase x }
  | .module => { w with modules := w.modules.erase x }

/-- Moves an object into a slot. -/
def put (x : String) (o : Owned) (w : Workspace) : Workspace :=
  match o with
  | .stmt s => { w with stmts := w.stmts.put x s }
  | .block b => { w with blocks := w.blocks.put x b }
  | .function f => { w with functions := w.functions.put x f }
  | .module m => { w with modules := w.modules.put x m }

/-! ## Changing what a slot owns -/

/-- Writes a block back to where it is kept. -/
def putBlock (site : BlockSite) (b : Block) (w : Workspace) : Workspace :=
  match site with
  | .loose x => { w with blocks := w.blocks.put x b }
  | .inFunction x i =>
    match w.functions.get? x with
    | some f => { w with functions := w.functions.put x (f.setBlock i b) }
    | none => w

/-- Writes a function back to where it is kept. -/
def putFunction (site : FunctionSite) (f : Function) (w : Workspace) : Workspace :=
  match site with
  | .loose x => { w with functions := w.functions.put x f }
  | .inModule x i =>
    match w.modules.get? x with
    | some m => { w with modules := w.modules.put x (m.setFunction i f) }
    | none => w

def putModule (x : String) (m : Module) (w : Workspace) : Workspace := { w with modules := w.modules.put x m }

end Workspace

end KernelIR
