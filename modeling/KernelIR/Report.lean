import KernelIR.Workspace
/-!
# Report — what a consumer reads

A report shows an object with the texts of its names and the trees of its expressions.  It holds no identity number and
no symbol, so two workspaces that differ only in these give equal reports.
-/
namespace KernelIR

/-- The kind and the type of a node, with the expression slots that hold the very node. -/
structure NodeLine where
  kind : Kind
  typ : Ty
  slots : List String
  deriving Inhabited

structure NodeReport where
  line : NodeLine
  value : Option Literal
  operands : List NodeLine
  deriving Inhabited

/-- All that can be asked of one node. -/
structure InfoReport where
  line : NodeLine
  bvConst : Option Nat
  boolConst : Option Bool
  /-- The slots of the variable that the node refers to. -/
  var : Option (List String)
  /-- The slots of the array that the node refers to. -/
  array : Option (List String)
  subExpr : Option NodeLine
  operands : Nat
  holders : Nat
  hasEval : Bool
  prevented : Bool
  deriving Inhabited

structure LocReport where
  file : String
  path : String
  line : UInt64
  column : UInt64
  deriving DecidableEq, Inhabited

structure LocsReport where
  locs : List LocReport
  innermost : Option String
  json : List String
  debug : String
  deriving Inhabited

structure SignatureReport where
  name : String
  parameters : List Ty
  returns : List Ty
  deriving DecidableEq, Inhabited

structure VarReport where
  name : String
  typ : Ty
  deriving DecidableEq, Inhabited

structure ArrayReport where
  name : String
  space : MemorySpace
  deriving DecidableEq, Inhabited

structure CallReport where
  callee : SignatureReport
  arguments : List Dump
  parent : Option BlockId
  locs : List LocReport
  deriving Inhabited

inductive BodyReport where
  | exprs (es : List Dump)
  | varAssign (vars : List VarReport) (values : List Dump)
  | targets (ids : List BlockId)
  | assume (pred : Dump) (partition : Bool)
  | call (callee : SignatureReport) (arguments : List Dump)
  | callMemberOf (func : Dump) (calls : List CallReport)
  deriving Inhabited

structure StmtReport where
  kind : StmtKind
  parent : Option BlockId
  body : BodyReport
  facets : Option Facets
  /-- Absent for the statements that have no place in the source. -/
  locs : Option (List LocReport)
  deriving Inhabited

structure BlockReport where
  id : BlockId
  name : String
  successors : List BlockId
  stmts : List StmtReport
  deriving Inhabited

structure ClauseReport where
  pred : Dump
  locs : List LocReport
  deriving Inhabited

structure FunctionReport where
  name : String
  args : List VarReport
  returns : List VarReport
  locals : List VarReport
  attributes : List String
  requires : List ClauseReport
  ensures : List ClauseReport
  entry : Option String
  blocks : List BlockReport
  deriving Inhabited

structure ModuleReport where
  name : String
  model : String
  arrays : List ArrayReport
  functions : List String
  axioms : List Dump
  deriving Inhabited

namespace Workspace

variable (w : Workspace)

def text (y : Symbol) : String := w.names.text y

def dump (n : NodeId) : Dump := (w.store.tree n).dump w.names

def debugExpr (n : NodeId) : String := (w.store.tree n).debug w.names

def nodeLine (n : NodeId) : NodeLine :=
  let c := w.store.cell n
  ⟨c.shape.kind, c.typ, w.exprs.namesWhere (· == n)⟩

def reportNode (n : NodeId) : NodeReport :=
  let c := w.store.cell n
  ⟨w.nodeLine n, c.shape.constant?, c.operands.map w.nodeLine⟩

def reportInfo (n : NodeId) : InfoReport :=
  let c := w.store.cell n
  { line := w.nodeLine n
    bvConst := c.shape.bvConst?
    boolConst := c.shape.boolConst?
    var := c.shape.var?.map fun v => w.vars.namesWhere (·.id == v.id)
    array := c.shape.array?.map fun a => w.arrays.namesWhere (·.id == a.id)
    subExpr := c.shape.subExpr?.map w.nodeLine
    operands := c.operands.length
    holders := c.holders
    hasEval := c.hasEval
    prevented := c.prevented }

def reportLoc (l : SourceLoc) : LocReport := ⟨w.text l.file, w.text l.path, l.line, l.column⟩

def reportLocList (l : Locs) : List LocReport := l.list.map w.reportLoc

def reportLocs (l : Locs) : LocsReport :=
  ⟨w.reportLocList l, l.innermost?.map (·.short w.names), l.list.map fun x => (x.toJson w.names).compact,
    l.debug w.names⟩

def reportVar (v : Var) : VarReport := ⟨w.text v.name, v.typ⟩

def reportArray (a : GlobalArray) : ArrayReport := ⟨w.text a.name, a.space⟩

def reportCallee (c : Callee) : SignatureReport := ⟨w.text c.name, c.parameters, c.returns⟩

def reportCall (c : CallStmt NodeId) : CallReport :=
  ⟨w.reportCallee c.callee, c.arguments.map w.dump, c.parent, w.reportLocList c.locs⟩

def reportBody : StmtBody NodeId → BodyReport
  | .eval e => .exprs [w.dump e]
  | .store a o v => .exprs [w.dump a, w.dump o, w.dump v]
  | .varAssign vars values => .varAssign (vars.map w.reportVar) (values.map w.dump)
  | .goto targets => .targets targets
  | .ret => .exprs []
  | .assume p partition => .assume (w.dump p) partition
  | .assert p _ => .exprs [w.dump p]
  | .call c args => .call (w.reportCallee c) (args.map w.dump)
  | .callMemberOf func calls => .callMemberOf (w.dump func) (calls.map w.reportCall)
  | .waitGroupEvent h => .exprs [w.dump h]

def reportStmt (s : Stmt NodeId) : StmtReport :=
  ⟨s.kind, s.parent, w.reportBody s.body, s.facets?, if s.kind.isLocated then some (w.reportLocList s.locs) else none⟩

def debugStmt (s : Stmt NodeId) : String := (s.map w.debugExpr).debug w.names

def reportBlock (b : Block) : BlockReport := ⟨b.id, w.text b.name, b.successors, b.stmts.map w.reportStmt⟩

def reportClause (c : Clause) : ClauseReport := ⟨w.dump c.pred, w.reportLocList c.locs⟩

def reportFunction (f : Function) : FunctionReport :=
  { name := w.text f.name
    args := f.args.map w.reportVar
    returns := f.returns.map w.reportVar
    locals := f.locals.map w.reportVar
    attributes := f.attributes.map w.text
    requires := f.requires.map w.reportClause
    ensures := f.ensures.map w.reportClause
    entry := f.blocks.head?.map fun b => w.text b.name
    blocks := f.blocks.map w.reportBlock }

def reportModule (m : Module) : ModuleReport :=
  ⟨w.text m.name, m.model.toJson.compact, m.arrays.map w.reportArray, m.functions.map fun f => w.text f.name,
    m.axioms.map w.dump⟩

end Workspace
end KernelIR
