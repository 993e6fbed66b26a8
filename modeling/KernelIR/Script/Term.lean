import KernelIR.Build
import KernelIR.Ty.Data
/-!
# Term — what a script writes down, and what it evaluates to

Terms name slots where objects hold handles.  Evaluation goes from left to right and stops at the first failure.

- `Term`: an expression, a slot or a constructor applied to terms;
- `TyTerm`, `ModelTerm`, `LocsTerm`: a type, a machine model, a location list;
- `StmtTerm`: a statement, a slot (whose statement moves out) or a constructor.
-/
namespace KernelIR

inductive TyTerm where
  | sized (kind : SizedKind) (width : UInt64)
  | bool
  | arrayId
  /-- A type read from data, where a width may be `0`. -/
  | data (json : Json)
  deriving Inhabited

inductive ModelTerm where
  | spir
  | nvptx64
  | data (json : Json)
  deriving Inhabited

/-- A location as written: line and column are any integers. -/
structure LocTerm where
  file : String
  path : String
  line : Int
  column : Int
  deriving Inhabited

inductive LocsTerm where
  | slot (x : String)
  | list (locs : List LocTerm)
  deriving Inhabited

inductive Term where
  | slot (x : String)
  | bvConst (width : UInt64) (value : Int)
  | bvZero (width : UInt64)
  | boolConst (value : Bool)
  | arrayRef (array : String)
  | varRef (var : String)
  | pointer (array offset : Term)
  | load (array offset : Term)
  | call (callee : String) (arguments : List Term)
  | bvExtract (e : Term) (offset width : UInt64)
  | extend (extension : Extension) (e : Term) (width : UInt64)
  | unary (op : UnaryOp) (e : Term)
  | binary (op : BinaryOp) (lhs rhs : Term)
  deriving Inhabited

inductive StmtTerm where
  | slot (x : String)
  | eval (e : Term) (locs : LocsTerm)
  | store (array offset value : Term) (locs : LocsTerm)
  | varAssign (vars : List String) (values : List Term)
  | goto (targets : List BlockId)
  | ret
  | assume (e : Term) (partition : Bool)
  | assert (e : Term) (global candidate invariant : Bool) (locs : LocsTerm)
  | badAccess (locs : LocsTerm)
  | blockSourceLoc (locs : LocsTerm)
  | call (callee : String) (arguments : List Term) (locs : LocsTerm)
  | callMemberOf (func : Term) (locs : LocsTerm) (calls : List StmtTerm)
  | waitGroupEvent (handle : Term) (locs : LocsTerm)
  deriving Inhabited

namespace TyTerm

def eval : TyTerm → Except Failure Ty
  | .sized kind w => (Ty.sized kind w).mapError .refused
  | .bool => .ok .bool
  | .arrayId => .ok .arrayId
  | .data j => match Ty.ofJson? j with
    | some t => .ok t
    | none => .error .undecodable

end TyTerm

namespace ModelTerm

def eval : ModelTerm → Except Failure MachineModel
  | .spir => .ok .spir
  | .nvptx64 => .ok .nvptx64
  | .data j => match MachineModel.ofJson? j with
    | some m => .ok m
    | none => .error .undecodable

end ModelTerm

namespace LocTerm

/-- The two names are interned before the numbers are checked. -/
def build (l : LocTerm) : Build SourceLoc := do
  let file ← Build.intern l.file
  let path ← Build.intern l.path
  let line ← Build.ofExcept (wordOfInt l.line)
  let column ← Build.ofExcept (wordOfInt l.column)
  return ⟨file, path, line, column⟩

end LocTerm

namespace LocsTerm

/-- A slot shares its list; any other form makes a new one. -/
def build : LocsTerm → Build Locs
  | .slot x => Build.locsSlot x
  | .list locs => do Build.newLocs (← locs.mapM LocTerm.build)

end LocsTerm

namespace Term

mutual

def build : Term → Build NodeId
  | .slot x => Build.exprSlot x
  | .bvConst w v => Build.construct (.bvConst w v)
  | .bvZero w => Build.construct (.bvZero w)
  | .boolConst b => Build.construct (.boolConst b)
  | .arrayRef a => do Build.construct (.arrayRef (← Build.arraySlot a))
  | .varRef v => do Build.construct (.varRef (← Build.varSlot v))
  | .pointer a o => do
    let a ← a.build
    let o ← o.build
    Build.construct (.pointer a o)
  | .load a o => do
    let a ← a.build
    let o ← o.build
    Build.construct (.load a o)
  | .call c args => do
    let c ← Build.calleeSlot c
    let args ← buildList args
    Build.construct (.call c args)
  | .bvExtract e offset width => do Build.construct (.bvExtract (← e.build) offset width)
  | .extend x e width => do Build.construct (.extend x (← e.build) width)
  | .unary op e => do Build.construct (.unary op (← e.build))
  | .binary op l r => do
    let l ← l.build
    let r ← r.build
    Build.construct (.binary op l r)

def buildList : List Term → Build (List NodeId)
  | [] => return []
  | t :: ts => do
    let n ← t.build
    let ns ← buildList ts
    return n :: ns

end

end Term

namespace StmtTerm

/-- The facets of a plain assertion or a loop invariant. -/
def facets (global candidate invariant : Bool) : Facets :=
  { Facets.none with global := global, candidate := candidate, invariant := invariant }

/-- An assertion of a constant, which only carries a mark. -/
def buildMarked (value : Bool) (facets : Facets) (locs : LocsTerm) : Build (Stmt NodeId) := do
  let locs ← locs.build
  let p ← Build.construct (.boolConst value)
  Build.newStmt (.assert p facets) locs

mutual

def build : StmtTerm → Build (Stmt NodeId)
  | .slot x => do
    let s ← Build.stmtSlot x
    modify (Workspace.take .stmt x)
    return s
  | .eval e locs => do
    let e ← e.build
    Build.newStmt (.eval e) (← locs.build)
  | .store a o v locs => do
    let a ← a.build
    let o ← o.build
    let v ← v.build
    Build.newStmt (.store a o v) (← locs.build)
  | .varAssign vars values => do
    let vars ← vars.mapM Build.varSlot
    let values ← Term.buildList values
    Build.newUnlocated (.varAssign vars values)
  | .goto targets => Build.newUnlocated (.goto targets)
  | .ret => Build.newUnlocated .ret
  | .assume e partition => do
    let e ← e.build
    Build.newUnlocated (.assume e partition)
  | .assert e global candidate invariant locs => do
    let e ← e.build
    Build.newStmt (.assert e (facets global candidate invariant)) (← locs.build)
  | .badAccess locs => buildMarked false { Facets.none with badAccess := true } locs
  | .blockSourceLoc locs => buildMarked true { Facets.none with blockSourceLoc := true } locs
  | .call c args locs => do
    let c ← Build.calleeSlot c
    let args ← Term.buildList args
    Build.newStmt (.call c args) (← locs.build)
  | .callMemberOf func locs calls => do
    let func ← func.build
    let locs ← locs.build
    let stmts ← buildList calls
    Build.newIndirectCall func stmts locs
  | .waitGroupEvent h locs => do
    let h ← h.build
    Build.newStmt (.waitGroupEvent h) (← locs.build)

/-- Statements in order; when one fails, those before it are dropped. -/
def buildList : List StmtTerm → Build (List (Stmt NodeId))
  | [] => return []
  | s :: ss => do
    let st ← s.build
    let sts ← Build.dropOnFailure [st] (buildList ss)
    return st :: sts

end

end StmtTerm
end KernelIR
