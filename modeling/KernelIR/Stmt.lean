import KernelIR.Expr.Shape
import KernelIR.Location
/-!
# Stmt — the statements of a block

`Stmt α` is a statement whose expressions are of type `α`: node ids where it is kept, trees where it is shown.  A
statement is owned, never shared: by the producer, by one block, or, for a call, by the one indirect call that lists it.
-/
namespace KernelIR

/-- The position of a block in its function. -/
structure BlockId where
  index : Nat
  deriving DecidableEq, Inhabited

/-- The flags that qualify an assertion. -/
structure Facets where
  /-- Holds for all threads, not only for the current one. -/
  global : Bool
  /-- A candidate for invariant inference. -/
  candidate : Bool
  /-- A loop invariant. -/
  invariant : Bool
  /-- Marks an access known to be out of bounds. -/
  badAccess : Bool
  /-- Only records where in the source the block starts. -/
  blockSourceLoc : Bool
  deriving DecidableEq, Inhabited

/-- A call listed by an indirect call, with the identity, the parent and the locations it had as a statement. -/
structure CallStmt (α : Type) where
  id : Nat
  callee : Callee
  arguments : List α
  parent : Option BlockId
  locs : Locs
  deriving Inhabited

inductive StmtBody (α : Type) where
  /-- Evaluate `e` here and discard the result. -/
  | eval (e : α)
  /-- Write one byte. -/
  | store (array offset value : α)
  /-- One parallel assignment. -/
  | varAssign (vars : List Var) (values : List α)
  /-- A jump to any one of the targets. -/
  | goto (targets : List BlockId)
  | ret
  | assume (pred : α) (partition : Bool)
  | assert (pred : α) (facets : Facets)
  | call (callee : Callee) (arguments : List α)
  /-- A call through `func`, which reaches one of `calls`. -/
  | callMemberOf (func : α) (calls : List (CallStmt α))
  | waitGroupEvent (handle : α)
  deriving Inhabited

structure Stmt (α : Type) where
  /-- The identity of the statement, given out once: a statement owned twice would show. -/
  id : Nat
  body : StmtBody α
  /-- The block that owns the statement. -/
  parent : Option BlockId
  locs : Locs
  deriving Inhabited

inductive StmtKind where
  | eval
  | store
  | varAssign
  | goto
  | ret
  | assume
  | assert
  | call
  | callMemberOf
  | waitGroupEvent
  deriving DecidableEq, Inhabited

namespace BlockId

def debug (b : BlockId) : String := Text.tagged "BlockId" [toString b.index]

end BlockId

namespace Facets

def none : Facets := ⟨false, false, false, false, false⟩

def debug (f : Facets) : String :=
  Text.record "AssertFacets" [("global", Text.bool f.global), ("candidate", Text.bool f.candidate),
    ("invariant", Text.bool f.invariant), ("bad_access", Text.bool f.badAccess),
    ("block_source_loc", Text.bool f.blockSourceLoc)]

end Facets

namespace StmtKind

def display : StmtKind → String
  | .eval => "Eval"
  | .store => "Store"
  | .varAssign => "VarAssign"
  | .goto => "Goto"
  | .ret => "Return"
  | .assume => "Assume"
  | .assert => "Assert"
  | .call => "Call"
  | .callMemberOf => "CallMemberOf"
  | .waitGroupEvent => "WaitGroupEvent"

/-- Assignments, jumps and assumptions are made up by the producer and have no place in the source. -/
def isLocated : StmtKind → Bool
  | .varAssign | .goto | .assume => false
  | _ => true

end StmtKind

/-- A call in record form, around arguments already shown. -/
def callRecord (names : Names) (callee : Callee) (arguments : List String) : String :=
  Text.record "Call" [("callee", callee.debug names), ("arguments", Text.list arguments)]

/-- A statement in record form, around a body already shown. -/
def Stmt.framed (names : Names) (body : String) (parent : Option BlockId) (locs : Locs) : String :=
  Text.record "Stmt" [("body", body), ("parent", Text.option (parent.map BlockId.debug)),
    ("source_locs", locs.debug names)]

variable {α β : Type}

namespace CallStmt

def map (f : α → β) (c : CallStmt α) : CallStmt β := ⟨c.id, c.callee, c.arguments.map f, c.parent, c.locs⟩

/-- The call as a statement of its own. -/
def toStmt (c : CallStmt α) : Stmt α := ⟨c.id, .call c.callee c.arguments, c.parent, c.locs⟩

def debug (names : Names) (c : CallStmt String) : String :=
  Stmt.framed names (callRecord names c.callee c.arguments) c.parent c.locs

end CallStmt

namespace StmtBody

def map (f : α → β) : StmtBody α → StmtBody β
  | .eval e => .eval (f e)
  | .store a o v => .store (f a) (f o) (f v)
  | .varAssign vars values => .varAssign vars (values.map f)
  | .goto targets => .goto targets
  | .ret => .ret
  | .assume p partition => .assume (f p) partition
  | .assert p facets => .assert (f p) facets
  | .call c args => .call c (args.map f)
  | .callMemberOf func calls => .callMemberOf (f func) (calls.map (·.map f))
  | .waitGroupEvent h => .waitGroupEvent (f h)

def kind : StmtBody α → StmtKind
  | .eval _ => .eval
  | .store _ _ _ => .store
  | .varAssign _ _ => .varAssign
  | .goto _ => .goto
  | .ret => .ret
  | .assume _ _ => .assume
  | .assert _ _ => .assert
  | .call _ _ => .call
  | .callMemberOf _ _ => .callMemberOf
  | .waitGroupEvent _ => .waitGroupEvent

/-- The expressions of the statement, those of listed calls included. -/
def operands : StmtBody α → List α
  | .eval e => [e]
  | .store a o v => [a, o, v]
  | .varAssign _ values => values
  | .goto _ | .ret => []
  | .assume p _ | .assert p _ => [p]
  | .call _ args => args
  | .callMemberOf func calls => func :: calls.flatMap (·.arguments)
  | .waitGroupEvent h => [h]

/-- The expression that the statement evaluates, if it is an evaluation. -/
def evaluated : StmtBody α → List α
  | .eval e => [e]
  | _ => []

def targets : StmtBody α → List BlockId
  | .goto targets => targets
  | _ => []

/-- The record form, around expressions already shown. -/
def debug (names : Names) : StmtBody String → String
  | .eval e => Text.tagged "Eval" [e]
  | .store a o v => Text.record "Store" [("array", a), ("offset", o), ("value", v)]
  | .varAssign vars values =>
    Text.record "VarAssign" [("vars", Text.list (vars.map (·.debug names))), ("values", Text.list values)]
  | .goto targets => Text.tagged "Goto" [Text.list (targets.map BlockId.debug)]
  | .ret => "Return"
  | .assume p partition => Text.record "Assume" [("pred", p), ("partition", Text.bool partition)]
  | .assert p facets => Text.record "Assert" [("pred", p), ("facets", facets.debug)]
  | .call c args => callRecord names c args
  | .callMemberOf func calls =>
    Text.record "CallMemberOf" [("func", func), ("call_stmts", Text.list (calls.map (·.debug names)))]
  | .waitGroupEvent h => Text.tagged "WaitGroupEvent" [h]

end StmtBody

namespace Stmt

def map (f : α → β) (s : Stmt α) : Stmt β := ⟨s.id, s.body.map f, s.parent, s.locs⟩

def kind (s : Stmt α) : StmtKind := s.body.kind

def operands (s : Stmt α) : List α := s.body.operands

def evaluated (s : Stmt α) : List α := s.body.evaluated

def facets? (s : Stmt α) : Option Facets :=
  match s.body with
  | .assert _ facets => some facets
  | _ => none

def debug (names : Names) (s : Stmt String) : String :=
  framed names (s.body.debug names) s.parent s.locs

end Stmt
end KernelIR
