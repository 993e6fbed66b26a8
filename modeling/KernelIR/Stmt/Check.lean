import KernelIR.Fault
import KernelIR.Expr.Form
/-!
# Check — what each statement asks of its expressions

The requirements are tested in a fixed order; the first that fails is the cause.  Evaluations, jumps, returns and waits
ask for nothing.
-/
namespace KernelIR

variable {α : Type}

/-- A truth value is required. -/
def checkPredicate (r : Reader α) (role : PredicateRole) (p : α) : Except Fault Unit :=
  if (r.node p).typ.isBool then .ok () else .error (.predicate role (r.tree p))

namespace StmtBody

def checkStore (r : Reader α) (array offset value : α) : Except Fault Unit :=
  if !(r.node array).typ.isArrayId then .error (.storeArray (r.tree array))
  else if !(r.node offset).typ.isBv then .error (.storeOffset (r.node offset).typ)
  else if (r.node value).typ != .bv 8 then .error (.storeValue (r.tree value))
  else .ok ()

/-- Each value has the type of its variable. -/
def checkPairs (r : Reader α) : List (Var × α) → Except Fault Unit
  | [] => .ok ()
  | (v, e) :: rest => if v.typ != (r.node e).typ then .error (.assignType v (r.tree e)) else checkPairs r rest

def checkAssign (r : Reader α) (vars : List Var) (values : List α) : Except Fault Unit :=
  if vars.isEmpty then .error .assignNothing
  else if vars.length != values.length then .error (.assignCount vars.length values.length)
  else checkPairs r (vars.zip values)

def checkCall (r : Reader α) (callee : Callee) (args : List α) : Except Fault Unit :=
  if callee.accepts (args.map fun a => (r.node a).typ) then .ok ()
  else .error (.callArguments callee (args.map r.tree))

def checkIndirect (r : Reader α) (func : α) : Except Fault Unit :=
  if (r.node func).typ.isPointer then .ok () else .error (.indirectCallee (r.tree func))

/-- The requirement of a statement. -/
def check (r : Reader α) : StmtBody α → Except Fault Unit
  | .store a o v => checkStore r a o v
  | .varAssign vars values => checkAssign r vars values
  | .assume p _ => checkPredicate r .assumption p
  | .assert p _ => checkPredicate r .assertion p
  | .call c args => checkCall r c args
  | .callMemberOf func _ => checkIndirect r func
  | .eval _ | .goto _ | .ret | .waitGroupEvent _ => .ok ()

end StmtBody

namespace Stmt

/-- The statement as a listed call; only calls can be listed. -/
def asCall (r : Reader α) (s : Stmt α) : Except Fault (CallStmt α) :=
  match s.body with
  | .call c args => .ok ⟨s.id, c, args, s.parent, s.locs⟩
  | _ => .error (.indirectMember (s.map r.tree))

/-- The statement as part of block `b`; a statement joins at most one block. -/
def place (b : BlockId) (s : Stmt α) : Except Fault (Stmt α) :=
  match s.parent with
  | none => .ok { s with parent := some b }
  | some owner => .error (.placed s.kind owner b)

end Stmt
end KernelIR
