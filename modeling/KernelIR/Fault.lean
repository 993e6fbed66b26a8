import KernelIR.Expr.Tree
import KernelIR.Stmt
/-!
# Fault — why a constructor refuses, and in which words

Each cause is a constructor of `Fault`, with what its message shows; `Fault.message` is the only place where the words
are.  The checked ways into `Ty` are here too, since refusing width `0` is the first of the causes.
-/
namespace KernelIR

/-- The types that have a width. -/
inductive SizedKind where
  | bv
  | float
  | pointer
  deriving DecidableEq, Inhabited

/-- The two constructors that take an array and an offset. -/
inductive Access where
  | pointer
  | load
  deriving DecidableEq, Inhabited

inductive Extension where
  | zero
  | sign
  deriving DecidableEq, Inhabited

/-- Where a truth value is required. -/
inductive PredicateRole where
  | assumption
  | assertion
  | contractClause
  | moduleAxiom
  deriving DecidableEq, Inhabited

/-- The two lists that make up a signature. -/
inductive SignaturePart where
  | parameter
  | returnValue
  deriving DecidableEq, Inhabited

/-- Why a number is not a 64-bit word. -/
inductive WordRange where
  | negative
  | tooLarge
  deriving DecidableEq, Inhabited

inductive Fault where
  | zeroWidth (kind : SizedKind)
  | noWidth (typ : Ty)
  | accessArray (access : Access) (got : Ty)
  | accessOffset (access : Access) (got : Ty)
  | extractOperand (got : Ty)
  | extractRange (width offset : UInt64) (got : Ty)
  | extension (extension : Extension) (width : UInt64) (got : Ty)
  | unaryOperand (op : UnaryOp) (got : Ty)
  | binaryOperands (op : BinaryOp) (lhs rhs : Ty)
  | callArguments (callee : Callee) (arguments : List Tree)
  | callReturns (callee : Callee)
  | storeArray (array : Tree)
  | storeOffset (got : Ty)
  | storeValue (value : Tree)
  | assignNothing
  | assignCount (vars values : Nat)
  | assignType (var : Var) (value : Tree)
  | predicate (role : PredicateRole) (got : Tree)
  | indirectCallee (func : Tree)
  | indirectMember (stmt : Stmt Tree)
  | unlocated (kind : StmtKind)
  | blockRange (count index : Nat)
  | signatureUsed (part : SignaturePart) (function : Symbol)
  | jumpTarget (function block : Symbol) (target : BlockId)
  | functionName (module function : Symbol)
  | placed (kind : StmtKind) (owner target : BlockId)
  /-- An evaluation ends of which the node counts none. -/
  | noLiveEval
  | wordRange (range : WordRange)
  /-- Code of a producer failed while it had the table of names. -/
  | namesPoisoned
  /-- Code of a producer fails, in words of its own. -/
  | raised (message : String)
  deriving Inhabited

namespace SizedKind

def typ : SizedKind → UInt64 → Ty
  | .bv, w => .bv w
  | .float, w => .float w
  | .pointer, w => .pointer w

def name : SizedKind → String
  | .bv => "Bit-vector"
  | .float => "Float"
  | .pointer => "Pointer"

end SizedKind

namespace Access

def name : Access → String
  | .pointer => "Pointer"
  | .load => "Load"

end Access

namespace Extension

def name : Extension → String
  | .zero => "BvZExt"
  | .sign => "BvSExt"

end Extension

namespace SignaturePart

def name : SignaturePart → String
  | .parameter => "a parameter"
  | .returnValue => "a return value"

end SignaturePart

namespace WordRange

def name : WordRange → String
  | .negative => "NegOverflow"
  | .tooLarge => "PosOverflow"

end WordRange

namespace Ty

/-- The type of that kind and width; width `0` is refused. -/
def sized (kind : SizedKind) (w : UInt64) : Except Fault Ty :=
  if w = 0 then .error (.zeroWidth kind) else .ok (kind.typ w)

/-- The width of a type that must have one. -/
def expectWidth (t : Ty) : Except Fault UInt64 :=
  match t.width? with
  | some w => .ok w
  | none => .error (.noWidth t)

end Ty

/-- A line or column number as a 64-bit word. -/
def wordOfInt (n : Int) : Except Fault UInt64 :=
  if n < 0 then .error (.wordRange .negative)
  else if n < UInt64.size then .ok (UInt64.ofNat n.toNat)
  else .error (.wordRange .tooLarge)

namespace Fault

def unreachablePart : String := "internal error: entered unreachable code: "

/-- A result is taken for good and holds an error. -/
def unwrapped : String := "called \x60Result::unwrap()\x60 on an \x60Err\x60 value: "

/-- A failed comparison, with its two sides on lines of their own. -/
def comparison (message left right : String) : String :=
  "assertion \x60left == right\x60 failed: " ++ message ++ "\n  left: " ++ left ++ "\n right: " ++ right

def unaryMessage (op : UnaryOp) (got : Ty) : String :=
  match op with
  | .arrayId | .arrayOffset | .ptrToBv => op.name ++ " requires a pointer, got " ++ got.display
  | .bvToFloat => op.name ++ " requires bv32 or bv64, got " ++ got.display
  | .floatToBv => op.name ++ " requires a float, got " ++ got.display
  | .bvToPtr => op.name ++ " requires a bit-vector, got " ++ got.display
  | .bvToBool | .boolToBv | .not =>
    op.name ++ " does not type check for operand of type " ++ got.display

def predicateMessage (role : PredicateRole) (got : String) : String :=
  match role with
  | .assumption => "Assume of a non-predicate " ++ got
  | .assertion => "Assert of a non-predicate " ++ got
  | .contractClause => "Contract clause must be a predicate, got " ++ got
  | .moduleAxiom => "Axiom must be a predicate, got " ++ got

def message (names : Names) : Fault → String
  | .zeroWidth kind => kind.name ++ " type must have a non-zero width"
  | .noWidth t => unreachablePart ++ "Type " ++ t.debug ++ " has no width"
  | .accessArray a got => a.name ++ " requires an array id as first operand, got " ++ got.display
  | .accessOffset a got => a.name ++ " requires a bit-vector offset, got " ++ got.display
  | .extractOperand got => "BvExtract requires a bit-vector, got " ++ got.display
  | .extractRange width offset got =>
    "BvExtract of " ++ Text.word width ++ " bits at offset " ++ Text.word offset ++ " out of range for " ++ got.display
  | .extension e width got =>
    e.name ++ " to " ++ Text.word width ++ " bits does not type check for " ++ got.display
  | .unaryOperand op got => unaryMessage op got
  | .binaryOperands op l r =>
    op.name ++ " does not type check for operands of type " ++ l.display ++ " and " ++ r.display
  | .callArguments c args =>
    "Function call does not type check:\nfunc: " ++ c.debug names ++ "\nargs: " ++ Text.list (args.map (·.debug names))
  | .callReturns c =>
    unreachablePart ++ "Call expression needs exactly one return value, " ++ names.text c.name ++ " has " ++
      toString c.returns.length
  | .storeArray a => "Store to a non-array " ++ a.debug names
  | .storeOffset got => "Store offset must be a bit-vector, got " ++ got.debug
  | .storeValue v => comparison ("Store value must be a byte: " ++ v.debug names) v.typ.debug (Ty.bv 8).debug
  | .assignNothing => "VarAssign needs at least one variable"
  | .assignCount n m =>
    comparison ("VarAssign to " ++ toString n ++ " variables of " ++ toString m ++ " values") (toString n) (toString m)
  | .assignType v value =>
    comparison ("VarAssign does not type check:\nvar: " ++ v.debug names ++ "\nvalue: " ++ value.debug names)
      v.typ.debug value.typ.debug
  | .predicate role got => predicateMessage role (got.debug names)
  | .indirectCallee func => "Indirect call through a non-pointer " ++ func.debug names
  | .indirectMember s =>
    comparison ("CallMemberOf may only hold calls: " ++ (s.map (·.debug names)).debug names) s.kind.display
      StmtKind.call.display
  | .unlocated kind => unreachablePart ++ kind.display ++ " statements have no source location"
  | .blockRange count index =>
    "index out of bounds: the len is " ++ toString count ++ " but the index is " ++ toString index
  | .signatureUsed part f =>
    "Cannot add " ++ part.name ++ " to " ++ names.text f ++ ": its signature is already used by call sites"
  | .jumpTarget f b target =>
    "Goto in " ++ names.text f ++ "::" ++ names.text b ++ " targets " ++ target.debug ++ ", which is not a block of " ++
      names.text f
  | .functionName m f => "Module " ++ names.text m ++ " already has a function named " ++ names.text f
  | .placed kind owner target =>
    kind.display ++ " statement already belongs to " ++ Text.option (some owner.debug) ++ ", cannot add it to " ++
      target.debug
  | .noLiveEval => "Eval statement released for an expression with no live Eval"
  | .wordRange r => unwrapped ++ Text.tagged "TryFromIntError" [r.name]
  | .namesPoisoned => unwrapped ++ "PoisonError \x7b .. \x7d"
  | .raised message => message

end Fault
end KernelIR
