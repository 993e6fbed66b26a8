import KernelIR.Ty
/-!
# Operator — the unary and binary operators of expressions

Which operand types an operator accepts (`accepts`) is stated here; the result type, whose width is checked, is in
`KernelIR.Expr.Form`.
-/
namespace KernelIR

/-- Conversions between kinds of values, and boolean negation. -/
inductive UnaryOp where
  /-- The array part of a pointer. -/
  | arrayId
  /-- The offset part of a pointer. -/
  | arrayOffset
  | bvToFloat
  | floatToBv
  | bvToPtr
  | ptrToBv
  /-- From one bit to a truth value. -/
  | bvToBool
  | boolToBv
  | not
  deriving DecidableEq, Inhabited

inductive BinaryOp where
  | bvAdd
  | bvSub
  | bvMul
  | bvSDiv
  | bvUDiv
  | bvSRem
  | bvURem
  /-- The left operand in the high bits. -/
  | bvConcat
  | bvAnd
  | bvOr
  | bvXor
  | bvShl
  | bvLShr
  | bvAShr
  | bvSgt
  | bvSge
  | bvSlt
  | bvSle
  | bvUgt
  | bvUge
  | bvUlt
  | bvUle
  | eq
  | ne
  | and
  | or
  deriving DecidableEq, Inhabited

namespace UnaryOp

/-- The operand types the operator is defined on: a float is 32 or 64 bits wide, a truth value is one bit. -/
def accepts : UnaryOp → Ty → Bool
  | .arrayId, t | .arrayOffset, t | .ptrToBv, t => t.isPointer
  | .bvToFloat, t => t.isBvOfWidth 32 || t.isBvOfWidth 64
  | .floatToBv, t => t.isFloat
  | .bvToPtr, t => t.isBv
  | .bvToBool, t => t.isBvOfWidth 1
  | .boolToBv, t | .not, t => t.isBool

def name : UnaryOp → String
  | .arrayId => "ArrayId"
  | .arrayOffset => "ArrayOffset"
  | .bvToFloat => "BvToFloat"
  | .floatToBv => "FloatToBv"
  | .bvToPtr => "BvToPtr"
  | .ptrToBv => "PtrToBv"
  | .bvToBool => "BvToBool"
  | .boolToBv => "BoolToBv"
  | .not => "Not"

end UnaryOp

namespace BinaryOp

/-- What an operator asks of its operands and gives back. -/
inductive Family where
  /-- Two bit-vectors of one width, and a bit-vector of that width. -/
  | arithmetic
  /-- Two bit-vectors of one width, and one of the summed width. -/
  | concatenation
  /-- Two bit-vectors of one width, and a truth value. -/
  | comparison
  /-- Any two operands of one type, and a truth value. -/
  | equality
  /-- Truth values throughout. -/
  | connective
  deriving DecidableEq

def family : BinaryOp → Family
  | .bvAdd | .bvSub | .bvMul | .bvSDiv | .bvUDiv | .bvSRem | .bvURem | .bvAnd | .bvOr | .bvXor | .bvShl | .bvLShr
  | .bvAShr => .arithmetic
  | .bvConcat => .concatenation
  | .bvSgt | .bvSge | .bvSlt | .bvSle | .bvUgt | .bvUge | .bvUlt | .bvUle => .comparison
  | .eq | .ne => .equality
  | .and | .or => .connective

def accepts (op : BinaryOp) (l r : Ty) : Bool :=
  match op.family with
  | .arithmetic | .concatenation | .comparison => l.isBv && l == r
  | .equality => l == r
  | .connective => l.isBool && r.isBool

def name : BinaryOp → String
  | .bvAdd => "BvAdd"
  | .bvSub => "BvSub"
  | .bvMul => "BvMul"
  | .bvSDiv => "BvSDiv"
  | .bvUDiv => "BvUDiv"
  | .bvSRem => "BvSRem"
  | .bvURem => "BvURem"
  | .bvConcat => "BvConcat"
  | .bvAnd => "BvAnd"
  | .bvOr => "BvOr"
  | .bvXor => "BvXor"
  | .bvShl => "BvShl"
  | .bvLShr => "BvLShr"
  | .bvAShr => "BvAShr"
  | .bvSgt => "BvSgt"
  | .bvSge => "BvSge"
  | .bvSlt => "BvSlt"
  | .bvSle => "BvSle"
  | .bvUgt => "BvUgt"
  | .bvUge => "BvUge"
  | .bvUlt => "BvUlt"
  | .bvUle => "BvUle"
  | .eq => "Eq"
  | .ne => "Ne"
  | .and => "And"
  | .or => "Or"

end BinaryOp
end KernelIR
