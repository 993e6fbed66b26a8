import KernelIR.Text
/-!
# Ty — the types of expressions

Bit-vectors, floats and pointers carry a 64-bit width.  Two types are equal when tag and width are.  A width of `0` is
representable: data read from outside may hold it, and `Ty.sized` (`KernelIR.Fault`) is the checked way in.
-/
namespace KernelIR

/-- The number of bit-vectors of `w` bits, `2 ^ w`. -/
def pow2 (w : UInt64) : Nat := Nat.pow 2 w.toNat

theorem pow2_pos (w : UInt64) : 0 < pow2 w := Nat.two_pow_pos w.toNat

inductive Ty where
  | bv (width : UInt64)
  | bool
  | float (width : UInt64)
  | arrayId
  /-- An array id with an offset of `width` bits. -/
  | pointer (width : UInt64)
  deriving DecidableEq, Inhabited

namespace Ty

def width? : Ty → Option UInt64
  | .bv w | .float w | .pointer w => some w
  | .bool | .arrayId => none

def isBv : Ty → Bool
  | .bv _ => true
  | _ => false

def isBvOfWidth : Ty → UInt64 → Bool
  | .bv v, w => v == w
  | _, _ => false

def isBool : Ty → Bool
  | .bool => true
  | _ => false

def isFloat : Ty → Bool
  | .float _ => true
  | _ => false

def isArrayId : Ty → Bool
  | .arrayId => true
  | _ => false

def isPointer : Ty → Bool
  | .pointer _ => true
  | _ => false

/-- The types that arithmetic applies to. -/
def isNumeric : Ty → Bool
  | .bv _ | .float _ => true
  | .bool | .arrayId | .pointer _ => false

/-- The short form, as in messages: `bv8`, `ptr64`. -/
def display : Ty → String
  | .bv w => "bv" ++ Text.word w
  | .bool => "bool"
  | .float w => "float" ++ Text.word w
  | .arrayId => "arrayId"
  | .pointer w => "ptr" ++ Text.word w

/-- The record form. -/
def debug : Ty → String
  | .bv w => Text.record "Bv" [("width", Text.word w)]
  | .bool => "Bool"
  | .float w => Text.record "Float" [("width", Text.word w)]
  | .arrayId => "ArrayId"
  | .pointer w => Text.record "Pointer" [("width", Text.word w)]

end Ty
end KernelIR
