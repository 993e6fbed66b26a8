import KernelIR.Handle
import KernelIR.Operator
/-!
# Shape — one node of an expression

`Shape α` is a node whose operands are of type `α`: node ids in the store (`KernelIR.Store`), whole trees in
`KernelIR.Expr.Tree`.  The type of a node stands beside its shape (`Node`), because some widths are found only there.
-/
namespace KernelIR

inductive Shape (α : Type) where
  /-- A bit-vector constant, below `2 ^ width` for the width of the node's type. -/
  | bvConst (value : Nat)
  | boolConst (value : Bool)
  | arrayRef (array : GlobalArray)
  | pointer (array offset : α)
  /-- One byte of memory. -/
  | load (array offset : α)
  | varRef (var : Var)
  | call (callee : Callee) (arguments : List α)
  /-- The bits from `offset` on, as many as the node's type is wide. -/
  | bvExtract (e : α) (offset : UInt64)
  | bvZExt (e : α)
  | bvSExt (e : α)
  | unary (op : UnaryOp) (e : α)
  | binary (op : BinaryOp) (lhs rhs : α)
  deriving Inhabited

structure Node (α : Type) where
  shape : Shape α
  typ : Ty
  deriving Inhabited

/-- The kind of a node: its shape without operands, or the operator it applies. -/
inductive Kind where
  | bvConst
  | boolConst
  | arrayRef
  | pointer
  | load
  | varRef
  | call
  | bvExtract
  | bvZExt
  | bvSExt
  | unary (op : UnaryOp)
  | binary (op : BinaryOp)
  deriving DecidableEq, Inhabited

/-- What a node carries beside type and operands. -/
inductive Literal where
  | number (n : Nat)
  | truth (b : Bool)
  | text (s : String)
  deriving DecidableEq, Inhabited

namespace Kind

def isUnary : Kind → Bool
  | .unary _ => true
  | _ => false

def isBinary : Kind → Bool
  | .binary _ => true
  | _ => false

def display : Kind → String
  | .bvConst => "BvConst"
  | .boolConst => "BoolConst"
  | .arrayRef => "GlobalArrayRef"
  | .pointer => "Pointer"
  | .load => "Load"
  | .varRef => "VarRef"
  | .call => "Call"
  | .bvExtract => "BvExtract"
  | .bvZExt => "BvZExt"
  | .bvSExt => "BvSExt"
  | .unary op => Text.tagged "Unary" [op.name]
  | .binary op => Text.tagged "Binary" [op.name]

end Kind

namespace Shape

variable {α β : Type}

def map (f : α → β) : Shape α → Shape β
  | .bvConst v => .bvConst v
  | .boolConst b => .boolConst b
  | .arrayRef a => .arrayRef a
  | .pointer a o => .pointer (f a) (f o)
  | .load a o => .load (f a) (f o)
  | .varRef v => .varRef v
  | .call c args => .call c (args.map f)
  | .bvExtract e o => .bvExtract (f e) o
  | .bvZExt e => .bvZExt (f e)
  | .bvSExt e => .bvSExt (f e)
  | .unary op e => .unary op (f e)
  | .binary op l r => .binary op (f l) (f r)

/-- The operands, left to right. -/
def operands : Shape α → List α
  | .bvConst _ | .boolConst _ | .arrayRef _ | .varRef _ => []
  | .pointer a o | .load a o => [a, o]
  | .call _ args => args
  | .bvExtract e _ | .bvZExt e | .bvSExt e | .unary _ e => [e]
  | .binary _ l r => [l, r]

def kind : Shape α → Kind
  | .bvConst _ => .bvConst
  | .boolConst _ => .boolConst
  | .arrayRef _ => .arrayRef
  | .pointer _ _ => .pointer
  | .load _ _ => .load
  | .varRef _ => .varRef
  | .call _ _ => .call
  | .bvExtract _ _ => .bvExtract
  | .bvZExt _ => .bvZExt
  | .bvSExt _ => .bvSExt
  | .unary op _ => .unary op
  | .binary op _ _ => .binary op

def bvConst? : Shape α → Option Nat
  | .bvConst v => some v
  | _ => none

def boolConst? : Shape α → Option Bool
  | .boolConst b => some b
  | _ => none

def var? : Shape α → Option Var
  | .varRef v => some v
  | _ => none

def array? : Shape α → Option GlobalArray
  | .arrayRef a => some a
  | _ => none

/-- The operand of a unary operator, an extraction or an extension. -/
def subExpr? : Shape α → Option α
  | .unary _ e | .bvExtract e _ | .bvZExt e | .bvSExt e => some e
  | _ => none

/-- The value of a constant. -/
def constant? : Shape α → Option Literal
  | .bvConst v => some (.number v)
  | .boolConst b => some (.truth b)
  | _ => none

/-- What a printed tree shows between type and operands. -/
def extra? (names : Names) : Shape α → Option Literal
  | .bvConst v => some (.number v)
  | .boolConst b => some (.truth b)
  | .arrayRef a => some (.text (names.text a.name))
  | .varRef v => some (.text (names.text v.name))
  | .call c _ => some (.text (names.text c.name))
  | .bvExtract _ offset => some (.number offset.toNat)
  | _ => none

/-- The record form, around operands already shown. -/
def debug (names : Names) : Shape String → String
  | .bvConst v => Text.tagged "BvConst" [toString v]
  | .boolConst b => Text.tagged "BoolConst" [Text.bool b]
  | .arrayRef a => Text.tagged "GlobalArrayRef" [a.debug names]
  | .pointer a o => Text.record "Pointer" [("array", a), ("offset", o)]
  | .load a o => Text.record "Load" [("array", a), ("offset", o)]
  | .varRef v => Text.tagged "VarRef" [v.debug names]
  | .call c args => Text.record "Call" [("callee", c.debug names), ("arguments", Text.list args)]
  | .bvExtract e o => Text.record "BvExtract" [("e", e), ("offset", Text.word o)]
  | .bvZExt e => Text.tagged "BvZExt" [e]
  | .bvSExt e => Text.tagged "BvSExt" [e]
  | .unary op e => Text.record "UnOp" [("op", op.name), ("e", e)]
  | .binary op l r => Text.record "BinOp" [("op", op.name), ("lhs", l), ("rhs", r)]

end Shape
end KernelIR
