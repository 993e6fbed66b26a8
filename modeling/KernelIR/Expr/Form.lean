import KernelIR.Fault
/-!
# Form — what a constructor is asked for, and what it answers

`Form α` is one application of an expression constructor to operands of type `α`.  `Form.resolve` decides it: refuse
with a cause, answer with a sub-node that is there already, or make one new node.  It looks one level into its operands
and no deeper.  Seven rules simplify:

- the array and the offset of `pointer a o` are `a` and `o`;
- a conversion between floats and bit-vectors, or between pointers and bit-vectors, cancels its inverse;
- the sum of two constants is a constant.
-/
namespace KernelIR

inductive Form (α : Type) where
  /-- The residue of any integer modulo `2 ^ width`. -/
  | bvConst (width : UInt64) (value : Int)
  | bvZero (width : UInt64)
  | boolConst (value : Bool)
  | arrayRef (array : GlobalArray)
  | varRef (var : Var)
  | pointer (array offset : α)
  | load (array offset : α)
  | call (callee : Callee) (arguments : List α)
  | bvExtract (e : α) (offset width : UInt64)
  | extend (extension : Extension) (e : α) (width : UInt64)
  | unary (op : UnaryOp) (e : α)
  | binary (op : BinaryOp) (lhs rhs : α)
  deriving Inhabited

/-- What can be read of an operand: its node, and its whole tree for messages. -/
structure Reader (α : Type) where
  node : α → Node α
  tree : α → Tree

/-- What an accepted form comes to. -/
inductive Built (α : Type) where
  /-- The very sub-node of an operand. -/
  | reuse (node : α)
  /-- A new node. -/
  | fresh (shape : Shape α) (typ : Ty)

namespace UnaryOp

/-- The type of the result.  Where it has a width, that is the operand's, checked anew. -/
def result : UnaryOp → Ty → Except Fault Ty
  | .arrayId, _ => .ok .arrayId
  | .arrayOffset, t | .floatToBv, t | .ptrToBv, t => do Ty.sized .bv (← t.expectWidth)
  | .bvToFloat, t => do Ty.sized .float (← t.expectWidth)
  | .bvToPtr, t => do Ty.sized .pointer (← t.expectWidth)
  | .bvToBool, _ | .not, _ => .ok .bool
  | .boolToBv, _ => Ty.sized .bv 1

/-- The sub-node that the operator cancels to on an operand of this shape. -/
def cancel? {α : Type} : UnaryOp → Shape α → Option α
  | .arrayId, .pointer a _ => some a
  | .arrayOffset, .pointer _ o => some o
  | .bvToFloat, .unary .floatToBv x => some x
  | .floatToBv, .unary .bvToFloat x => some x
  | .bvToPtr, .unary .ptrToBv x => some x
  | .ptrToBv, .unary .bvToPtr x => some x
  | _, _ => none

end UnaryOp

namespace BinaryOp

/-- The type of the result for accepted operands. -/
def result (op : BinaryOp) (l r : Ty) : Except Fault Ty :=
  match op.family with
  | .arithmetic => .ok l
  | .concatenation => do Ty.sized .bv ((← l.expectWidth) + (← r.expectWidth))
  | .comparison | .equality | .connective => .ok .bool

/-- The two values that the operator adds up, when it is a sum of constants. -/
def addends? {α : Type} : BinaryOp → Shape α → Shape α → Option (Nat × Nat)
  | .bvAdd, .bvConst a, .bvConst b => some (a, b)
  | _, _, _ => none

end BinaryOp

/-- The residue of `n` from `0` up to `2 ^ width - 1`. -/
def wrap (width : UInt64) (n : Int) : Nat := (n % pow2 width).toNat

/-- An extraction stays inside its source.  The difference does not wrap, since `width ≤ source` is asked first. -/
def extractFits (source offset width : UInt64) : Bool :=
  0 < width && width ≤ source && offset ≤ source - width

/-- An extension of a bit-vector does not narrow it. -/
def extensionFits (width : UInt64) : Ty → Bool
  | .bv source => source ≤ width
  | _ => false

def Extension.shape {α : Type} : Extension → α → Shape α
  | .zero, e => .bvZExt e
  | .sign, e => .bvSExt e

namespace Form

variable {α : Type}

def operands : Form α → List α
  | .bvConst _ _ | .bvZero _ | .boolConst _ | .arrayRef _ | .varRef _ => []
  | .pointer a o | .load a o => [a, o]
  | .call _ args => args
  | .bvExtract e _ _ | .extend _ e _ | .unary _ e => [e]
  | .binary _ l r => [l, r]

def access (r : Reader α) (a : Access) (array offset : α) : Except Fault Ty :=
  if !(r.node array).typ.isArrayId then .error (.accessArray a (r.node array).typ)
  else if !(r.node offset).typ.isBv then .error (.accessOffset a (r.node offset).typ)
  else match a with
    | .pointer => do Ty.sized .pointer (← (r.node offset).typ.expectWidth)
    | .load => Ty.sized .bv 8

def resolveCall (r : Reader α) (callee : Callee) (args : List α) : Except Fault (Built α) :=
  if !callee.accepts (args.map fun a => (r.node a).typ) then .error (.callArguments callee (args.map r.tree))
  else match callee.returns with
    | [t] => .ok (.fresh (.call callee args) t)
    | _ => .error (.callReturns callee)

def resolveExtract (r : Reader α) (e : α) (offset width : UInt64) : Except Fault (Built α) :=
  match (r.node e).typ with
  | .bv source =>
    if extractFits source offset width then do return .fresh (.bvExtract e offset) (← Ty.sized .bv width)
    else .error (.extractRange width offset (.bv source))
  | t => .error (.extractOperand t)

def resolveExtend (r : Reader α) (x : Extension) (e : α) (width : UInt64) : Except Fault (Built α) :=
  if extensionFits width (r.node e).typ then do return .fresh (x.shape e) (← Ty.sized .bv width)
  else .error (.extension x width (r.node e).typ)

/-- The operand's type is checked before any cancelling. -/
def resolveUnary (r : Reader α) (op : UnaryOp) (e : α) : Except Fault (Built α) :=
  let n := r.node e
  if !op.accepts n.typ then .error (.unaryOperand op n.typ)
  else match op.cancel? n.shape with
    | some x => .ok (.reuse x)
    | none => do return .fresh (.unary op e) (← op.result n.typ)

def resolveBinary (r : Reader α) (op : BinaryOp) (lhs rhs : α) : Except Fault (Built α) :=
  let l := r.node lhs
  let m := r.node rhs
  if !op.accepts l.typ m.typ then .error (.binaryOperands op l.typ m.typ)
  else match op.addends? l.shape m.shape with
    | some (a, b) => do
      let width ← l.typ.expectWidth
      return .fresh (.bvConst ((a + b) % pow2 width)) (← Ty.sized .bv width)
    | none => do return .fresh (.binary op lhs rhs) (← op.result l.typ m.typ)

/-- **The decision of every constructor.** -/
def resolve (r : Reader α) : Form α → Except Fault (Built α)
  | .bvConst w v => do
    let t ← Ty.sized .bv w
    return .fresh (.bvConst (wrap w v)) t
  | .bvZero w => do return .fresh (.bvConst 0) (← Ty.sized .bv w)
  | .boolConst b => .ok (.fresh (.boolConst b) .bool)
  | .arrayRef a => .ok (.fresh (.arrayRef a) .arrayId)
  | .varRef v => .ok (.fresh (.varRef v) v.typ)
  | .pointer a o => do return .fresh (.pointer a o) (← access r .pointer a o)
  | .load a o => do return .fresh (.load a o) (← access r .load a o)
  | .call c args => resolveCall r c args
  | .bvExtract e offset width => resolveExtract r e offset width
  | .extend x e width => resolveExtend r x e width
  | .unary op e => resolveUnary r op e
  | .binary op l r' => resolveBinary r op l r'

end Form

namespace Tree

/-- A tree as an operand reads itself. -/
def reader : Reader Tree := ⟨Tree.node, id⟩

/-- The tree that a form over trees comes to. -/
def construct (f : Form Tree) : Except Fault Tree := do
  match ← f.resolve reader with
  | .reuse t => return t
  | .fresh s t => return .mk s t

end Tree
end KernelIR
