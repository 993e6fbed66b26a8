import KernelIR.Expr.Shape
/-!
# Tree — an expression without its sharing

A tree is a node over trees.  Everything computed over a whole tree is a fold (`Tree.fold`): the record form, the
printed form (`Dump`).
-/
namespace KernelIR

inductive Tree where
  | mk (shape : Shape Tree) (typ : Ty)
  deriving Inhabited

/-- A printed tree: kind, type, what the node carries, operands.  It holds texts where the tree holds handles. -/
inductive Dump where
  | mk (kind : Kind) (typ : Ty) (extra : Option Literal) (operands : List Dump)
  deriving Inhabited

namespace Tree

variable {β : Type}

def shape : Tree → Shape Tree
  | .mk s _ => s

def typ : Tree → Ty
  | .mk _ t => t

def node (t : Tree) : Node Tree := ⟨t.shape, t.typ⟩

mutual

/-- Replaces every node, from the leaves up, by what `f` makes of it. -/
def fold (f : Shape β → Ty → β) : Tree → β
  | .mk s t => f (foldShape f s) t

def foldShape (f : Shape β → Ty → β) : Shape Tree → Shape β
  | .bvConst v => .bvConst v
  | .boolConst b => .boolConst b
  | .arrayRef a => .arrayRef a
  | .pointer a o => .pointer (fold f a) (fold f o)
  | .load a o => .load (fold f a) (fold f o)
  | .varRef v => .varRef v
  | .call c args => .call c (foldList f args)
  | .bvExtract e o => .bvExtract (fold f e) o
  | .bvZExt e => .bvZExt (fold f e)
  | .bvSExt e => .bvSExt (fold f e)
  | .unary op e => .unary op (fold f e)
  | .binary op l r => .binary op (fold f l) (fold f r)

def foldList (f : Shape β → Ty → β) : List Tree → List β
  | [] => []
  | t :: ts => fold f t :: foldList f ts

end

theorem foldList_eq_map (f : Shape β → Ty → β) : ∀ ts : List Tree, foldList f ts = ts.map (fold f)
  | [] => by rw [foldList, List.map_nil]
  | t :: ts => by rw [foldList, List.map_cons, foldList_eq_map f ts]

theorem foldShape_eq_map (f : Shape β → Ty → β) (s : Shape Tree) : foldShape f s = s.map (fold f) := by
  cases s <;> simp only [foldShape, Shape.map, foldList_eq_map]

/-- A fold takes the operands first. -/
theorem fold_mk (f : Shape β → Ty → β) (s : Shape Tree) (t : Ty) : fold f (.mk s t) = f (s.map (fold f)) t := by
  rw [fold, foldShape_eq_map]

def debug (names : Names) : Tree → String :=
  fold (fun s t => Text.record "Expr" [("value", s.debug names), ("typ", t.debug)])

def dump (names : Names) : Tree → Dump := fold (fun s t => .mk s.kind t (s.extra? names) s.operands)

end Tree
end KernelIR
