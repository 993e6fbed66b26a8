import KernelIR.Expr.Form
/-!
# Store — shared nodes, their holders and their markers

A node is made once, never changed and named by an id that is not given out again; its operands are older nodes.  Beside
the node a cell keeps three counters of the outside: how many slots hold the node (`holders`), how many live evaluations
there are of it (`evals`), and whether its producer forbids evaluations (`prevented`).

A node without holders is gone once the store is swept.  The cells stand newest first, so one pass that hands the
operands of every removed node down the list finds all that became free (`sweepCells`).
-/
namespace KernelIR

/-- The name of a node in the store. -/
structure NodeId where
  index : Nat
  deriving DecidableEq, Inhabited

structure Cell where
  id : NodeId
  shape : Shape NodeId
  typ : Ty
  /-- The number of slots that hold the node. -/
  holders : Nat
  /-- The number of live evaluations of the node. -/
  evals : Nat
  /-- No further evaluation is wanted. -/
  prevented : Bool
  deriving Inhabited

structure Store where
  /-- The number of nodes made so far; the next node's id. -/
  next : Nat
  /-- The live nodes, newest first. -/
  cells : List Cell
  deriving Inhabited

namespace Cell

def node (c : Cell) : Node NodeId := ⟨c.shape, c.typ⟩

def operands (c : Cell) : List NodeId := c.shape.operands

def hasEval (c : Cell) : Bool := 0 < c.evals

end Cell

namespace Store

def empty : Store := ⟨0, []⟩

def find? (s : Store) (n : NodeId) : Option Cell := s.cells.find? (fun c => c.id == n)

/-- The cell of a node.  Every id in use names a live node; any other reads as the constant `false`, held by no one. -/
def cell (s : Store) (n : NodeId) : Cell := (s.find? n).getD ⟨n, .boolConst false, .bool, 0, 0, false⟩

/-- The tree that a node unfolds to among these cells: its operands are looked for among the older ones. -/
def treeIn : List Cell → NodeId → Tree
  | [], _ => .mk (.boolConst false) .bool
  | c :: cs, n => if c.id = n then .mk (c.shape.map (treeIn cs)) c.typ else treeIn cs n

def tree (s : Store) (n : NodeId) : Tree := treeIn s.cells n

def typ (s : Store) (n : NodeId) : Ty := (s.cell n).typ

def reader (s : Store) : Reader NodeId := ⟨fun n => (s.cell n).node, s.tree⟩

/-- Applies `f` to every cell. -/
def mapCells (f : Cell → Cell) (s : Store) : Store := { s with cells := s.cells.map f }

/-- One more holder for each occurrence in `ns`. -/
def retain (ns : List NodeId) : Store → Store :=
  mapCells fun c => { c with holders := c.holders + ns.count c.id }

/-- One holder less for each occurrence in `ns`. -/
def release (ns : List NodeId) : Store → Store :=
  mapCells fun c => { c with holders := c.holders - ns.count c.id }

/-- One more live evaluation for each occurrence in `ns`. -/
def mark (ns : List NodeId) : Store → Store :=
  mapCells fun c => { c with evals := c.evals + ns.count c.id }

/-- One live evaluation less for each occurrence in `ns`. -/
def unmark (ns : List NodeId) : Store → Store :=
  mapCells fun c => { c with evals := c.evals - ns.count c.id }

/-- Forbids evaluations of `n` from now on. -/
def prevent (n : NodeId) : Store → Store :=
  mapCells fun c => { c with prevented := c.prevented || c.id == n }

/-- A new node, which holds its operands and which nothing holds yet. -/
def alloc (shape : Shape NodeId) (typ : Ty) (s : Store) : NodeId × Store :=
  (⟨s.next⟩, ⟨s.next + 1, ⟨⟨s.next⟩, shape, typ, 0, 0, false⟩ :: (s.retain shape.operands).cells⟩)

/-- Takes the holders in `freed` off the cells and removes those that have none left, which frees their operands in
turn. -/
def sweepCells : List NodeId → List Cell → List Cell
  | _, [] => []
  | freed, c :: cs =>
    let holders := c.holders - freed.count c.id
    if holders = 0 then sweepCells (c.operands ++ freed) cs
    else { c with holders := holders } :: sweepCells freed cs

/-- Removes every node that nothing holds, directly or through other nodes. -/
def sweep (s : Store) : Store := { s with cells := sweepCells [] s.cells }

end Store
end KernelIR
