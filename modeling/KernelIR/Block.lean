import KernelIR.Store
import KernelIR.Stmt.Check
/-!
# Block — a named list of statements
-/
namespace KernelIR

structure Block where
  id : BlockId
  name : Symbol
  stmts : List (Stmt NodeId)
  deriving Inhabited

namespace Block

def new (id : BlockId) (name : Symbol) : Block := ⟨id, name, []⟩

/-- Adds a statement, already placed, at the end. -/
def push (s : Stmt NodeId) (b : Block) : Block := { b with stmts := b.stmts ++ [s] }

/-- The blocks that control may go on to, in the order of the jumps. -/
def successors (b : Block) : List BlockId := b.stmts.flatMap (·.body.targets)

/-- The nodes that the statements hold. -/
def held (b : Block) : List NodeId := b.stmts.flatMap (·.operands)

/-- The nodes that the statements evaluate. -/
def evaluated (b : Block) : List NodeId := b.stmts.flatMap (·.evaluated)

def debug (names : Names) (s : Store) (b : Block) : String :=
  Text.record "BasicBlock" [("id", b.id.debug), ("name", Text.quoted (names.text b.name)),
    ("stmts", Text.list (b.stmts.map fun st => (st.map fun n => (s.tree n).debug names).debug names))]

end Block
end KernelIR
