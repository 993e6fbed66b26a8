import KernelIR.Function
import KernelIR.MachineModel
/-!
# Module — functions, arrays and axioms of one kernel

A module takes a function over when every jump stays inside the function and the name is free.  Its index maps each
function's name to the position of the function.
-/
namespace KernelIR

structure Module where
  name : Symbol
  model : MachineModel
  arrays : List GlobalArray
  functions : List Function
  /-- The position of each function under its name. -/
  index : List (Symbol × Nat)
  axioms : List NodeId
  deriving Inhabited

namespace Module

def new (name : Symbol) (model : MachineModel) : Module := ⟨name, model, [], [], [], []⟩

def addArray (a : GlobalArray) (m : Module) : Module := { m with arrays := m.arrays ++ [a] }

/-- The module with `f` as its last function.  Stray jumps are looked for before the name is. -/
def accept (f : Function) (m : Module) : Except Fault Module :=
  match f.strayTarget? with
  | some (b, t) => .error (.jumpTarget f.name b.name t)
  | none =>
    if (m.index.lookup f.name).isSome then .error (.functionName m.name f.name)
    else .ok { m with functions := m.functions ++ [f], index := m.index ++ [(f.name, m.functions.length)] }

/-- The position of the function whose name is `text`.  A text that was never interned names none. -/
def positionOf? (names : Names) (text : String) (m : Module) : Option Nat := do
  m.index.lookup (← names.lookup? text)

def functionNamed? (names : Names) (text : String) (m : Module) : Option Function := do
  m.functions[← m.positionOf? names text]?

def addAxiom (n : NodeId) (m : Module) : Module := { m with axioms := m.axioms ++ [n] }

def setFunction (i : Nat) (f : Function) (m : Module) : Module := { m with functions := m.functions.set i f }

/-- The nodes that functions and axioms hold. -/
def held (m : Module) : List NodeId := m.functions.flatMap (·.held) ++ m.axioms

def evaluated (m : Module) : List NodeId := m.functions.flatMap (·.evaluated)

end Module
end KernelIR
