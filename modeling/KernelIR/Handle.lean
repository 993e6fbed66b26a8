import KernelIR.Names
import KernelIR.Ty
/-!
# Handle — variables, global arrays and callees

A handle is a value with an identity number, given out once.  Copies of a handle are the same thing; two handles made
apart are different, whatever their names and types.
-/
namespace KernelIR

/-- A parameter, a return slot or a local of a function. -/
structure Var where
  id : Nat
  name : Symbol
  typ : Ty
  deriving DecidableEq, Inhabited

/-- Where the memory of an array lives. -/
inductive MemorySpace where
  | global
  | groupShared
  | constant
  /-- Private to one thread. -/
  | perThread
  deriving DecidableEq, Inhabited

/-- An addressable array of a module. -/
structure GlobalArray where
  id : Nat
  name : Symbol
  space : MemorySpace
  deriving DecidableEq, Inhabited

/-- The name and the signature of a function, as call sites hold it. -/
structure Callee where
  id : Nat
  name : Symbol
  parameters : List Ty
  returns : List Ty
  deriving DecidableEq, Inhabited

namespace MemorySpace

/-- Visible to more than one thread. -/
def isShared : MemorySpace → Bool
  | .global | .groupShared => true
  | .constant | .perThread => false

def display : MemorySpace → String
  | .global => "Global"
  | .groupShared => "GroupShared"
  | .constant => "Constant"
  | .perThread => "Private"

end MemorySpace

namespace Var

def debug (names : Names) (v : Var) : String := Text.tagged "Var" [names.text v.name ++ ": " ++ v.typ.display]

end Var

namespace GlobalArray

def debug (names : Names) (a : GlobalArray) : String :=
  Text.tagged "GlobalArray" [names.text a.name, a.space.display]

end GlobalArray

namespace Callee

/-- A call has as many arguments as there are parameters, each of the parameter's type. -/
def accepts (c : Callee) (arguments : List Ty) : Bool := arguments == c.parameters

def debug (names : Names) (c : Callee) : String :=
  Text.tagged "FunctionRef" [names.text c.name ++ ": " ++ Text.list (c.parameters.map Ty.debug) ++ " -> " ++
    Text.list (c.returns.map Ty.debug)]

end Callee
end KernelIR
