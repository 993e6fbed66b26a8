import KernelIR.Json
import KernelIR.Names
import KernelIR.Text
/-!
# Location — where in the kernel's source a statement comes from

A location list is shared: it has an identity beside its content, since one list usually serves every statement of one
instruction.
-/
namespace KernelIR

structure SourceLoc where
  file : Symbol
  path : Symbol
  line : UInt64
  column : UInt64
  deriving DecidableEq, Inhabited

/-- A list of locations, innermost first, with its identity. -/
structure Locs where
  id : Nat
  list : List SourceLoc
  deriving DecidableEq, Inhabited

namespace SourceLoc

/-- `file:line:column`. -/
def short (names : Names) (l : SourceLoc) : String :=
  names.text l.file ++ ":" ++ Text.word l.line ++ ":" ++ Text.word l.column

def debug (names : Names) (l : SourceLoc) : String :=
  Text.record "SourceLoc" [("file", Text.quoted (names.text l.file)), ("path", Text.quoted (names.text l.path)),
    ("line", Text.word l.line), ("column", Text.word l.column)]

def toJson (names : Names) (l : SourceLoc) : Json :=
  .obj [("file", .str (names.text l.file)), ("path", .str (names.text l.path)), ("line", .ofWord l.line),
    ("column", .ofWord l.column)]

end SourceLoc

namespace Locs

def innermost? (l : Locs) : Option SourceLoc := l.list.head?

def debug (names : Names) (l : Locs) : String :=
  Text.tagged "SourceLocs" [Text.list (l.list.map (·.debug names))]

end Locs
end KernelIR
