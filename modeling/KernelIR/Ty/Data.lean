import KernelIR.Json
import KernelIR.Ty
/-!
# Data — the JSON form of types

A type is written as its tag, with an object around its width where it has one.  Reading checks the form and not the
width: a type of width `0` is read as such.
-/
namespace KernelIR
namespace Ty

def toJson : Ty → Json
  | .bv w => .obj [("Bv", .obj [("width", .ofWord w)])]
  | .bool => .str "Bool"
  | .float w => .obj [("Float", .obj [("width", .ofWord w)])]
  | .arrayId => .str "ArrayId"
  | .pointer w => .obj [("Pointer", .obj [("width", .ofWord w)])]

/-- The types that are written as a tag alone. -/
def ofTag? (tag : String) : Option Ty :=
  if tag = "Bool" then some .bool else if tag = "ArrayId" then some .arrayId else none

/-- The types that are written as a tag with a width. -/
def ofSizedTag? (tag : String) (w : UInt64) : Option Ty :=
  if tag = "Bv" then some (.bv w)
  else if tag = "Float" then some (.float w)
  else if tag = "Pointer" then some (.pointer w)
  else none

/-- Reads a tag alone, a tag with nothing, or a tag with an object that has a width among its fields. -/
def ofJson? : Json → Option Ty
  | .str tag => ofTag? tag
  | .obj [(tag, .null)] => ofTag? tag
  | .obj [(tag, .obj fields)] => do
    let w ← (← fields.lookup "width").word?
    ofSizedTag? tag w
  | _ => none

end Ty

end KernelIR
