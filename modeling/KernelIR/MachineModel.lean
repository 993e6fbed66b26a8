import KernelIR.Fault
import KernelIR.Json
/-!
# MachineModel — what is known of the target

A model can be written as JSON and read back, from an object or from the list of its four values.
-/
namespace KernelIR

structure MachineModel where
  architecture : String
  /-- The bits of a pointer, and so of an array offset. -/
  pointerWidth : UInt64
  byteWidth : UInt64
  isBigEndian : Bool
  deriving DecidableEq, Inhabited

namespace MachineModel

/-- The 32-bit little-endian target of OpenCL. -/
def spir : MachineModel := ⟨"spir", 32, 8, false⟩

/-- The 64-bit little-endian target of CUDA. -/
def nvptx64 : MachineModel := ⟨"nvptx64", 64, 8, false⟩

def pointerType (m : MachineModel) : Except Fault Ty := Ty.sized .pointer m.pointerWidth

def offsetType (m : MachineModel) : Except Fault Ty := Ty.sized .bv m.pointerWidth

def debug (m : MachineModel) : String :=
  Text.record "MachineModel" [("architecture", Text.quoted m.architecture),
    ("pointer_width", Text.word m.pointerWidth), ("byte_width", Text.word m.byteWidth),
    ("is_big_endian", Text.bool m.isBigEndian)]

def toJson (m : MachineModel) : Json :=
  .obj [("architecture", .str m.architecture), ("pointer_width", .ofWord m.pointerWidth),
    ("byte_width", .ofWord m.byteWidth), ("is_big_endian", .bool m.isBigEndian)]

/-- Reads an object that has the four fields, or the list of the four values. -/
def ofJson? : Json → Option MachineModel
  | .obj fields => do
    let architecture ← (← fields.lookup "architecture").str?
    let pointerWidth ← (← fields.lookup "pointer_width").word?
    let byteWidth ← (← fields.lookup "byte_width").word?
    let isBigEndian ← (← fields.lookup "is_big_endian").bool?
    pure ⟨architecture, pointerWidth, byteWidth, isBigEndian⟩
  | .arr [a, p, b, e] => do pure ⟨← a.str?, ← p.word?, ← b.word?, ← e.bool?⟩
  | _ => none

end MachineModel
end KernelIR
