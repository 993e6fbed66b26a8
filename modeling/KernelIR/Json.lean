/-!
# Json — values of the data format and their compact text

Numbers come in two kinds: integers, and decimals written with a fraction or an exponent.  Only an integer can be read
as a 64-bit word (`Json.word?`).  An object is a list of fields; its writer keeps their order.  A value that was read
has no two fields of one name in an object, since the reader of the text keeps one of them; where a list of fields does
have two, a lookup finds the first.
-/
namespace KernelIR

inductive Json where
  | null
  | bool (b : Bool)
  | int (n : Int)
  /-- The number `mantissa · 10 ^ exponent`, written with a fraction or an exponent. -/
  | decimal (mantissa exponent : Int)
  | str (s : String)
  | arr (items : List Json)
  | obj (fields : List (String × Json))
  deriving Inhabited

namespace Json

/-- An integer from `0` up to `2 ^ 64 - 1`. -/
def word? : Json → Option UInt64
  | .int n => if 0 ≤ n ∧ n < UInt64.size then some (UInt64.ofNat n.toNat) else none
  | _ => none

def bool? : Json → Option Bool
  | .bool b => some b
  | _ => none

def str? : Json → Option String
  | .str s => some s
  | _ => none

def ofWord (w : UInt64) : Json := .int w.toNat

/-- Two lower-case hexadecimal digits. -/
def hexByte (n : Nat) : List Char := [Nat.digitChar (n / 16), Nat.digitChar (n % 16)]

/-- How one character stands in a JSON string: only the quote, the backslash and the characters below the blank are
escaped. -/
def stringChar (c : Char) : List Char :=
  if c = '"' then ['\\', '"']
  else if c = '\\' then ['\\', '\\']
  else if c.toNat = 0x08 then ['\\', 'b']
  else if c.toNat = 0x0c then ['\\', 'f']
  else if c = '\n' then ['\\', 'n']
  else if c = '\r' then ['\\', 'r']
  else if c = '\t' then ['\\', 't']
  else if c.toNat < 0x20 then ['\\', 'u', '0', '0'] ++ hexByte c.toNat
  else [c]

def quoted (s : String) : String := String.ofList (['"'] ++ s.toList.flatMap stringChar ++ ['"'])

mutual

/-- The text without blanks, fields in the order of the object. -/
def compact : Json → String
  | .null => "null"
  | .bool b => if b then "true" else "false"
  | .int n => toString n
  | .decimal m e => toString m ++ "e" ++ toString e
  | .str s => quoted s
  | .arr items => "[" ++ String.intercalate "," (compactItems items) ++ "]"
  | .obj fields => "\x7b" ++ String.intercalate "," (compactFields fields) ++ "\x7d"

def compactItems : List Json → List String
  | [] => []
  | j :: js => j.compact :: compactItems js

def compactFields : List (String × Json) → List String
  | [] => []
  | (name, j) :: fs => (quoted name ++ ":" ++ j.compact) :: compactFields fs

end

end Json
end KernelIR
