/-!
# Text — the one-line shown forms

A record is shown as its name and its fields in braces, a tagged value as its name and its parts in parentheses, a
list in brackets, a name in double quotes.
-/
namespace KernelIR
namespace Text

def hexDigits (n : Nat) : List Char := Nat.toDigits 16 n

/-- The control characters: the two blocks below the blank and from the delete character on. -/
def isControl (c : Char) : Bool := c.toNat < 0x20 || (0x7f ≤ c.toNat && c.toNat < 0xa0)

/-- How one character stands between double quotes: quote and backslash are escaped, the four named control
characters have letters, every other control character is written by its number. -/
def quotedChar (c : Char) : List Char :=
  if c = '"' then ['\\', '"']
  else if c = '\\' then ['\\', '\\']
  else if c = '\t' then ['\\', 't']
  else if c = '\n' then ['\\', 'n']
  else if c = '\r' then ['\\', 'r']
  else if c.toNat = 0 then ['\\', '0']
  else if isControl c then ['\\', 'u', '\x7b'] ++ hexDigits c.toNat ++ ['\x7d']
  else [c]

def quoted (s : String) : String := String.ofList (['"'] ++ s.toList.flatMap quotedChar ++ ['"'])

def commaSeparated (items : List String) : String := String.intercalate ", " items

def list (items : List String) : String := "[" ++ commaSeparated items ++ "]"

def tagged (name : String) (parts : List String) : String := name ++ "(" ++ commaSeparated parts ++ ")"

def field (p : String × String) : String := p.1 ++ ": " ++ p.2

def record (name : String) (fields : List (String × String)) : String :=
  name ++ " \x7b " ++ commaSeparated (fields.map field) ++ " \x7d"

def option : Option String → String
  | none => "None"
  | some s => tagged "Some" [s]

def bool (b : Bool) : String := if b then "true" else "false"

def word (w : UInt64) : String := toString w.toNat

end Text
end KernelIR
