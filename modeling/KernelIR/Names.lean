/-!
# Names — the table of interned names

A name is kept once, in an append-only table, and objects hold its position (`Symbol`).  Interning a text twice gives
the same symbol; looking a text up never adds it.
-/
namespace KernelIR

/-- The position of a name in the table. -/
structure Symbol where
  index : Nat
  deriving DecidableEq, Inhabited

/-- The interned texts, in the order in which they were first interned. -/
structure Names where
  texts : List String
  nodup : texts.Nodup

namespace Names

def empty : Names := ⟨[], .nil⟩

instance : Inhabited Names := ⟨empty⟩

/-- The symbol of `s`, if `s` was interned. -/
def lookup? (names : Names) (s : String) : Option Symbol :=
  if s ∈ names.texts then some ⟨names.texts.idxOf s⟩ else none

/-- The symbol of `s`, which is added at the end when it is new. -/
def intern (names : Names) (s : String) : Symbol × Names :=
  if h : s ∈ names.texts then (⟨names.texts.idxOf s⟩, names)
  else (⟨names.texts.length⟩, ⟨names.texts ++ [s],
    List.nodup_append.2 ⟨names.nodup, List.pairwise_singleton _ _, fun _ ha _ hb hab =>
      h (List.mem_singleton.1 hb ▸ hab ▸ ha)⟩⟩)

/-- The text of a symbol; a symbol that no table position has reads as the empty text. -/
def text (names : Names) (y : Symbol) : String := names.texts.getD y.index ""

end Names
end KernelIR
