import KernelIR.Script.Run
/-!
# Action — what a producer can do beyond the commands

The commands fill a block only through its own constructors and take nothing out of an object that holds it.  A producer
can do more with what it has:

* A block of a function that no module owns yet can change places, whole, with any other block.  A block that is
  overwritten has changed places with one that is dropped then, and two blocks of functions change places through a
  third.
* A handle can be copied out of whatever holds the node: a statement, a clause, an axiom.  A copy of a contract or of a
  clause is one of its handles and its locations.
* The text of a name can be read by code of the producer's own, which has the table of names to itself meanwhile.
  When that code fails, the table is poisoned, and nobody is given it again (`Fault.namesPoisoned`).  Code that spells
  its own text while it is converted, and code that writes a name out, have the table in the same way.

`Workspace.Reachable` speaks of commands, `Workspace.acts` of all actions.  What is left out: code that asks for the
table while it has it, since it is never answered; and the order and the hash of symbols, which are no business of the
objects here.  Replies and messages show the texts of names without asking for the table, so where it is poisoned they
say more than a producer gets to see.
-/
namespace KernelIR

inductive Action where
  | command (c : Command)
  /-- A block of a function and the block in a slot change places. -/
  | exchangeBlock (f : String) (i : Nat) (x : String)
  /-- The `i`-th of the nodes that an object holds is put into an expression slot as well. -/
  | copyHandle (kind : OwnedKind) (x : String) (i : Nat) (into : String)
  /-- Code is run on the text of a name. -/
  | inspect (name : String) (code : String → Except String String)

namespace Build

/-- The object that a slot owns. -/
def ownedSlot (kind : OwnedKind) (x : String) : Build Owned := do
  match (← get).owned? kind x with
  | some o => return o
  | none => throw (.missing (.slot kind.slot x))

/-- Runs code on the text of a symbol, with the table of names. -/
def withText (y : Symbol) (code : String → Except String String) : Build String := do
  checkNames
  match code ((← get).names.text y) with
  | .ok s => return s
  | .error message =>
    modify fun w => { w with poisoned := true }
    refuse (.raised message)

end Build

namespace Action

def perform : Action → Build Reply
  | .command c => c.perform
  | .exchangeBlock f i x => do
    let b ← Build.blockAt (.inFunction f i)
    let b' ← Build.blockSlot x
    modify (Workspace.putBlock (.inFunction f i) b')
    modify (Workspace.putBlock (.loose x) b)
    return .done
  | .copyHandle kind x i into => do
    let o ← Build.ownedSlot kind x
    match o.held[i]? with
    | some n =>
      modify (Workspace.setExpr into n)
      return .done
    | none => throw (.missing .operand)
  | .inspect name code => do return .text (← Build.withText (← Build.intern name) code)

end Action

namespace Workspace

/-- One action: the answer and the workspace after it, as for a command. -/
def act (w : Workspace) (a : Action) : Except Failure Reply × Workspace :=
  match a.perform w with
  | .ok r w' => (.ok r, w'.tidy)
  | .error e w' => (.error e, w'.tidy)

/-- The workspace after a list of actions, whether or not they succeed. -/
def acts (w : Workspace) (as : List Action) : Workspace := as.foldl (fun w a => (w.act a).2) w

/-- A script of commands is a list of actions. -/
theorem acts_commands : ∀ (cs : List Command) (w : Workspace), w.acts (cs.map .command) = (w.run cs).2
  | [], _ => rfl
  | c :: cs, w => acts_commands cs (w.step c).2

end Workspace
end KernelIR
