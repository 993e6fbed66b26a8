import KernelIR.Block
/-!
# Function — variables, blocks, contract and signature

The first block is the entry.  The signature is open until the callee handle is first taken; from then on parameters and
return values are fixed, because call sites rely on them.
-/
namespace KernelIR

/-- The three lists of variables of a function. -/
inductive VarRole where
  | parameter
  | returnValue
  | localVar
  deriving DecidableEq, Inhabited

inductive ClauseKind where
  | requires
  | ensures
  deriving DecidableEq, Inhabited

/-- One predicate of a contract. -/
structure Clause where
  pred : NodeId
  locs : Locs
  deriving Inhabited

structure Function where
  name : Symbol
  args : List Var
  returns : List Var
  locals : List Var
  blocks : List Block
  requires : List Clause
  ensures : List Clause
  attributes : List Symbol
  /-- The handle of the call sites, once it was taken. -/
  callee : Option Callee
  deriving Inhabited

namespace VarRole

/-- The part of the signature that a variable of this role belongs to. -/
def part? : VarRole → Option SignaturePart
  | .parameter => some .parameter
  | .returnValue => some .returnValue
  | .localVar => none

end VarRole

namespace Function

def new (name : Symbol) : Function := ⟨name, [], [], [], [], [], [], [], none⟩

/-- The signature can still be changed; locals are no part of it. -/
def checkOpen (f : Function) (role : VarRole) : Except Fault Unit :=
  match role.part?, f.callee with
  | some part, some _ => .error (.signatureUsed part f.name)
  | _, _ => .ok ()

def addVar (role : VarRole) (v : Var) (f : Function) : Function :=
  match role with
  | .parameter => { f with args := f.args ++ [v] }
  | .returnValue => { f with returns := f.returns ++ [v] }
  | .localVar => { f with locals := f.locals ++ [v] }

def addBlock (name : Symbol) (f : Function) : Function :=
  { f with blocks := f.blocks ++ [Block.new ⟨f.blocks.length⟩ name] }

def addClause (kind : ClauseKind) (c : Clause) (f : Function) : Function :=
  match kind with
  | .requires => { f with requires := f.requires ++ [c] }
  | .ensures => { f with ensures := f.ensures ++ [c] }

def addAttribute (name : Symbol) (f : Function) : Function := { f with attributes := f.attributes ++ [name] }

def hasAttribute (names : Names) (text : String) (f : Function) : Bool :=
  f.attributes.any fun a => names.text a == text

/-- The signature as it stands, under the identity `id`. -/
def signature (id : Nat) (f : Function) : Callee := ⟨id, f.name, f.args.map (·.typ), f.returns.map (·.typ)⟩

def block (f : Function) (i : Nat) : Except Fault Block :=
  match f.blocks[i]? with
  | some b => .ok b
  | none => .error (.blockRange f.blocks.length i)

def setBlock (i : Nat) (b : Block) (f : Function) : Function := { f with blocks := f.blocks.set i b }

/-- The first jump target that is no block of the function, in the order of blocks, statements and targets, with the
block that jumps. -/
def strayTarget? (f : Function) : Option (Block × BlockId) :=
  f.blocks.findSome? fun b =>
    (b.successors.find? fun t => f.blocks.length ≤ t.index).map fun t => (b, t)

def clauses (f : Function) : List Clause := f.requires ++ f.ensures

/-- The nodes that statements and clauses hold. -/
def held (f : Function) : List NodeId := f.blocks.flatMap (·.held) ++ f.clauses.map (·.pred)

def evaluated (f : Function) : List NodeId := f.blocks.flatMap (·.evaluated)

end Function
end KernelIR
