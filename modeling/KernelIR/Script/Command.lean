import KernelIR.Report
import KernelIR.Script.Term
/-!
# Command — what a script can ask, and what it is answered

A command builds, moves, drops or reads.  One that makes an object may name a slot for it (`into`); an object without a
slot is dropped.  What a producer can do besides, with objects that it has already, are the further actions of
`KernelIR.Script.Action`.
-/
namespace KernelIR

/-- Where a function is read. -/
inductive FunctionRef where
  | loose (x : String)
  /-- The function at a position of a module. -/
  | nth (m : String) (i : Nat)
  /-- The function of a module that has the name. -/
  | named (m : String) (text : String)
  deriving Inhabited

/-- Where a block is read. -/
inductive BlockRef where
  | loose (x : String)
  | ofFunction (f : FunctionRef) (i : Nat)
  deriving Inhabited

/-- Where a statement is read. -/
inductive StmtRef where
  | loose (x : String)
  | ofBlock (b : BlockRef) (i : Nat)
  deriving Inhabited

/-- The handles that can be told apart. -/
inductive HandleKind where
  | var
  | array
  | callee
  deriving DecidableEq, Inhabited

/-- The objects that have a record form. -/
inductive ShownKind where
  | expr
  | var
  | array
  | callee
  | stmt
  | block
  deriving DecidableEq, Inhabited

/-- The objects that can be dropped. -/
inductive DroppedKind where
  | expr
  | var
  | stmt
  | block
  | function
  | module
  deriving DecidableEq, Inhabited

inductive Command where
  | expr (e : Term) (into : Option String)
  | operand (x : String) (i : Nat) (into : Option String)
  | info (x : String)
  | dump (x : String)
  | refCount (x : String)
  | markers (x : String)
  | preventEval (x : String)
  /-- Whether two slots hold the very same node. -/
  | sameNode (x y : String)
  | typecheckCall (callee : String) (arguments : List Term)
  /-- How many different handles the slots hold. -/
  | distinct (kind : HandleKind) (xs : List String)
  | debug (kind : ShownKind) (x : String)
  | drop (kind : DroppedKind) (x : String)
  | locs (locs : LocsTerm) (into : Option String)
  | compareLocs (x y : String)
  | stmt (s : StmtTerm) (into : Option String)
  | showStmt (s : StmtRef)
  | sourceLocs (s : StmtRef)
  | block (id : BlockId) (name : String) (into : Option String)
  | addStmt (site : BlockSite) (s : StmtTerm)
  | addEval (site : BlockSite) (e : Term) (locs : LocsTerm)
  | showBlock (b : BlockRef)
  | function (name : String) (into : Option String)
  | addVar (role : VarRole) (f name : String) (typ : TyTerm) (into : Option String)
  | addBlock (f name : String)
  | addClause (kind : ClauseKind) (f : String) (e : Term) (locs : LocsTerm)
  | addAttribute (f name : String)
  | hasAttribute (f : FunctionRef) (name : String)
  | callee (f : FunctionRef) (into : Option String)
  | showFunction (f : FunctionRef)
  | module (name : String) (model : ModelTerm) (into : Option String)
  | addArray (m name : String) (space : MemorySpace) (into : Option String)
  | addFunction (m f : String)
  | addAxiom (m : String) (e : Term)
  | showModule (m : String)
  deriving Inhabited

inductive Reply where
  | done
  | flag (b : Bool)
  | count (n : Nat)
  | text (s : String)
  | node (r : NodeReport)
  | info (r : InfoReport)
  | tree (d : Dump)
  | markers (hasEval prevented : Bool)
  | locs (r : LocsReport)
  | locsCompared (equal same : Bool)
  | stmt (r : StmtReport)
  | sourceLocs (locs : List LocReport) (slots : List String)
  | block (r : BlockReport)
  | function (r : FunctionReport)
  | variables (args returns locals : Nat)
  | blockId (id : BlockId)
  | clauses (requires ensures : Nat)
  | callee (signature : SignatureReport) (slots : List String)
  | module (r : ModuleReport)
  | array (r : ArrayReport)
  deriving Inhabited

end KernelIR
