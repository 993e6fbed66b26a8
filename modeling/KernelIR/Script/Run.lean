import KernelIR.Script.Command
/-!
# Run — the effect of a command, and whole scripts

`Workspace.step` runs one command: it answers with a reply or a failure, and in both cases the nodes that nothing holds
any more are gone afterwards.  A failure does not stop a script (`Workspace.run`).  An answer is computed before the
slot named by the command is filled.
-/
namespace KernelIR

namespace Build

variable {α : Type}

/-- Fills the slot, if one is named. -/
def keep (set : String → α → Workspace → Workspace) (into : Option String) (a : α) : Build Unit :=
  match into with
  | some x => modify (set x a)
  | none => pure ()

/-- Fills the slot with a new object, or drops it. -/
def keepOwned (into : Option String) (o : Owned) : Build Unit :=
  match into with
  | some x => setOwned x o
  | none => dropOwned [o]

def findFunction : FunctionRef → Build (FunctionSite × Function)
  | .loose x => do return (.loose x, ← functionSlot x)
  | .nth m i => do nthFunction m i (← moduleSlot m)
  | .named m text => do
    let md ← moduleSlot m
    checkNames
    match md.positionOf? (← get).names text with
    | some i => nthFunction m i md
    | none => throw (.missing .functionOfModule)
where
  nthFunction (m : String) (i : Nat) (md : Module) : Build (FunctionSite × Function) :=
    match md.functions[i]? with
    | some f => pure (.inModule m i, f)
    | none => throw (.missing .functionOfModule)

def findBlock : BlockRef → Build Block
  | .loose x => blockSlot x
  | .ofFunction f i => do ofExcept ((← findFunction f).2.block i)

def findStmt : StmtRef → Build (Stmt NodeId)
  | .loose x => stmtSlot x
  | .ofBlock b i => do
    match (← findBlock b).stmts[i]? with
    | some s => return s
    | none => throw (.missing .stmtOfBlock)

/-- The number of different identities. -/
def countDistinct (ids : List Nat) : Nat := ids.eraseDups.length

def distinct (kind : HandleKind) (xs : List String) : Build Nat := do
  match kind with
  | .var => return countDistinct ((← xs.mapM varSlot).map (·.id))
  | .array => return countDistinct ((← xs.mapM arraySlot).map (·.id))
  | .callee => return countDistinct ((← xs.mapM calleeSlot).map (·.id))

def debug (kind : ShownKind) (x : String) : Build String := do
  let w ← get
  match kind with
  | .expr => return w.debugExpr (← exprSlot x)
  | .var => return (← varSlot x).debug w.names
  | .array => return (← arraySlot x).debug w.names
  | .callee => return (← calleeSlot x).debug w.names
  | .stmt => return w.debugStmt (← stmtSlot x)
  | .block => return (← blockSlot x).debug w.names w.store

/-- Empties a slot and drops what was there. -/
def drop (kind : DroppedKind) (x : String) : Build Unit := do
  match kind with
  | .expr => discard (exprSlot x); modify (Workspace.eraseExpr x)
  | .var => discard (varSlot x); modify (Workspace.eraseVar x)
  | .stmt => remove x (.stmt (← stmtSlot x))
  | .block => remove x (.block (← blockSlot x))
  | .function => remove x (.function (← functionSlot x))
  | .module => remove x (.module (← moduleSlot x))

end Build

namespace Command

/-- An evaluation is added only where none is alive and none is forbidden. -/
def addEvalTo (site : BlockSite) (n : NodeId) (locs : Locs) : Build Nat := do
  let c := (← get).store.cell n
  if c.hasEval || c.prevented then return (← Build.blockAt site).stmts.length
  else Build.appendStmt site (← Build.newStmt (.eval n) locs)

def perform : Command → Build Reply
  | .expr e into => do
    let n ← e.build
    let r := (← get).reportNode n
    Build.keep Workspace.setExpr into n
    return .node r
  | .operand x i into => do
    let n ← Build.exprSlot x
    let w ← get
    match (w.store.cell n).operands[i]? with
    | some o =>
      Build.keep Workspace.setExpr into o
      return .node (w.reportNode o)
    | none => throw (.missing .operand)
  | .info x => do
    let n ← Build.exprSlot x
    return .info ((← get).reportInfo n)
  | .dump x => do
    let n ← Build.exprSlot x
    return .tree ((← get).dump n)
  | .refCount x => do
    let n ← Build.exprSlot x
    return .count ((← get).store.cell n).holders
  | .markers x => do
    let n ← Build.exprSlot x
    let c := (← get).store.cell n
    return .markers c.hasEval c.prevented
  | .preventEval x => do
    let n ← Build.exprSlot x
    modify (Workspace.mapStore (Store.prevent n))
    return .flag true
  | .sameNode x y => do
    let n ← Build.exprSlot x
    let m ← Build.exprSlot y
    return .flag (n == m)
  | .typecheckCall c args => do
    let c ← Build.calleeSlot c
    let ns ← Term.buildList args
    let s := (← get).store
    return .flag (c.accepts (ns.map s.typ))
  | .distinct kind xs => do return .count (← Build.distinct kind xs)
  | .debug kind x => do return .text (← Build.debug kind x)
  | .drop kind x => do
    Build.drop kind x
    return .done
  | .locs t into => do
    let l ← t.build
    Build.keep Workspace.setLocs into l
    return .locs ((← get).reportLocs l)
  | .compareLocs x y => do
    let a ← Build.locsSlot x
    let b ← Build.locsSlot y
    return .locsCompared (a.list == b.list) (a.id == b.id)
  | .stmt s into => do
    let s ← s.build
    let r := (← get).reportStmt s
    Build.keepOwned into (.stmt s)
    return .stmt r
  | .showStmt s => do
    let s ← Build.findStmt s
    return .stmt ((← get).reportStmt s)
  | .sourceLocs s => do
    let s ← Build.findStmt s
    if !s.kind.isLocated then Build.refuse (.unlocated s.kind)
    let w ← get
    return .sourceLocs (w.reportLocList s.locs) (w.locs.namesWhere (·.id == s.locs.id))
  | .block id name into => do
    let b := Block.new id (← Build.intern name)
    Build.keepOwned into (.block b)
    return .block ((← get).reportBlock b)
  | .addStmt site s => do
    discard (Build.blockAt site)
    return .count (← Build.appendStmt site (← s.build))
  | .addEval site e t => do
    discard (Build.blockAt site)
    let n ← e.build
    return .count (← addEvalTo site n (← t.build))
  | .showBlock b => do
    let b ← Build.findBlock b
    return .block ((← get).reportBlock b)
  | .function name into => do
    let f := Function.new (← Build.intern name)
    Build.keepOwned into (.function f)
    return .function ((← get).reportFunction f)
  | .addVar role f name typ into => do
    let fn ← Build.functionSlot f
    let t ← Build.ofResult typ.eval
    Build.ofExcept (fn.checkOpen role)
    let v ← Build.newVar name t
    let fn := fn.addVar role v
    modify (Workspace.putFunction (.loose f) fn)
    Build.keep Workspace.setVar into v
    return .variables fn.args.length fn.returns.length fn.locals.length
  | .addBlock f name => do
    let fn ← Build.functionSlot f
    let y ← Build.intern name
    modify (Workspace.putFunction (.loose f) (fn.addBlock y))
    return .blockId ⟨fn.blocks.length⟩
  | .addClause kind f e t => do
    let fn ← Build.functionSlot f
    let n ← e.build
    let l ← t.build
    Build.ofExcept (checkPredicate (← get).store.reader .contractClause n)
    modify (Workspace.acquire [n] [])
    let fn := fn.addClause kind ⟨n, l⟩
    modify (Workspace.putFunction (.loose f) fn)
    return .clauses fn.requires.length fn.ensures.length
  | .addAttribute f name => do
    let fn ← Build.functionSlot f
    let fn := fn.addAttribute (← Build.intern name)
    modify (Workspace.putFunction (.loose f) fn)
    return .count fn.attributes.length
  | .hasAttribute f name => do
    let p ← Build.findFunction f
    if !p.2.attributes.isEmpty then Build.checkNames
    return .flag (p.2.hasAttribute (← get).names name)
  | .callee f into => do
    let p ← Build.findFunction f
    let c ← Build.calleeOf p.1 p.2
    let w ← get
    Build.keep Workspace.setCallee into c
    return .callee (w.reportCallee c) (w.callees.namesWhere (·.id == c.id))
  | .showFunction f => do
    let p ← Build.findFunction f
    return .function ((← get).reportFunction p.2)
  | .module name model into => do
    let model ← Build.ofResult model.eval
    let md := Module.new (← Build.intern name) model
    Build.keepOwned into (.module md)
    return .module ((← get).reportModule md)
  | .addArray m name space into => do
    let md ← Build.moduleSlot m
    let a ← Build.newArray name space
    modify (Workspace.putModule m (md.addArray a))
    Build.keep Workspace.setArray into a
    return .array ((← get).reportArray a)
  | .addFunction m f => do return .count (← Build.moveFunction m f)
  | .addAxiom m e => do
    let md ← Build.moduleSlot m
    let n ← e.build
    Build.ofExcept (checkPredicate (← get).store.reader .moduleAxiom n)
    modify (Workspace.acquire [n] [])
    let md := md.addAxiom n
    modify (Workspace.putModule m md)
    return .count md.axioms.length
  | .showModule m => do
    let md ← Build.moduleSlot m
    return .module ((← get).reportModule md)

end Command

namespace Workspace

/-- **One command**: the answer and the workspace after it. -/
def step (w : Workspace) (c : Command) : Except Failure Reply × Workspace :=
  match c.perform w with
  | .ok r w' => (.ok r, w'.tidy)
  | .error e w' => (.error e, w'.tidy)

/-- A script: every command in turn, whether or not those before it failed. -/
def run (w : Workspace) : List Command → List (Except Failure Reply) × Workspace
  | [] => ([], w)
  | c :: cs =>
    let p := w.step c
    let q := p.2.run cs
    (p.1 :: q.1, q.2)

/-- The workspaces that scripts reach. -/
def Reachable (w : Workspace) : Prop := ∃ cs : List Command, (empty.run cs).2 = w

end Workspace
end KernelIR
