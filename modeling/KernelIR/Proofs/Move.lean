import Mathlib.Logic.Relation
import KernelIR.Build
import KernelIR.Proofs.Owned
import KernelIR.Proofs.Store.Books
/-!
# Move — what a command does, one change at a time

A command is a row of moves (`Move`).  Between two moves it has objects in hand: statements that no slot and no block
owns yet, or a function on its way into a module.  The books are kept for what the workspace and the hand hold together
(`Config.Balanced`), and every move keeps them (`Move.balanced`).

A part of the moves only adds names, numbers and nodes (`Growth`): that is all the evaluation of a term does.  The
evaluation of a statement term makes statements in hand besides (`Assembly`) and takes some out of their slots.

A `Scope` bounds a row: the statements that it may make, the slots that it may empty, the expression slots that it may
change, the nodes that it may mark, the signatures that it may fix, the slots that it may write.
-/
namespace KernelIR

/-- A workspace in the middle of a command, and the objects that the command has in hand. -/
structure Config where
  hand : List Owned
  ws : Workspace

/-- A slot that owns its object. -/
abbrev OwnedSlot := OwnedKind × String

/-- What a row of moves may do. -/
structure Scope where
  /-- The kinds of statements that it may make. -/
  makes : StmtKind → Prop
  /-- The slots that it may take an object out of. -/
  takes : OwnedKind → String → Prop
  /-- The expression slots that it may fill or empty. -/
  fills : String → Prop
  /-- The nodes that it may forbid evaluations of. -/
  forbids : NodeId → Prop
  /-- The functions whose signature it may fix. -/
  freezes : FunctionSite → Prop
  /-- The slots that it may fill, or change the object of. -/
  writes : OwnedKind → String → Prop

def Scope.all : Scope :=
  ⟨fun _ => True, fun _ _ => True, fun _ => True, fun _ => True, fun _ => True, fun _ _ => True⟩

/-- The slot of the block, or that of the function which owns it. -/
def BlockSite.owner : BlockSite → OwnedSlot
  | .loose x => (.block, x)
  | .inFunction x _ => (.function, x)

/-- The slot of the function, or that of the module which owns it. -/
def FunctionSite.owner : FunctionSite → OwnedSlot
  | .loose x => (.function, x)
  | .inModule m _ => (.module, m)

/-- The callees that a constructor is given. -/
def Form.callees {α : Type} : Form α → List Callee
  | .call c _ => [c]
  | _ => []

/-- The callees of a statement, those of listed calls included. -/
def StmtBody.callees {α : Type} : StmtBody α → List Callee
  | .call c _ => [c]
  | .callMemberOf _ calls => calls.map (·.callee)
  | _ => []

/-- A mark stands alone, on the constant that it asserts. -/
def Facets.Fits {α : Type} (f : Facets) (s : Shape α) : Prop :=
  (f.badAccess = true → f = { Facets.none with badAccess := true } ∧ s = .boolConst false) ∧
    (f.blockSourceLoc = true → f = { Facets.none with blockSourceLoc := true } ∧ s = .boolConst true)

/-- A statement that is made out of nodes alone: it is no indirect call, and its marks fit. -/
def StmtBody.Direct {α : Type} (read : α → Node α) : StmtBody α → Prop
  | .assert p facets => facets.Fits (read p).shape
  | .callMemberOf _ _ => False
  | _ => True

/-- Names, numbers and nodes are added; no slot changes. -/
inductive Growth (w : Workspace) : Workspace → Prop
  | intern (s : String) : Growth w { w with names := (w.names.intern s).2 }
  | number : Growth w { w with supply := w.supply + 1 }
  | node {f : Form NodeId} {shape : Shape NodeId} {t : Ty} (live : ∀ n ∈ f.operands, w.store.Live n)
    (known : ∀ c ∈ f.callees, c ∈ w.callees.values) (made : f.resolve w.store.reader = .ok (.fresh shape t)) :
    Growth w { w with store := (w.store.alloc shape t).2 }

def Grows : Workspace → Workspace → Prop := Relation.ReflTransGen Growth

namespace Workspace

def newStmt (w : Workspace) (body : StmtBody NodeId) (locs : Locs) : Stmt NodeId := ⟨w.supply, body, none, locs⟩

def withStmt (w : Workspace) (body : StmtBody NodeId) : Workspace :=
  { w.acquire body.operands body.evaluated with supply := w.supply + 1 }

def discard (w : Workspace) (os : List Owned) : Workspace :=
  w.giveUp (os.flatMap (·.held)) (os.flatMap (·.evaluated))

def block? (w : Workspace) : BlockSite → Option Block
  | .loose x => w.blocks.get? x
  | .inFunction x i => do (← w.functions.get? x).blocks[i]?

def function? (w : Workspace) : FunctionSite → Option Function
  | .loose x => w.functions.get? x
  | .inModule x i => do (← w.modules.get? x).functions[i]?

/-- The slots of `w'` are those of `w`; names, numbers and nodes may differ. -/
def SameSlots (w w' : Workspace) : Prop := w' = { w with names := w'.names, store := w'.store, supply := w'.supply }

end Workspace

/-- An object that was just made and holds nothing. -/
inductive Owned.Blank : Owned → Prop
  | block (id : BlockId) (y : Symbol) : Blank (.block (.new id y))
  | function (y : Symbol) : Blank (.function (.new y))
  | module (y : Symbol) (model : MachineModel) : Blank (.module (.new y model))

/-- A change of a function that adds no hold. -/
inductive Function.Edit (f : Function) : Function → Prop
  | addVar {role : VarRole} (v : Var) (free : f.checkOpen role = .ok ()) : Edit f (f.addVar role v)
  | addBlock (y : Symbol) : Edit f (f.addBlock y)
  | addAttribute (y : Symbol) : Edit f (f.addAttribute y)

/-- **The moves that put statements together in hand.** -/
inductive Assembly (a : Scope) : Config → Config → Prop
  | grow {hand : List Owned} {w w' : Workspace} (h : Growth w w') : Assembly a ⟨hand, w⟩ ⟨hand, w'⟩
  | reorder {hand hand' : List Owned} {w : Workspace} (h : hand.Perm hand') : Assembly a ⟨hand, w⟩ ⟨hand', w⟩
  /-- A statement comes into hand, new; it holds its nodes. -/
  | make {hand : List Owned} {w : Workspace} {body : StmtBody NodeId} (locs : Locs) (allowed : a.makes body.kind)
    (direct : body.Direct w.store.reader.node) (known : ∀ c ∈ body.callees, c ∈ w.callees.values)
    (live : ∀ n ∈ body.operands, w.store.Live n) (meets : body.check w.store.reader = .ok ()) :
    Assembly a ⟨hand, w⟩ ⟨.stmt (w.newStmt body locs) :: hand, w.withStmt body⟩
  /-- Calls in hand go into an indirect call, which takes over what they hold. -/
  | gather {hand : List Owned} {w : Workspace} {func : NodeId} {stmts : List (Stmt NodeId)}
    {calls : List (CallStmt NodeId)} (locs : Locs) (allowed : a.makes .callMemberOf) (live : w.store.Live func)
    (meets : StmtBody.checkIndirect w.store.reader func = .ok ())
    (listed : stmts.mapM (Stmt.asCall w.store.reader) = .ok calls) :
    Assembly a ⟨stmts.map .stmt ++ hand, w⟩ ⟨.stmt (w.newStmt (.callMemberOf func calls) locs) :: hand,
      (w.withStmt (.callMemberOf func calls)).discard (stmts.map .stmt)⟩
  /-- Objects in hand go, with what they hold and evaluate. -/
  | drop {hand : List Owned} {w : Workspace} (os : List Owned) : Assembly a ⟨os ++ hand, w⟩ ⟨hand, w.discard os⟩

/-- **The moves.** -/
inductive Move (a : Scope) : Config → Config → Prop
  | assemble {c c' : Config} (h : Assembly a c c') : Move a c c'
  | setExpr {hand : List Owned} {w : Workspace} {n : NodeId} {x : String} (allowed : a.fills x)
    (live : w.store.Live n) : Move a ⟨hand, w⟩ ⟨hand, w.setExpr x n⟩
  | eraseExpr {hand : List Owned} {w : Workspace} {x : String} (allowed : a.fills x) :
    Move a ⟨hand, w⟩ ⟨hand, w.eraseExpr x⟩
  | setVar {hand : List Owned} {w : Workspace} (x : String) (v : Var) : Move a ⟨hand, w⟩ ⟨hand, w.setVar x v⟩
  | eraseVar {hand : List Owned} {w : Workspace} (x : String) : Move a ⟨hand, w⟩ ⟨hand, w.eraseVar x⟩
  | setArray {hand : List Owned} {w : Workspace} (x : String) (r : GlobalArray) :
    Move a ⟨hand, w⟩ ⟨hand, w.setArray x r⟩
  | setCallee {hand : List Owned} {w : Workspace} {site : FunctionSite} {f : Function} {c : Callee} (x : String)
    (here : w.function? site = some f) (known : f.callee = some c) : Move a ⟨hand, w⟩ ⟨hand, w.setCallee x c⟩
  | setLocs {hand : List Owned} {w : Workspace} (x : String) (l : Locs) : Move a ⟨hand, w⟩ ⟨hand, w.setLocs x l⟩
  | prevent {hand : List Owned} {w : Workspace} {n : NodeId} (allowed : a.forbids n) :
    Move a ⟨hand, w⟩ ⟨hand, w.mapStore (Store.prevent n)⟩
  | blank {hand : List Owned} {w : Workspace} {o : Owned} (h : o.Blank) : Move a ⟨hand, w⟩ ⟨o :: hand, w⟩
  | take {hand : List Owned} {w : Workspace} (kind : OwnedKind) {x : String} {o : Owned} (allowed : a.takes kind x)
    (owns : w.owned? kind x = some o) :
    Move a ⟨hand, w⟩ ⟨o :: hand, w.take kind x⟩
  | put {hand : List Owned} {w : Workspace} {x : String} {o : Owned} (free : w.owned? o.kind x = none)
    (allowed : a.writes o.kind x) : Move a ⟨o :: hand, w⟩ ⟨hand, w.put x o⟩
  | place {hand : List Owned} {w : Workspace} {site : BlockSite} {b : Block} {s placed : Stmt NodeId}
    (here : w.block? site = some b) (free : s.place b.id = .ok placed) (allowed : a.writes site.owner.1 site.owner.2) :
    Move a ⟨.stmt s :: hand, w⟩ ⟨hand, w.putBlock site (b.push placed)⟩
  | accept {hand : List Owned} {w : Workspace} {x : String} {m m' : Module} {f : Function}
    (here : w.modules.get? x = some m) (fits : m.accept f = .ok m') (allowed : a.writes .module x) :
    Move a ⟨.function f :: hand, w⟩ ⟨hand, w.putModule x m'⟩
  | edit {hand : List Owned} {w : Workspace} {x : String} {f f' : Function} (here : w.functions.get? x = some f)
    (h : f.Edit f') (allowed : a.writes .function x) : Move a ⟨hand, w⟩ ⟨hand, w.putFunction (.loose x) f'⟩
  | addClause {hand : List Owned} {w : Workspace} {x : String} {f : Function} {n : NodeId} (kind : ClauseKind)
    (l : Locs) (here : w.functions.get? x = some f) (live : w.store.Live n)
    (meets : checkPredicate w.store.reader .contractClause n = .ok ()) (allowed : a.writes .function x) :
    Move a ⟨hand, w⟩ ⟨hand, (w.acquire [n] []).putFunction (.loose x) (f.addClause kind ⟨n, l⟩)⟩
  /-- The signature of a function is fixed, under a new identity. -/
  | freeze {hand : List Owned} {w : Workspace} {site : FunctionSite} {f : Function} (allowed : a.freezes site)
    (here : w.function? site = some f) (first : f.callee = none) : Move a ⟨hand, w⟩
      ⟨hand, { w with supply := w.supply + 1 }.putFunction site { f with callee := some (f.signature w.supply) }⟩
  | addArray {hand : List Owned} {w : Workspace} {x : String} {m : Module} (r : GlobalArray)
    (here : w.modules.get? x = some m) (allowed : a.writes .module x) :
    Move a ⟨hand, w⟩ ⟨hand, w.putModule x (m.addArray r)⟩
  | addAxiom {hand : List Owned} {w : Workspace} {x : String} {m : Module} {n : NodeId}
    (here : w.modules.get? x = some m) (live : w.store.Live n)
    (meets : checkPredicate w.store.reader .moduleAxiom n = .ok ()) (allowed : a.writes .module x) :
    Move a ⟨hand, w⟩ ⟨hand, (w.acquire [n] []).putModule x (m.addAxiom n)⟩

namespace Config

def held (c : Config) : List NodeId := c.hand.flatMap (·.held) ++ c.ws.held

def evaluated (c : Config) : List NodeId := c.hand.flatMap (·.evaluated) ++ c.ws.evaluated

theorem held_cons (o : Owned) (hand : List Owned) (w : Workspace) :
    held ⟨o :: hand, w⟩ = o.held ++ held ⟨hand, w⟩ := List.append_assoc ..

theorem evaluated_cons (o : Owned) (hand : List Owned) (w : Workspace) :
    evaluated ⟨o :: hand, w⟩ = o.evaluated ++ evaluated ⟨hand, w⟩ := List.append_assoc ..

/-- **The books are in order** for what the hand and the workspace hold together. -/
def Balanced (c : Config) : Prop := c.ws.store.Books c.held c.evaluated

end Config

/-- What every move of the scope keeps, and implies that the books are in order. -/
structure Invariant (a : Scope) (P : Config → Prop) : Prop where
  balanced : ∀ {c}, P c → c.Balanced
  move : ∀ {c c'}, P c → Move a c c' → P c'

/-- What an assembly keeps, where `k` lists the slots that were emptied so far, in order. -/
structure Assembles (a : Scope) (P : List OwnedSlot → Config → Prop) : Prop where
  balanced : ∀ {k c}, P k c → c.Balanced
  move : ∀ {k c c'}, P k c → Assembly a c c' → P k c'
  take : ∀ {k hand} {w : Workspace} {kind x o}, P k ⟨hand, w⟩ → a.takes kind x → w.owned? kind x = some o →
    P (k ++ [(kind, x)]) ⟨o :: hand, w.take kind x⟩

namespace Workspace.SameSlots

variable {w w' w'' : Workspace}

theorem refl (w : Workspace) : w.SameSlots w := rfl

theorem trans (h : w.SameSlots w') (h' : w'.SameSlots w'') : w.SameSlots w'' := by
  unfold SameSlots at *
  rw [h', h]

theorem mapStore (w : Workspace) (f : Store → Store) : w.SameSlots (w.mapStore f) := rfl

theorem withStmt (w : Workspace) (body : StmtBody NodeId) : w.SameSlots (w.withStmt body) := rfl

theorem discard (w : Workspace) (os : List Owned) : w.SameSlots (w.discard os) := rfl

theorem exprs (h : w.SameSlots w') : w'.exprs = w.exprs := by rw [h]

theorem callees (h : w.SameSlots w') : w'.callees = w.callees := by rw [h]

theorem functions (h : w.SameSlots w') : w'.functions = w.functions := by rw [h]

theorem modules (h : w.SameSlots w') : w'.modules = w.modules := by rw [h]

theorem owned (h : w.SameSlots w') : w'.owned = w.owned := by
  rw [h]
  rfl

theorem held (h : w.SameSlots w') : w'.held = w.held := by
  rw [h]
  rfl

theorem evaluated (h : w.SameSlots w') : w'.evaluated = w.evaluated := by
  rw [h]
  rfl

theorem block? (h : w.SameSlots w') (site : BlockSite) : w'.block? site = w.block? site := by
  rw [h]
  cases site <;> rfl

theorem take (h : w.SameSlots w') (kind : OwnedKind) (x : String) : (w.take kind x).SameSlots (w'.take kind x) := by
  rw [h]
  cases kind <;> rfl

theorem putBlock (h : w.SameSlots w') (site : BlockSite) (b : Block) :
    (w.putBlock site b).SameSlots (w'.putBlock site b) := by
  rw [h]
  unfold Workspace.putBlock SameSlots
  cases site with
  | loose x => rfl
  | inFunction x i =>
    dsimp only
    split <;> rfl

end Workspace.SameSlots

/-! ## Growth -/

namespace Growth

variable {w w' : Workspace} {held evaluated : List NodeId}

theorem books (h : Growth w w') (hb : w.store.Books held evaluated) : w'.store.Books held evaluated := by
  cases h with
  | intern | number => exact hb
  | node live _ made => exact (hb.resolve live made).2

theorem extends_store (h : Growth w w') (ho : w.store.Ordered) : w.store.Extends w'.store := by
  cases h with
  | intern | number => exact .refl _
  | node => exact ho.extends_alloc

theorem live (h : Growth w w') {n : NodeId} (hn : w.store.Live n) : w'.store.Live n := by
  cases h with
  | intern | number => exact hn
  | node => exact Store.live_alloc.2 (.inr hn)

/-- No marker changes; a new node is not forbidden, as one that is not there reads. -/
theorem prevented (h : Growth w w') (ho : w.store.Ordered) (n : NodeId) :
    (w'.store.cell n).prevented = (w.store.cell n).prevented := by
  cases h with
  | intern | number => rfl
  | node =>
    by_cases hn : n = ⟨w.store.next⟩
    · rw [hn, Store.cell_alloc_self, Store.cell_of_not_live ho.next_not_live]
    · rw [Store.cell_alloc_of_ne hn, Store.retain]
      exact Store.prevented_mapCells (Store.recounts_holders fun c => c.holders + _) _ (fun _ => rfl) n

theorem tables (h : Growth w w') : w' = { w with names := w'.names, store := w'.store, supply := w'.supply } := by
  cases h <;> rfl

theorem sameSlots (h : Growth w w') : w.SameSlots w' := h.tables

end Growth

namespace Grows

variable {w w' w'' : Workspace} {held evaluated : List NodeId}

theorem refl : Grows w w := Relation.ReflTransGen.refl

theorem single (h : Growth w w') : Grows w w' := Relation.ReflTransGen.single h

theorem trans (h : Grows w w') (h' : Grows w' w'') : Grows w w'' := Relation.ReflTransGen.trans h h'

theorem books (h : Grows w w') (hb : w.store.Books held evaluated) : w'.store.Books held evaluated := by
  induction h with
  | refl => exact hb
  | tail _ h ih => exact h.books ih

theorem extends_store (h : Grows w w') (hb : w.store.Books held evaluated) : w.store.Extends w'.store := by
  induction h with
  | refl => exact .refl _
  | tail hg h ih => exact ih.trans (h.extends_store (Grows.books hg hb).ordered)

theorem live (h : Grows w w') {n : NodeId} (hn : w.store.Live n) : w'.store.Live n := by
  induction h with
  | refl => exact hn
  | tail _ h ih => exact h.live ih

theorem prevented (h : Grows w w') (hb : w.store.Books held evaluated) (n : NodeId) :
    (w'.store.cell n).prevented = (w.store.cell n).prevented := by
  induction h with
  | refl => rfl
  | tail hg h ih => exact (h.prevented (Grows.books hg hb).ordered n).trans ih

theorem sameSlots (h : Grows w w') : w.SameSlots w' := by
  induction h with
  | refl => exact .refl w
  | tail _ h ih => exact ih.trans h.sameSlots

theorem tables (h : Grows w w') : w' = { w with names := w'.names, store := w'.store, supply := w'.supply } :=
  h.sameSlots

end Grows

namespace Workspace

variable {w : Workspace}

theorem owned?_block {x : String} {b : Block} (here : w.blocks.get? x = some b) :
    w.owned? (Owned.block b).kind x = some (.block b) := congrArg (Option.map Owned.block) here

theorem owned?_function {x : String} {f : Function} (here : w.functions.get? x = some f) :
    w.owned? (Owned.function f).kind x = some (.function f) := congrArg (Option.map Owned.function) here

theorem owned?_module {x : String} {m : Module} (here : w.modules.get? x = some m) :
    w.owned? (Owned.module m).kind x = some (.module m) := congrArg (Option.map Owned.module) here

/-- Writing a block back is putting the object that contains it back into its slot. -/
theorem putBlock_eq {site : BlockSite} {b : Block} (here : w.block? site = some b) (b' : Block) :
    ∃ x o o', w.owned? o.kind x = some o ∧ w.putBlock site b' = w.put x o' ∧
      ∀ {held evaluated : List NodeId}, (Owned.block b).Grown (.block b') held evaluated →
        o.Grown o' held evaluated := by
  cases site with
  | loose x =>
    rw [block?] at here
    exact ⟨x, .block b, .block b', owned?_block here, rfl, id⟩
  | inFunction x i =>
    obtain ⟨f, hf, hb⟩ := Option.bind_eq_some_iff.1 here
    exact ⟨x, .function f, .function (f.setBlock i b'), owned?_function hf,
      by rw [putBlock, hf]; rfl, Owned.grown_setBlock hb⟩

/-- Writing a function back is putting the object that contains it back into its slot. -/
theorem putFunction_eq {site : FunctionSite} {f : Function} (here : w.function? site = some f) (f' : Function) :
    ∃ x o o', w.owned? o.kind x = some o ∧ w.putFunction site f' = w.put x o' ∧
      ∀ {held evaluated : List NodeId}, (Owned.function f).Grown (.function f') held evaluated →
        o.Grown o' held evaluated := by
  cases site with
  | loose x =>
    rw [function?] at here
    exact ⟨x, .function f, .function f', owned?_function here, rfl, id⟩
  | inModule x i =>
    obtain ⟨m, hm, hf⟩ := Option.bind_eq_some_iff.1 here
    exact ⟨x, .module m, .module (m.setFunction i f'), owned?_module hm,
      by rw [putFunction, hm]; rfl, Owned.grown_setFunction hf⟩

/-- What is written back is there. -/
theorem function?_putFunction {site : FunctionSite} {f : Function} (here : w.function? site = some f) (f' : Function) :
    (w.putFunction site f').function? site = some f' := by
  cases site with
  | loose x => exact Table.get?_put ..
  | inModule x i =>
    obtain ⟨m, hm, hf⟩ := Option.bind_eq_some_iff.1 here
    rw [putFunction, hm]
    refine Option.bind_eq_some_iff.2 ⟨m.setFunction i f', Table.get?_put .., ?_⟩
    exact List.getElem?_set_self (List.getElem?_eq_some_iff.1 hf).1

end Workspace

/-! ## Every move keeps the books -/

namespace Config.Balanced

variable {hand : List Owned} {w : Workspace} {x : String} {o o' : Owned} {held evaluated : List NodeId}

/-- New slots on live nodes, as an object in its slot grows by them. -/
theorem grown (owns : w.owned? o.kind x = some o) (g : o.Grown o' held evaluated)
    (h : w.store.Books (held ++ Config.held ⟨hand, w⟩) (evaluated ++ Config.evaluated ⟨hand, w⟩)) :
    Balanced ⟨hand, w.put x o'⟩ := by
  refine Store.Books.perm (by rwa [Workspace.store_put]) (List.perm_iff_count.2 fun n => ?_)
    (List.perm_iff_count.2 fun n => ?_)
  · have := Workspace.held_put_of_grown owns g n
    simp only [Config.held, List.count_append] at *
    omega
  · have := Workspace.evaluated_put_of_grown owns g n
    simp only [Config.evaluated, List.count_append] at *
    omega

/-- The same for an object that grows by what another in hand held. -/
theorem into {p : Owned} (owns : w.owned? o.kind x = some o) (g : o.Grown o' p.held p.evaluated)
    (h : Balanced ⟨p :: hand, w⟩) : Balanced ⟨hand, w.put x o'⟩ := by
  rw [Balanced, held_cons, evaluated_cons] at h
  exact grown owns g h

/-- The same for a slot of its own on a live node. -/
theorem hold {n : NodeId} (owns : w.owned? o.kind x = some o) (g : o.Grown o' [n] []) (live : w.store.Live n)
    (h : Balanced ⟨hand, w⟩) : Balanced ⟨hand, (w.acquire [n] []).put x o'⟩ :=
  grown (w := w.acquire [n] []) owns g
    (h.acquire [n] [] (fun m hm => by rwa [List.mem_singleton.1 hm]) fun _ hm => nomatch hm)

theorem reorder {hand' : List Owned} (h : Balanced ⟨hand, w⟩) (hp : hand.Perm hand') : Balanced ⟨hand', w⟩ :=
  h.perm ((hp.flatMap_right _).append_right _) ((hp.flatMap_right _).append_right _)

theorem make {body : StmtBody NodeId} (locs : Locs) (live : ∀ n ∈ body.operands, w.store.Live n)
    (h : Balanced ⟨hand, w⟩) : Balanced ⟨.stmt (w.newStmt body locs) :: hand, w.withStmt body⟩ := by
  rw [Balanced, held_cons, evaluated_cons]
  exact h.acquire _ _ live fun _ => StmtBody.operand_of_evaluated

theorem drop {os : List Owned} (h : Balanced ⟨os ++ hand, w⟩) : Balanced ⟨hand, w.discard os⟩ := by
  unfold Balanced Config.held Config.evaluated at h
  rw [List.flatMap_append, List.flatMap_append, List.append_assoc, List.append_assoc] at h
  exact h.giveUp _ _

/-- What an object in hand holds is live. -/
theorem live_of_hand (h : Balanced ⟨hand, w⟩) {n : NodeId} (ho : o ∈ hand) (hn : n ∈ o.held) : w.store.Live n :=
  h.live_of_held (List.mem_append_left _ (List.mem_flatMap.2 ⟨o, ho, hn⟩))

/-- An object that changes and holds what it held. -/
theorem same (owns : w.owned? o.kind x = some o) (g : o.Grown o' [] []) (h : Balanced ⟨hand, w⟩) :
    Balanced ⟨hand, w.put x o'⟩ := grown owns g h

end Config.Balanced

theorem Function.Edit.grown {f f' : Function} (h : f.Edit f') : (Owned.function f).Grown (.function f') [] [] := by
  cases h with
  | @addVar role v free =>
    cases role <;> exact .of_eq rfl rfl rfl
  | addBlock y =>
    refine .of_eq rfl ?_ ?_
    · simp [Owned.held, Function.held, Function.addBlock, Function.clauses, Block.held, Block.new]
    · simp [Owned.evaluated, Function.evaluated, Function.addBlock, Block.evaluated, Block.new]
  | addAttribute y => exact .of_eq rfl rfl rfl

theorem Stmt.place_ok {s placed : Stmt NodeId} {b : BlockId} (h : s.place b = .ok placed) :
    s.parent = none ∧ placed = { s with parent := some b } := by
  unfold Stmt.place at h
  split at h
  · rename_i hp
    cases h
    exact ⟨hp, rfl⟩
  · cases h

/-- What the listed calls pass is what the statements held. -/
theorem Stmt.asCall_operands {r : Reader NodeId} : ∀ {stmts : List (Stmt NodeId)} {calls : List (CallStmt NodeId)},
    stmts.mapM (Stmt.asCall r) = .ok calls → calls.flatMap (·.arguments) = stmts.flatMap (·.operands)
  | [], _, h => by
    cases h
    rfl
  | s :: stmts, _, h => by
    rw [List.mapM_cons] at h
    obtain ⟨c, hc, h⟩ := bind_ok_iff.1 h
    obtain ⟨cs, hcs, h⟩ := bind_ok_iff.1 h
    cases h
    rw [List.flatMap_cons, List.flatMap_cons, asCall_operands hcs]
    unfold Stmt.asCall at hc
    split at hc
    · rename_i callee args hbody
      cases hc
      rw [Stmt.operands, hbody]
      rfl
    · cases hc

/-- An indirect call beside the calls that it lists. -/
theorem Config.Balanced.calls {hand : List Owned} {w : Workspace} {func : NodeId} {stmts : List (Stmt NodeId)}
    {calls : List (CallStmt NodeId)} (h : Balanced ⟨stmts.map .stmt ++ hand, w⟩) (locs : Locs)
    (live : w.store.Live func) (listed : stmts.mapM (Stmt.asCall w.store.reader) = .ok calls) :
    Balanced ⟨stmts.map .stmt ++ .stmt (w.newStmt (.callMemberOf func calls) locs) :: hand,
      w.withStmt (.callMemberOf func calls)⟩ := by
  have hl : ∀ n ∈ (StmtBody.callMemberOf func calls).operands, w.store.Live n := fun n hn => by
    rcases List.mem_cons.1 hn with rfl | hn
    · exact live
    · rw [Stmt.asCall_operands listed] at hn
      obtain ⟨s, hs, hn⟩ := List.mem_flatMap.1 hn
      exact h.live_of_hand (List.mem_append_left _ (List.mem_map_of_mem hs)) hn
  exact (h.make locs hl).reorder List.perm_middle.symm

theorem Assembly.balanced {a : Scope} {c c' : Config} (m : Assembly a c c') (h : c.Balanced) : c'.Balanced := by
  cases m with
  | grow hg =>
    cases hg with
    | intern | number => exact h
    | node live known made => exact (Growth.node live known made).books h
  | reorder hp => exact h.reorder hp
  | make locs _ _ _ live _ => exact h.make locs live
  | gather locs _ live _ listed => exact (h.calls locs live listed).drop
  | drop os => exact h.drop

/-- **One move keeps the books.** -/
theorem Move.balanced {a : Scope} {c c' : Config} (m : Move a c c') (h : c.Balanced) : c'.Balanced := by
  cases m with
  | assemble ha => exact ha.balanced h
  | @setExpr hand w n x _ live =>
    have ha := h.acquire [n] [] (fun m hm => by rwa [List.mem_singleton.1 hm]) fun _ hm => nomatch hm
    refine Store.Books.giveUp (w.exprs.get? x).toList [] (ha.perm (List.perm_iff_count.2 fun m => ?_) (.refl _))
    have h1 := w.held_setExpr x n m
    have h2 := w.held_eraseExpr x m
    simp only [Config.held, List.count_append] at *
    omega
  | @eraseExpr hand w x =>
    refine Store.Books.giveUp (w.exprs.get? x).toList [] (h.perm (List.perm_iff_count.2 fun m => ?_) (.refl _))
    have := w.held_eraseExpr x m
    simp only [Config.held, List.count_append] at *
    omega
  | setVar | eraseVar | setArray | setCallee | setLocs => exact h
  | prevent => exact Store.Books.prevent h _
  | blank hb => cases hb <;> exact h
  | @take hand w kind x o _ owns =>
    refine Store.Books.perm (by rwa [Workspace.store_take]) (List.perm_iff_count.2 fun n => ?_)
      (List.perm_iff_count.2 fun n => ?_)
    · have := Workspace.held_take owns n
      rw [Config.held_cons]
      simp only [Config.held, List.count_append] at *
      omega
    · have := Workspace.evaluated_take owns n
      rw [Config.evaluated_cons]
      simp only [Config.evaluated, List.count_append] at *
      omega
  | @put hand w x o free =>
    refine Store.Books.perm (by rwa [Workspace.store_put]) (List.perm_iff_count.2 fun n => ?_)
      (List.perm_iff_count.2 fun n => ?_)
    · have := w.held_put x o n
      rw [Workspace.take_of_none free] at this
      rw [Config.held_cons]
      simp only [Config.held, List.count_append] at *
      omega
    · have := w.evaluated_put x o n
      rw [Workspace.take_of_none free] at this
      rw [Config.evaluated_cons]
      simp only [Config.evaluated, List.count_append] at *
      omega
  | @place hand w site b s placed here free =>
    obtain ⟨-, rfl⟩ := Stmt.place_ok free
    obtain ⟨x, o, o', owns, he, g⟩ := Workspace.putBlock_eq here (b.push { s with parent := some b.id })
    rw [he]
    exact Config.Balanced.into owns (g (Owned.grown_push b _)) h
  | accept here fits => exact h.into (Workspace.owned?_module here) (Owned.grown_accept fits)
  | edit here he => exact h.same (Workspace.owned?_function here) he.grown
  | @addClause hand w x f n kind l here live meets =>
    change Config.Balanced ⟨hand, (w.acquire [n] []).put x (.function (f.addClause kind ⟨n, l⟩))⟩
    exact h.hold (Workspace.owned?_function here) (Owned.grown_addClause _ kind _) live
  | @freeze hand w site f _ here first =>
    obtain ⟨x, o, o', owns, he, g⟩ := Workspace.putFunction_eq (w := { w with supply := w.supply + 1 }) here
      { f with callee := some (f.signature w.supply) }
    rw [he]
    exact Config.Balanced.same owns (g (.of_eq rfl rfl rfl)) h
  | @addArray hand w x m r here =>
    change Config.Balanced ⟨hand, w.put x (.module (m.addArray r))⟩
    exact h.same (Workspace.owned?_module here) (.of_eq rfl rfl rfl)
  | @addAxiom hand w x m n here live meets =>
    change Config.Balanced ⟨hand, (w.acquire [n] []).put x (.module (m.addAxiom n))⟩
    exact h.hold (Workspace.owned?_module here) (Owned.grown_addAxiom _ _) live

/-! ## What an invariant can lean on -/

namespace Workspace

variable (w : Workspace)

theorem extends_acquire (held evaluated : List NodeId) : w.store.Extends (w.acquire held evaluated).store :=
  (Store.extends_mapCells (Store.recounts_holders _) _).trans (Store.extends_mapCells (Store.recounts_evals _) _)

theorem extends_giveUp (held evaluated : List NodeId) : w.store.Extends (w.giveUp held evaluated).store :=
  (Store.extends_mapCells (Store.recounts_evals _) _).trans (Store.extends_mapCells (Store.recounts_holders _) _)

/-- Writing a block back changes two tables at most. -/
theorem putBlock_tables (site : BlockSite) (b : Block) :
    w.putBlock site b =
      { w with blocks := (w.putBlock site b).blocks, functions := (w.putBlock site b).functions } := by
  unfold putBlock
  split
  · rfl
  · split <;> rfl

theorem putFunction_tables (site : FunctionSite) (f : Function) : w.putFunction site f =
    { w with functions := (w.putFunction site f).functions, modules := (w.putFunction site f).modules } := by
  unfold putFunction
  split
  · rfl
  · split <;> rfl

theorem store_putBlock (site : BlockSite) (b : Block) : (w.putBlock site b).store = w.store := by
  rw [putBlock_tables]

theorem store_putFunction (site : FunctionSite) (f : Function) : (w.putFunction site f).store = w.store := by
  rw [putFunction_tables]

theorem supply_putBlock (site : BlockSite) (b : Block) : (w.putBlock site b).supply = w.supply := by
  rw [putBlock_tables]

theorem supply_putFunction (site : FunctionSite) (f : Function) : (w.putFunction site f).supply = w.supply := by
  rw [putFunction_tables]

theorem callees_putBlock (site : BlockSite) (b : Block) : (w.putBlock site b).callees = w.callees := by
  rw [putBlock_tables]

theorem callees_putFunction (site : FunctionSite) (f : Function) : (w.putFunction site f).callees = w.callees := by
  rw [putFunction_tables]

end Workspace

theorem Assembly.sameSlots {a : Scope} {c c' : Config} (m : Assembly a c c') : c.ws.SameSlots c'.ws := by
  cases m with
  | grow hg => exact hg.sameSlots
  | reorder => exact .refl _
  | make => exact .withStmt _ _
  | gather => exact (Workspace.SameSlots.withStmt _ _).trans (.discard _ _)
  | drop => exact .discard _ _

theorem Assembly.extends_store {a : Scope} {c c' : Config} (m : Assembly a c c') (h : c.Balanced) :
    c.ws.store.Extends c'.ws.store := by
  cases m with
  | grow hg => exact hg.extends_store h.ordered
  | reorder => exact .refl _
  | make => exact Workspace.extends_acquire _ _ _
  | gather => exact (Workspace.extends_acquire _ _ _).trans (Workspace.extends_giveUp _ _ _)
  | drop => exact Workspace.extends_giveUp _ _ _

/-- **No move takes a node away or changes it.** -/
theorem Move.extends_store {a : Scope} {c c' : Config} (m : Move a c c') (h : c.Balanced) :
    c.ws.store.Extends c'.ws.store := by
  cases m with
  | assemble ha => exact ha.extends_store h
  | setExpr => exact (Workspace.extends_acquire _ _ _).trans (Workspace.extends_giveUp _ _ _)
  | eraseExpr => exact Workspace.extends_giveUp _ _ _
  | prevent => exact Store.extends_mapCells (Store.recounts_prevent _) _
  | addClause | addAxiom => exact Workspace.extends_acquire _ _ _
  | take =>
    rw [Workspace.store_take]
    exact .refl _
  | put =>
    rw [Workspace.store_put]
    exact .refl _
  | place =>
    rw [Workspace.store_putBlock]
    exact .refl _
  | freeze =>
    rw [Workspace.store_putFunction]
    exact .refl _
  | setVar | eraseVar | setArray | setCallee | setLocs | blank | accept | edit | addArray => exact .refl _

theorem Config.Balanced.invariant {a : Scope} : Invariant a Config.Balanced := ⟨id, fun h m => m.balanced h⟩

namespace Assembles

variable {a : Scope} {P : List OwnedSlot → Config → Prop} (hP : Assembles a P) {k : List OwnedSlot}
include hP

theorem grows {hand : List Owned} {w w' : Workspace} (h : P k ⟨hand, w⟩) (hg : Grows w w') : P k ⟨hand, w'⟩ := by
  induction hg with
  | refl => exact h
  | tail _ hg ih => exact hP.move ih (.grow hg)

theorem and_live (n : NodeId) : Assembles a fun k c => P k c ∧ c.ws.store.Live n where
  balanced h := hP.balanced h.1
  move h m := ⟨hP.move h.1 m, (m.extends_store (hP.balanced h.1)).live h.2⟩
  take h ha hx := ⟨hP.take h.1 ha hx, by rw [Workspace.store_take]; exact h.2⟩

end Assembles

namespace Invariant

variable {a : Scope} {P : Config → Prop} (hP : Invariant a P)
include hP

theorem assembles : Assembles a fun _ => P where
  balanced := hP.balanced
  move h m := hP.move h (.assemble m)
  take h ha hx := hP.move h (.take _ ha hx)

theorem grows {hand : List Owned} {w w' : Workspace} (h : P ⟨hand, w⟩) (hg : Grows w w') : P ⟨hand, w'⟩ :=
  hP.assembles.grows (k := []) h hg

theorem path {c c' : Config} (h : P c) (path : Relation.ReflTransGen (Move a) c c') : P c' := by
  induction path with
  | refl => exact h
  | tail _ m ih => exact hP.move ih m

theorem and_extends (s : Store) : Invariant a fun c => P c ∧ s.Extends c.ws.store :=
  ⟨fun h => hP.balanced h.1, fun h m => ⟨hP.move h.1 m, h.2.trans (m.extends_store (hP.balanced h.1))⟩⟩

end Invariant

/-- A command first assembles what it needs, while `A` is kept; what it does then keeps `P`. -/
structure Phases (a : Scope) (A : List OwnedSlot → Config → Prop) (P : Config → Prop) : Prop where
  assembles : Assembles a A
  done : ∀ {k c}, A k c → P c
  invariant : Invariant a P

theorem Invariant.phases {a : Scope} {P : Config → Prop} (hP : Invariant a P) : Phases a (fun _ => P) P :=
  ⟨hP.assembles, id, hP⟩

end KernelIR
