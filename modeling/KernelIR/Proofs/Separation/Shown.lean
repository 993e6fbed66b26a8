import KernelIR.Proofs.Separation.Linked
/-!
# Shown — linked objects look the same

Where two tables of names give linked symbols the same text (`Link.Reads`), linked objects have the same record form and
the same reports.  A report also lists the slots that hold a node or a handle, so the two workspaces must list the same
slots for linked ones (`Workspace.Sees`).
-/
namespace KernelIR

variable {α β : Type} {R : α → β → Prop} {L : Link} {N N' : Names}

/-- Linked symbols have the same text. -/
def Link.Reads (L : Link) (N N' : Names) : Prop := ∀ y y', L.sym y y' → N'.text y' = N.text y

/-- Linked numbers are equal where their partners are. -/
structure Link.Faithful (L : Link) : Prop where
  sym : ∀ {y y' z z'}, L.sym y y' → L.sym z z' → (y' = z' ↔ y = z)
  num : ∀ {i i' j j'}, L.num i i' → L.num j j' → (i' = j' ↔ i = j)
  node : ∀ {n n' m m'}, L.node n n' → L.node m m' → (n' = m' ↔ n = m)

/-- The two trees have one type, and read the same. -/
structure Tree.Alike (L : Link) (t t' : Tree) : Prop where
  typ : t'.typ = t.typ
  debug : ∀ N N', L.Reads N N' → t'.debug N' = t.debug N
  dump : ∀ N N', L.Reads N N' → t'.dump N' = t.dump N

theorem Link.Reads.mono {L' : Link} (h : L'.Reads N N') (le : L ≤ L') : L.Reads N N' := fun y y' hy =>
  h y y' (Link.le_sym le hy)

theorem map_eq_of_forall₂ {γ : Type} {f : α → γ} {g : β → γ} (hf : ∀ a b, R a b → g b = f a) {l : List α} {l' : List β}
    (h : List.Forall₂ R l l') : l'.map g = l.map f := by
  induction h with
  | nil => rfl
  | cons head _ ih => rw [List.map_cons, List.map_cons, hf _ _ head, ih]

theorem eq_of_forall₂ {l l' : List α} (h : List.Forall₂ (fun a b => b = a) l l') : l' = l := by
  have same := map_eq_of_forall₂ (f := id) (g := id) (fun _ _ h => h) h
  rwa [List.map_id, List.map_id] at same

theorem optionMap_eq {γ : Type} {f : α → γ} {g : β → γ} (hf : ∀ a b, R a b → g b = f a) {x : Option α} {x' : Option β}
    (h : Option.Rel R x x') : x'.map g = x.map f := by
  cases h with
  | some h => exact congrArg some (hf _ _ h)
  | none => rfl

theorem head?_linked {l : List α} {l' : List β} (h : List.Forall₂ R l l') : Option.Rel R l.head? l'.head? := by
  cases h with
  | nil => exact .none
  | cons head _ => exact .some head

/-! ## Handles and locations -/

section Texts

variable (reads : L.Reads N N')
include reads

theorem Var.Linked.debug {v v' : Var} (h : v.Linked L v') : v'.debug N' = v.debug N := by
  rw [Var.debug, Var.debug, reads _ _ h.name, h.typ]

theorem GlobalArray.Linked.debug {a a' : GlobalArray} (h : a.Linked L a') : a'.debug N' = a.debug N := by
  rw [GlobalArray.debug, GlobalArray.debug, reads _ _ h.name, h.space]

theorem Callee.Linked.debug {c c' : Callee} (h : c.Linked L c') : c'.debug N' = c.debug N := by
  rw [Callee.debug, Callee.debug, reads _ _ h.name, h.parameters, h.returns]

theorem SourceLoc.Linked.short {l l' : SourceLoc} (h : l.Linked L l') : l'.short N' = l.short N := by
  rw [SourceLoc.short, SourceLoc.short, reads _ _ h.file, h.line, h.column]

theorem SourceLoc.Linked.debug {l l' : SourceLoc} (h : l.Linked L l') : l'.debug N' = l.debug N := by
  rw [SourceLoc.debug, SourceLoc.debug, reads _ _ h.file, reads _ _ h.path, h.line, h.column]

theorem SourceLoc.Linked.toJson {l l' : SourceLoc} (h : l.Linked L l') : l'.toJson N' = l.toJson N := by
  rw [SourceLoc.toJson, SourceLoc.toJson, reads _ _ h.file, reads _ _ h.path, h.line, h.column]

theorem Locs.Linked.debug {l l' : Locs} (h : l.Linked L l') : l'.debug N' = l.debug N := by
  rw [Locs.debug, Locs.debug, map_eq_of_forall₂ (fun _ _ h => h.debug reads) h.list]

end Texts

/-! ## Expressions -/

namespace Shape.Linked

variable {s : Shape α} {s' : Shape β}

theorem operands (h : s.Linked L R s') : List.Forall₂ R s.operands s'.operands := by
  cases h with
  | bvConst | boolConst | arrayRef | varRef => exact .nil
  | pointer ha ho | load ha ho => exact .cons ha (.cons ho .nil)
  | call hc ha => exact ha
  | bvExtract he | bvZExt he | bvSExt he | unary _ he => exact .cons he .nil
  | binary _ hl hr => exact .cons hl (.cons hr .nil)

theorem kind (h : s.Linked L R s') : s'.kind = s.kind := by cases h <;> rfl

theorem constant? (h : s.Linked L R s') : s'.constant? = s.constant? := by cases h <;> rfl

theorem bvConst? (h : s.Linked L R s') : s'.bvConst? = s.bvConst? := by cases h <;> rfl

theorem boolConst? (h : s.Linked L R s') : s'.boolConst? = s.boolConst? := by cases h <;> rfl

theorem subExpr? (h : s.Linked L R s') : Option.Rel R s.subExpr? s'.subExpr? := by
  cases h with
  | bvConst | boolConst | arrayRef | varRef | pointer | load | call | binary => exact .none
  | bvExtract he | bvZExt he | bvSExt he | unary _ he => exact .some he

theorem var? (h : s.Linked L R s') : Option.Rel (Var.Linked L) s.var? s'.var? := by
  cases h with
  | varRef h => exact .some h
  | _ => exact .none

theorem array? (h : s.Linked L R s') : Option.Rel (GlobalArray.Linked L) s.array? s'.array? := by
  cases h with
  | arrayRef h => exact .some h
  | _ => exact .none

theorem extra? (h : s.Linked L R s') (reads : L.Reads N N') : s'.extra? N' = s.extra? N := by
  cases h with
  | arrayRef h => exact congrArg (some ∘ Literal.text) (reads _ _ h.name)
  | varRef h => exact congrArg (some ∘ Literal.text) (reads _ _ h.name)
  | call hc => exact congrArg (some ∘ Literal.text) (reads _ _ hc.name)
  | _ => rfl

theorem debug {s s' : Shape String} (h : s.Linked L (fun a b => b = a) s') (reads : L.Reads N N') :
    s'.debug N' = s.debug N := by
  cases h with
  | bvConst | boolConst => rfl
  | arrayRef h => rw [Shape.debug, Shape.debug, h.debug reads]
  | varRef h => rw [Shape.debug, Shape.debug, h.debug reads]
  | call hc ha => rw [Shape.debug, Shape.debug, hc.debug reads, eq_of_forall₂ ha]
  | pointer ha ho | load ha ho => rw [Shape.debug, Shape.debug, ha, ho]
  | bvExtract he | bvZExt he | bvSExt he | unary _ he => rw [Shape.debug, Shape.debug, he]
  | binary _ hl hr => rw [Shape.debug, Shape.debug, hl, hr]

/-- Linked shapes over trees that are alike make trees that are alike. -/
theorem alike {s s' : Shape Tree} (h : s.Linked L (Tree.Alike L) s') (t : Ty) : (Tree.mk s t).Alike L (.mk s' t) where
  typ := rfl
  debug N N' reads := by
    have shown := h.map (f := Tree.debug N) (g := Tree.debug N') (S := fun a b => b = a) (le_refl L)
      fun _ _ h => h.debug N N' reads
    simp only [Tree.debug, Tree.fold_mk] at shown ⊢
    rw [shown.debug reads]
  dump N N' reads := by
    have shown := h.map (f := Tree.dump N) (g := Tree.dump N') (S := fun a b => b = a) (le_refl L)
      fun _ _ h => h.dump N N' reads
    simp only [Tree.dump, Tree.fold_mk] at shown ⊢
    rw [shown.kind, shown.extra? reads, eq_of_forall₂ shown.operands]

end Shape.Linked

/-! ## Statements -/

theorem CallStmt.Linked.debug {c c' : CallStmt String} (h : c.Linked L (fun a b => b = a) c') (reads : L.Reads N N') :
    c'.debug N' = c.debug N := by
  rw [CallStmt.debug, CallStmt.debug, callRecord, callRecord, Stmt.framed, Stmt.framed, h.callee.debug reads,
    eq_of_forall₂ h.arguments, h.parent, h.locs.debug reads]

namespace StmtBody.Linked

variable {s : StmtBody α} {s' : StmtBody β}

theorem kind (h : s.Linked L R s') : s'.kind = s.kind := by cases h <;> rfl

theorem targets (h : s.Linked L R s') : s'.targets = s.targets := by cases h <;> rfl

theorem debug {s s' : StmtBody String} (h : s.Linked L (fun a b => b = a) s') (reads : L.Reads N N') :
    s'.debug N' = s.debug N := by
  cases h with
  | eval he | waitGroupEvent he | assume he | assert he => rw [StmtBody.debug, StmtBody.debug, he]
  | store ha ho hv => rw [StmtBody.debug, StmtBody.debug, ha, ho, hv]
  | varAssign hv he =>
    rw [StmtBody.debug, StmtBody.debug, map_eq_of_forall₂ (fun _ _ h => h.debug reads) hv, eq_of_forall₂ he]
  | goto | ret => rfl
  | call hc ha => rw [StmtBody.debug, StmtBody.debug, callRecord, callRecord, hc.debug reads, eq_of_forall₂ ha]
  | callMemberOf hf hc =>
    rw [StmtBody.debug, StmtBody.debug, hf, map_eq_of_forall₂ (fun _ _ h => h.debug reads) hc]

end StmtBody.Linked

namespace Stmt.Linked

variable {s : Stmt α} {s' : Stmt β}

theorem kind (h : s.Linked L R s') : s'.kind = s.kind := h.body.kind

theorem facets? (h : s.Linked L R s') : s'.facets? = s.facets? := by
  obtain ⟨_, body, _, _⟩ := s
  obtain ⟨_, body', _, _⟩ := s'
  have linked : body.Linked L R body' := h.body
  cases linked <;> rfl

theorem debug {s s' : Stmt String} (h : s.Linked L (fun a b => b = a) s') (reads : L.Reads N N') :
    s'.debug N' = s.debug N := by
  rw [Stmt.debug, Stmt.debug, framed, framed, h.body.debug reads, h.parent, h.locs.debug reads]

end Stmt.Linked

theorem Block.Linked.successors {b b' : Block} (h : b.Linked L b') : b'.successors = b.successors := by
  have targets : ∀ {l l' : List (Stmt NodeId)}, List.Forall₂ (Stmt.Linked L L.node) l l' →
      l'.flatMap (·.body.targets) = l.flatMap (·.body.targets) := by
    intro l l' hl
    induction hl with
    | nil => rfl
    | cons head _ ih => rw [List.flatMap_cons, List.flatMap_cons, head.body.targets, ih]
  exact targets h.stmts

/-! ## Reports -/

/-- **One workspace sees in the other what it sees in itself**: texts, nodes and trees, and which slots hold a node or a
handle. -/
structure Workspace.Sees (L : Link) (w w' : Workspace) : Prop where
  reads : L.Reads w.names w'.names
  cell : ∀ {n n'}, L.node n n' → (w.store.cell n).Linked L (w'.store.cell n')
  tree : ∀ {n n'}, L.node n n' → (w.store.tree n).Alike L (w'.store.tree n')
  exprs : ∀ {n n'}, L.node n n' → w'.exprs.namesWhere (· == n') = w.exprs.namesWhere (· == n)
  vars : ∀ {i i'}, L.num i i' → w'.vars.namesWhere (·.id == i') = w.vars.namesWhere (·.id == i)
  arrays : ∀ {i i'}, L.num i i' → w'.arrays.namesWhere (·.id == i') = w.arrays.namesWhere (·.id == i)
  callees : ∀ {i i'}, L.num i i' → w'.callees.namesWhere (·.id == i') = w.callees.namesWhere (·.id == i)
  locs : ∀ {i i'}, L.num i i' → w'.locs.namesWhere (·.id == i') = w.locs.namesWhere (·.id == i)

namespace Workspace.Sees

variable {w w' : Workspace} (h : w.Sees L w')
include h

theorem text {y y' : Symbol} (hy : L.sym y y') : w'.text y' = w.text y := h.reads _ _ hy

theorem dump {n n' : NodeId} (hn : L.node n n') : w'.dump n' = w.dump n := (h.tree hn).dump _ _ h.reads

theorem debugExpr {n n' : NodeId} (hn : L.node n n') : w'.debugExpr n' = w.debugExpr n := (h.tree hn).debug _ _ h.reads

theorem dumps {ns ns' : List NodeId} (hn : List.Forall₂ L.node ns ns') : ns'.map w'.dump = ns.map w.dump :=
  map_eq_of_forall₂ (fun _ _ hx => h.dump hx) hn

theorem nodeLine {n n' : NodeId} (hn : L.node n n') : w'.nodeLine n' = w.nodeLine n := by
  simp only [Workspace.nodeLine, (h.cell hn).shape.kind, (h.cell hn).typ, h.exprs hn]

theorem reportNode {n n' : NodeId} (hn : L.node n n') : w'.reportNode n' = w.reportNode n := by
  have operands : (w'.store.cell n').operands.map w'.nodeLine = (w.store.cell n).operands.map w.nodeLine :=
    map_eq_of_forall₂ (fun _ _ hx => h.nodeLine hx) (h.cell hn).shape.operands
  simp only [Workspace.reportNode, h.nodeLine hn, (h.cell hn).shape.constant?, operands]

theorem reportInfo {n n' : NodeId} (hn : L.node n n') : w'.reportInfo n' = w.reportInfo n := by
  have cell := h.cell hn
  have var : (w'.store.cell n').shape.var?.map (fun v => w'.vars.namesWhere (·.id == v.id)) =
      (w.store.cell n).shape.var?.map fun v => w.vars.namesWhere (·.id == v.id) :=
    optionMap_eq (fun _ _ hv => h.vars hv.id) cell.shape.var?
  have array : (w'.store.cell n').shape.array?.map (fun a => w'.arrays.namesWhere (·.id == a.id)) =
      (w.store.cell n).shape.array?.map fun a => w.arrays.namesWhere (·.id == a.id) :=
    optionMap_eq (fun _ _ ha => h.arrays ha.id) cell.shape.array?
  have sub : (w'.store.cell n').shape.subExpr?.map w'.nodeLine = (w.store.cell n).shape.subExpr?.map w.nodeLine :=
    optionMap_eq (fun _ _ hx => h.nodeLine hx) cell.shape.subExpr?
  simp only [Workspace.reportInfo, h.nodeLine hn, cell.shape.bvConst?, cell.shape.boolConst?, var, array, sub,
    Cell.operands, cell.shape.operands.length_eq, cell.holders, Cell.hasEval, cell.evals, cell.prevented]

theorem reportLoc {l l' : SourceLoc} (hl : l.Linked L l') : w'.reportLoc l' = w.reportLoc l := by
  rw [Workspace.reportLoc, Workspace.reportLoc, h.text hl.file, h.text hl.path, hl.line, hl.column]

theorem reportLocList {l l' : Locs} (hl : l.Linked L l') : w'.reportLocList l' = w.reportLocList l :=
  map_eq_of_forall₂ (fun _ _ hx => h.reportLoc hx) hl.list

theorem reportLocs {l l' : Locs} (hl : l.Linked L l') : w'.reportLocs l' = w.reportLocs l := by
  have innermost : l'.innermost?.map (·.short w'.names) = l.innermost?.map (·.short w.names) :=
    optionMap_eq (fun _ _ hx => hx.short h.reads) (head?_linked hl.list)
  have json : l'.list.map (fun x => (x.toJson w'.names).compact) = l.list.map fun x => (x.toJson w.names).compact :=
    map_eq_of_forall₂ (fun _ _ hx => congrArg Json.compact (hx.toJson h.reads)) hl.list
  rw [Workspace.reportLocs, Workspace.reportLocs, h.reportLocList hl, innermost, json, hl.debug h.reads]

theorem reportVar {v v' : Var} (hv : v.Linked L v') : w'.reportVar v' = w.reportVar v := by
  rw [Workspace.reportVar, Workspace.reportVar, h.text hv.name, hv.typ]

theorem reportArray {a a' : GlobalArray} (ha : a.Linked L a') : w'.reportArray a' = w.reportArray a := by
  rw [Workspace.reportArray, Workspace.reportArray, h.text ha.name, ha.space]

theorem reportCallee {c c' : Callee} (hc : c.Linked L c') : w'.reportCallee c' = w.reportCallee c := by
  rw [Workspace.reportCallee, Workspace.reportCallee, h.text hc.name, hc.parameters, hc.returns]

theorem reportCall {c c' : CallStmt NodeId} (hc : c.Linked L L.node c') : w'.reportCall c' = w.reportCall c := by
  rw [Workspace.reportCall, Workspace.reportCall, h.reportCallee hc.callee, h.dumps hc.arguments, hc.parent,
    h.reportLocList hc.locs]

theorem reportBody {s s' : StmtBody NodeId} (hs : s.Linked L L.node s') : w'.reportBody s' = w.reportBody s := by
  cases hs with
  | eval he | waitGroupEvent he | assume he | assert he => rw [Workspace.reportBody, Workspace.reportBody, h.dump he]
  | store ha ho hv => rw [Workspace.reportBody, Workspace.reportBody, h.dump ha, h.dump ho, h.dump hv]
  | varAssign hv he =>
    rw [Workspace.reportBody, Workspace.reportBody, map_eq_of_forall₂ (fun _ _ hx => h.reportVar hx) hv, h.dumps he]
  | goto | ret => rfl
  | call hc ha => rw [Workspace.reportBody, Workspace.reportBody, h.reportCallee hc, h.dumps ha]
  | callMemberOf hf hc =>
    rw [Workspace.reportBody, Workspace.reportBody, h.dump hf, map_eq_of_forall₂ (fun _ _ hx => h.reportCall hx) hc]

theorem reportStmt {s s' : Stmt NodeId} (hs : s.Linked L L.node s') : w'.reportStmt s' = w.reportStmt s := by
  rw [Workspace.reportStmt, Workspace.reportStmt, hs.kind, hs.parent, h.reportBody hs.body, hs.facets?,
    h.reportLocList hs.locs]

theorem debugStmt {s s' : Stmt NodeId} (hs : s.Linked L L.node s') : w'.debugStmt s' = w.debugStmt s :=
  (hs.map (S := fun a b => b = a) (le_refl L) fun _ _ hx => h.debugExpr hx).debug h.reads

theorem reportBlock {b b' : Block} (hb : b.Linked L b') : w'.reportBlock b' = w.reportBlock b := by
  rw [Workspace.reportBlock, Workspace.reportBlock, hb.id, h.text hb.name, hb.successors,
    map_eq_of_forall₂ (fun _ _ hx => h.reportStmt hx) hb.stmts]

theorem debugBlock {b b' : Block} (hb : b.Linked L b') : b'.debug w'.names w'.store = b.debug w.names w.store := by
  have stmts : b'.stmts.map w'.debugStmt = b.stmts.map w.debugStmt :=
    map_eq_of_forall₂ (fun _ _ hx => h.debugStmt hx) hb.stmts
  rw [Block.debug, Block.debug, hb.id, h.reads _ _ hb.name]
  exact congrArg (fun l => Text.record "BasicBlock" [("id", b.id.debug), ("name", Text.quoted (w.names.text b.name)),
    ("stmts", Text.list l)]) stmts

theorem reportClause {c c' : Clause} (hc : c.Linked L c') : w'.reportClause c' = w.reportClause c := by
  rw [Workspace.reportClause, Workspace.reportClause, h.dump hc.pred, h.reportLocList hc.locs]

theorem reportFunction {f f' : Function} (hf : f.Linked L f') : w'.reportFunction f' = w.reportFunction f := by
  have vars : ∀ {vs vs'}, List.Forall₂ (Var.Linked L) vs vs' → vs'.map w'.reportVar = vs.map w.reportVar :=
    map_eq_of_forall₂ fun _ _ hx => h.reportVar hx
  have clauses : ∀ {cs cs'}, List.Forall₂ (Clause.Linked L) cs cs' → cs'.map w'.reportClause = cs.map w.reportClause :=
    map_eq_of_forall₂ fun _ _ hx => h.reportClause hx
  have entry : (f'.blocks.head?.map fun b => w'.text b.name) = f.blocks.head?.map fun b => w.text b.name :=
    optionMap_eq (fun _ _ hx => h.text hx.name) (head?_linked hf.blocks)
  simp only [Workspace.reportFunction, h.text hf.name, vars hf.args, vars hf.returns, vars hf.locals,
    map_eq_of_forall₂ (fun _ _ hx => h.text hx) hf.attributes, clauses hf.requires, clauses hf.ensures, entry,
    map_eq_of_forall₂ (fun _ _ hx => h.reportBlock hx) hf.blocks]

theorem reportModule {m m' : Module} (hm : m.Linked L m') : w'.reportModule m' = w.reportModule m := by
  have functions : (m'.functions.map fun f => w'.text f.name) = m.functions.map fun f => w.text f.name :=
    map_eq_of_forall₂ (fun _ _ hf => h.text hf.name) hm.functions
  rw [Workspace.reportModule, Workspace.reportModule, h.text hm.name, hm.model,
    map_eq_of_forall₂ (fun _ _ hx => h.reportArray hx) hm.arrays, functions, h.dumps hm.axioms]

end Workspace.Sees
end KernelIR
