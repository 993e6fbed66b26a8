import Mathlib.Data.List.Forall2
import Mathlib.Order.Defs.PartialOrder
import KernelIR.Proofs.Rewriting
import KernelIR.Script.Run
/-!
# Linked — one object under two sets of numbers

Which symbol a name gets, which identity a handle and which id a node depends on everything that was made before.  A
`Link` says which of these numbers in one workspace stand for which in another.  Objects are linked when they differ in
such numbers only; a link grows, and what is linked stays so (`imp`).

The relations of expressions and statements have the relation of their operands as a parameter: nodes where an object is
kept, trees and texts where it is shown.
-/
namespace KernelIR

/-- Which symbols, identities and nodes stand for which. -/
structure Link where
  sym : Symbol → Symbol → Prop
  num : Nat → Nat → Prop
  node : NodeId → NodeId → Prop

namespace Link

variable {L L' L'' : Link}

structure Le (L L' : Link) : Prop where
  sym : ∀ {y y'}, L.sym y y' → L'.sym y y'
  num : ∀ {i i'}, L.num i i' → L'.num i i'
  node : ∀ {n n'}, L.node n n' → L'.node n n'

instance : Preorder Link where
  le := Le
  le_refl _ := ⟨id, id, id⟩
  le_trans _ _ _ h h' := ⟨h'.sym ∘ h.sym, h'.num ∘ h.num, h'.node ∘ h.node⟩

theorem le_sym (h : L ≤ L') {y y' : Symbol} (hy : L.sym y y') : L'.sym y y' := Le.sym h hy

theorem le_num (h : L ≤ L') {i i' : Nat} (hi : L.num i i') : L'.num i i' := Le.num h hi

theorem le_node (h : L ≤ L') {n n' : NodeId} (hn : L.node n n') : L'.node n n' := Le.node h hn

end Link

section

variable {α β : Type} {L L' : Link}

/-! ## Handles and locations -/

structure Var.Linked (L : Link) (v v' : Var) : Prop where
  id : L.num v.id v'.id
  name : L.sym v.name v'.name
  typ : v'.typ = v.typ

structure GlobalArray.Linked (L : Link) (a a' : GlobalArray) : Prop where
  id : L.num a.id a'.id
  name : L.sym a.name a'.name
  space : a'.space = a.space

structure Callee.Linked (L : Link) (c c' : Callee) : Prop where
  id : L.num c.id c'.id
  name : L.sym c.name c'.name
  parameters : c'.parameters = c.parameters
  returns : c'.returns = c.returns

structure SourceLoc.Linked (L : Link) (l l' : SourceLoc) : Prop where
  file : L.sym l.file l'.file
  path : L.sym l.path l'.path
  line : l'.line = l.line
  column : l'.column = l.column

structure Locs.Linked (L : Link) (l l' : Locs) : Prop where
  id : L.num l.id l'.id
  list : List.Forall₂ (SourceLoc.Linked L) l.list l'.list

/-! ## Expressions -/

inductive Shape.Linked (L : Link) (R : α → β → Prop) : Shape α → Shape β → Prop
  | bvConst (v : Nat) : Linked L R (.bvConst v) (.bvConst v)
  | boolConst (b : Bool) : Linked L R (.boolConst b) (.boolConst b)
  | arrayRef {a a' : GlobalArray} (h : a.Linked L a') : Linked L R (.arrayRef a) (.arrayRef a')
  | pointer {a o : α} {a' o' : β} (ha : R a a') (ho : R o o') : Linked L R (.pointer a o) (.pointer a' o')
  | load {a o : α} {a' o' : β} (ha : R a a') (ho : R o o') : Linked L R (.load a o) (.load a' o')
  | varRef {v v' : Var} (h : v.Linked L v') : Linked L R (.varRef v) (.varRef v')
  | call {c c' : Callee} {args : List α} {args' : List β} (hc : c.Linked L c') (ha : List.Forall₂ R args args') :
    Linked L R (.call c args) (.call c' args')
  | bvExtract {e : α} {e' : β} (he : R e e') (offset : UInt64) : Linked L R (.bvExtract e offset) (.bvExtract e' offset)
  | bvZExt {e : α} {e' : β} (he : R e e') : Linked L R (.bvZExt e) (.bvZExt e')
  | bvSExt {e : α} {e' : β} (he : R e e') : Linked L R (.bvSExt e) (.bvSExt e')
  | unary {e : α} {e' : β} (op : UnaryOp) (he : R e e') : Linked L R (.unary op e) (.unary op e')
  | binary {l r : α} {l' r' : β} (op : BinaryOp) (hl : R l l') (hr : R r r') :
    Linked L R (.binary op l r) (.binary op l' r')

inductive Form.Linked (L : Link) : Form NodeId → Form NodeId → Prop
  | bvConst (w : UInt64) (v : Int) : Linked L (.bvConst w v) (.bvConst w v)
  | bvZero (w : UInt64) : Linked L (.bvZero w) (.bvZero w)
  | boolConst (b : Bool) : Linked L (.boolConst b) (.boolConst b)
  | arrayRef {a a' : GlobalArray} (h : a.Linked L a') : Linked L (.arrayRef a) (.arrayRef a')
  | varRef {v v' : Var} (h : v.Linked L v') : Linked L (.varRef v) (.varRef v')
  | pointer {a o a' o' : NodeId} (ha : L.node a a') (ho : L.node o o') : Linked L (.pointer a o) (.pointer a' o')
  | load {a o a' o' : NodeId} (ha : L.node a a') (ho : L.node o o') : Linked L (.load a o) (.load a' o')
  | call {c c' : Callee} {args args' : List NodeId} (hc : c.Linked L c') (ha : List.Forall₂ L.node args args') :
    Linked L (.call c args) (.call c' args')
  | bvExtract {e e' : NodeId} (he : L.node e e') (offset width : UInt64) :
    Linked L (.bvExtract e offset width) (.bvExtract e' offset width)
  | extend {e e' : NodeId} (x : Extension) (he : L.node e e') (width : UInt64) :
    Linked L (.extend x e width) (.extend x e' width)
  | unary {e e' : NodeId} (op : UnaryOp) (he : L.node e e') : Linked L (.unary op e) (.unary op e')
  | binary {l r l' r' : NodeId} (op : BinaryOp) (hl : L.node l l') (hr : L.node r r') :
    Linked L (.binary op l r) (.binary op l' r')

inductive Built.Linked (L : Link) : Built NodeId → Built NodeId → Prop
  | reuse {n n' : NodeId} (h : L.node n n') : Linked L (.reuse n) (.reuse n')
  | fresh {s s' : Shape NodeId} (h : s.Linked L L.node s') (t : Ty) : Linked L (.fresh s t) (.fresh s' t)

structure Cell.Linked (L : Link) (c c' : Cell) : Prop where
  id : L.node c.id c'.id
  shape : c.shape.Linked L L.node c'.shape
  typ : c'.typ = c.typ
  holders : c'.holders = c.holders
  evals : c'.evals = c.evals
  prevented : c'.prevented = c.prevented

/-! ## Statements, blocks, functions and modules -/

structure CallStmt.Linked (L : Link) (R : α → β → Prop) (c : CallStmt α) (c' : CallStmt β) : Prop where
  id : L.num c.id c'.id
  callee : c.callee.Linked L c'.callee
  arguments : List.Forall₂ R c.arguments c'.arguments
  parent : c'.parent = c.parent
  locs : c.locs.Linked L c'.locs

inductive StmtBody.Linked (L : Link) (R : α → β → Prop) : StmtBody α → StmtBody β → Prop
  | eval {e : α} {e' : β} (he : R e e') : Linked L R (.eval e) (.eval e')
  | store {a o v : α} {a' o' v' : β} (ha : R a a') (ho : R o o') (hv : R v v') :
    Linked L R (.store a o v) (.store a' o' v')
  | varAssign {vars vars' : List Var} {values : List α} {values' : List β} (hv : List.Forall₂ (Var.Linked L) vars vars')
    (he : List.Forall₂ R values values') : Linked L R (.varAssign vars values) (.varAssign vars' values')
  | goto (targets : List BlockId) : Linked L R (.goto targets) (.goto targets)
  | ret : Linked L R .ret .ret
  | assume {p : α} {p' : β} (hp : R p p') (partition : Bool) : Linked L R (.assume p partition) (.assume p' partition)
  | assert {p : α} {p' : β} (hp : R p p') (facets : Facets) : Linked L R (.assert p facets) (.assert p' facets)
  | call {c c' : Callee} {args : List α} {args' : List β} (hc : c.Linked L c') (ha : List.Forall₂ R args args') :
    Linked L R (.call c args) (.call c' args')
  | callMemberOf {func : α} {func' : β} {calls : List (CallStmt α)} {calls' : List (CallStmt β)} (hf : R func func')
    (hc : List.Forall₂ (CallStmt.Linked L R) calls calls') :
    Linked L R (.callMemberOf func calls) (.callMemberOf func' calls')
  | waitGroupEvent {h : α} {h' : β} (hh : R h h') : Linked L R (.waitGroupEvent h) (.waitGroupEvent h')

structure Stmt.Linked (L : Link) (R : α → β → Prop) (s : Stmt α) (s' : Stmt β) : Prop where
  id : L.num s.id s'.id
  body : s.body.Linked L R s'.body
  parent : s'.parent = s.parent
  locs : s.locs.Linked L s'.locs

structure Block.Linked (L : Link) (b b' : Block) : Prop where
  id : b'.id = b.id
  name : L.sym b.name b'.name
  stmts : List.Forall₂ (Stmt.Linked L L.node) b.stmts b'.stmts

structure Clause.Linked (L : Link) (c c' : Clause) : Prop where
  pred : L.node c.pred c'.pred
  locs : c.locs.Linked L c'.locs

structure Function.Linked (L : Link) (f f' : Function) : Prop where
  name : L.sym f.name f'.name
  args : List.Forall₂ (Var.Linked L) f.args f'.args
  returns : List.Forall₂ (Var.Linked L) f.returns f'.returns
  locals : List.Forall₂ (Var.Linked L) f.locals f'.locals
  blocks : List.Forall₂ (Block.Linked L) f.blocks f'.blocks
  requires : List.Forall₂ (Clause.Linked L) f.requires f'.requires
  ensures : List.Forall₂ (Clause.Linked L) f.ensures f'.ensures
  attributes : List.Forall₂ L.sym f.attributes f'.attributes
  callee : Option.Rel (Callee.Linked L) f.callee f'.callee

structure Module.Linked (L : Link) (m m' : Module) : Prop where
  name : L.sym m.name m'.name
  model : m'.model = m.model
  arrays : List.Forall₂ (GlobalArray.Linked L) m.arrays m'.arrays
  functions : List.Forall₂ (Function.Linked L) m.functions m'.functions
  index : List.Forall₂ (fun p p' => L.sym p.1 p'.1 ∧ p'.2 = p.2) m.index m'.index
  axioms : List.Forall₂ L.node m.axioms m'.axioms

inductive Owned.Linked (L : Link) : Owned → Owned → Prop
  | stmt {s s' : Stmt NodeId} (h : s.Linked L L.node s') : Linked L (.stmt s) (.stmt s')
  | block {b b' : Block} (h : b.Linked L b') : Linked L (.block b) (.block b')
  | function {f f' : Function} (h : f.Linked L f') : Linked L (.function f) (.function f')
  | module {m m' : Module} (h : m.Linked L m') : Linked L (.module m) (.module m')

/-! ## A link that grows -/

theorem Var.Linked.imp {v v' : Var} (h : v.Linked L v') (le : L ≤ L') : v.Linked L' v' :=
  ⟨Link.le_num le h.id, Link.le_sym le h.name, h.typ⟩

theorem GlobalArray.Linked.imp {a a' : GlobalArray} (h : a.Linked L a') (le : L ≤ L') : a.Linked L' a' :=
  ⟨Link.le_num le h.id, Link.le_sym le h.name, h.space⟩

theorem Callee.Linked.imp {c c' : Callee} (h : c.Linked L c') (le : L ≤ L') : c.Linked L' c' :=
  ⟨Link.le_num le h.id, Link.le_sym le h.name, h.parameters, h.returns⟩

theorem SourceLoc.Linked.imp {l l' : SourceLoc} (h : l.Linked L l') (le : L ≤ L') : l.Linked L' l' :=
  ⟨Link.le_sym le h.file, Link.le_sym le h.path, h.line, h.column⟩

theorem Locs.Linked.imp {l l' : Locs} (h : l.Linked L l') (le : L ≤ L') : l.Linked L' l' :=
  ⟨Link.le_num le h.id, h.list.imp fun _ _ h => h.imp le⟩

variable {R : α → β → Prop}

section Map

variable {γ δ : Type} {S : γ → δ → Prop} {f : α → γ} {g : β → δ}

theorem optionRel_imp {R' : α → β → Prop} (hR : ∀ a b, R a b → R' a b) {x : Option α} {x' : Option β}
    (h : Option.Rel R x x') : Option.Rel R' x x' := by
  cases h with
  | some h => exact .some (hR _ _ h)
  | none => exact .none

theorem optionRel_map {P : γ → δ → Prop} (hP : ∀ a b, R a b → P (f a) (g b)) {x : Option α} {x' : Option β}
    (h : Option.Rel R x x') : Option.Rel P (x.map f) (x'.map g) := by
  cases h with
  | some h => exact .some (hP _ _ h)
  | none => exact .none

theorem toList_linked {x : Option α} {x' : Option β} (h : Option.Rel R x x') :
    List.Forall₂ R x.toList x'.toList := by
  cases h with
  | some h => exact .cons h .nil
  | none => exact .nil

theorem set_linked (i : Nat) {a : α} {b : β} (hab : R a b) : ∀ {l : List α} {l' : List β}, List.Forall₂ R l l' →
    List.Forall₂ R (l.set i a) (l'.set i b)
  | _, _, .nil => .nil
  | _, _, .cons head rest => by
    cases i with
    | zero => exact .cons hab rest
    | succ i => exact .cons head (set_linked i hab rest)

theorem Shape.Linked.map (le : L ≤ L') (hR : ∀ a b, R a b → S (f a) (g b)) {s : Shape α} {s' : Shape β}
    (h : s.Linked L R s') : (s.map f).Linked L' S (s'.map g) := by
  cases h with
  | bvConst v => exact .bvConst v
  | boolConst b => exact .boolConst b
  | arrayRef h => exact .arrayRef (h.imp le)
  | pointer ha ho => exact .pointer (hR _ _ ha) (hR _ _ ho)
  | load ha ho => exact .load (hR _ _ ha) (hR _ _ ho)
  | varRef h => exact .varRef (h.imp le)
  | call hc ha => exact .call (hc.imp le) (List.rel_map (fun _ _ h => hR _ _ h) ha)
  | bvExtract he offset => exact .bvExtract (hR _ _ he) offset
  | bvZExt he => exact .bvZExt (hR _ _ he)
  | bvSExt he => exact .bvSExt (hR _ _ he)
  | unary op he => exact .unary op (hR _ _ he)
  | binary op hl hr => exact .binary op (hR _ _ hl) (hR _ _ hr)

theorem CallStmt.Linked.map (le : L ≤ L') (hR : ∀ a b, R a b → S (f a) (g b)) {c : CallStmt α} {c' : CallStmt β}
    (h : c.Linked L R c') : (c.map f).Linked L' S (c'.map g) :=
  ⟨Link.le_num le h.id, h.callee.imp le, List.rel_map (fun _ _ h => hR _ _ h) h.arguments, h.parent, h.locs.imp le⟩

theorem StmtBody.Linked.map (le : L ≤ L') (hR : ∀ a b, R a b → S (f a) (g b)) {s : StmtBody α} {s' : StmtBody β}
    (h : s.Linked L R s') : (s.map f).Linked L' S (s'.map g) := by
  cases h with
  | eval he => exact .eval (hR _ _ he)
  | store ha ho hv => exact .store (hR _ _ ha) (hR _ _ ho) (hR _ _ hv)
  | varAssign hv he => exact .varAssign (hv.imp fun _ _ h => h.imp le) (List.rel_map (fun _ _ h => hR _ _ h) he)
  | goto targets => exact .goto targets
  | ret => exact .ret
  | assume hp partition => exact .assume (hR _ _ hp) partition
  | assert hp facets => exact .assert (hR _ _ hp) facets
  | call hc ha => exact .call (hc.imp le) (List.rel_map (fun _ _ h => hR _ _ h) ha)
  | callMemberOf hf hc => exact .callMemberOf (hR _ _ hf) (List.rel_map (fun _ _ h => h.map le hR) hc)
  | waitGroupEvent hh => exact .waitGroupEvent (hR _ _ hh)

theorem Stmt.Linked.map (le : L ≤ L') (hR : ∀ a b, R a b → S (f a) (g b)) {s : Stmt α} {s' : Stmt β}
    (h : s.Linked L R s') : (s.map f).Linked L' S (s'.map g) :=
  ⟨Link.le_num le h.id, h.body.map le hR, h.parent, h.locs.imp le⟩

end Map

theorem map_callStmt_id (c : CallStmt α) : c.map id = c := by
  cases c
  simp only [CallStmt.map, List.map_id]

theorem StmtBody.map_id (s : StmtBody α) : s.map id = s := by
  have calls : ∀ l : List (CallStmt α), l.map (·.map id) = l := fun l => by
    rw [funext map_callStmt_id]
    exact List.map_id' l
  cases s <;> simp only [map, List.map_id, id, calls]

theorem Shape.Linked.imp {s s' : Shape NodeId} (h : s.Linked L L.node s') (le : L ≤ L') : s.Linked L' L'.node s' := by
  have mapped := h.map (f := id) (g := id) le fun _ _ => Link.le_node le
  rwa [Shape.map_id, Shape.map_id] at mapped

theorem Form.Linked.imp {f f' : Form NodeId} (h : f.Linked L f') (le : L ≤ L') : f.Linked L' f' := by
  cases h with
  | bvConst w v => exact .bvConst w v
  | bvZero w => exact .bvZero w
  | boolConst b => exact .boolConst b
  | arrayRef h => exact .arrayRef (h.imp le)
  | varRef h => exact .varRef (h.imp le)
  | pointer ha ho => exact .pointer (Link.le_node le ha) (Link.le_node le ho)
  | load ha ho => exact .load (Link.le_node le ha) (Link.le_node le ho)
  | call hc ha => exact .call (hc.imp le) (ha.imp fun _ _ => Link.le_node le)
  | bvExtract he offset width => exact .bvExtract (Link.le_node le he) offset width
  | extend x he width => exact .extend x (Link.le_node le he) width
  | unary op he => exact .unary op (Link.le_node le he)
  | binary op hl hr => exact .binary op (Link.le_node le hl) (Link.le_node le hr)

theorem Cell.Linked.imp {c c' : Cell} (h : c.Linked L c') (le : L ≤ L') : c.Linked L' c' :=
  ⟨Link.le_node le h.id, h.shape.imp le, h.typ, h.holders, h.evals, h.prevented⟩

theorem Cell.Linked.hasEval {c c' : Cell} (h : c.Linked L c') : c'.hasEval = c.hasEval := by
  rw [Cell.hasEval, Cell.hasEval, h.evals]

theorem CallStmt.Linked.imp {c c' : CallStmt NodeId} (h : c.Linked L L.node c') (le : L ≤ L') :
    c.Linked L' L'.node c' :=
  ⟨Link.le_num le h.id, h.callee.imp le, h.arguments.imp fun _ _ => Link.le_node le, h.parent, h.locs.imp le⟩

theorem StmtBody.Linked.imp {s s' : StmtBody NodeId} (h : s.Linked L L.node s') (le : L ≤ L') :
    s.Linked L' L'.node s' := by
  have mapped := h.map (f := id) (g := id) le fun _ _ => Link.le_node le
  rwa [StmtBody.map_id, StmtBody.map_id] at mapped

theorem Stmt.Linked.imp {s s' : Stmt NodeId} (h : s.Linked L L.node s') (le : L ≤ L') : s.Linked L' L'.node s' :=
  ⟨Link.le_num le h.id, h.body.imp le, h.parent, h.locs.imp le⟩

theorem Block.Linked.imp {b b' : Block} (h : b.Linked L b') (le : L ≤ L') : b.Linked L' b' :=
  ⟨h.id, Link.le_sym le h.name, h.stmts.imp fun _ _ h => h.imp le⟩

theorem Clause.Linked.imp {c c' : Clause} (h : c.Linked L c') (le : L ≤ L') : c.Linked L' c' :=
  ⟨Link.le_node le h.pred, h.locs.imp le⟩

theorem Function.Linked.imp {f f' : Function} (h : f.Linked L f') (le : L ≤ L') : f.Linked L' f' where
  name := Link.le_sym le h.name
  args := h.args.imp fun _ _ h => h.imp le
  returns := h.returns.imp fun _ _ h => h.imp le
  locals := h.locals.imp fun _ _ h => h.imp le
  blocks := h.blocks.imp fun _ _ h => h.imp le
  requires := h.requires.imp fun _ _ h => h.imp le
  ensures := h.ensures.imp fun _ _ h => h.imp le
  attributes := h.attributes.imp fun _ _ => Link.le_sym le
  callee := optionRel_imp (fun _ _ h => h.imp le) h.callee

theorem Module.Linked.imp {m m' : Module} (h : m.Linked L m') (le : L ≤ L') : m.Linked L' m' where
  name := Link.le_sym le h.name
  model := h.model
  arrays := h.arrays.imp fun _ _ h => h.imp le
  functions := h.functions.imp fun _ _ h => h.imp le
  index := h.index.imp fun _ _ h => ⟨Link.le_sym le h.1, h.2⟩
  axioms := h.axioms.imp fun _ _ => Link.le_node le

theorem Owned.Linked.imp {o o' : Owned} (h : o.Linked L o') (le : L ≤ L') : o.Linked L' o' := by
  cases h with
  | stmt h => exact .stmt (h.imp le)
  | block h => exact .block (h.imp le)
  | function h => exact .function (h.imp le)
  | module h => exact .module (h.imp le)

/-! ## What objects hold, and how they change -/

section Held

variable {s s' : Stmt NodeId} {b b' : Block} {f f' : Function} {m m' : Module} {o o' : Owned}

theorem StmtBody.Linked.operands {s : StmtBody α} {s' : StmtBody β} (h : s.Linked L R s') :
    List.Forall₂ R s.operands s'.operands := by
  cases h with
  | eval he | assume he | assert he | waitGroupEvent he => exact .cons he .nil
  | store ha ho hv => exact .cons ha (.cons ho (.cons hv .nil))
  | varAssign _ he => exact he
  | goto | ret => exact .nil
  | call _ ha => exact ha
  | callMemberOf hf hc => exact .cons hf (List.rel_flatMap hc fun _ _ h => h.arguments)

theorem StmtBody.Linked.evaluated {s : StmtBody α} {s' : StmtBody β} (h : s.Linked L R s') :
    List.Forall₂ R s.evaluated s'.evaluated := by
  cases h with
  | eval he => exact .cons he .nil
  | _ => exact .nil

theorem Block.Linked.held (h : b.Linked L b') : List.Forall₂ L.node b.held b'.held :=
  List.rel_flatMap h.stmts fun _ _ h => h.body.operands

theorem Block.Linked.evaluated (h : b.Linked L b') : List.Forall₂ L.node b.evaluated b'.evaluated :=
  List.rel_flatMap h.stmts fun _ _ h => h.body.evaluated

theorem Function.Linked.held (h : f.Linked L f') : List.Forall₂ L.node f.held f'.held :=
  List.rel_append (List.rel_flatMap h.blocks fun _ _ h => h.held)
    (List.rel_map (fun _ _ h => h.pred) (List.rel_append h.requires h.ensures))

theorem Function.Linked.evaluated (h : f.Linked L f') : List.Forall₂ L.node f.evaluated f'.evaluated :=
  List.rel_flatMap h.blocks fun _ _ h => h.evaluated

theorem Owned.Linked.held (h : o.Linked L o') : List.Forall₂ L.node o.held o'.held := by
  cases h with
  | stmt h => exact h.body.operands
  | block h => exact h.held
  | function h => exact h.held
  | module h => exact List.rel_append (List.rel_flatMap h.functions fun _ _ h => h.held) h.axioms

theorem Owned.Linked.evaluated (h : o.Linked L o') : List.Forall₂ L.node o.evaluated o'.evaluated := by
  cases h with
  | stmt h => exact h.body.evaluated
  | block h => exact h.evaluated
  | function h => exact h.evaluated
  | module h => exact List.rel_flatMap h.functions fun _ _ h => h.evaluated

theorem Owned.Linked.kind (h : o.Linked L o') : o'.kind = o.kind := by cases h <;> rfl

theorem Block.Linked.push (h : b.Linked L b') (hs : s.Linked L L.node s') : (b.push s).Linked L (b'.push s') :=
  ⟨h.id, h.name, List.rel_append h.stmts (.cons hs .nil)⟩

namespace Function.Linked

variable (h : f.Linked L f')
include h

theorem setBlock (i : Nat) (hb : b.Linked L b') : (f.setBlock i b).Linked L (f'.setBlock i b') :=
  { h with blocks := set_linked i hb h.blocks }

theorem addVar (role : VarRole) {v v' : Var} (hv : v.Linked L v') : (f.addVar role v).Linked L (f'.addVar role v') := by
  cases role with
  | parameter => exact { h with args := List.rel_append h.args (.cons hv .nil) }
  | returnValue => exact { h with returns := List.rel_append h.returns (.cons hv .nil) }
  | localVar => exact { h with locals := List.rel_append h.locals (.cons hv .nil) }

theorem addBlock {y y' : Symbol} (hy : L.sym y y') : (f.addBlock y).Linked L (f'.addBlock y') :=
  have fresh : (Block.new ⟨f.blocks.length⟩ y).Linked L (Block.new ⟨f'.blocks.length⟩ y') :=
    ⟨congrArg BlockId.mk h.blocks.length_eq.symm, hy, .nil⟩
  { h with blocks := List.rel_append h.blocks (.cons fresh .nil) }

theorem addClause (kind : ClauseKind) {c c' : Clause} (hc : c.Linked L c') :
    (f.addClause kind c).Linked L (f'.addClause kind c') := by
  cases kind with
  | requires => exact { h with requires := List.rel_append h.requires (.cons hc .nil) }
  | ensures => exact { h with ensures := List.rel_append h.ensures (.cons hc .nil) }

theorem addAttribute {y y' : Symbol} (hy : L.sym y y') : (f.addAttribute y).Linked L (f'.addAttribute y') :=
  { h with attributes := List.rel_append h.attributes (.cons hy .nil) }

theorem signature {i i' : Nat} (hi : L.num i i') : (f.signature i).Linked L (f'.signature i') := by
  have typs : ∀ {vs vs' : List Var}, List.Forall₂ (Var.Linked L) vs vs' → vs'.map Var.typ = vs.map Var.typ := by
    intro vs vs' hv
    induction hv with
    | nil => rfl
    | cons head _ ih => rw [List.map_cons, List.map_cons, head.typ, ih]
  exact ⟨hi, h.name, typs h.args, typs h.returns⟩

theorem sign {c c' : Callee} (hc : c.Linked L c') :
    Function.Linked L { f with callee := some c } { f' with callee := some c' } := { h with callee := .some hc }

end Function.Linked

theorem Module.Linked.setFunction (h : m.Linked L m') (i : Nat) (hf : f.Linked L f') :
    (m.setFunction i f).Linked L (m'.setFunction i f') := { h with functions := set_linked i hf h.functions }

theorem Module.Linked.addArray (h : m.Linked L m') {a a' : GlobalArray} (ha : a.Linked L a') :
    (m.addArray a).Linked L (m'.addArray a') := { h with arrays := List.rel_append h.arrays (.cons ha .nil) }

theorem Module.Linked.addAxiom (h : m.Linked L m') {n n' : NodeId} (hn : L.node n n') :
    (m.addAxiom n).Linked L (m'.addAxiom n') := { h with axioms := List.rel_append h.axioms (.cons hn .nil) }

end Held

end
end KernelIR
