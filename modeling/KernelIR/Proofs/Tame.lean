import KernelIR.Proofs.Commands
import KernelIR.Proofs.Objects
/-!
# Tame — what each computation keeps to

Each computation is given once with what it keeps to (`Build.Tame`), and each is put together out of others of this
kind.  It invents no type: where the variables of a workspace, the return types of its callees and its nodes have types
of a class `T` that contains all types without the width `0`, they still do when it ends, well or not.  And it finds no
statement in a block already that is to join one: its checks have plain causes, and a new statement has no parent.

The command that moves a statement out of a slot into a block is the one whose second part has another reason, in who
owns what; so it comes with the class `E` of failures that is claimed.
-/
namespace KernelIR

/-- The type has no width, or one that is not `0`. -/
def Ty.Wide (t : Ty) : Prop := t.width? ≠ some 0

instance (t : Ty) : Decidable t.Wide := inferInstanceAs (Decidable (t.width? ≠ some 0))

/-- No statement was found in a block already. -/
def Failure.Unplaced (e : Failure) : Prop := ∀ kind owner target, e ≠ .refused (.placed kind owner target)

/-- What is returned has types in `T`, by the declaration and by the handle. -/
structure Function.Uses (T : Ty → Prop) (f : Function) : Prop where
  returns : ∀ v ∈ f.returns, T v.typ
  callee : ∀ c, f.callee = some c → ∀ t ∈ c.returns, T t

/-- **The types in use are in `T`**: those of nodes and variables, and those that callees return. -/
structure Workspace.Uses (T : Ty → Prop) (w : Workspace) : Prop where
  nodes : ∀ n, T (w.store.typ n)
  vars : ∀ v ∈ w.vars.values, T v.typ
  callees : ∀ c ∈ w.callees.values, ∀ t ∈ c.returns, T t
  functions : ∀ o ∈ w.owned, ∀ f ∈ o.functions, f.Uses T

/-- The classes of types and of failures that make sense: all types but some of width `0`, and all failures but some for
a statement in a block already. -/
structure Rules (T : Ty → Prop) (E : Failure → Prop) : Prop where
  wide : ∀ t, t.Wide → T t
  plain : ∀ e, e.Unplaced → E e

theorem Failure.unplaced_refused {f : Fault} (h : f.Plain) : (Failure.refused f).Unplaced := by
  rintro kind owner target he
  cases he
  exact h

theorem Failure.unplaced_undecodable : Failure.undecodable.Unplaced := fun _ _ _ => nofun

/-! ## The types that constructors answer with -/

namespace Ty

theorem wide_sized {kind : SizedKind} {w : UInt64} {t : Ty} (h : sized kind w = .ok t) : t.Wide := by
  obtain ⟨pos, rfl⟩ := sized_ok h
  have nonzero : w ≠ 0 := UInt64.pos_iff_ne_zero.1 pos
  cases kind <;> exact fun he => nonzero (Option.some.inj he)

end Ty

theorem UnaryOp.wide_result {op : UnaryOp} {t u : Ty} (h : op.result t = .ok u) : u.Wide := by
  cases op with
  | arrayId | bvToBool | not =>
    cases h
    decide
  | boolToBv => exact Ty.wide_sized h
  | arrayOffset | bvToFloat | floatToBv | bvToPtr | ptrToBv =>
    obtain ⟨w, -, h⟩ := bind_ok_iff.1 h
    exact Ty.wide_sized h

theorem BinaryOp.wide_result {op : BinaryOp} {l r t : Ty} (h : op.result l r = .ok t) : t = l ∨ t.Wide := by
  unfold BinaryOp.result at h
  cases hf : op.family with
  | arithmetic =>
    rw [hf] at h
    cases h
    exact .inl rfl
  | concatenation =>
    rw [hf] at h
    obtain ⟨_, -, h⟩ := bind_ok_iff.1 h
    obtain ⟨_, -, h⟩ := bind_ok_iff.1 h
    exact .inr (Ty.wide_sized h)
  | comparison | equality | connective =>
    rw [hf] at h
    cases h
    exact .inr (by decide)

namespace Form

variable {α : Type} {r : Reader α}

theorem wide_access {x : Access} {a o : α} {t : Ty} (h : access r x a o = .ok t) : t.Wide := by
  unfold access at h
  split at h
  · cases h
  split at h
  · cases h
  cases x with
  | pointer =>
    obtain ⟨w, -, h⟩ := bind_ok_iff.1 h
    exact Ty.wide_sized h
  | load => exact Ty.wide_sized h

/-- **Where a new type of width `0` can come from**: a variable, a callee, or the left operand. -/
theorem typ_of_fresh {f : Form α} {s : Shape α} {t : Ty} (h : f.resolve r = .ok (.fresh s t)) :
    t.Wide ∨ (∃ v, f = .varRef v ∧ t = v.typ) ∨ (∃ c args, f = .call c args ∧ t ∈ c.returns) ∨
      ∃ op lhs rhs, f = .binary op lhs rhs ∧ t = (r.node lhs).typ := by
  cases f with
  | bvConst w v | bvZero w =>
    obtain ⟨u, hu, h⟩ := bind_ok_iff.1 h
    cases h
    exact .inl (Ty.wide_sized hu)
  | boolConst | arrayRef =>
    cases h
    exact .inl (by decide)
  | varRef v =>
    cases h
    exact .inr (.inl ⟨v, rfl, rfl⟩)
  | pointer a o | load a o =>
    obtain ⟨u, hu, h⟩ := bind_ok_iff.1 h
    cases h
    exact .inl (wide_access hu)
  | call c args =>
    simp only [resolve, resolveCall] at h
    split at h
    · cases h
    split at h
    · rename_i u one
      cases h
      refine .inr (.inr (.inl ⟨c, args, rfl, ?_⟩))
      rw [one]
      exact List.mem_singleton_self _
    · cases h
  | bvExtract e offset width =>
    simp only [resolve, resolveExtract] at h
    split at h
    · split at h
      · obtain ⟨u, hu, h⟩ := bind_ok_iff.1 h
        cases h
        exact .inl (Ty.wide_sized hu)
      · cases h
    · cases h
  | extend x e width =>
    simp only [resolve, resolveExtend] at h
    split at h
    · obtain ⟨u, hu, h⟩ := bind_ok_iff.1 h
      cases h
      exact .inl (Ty.wide_sized hu)
    · cases h
  | unary op e =>
    simp only [resolve, resolveUnary] at h
    split at h
    · cases h
    split at h
    · cases h
    · obtain ⟨u, hu, h⟩ := bind_ok_iff.1 h
      cases h
      exact .inl (UnaryOp.wide_result hu)
  | binary op lhs rhs =>
    simp only [resolve, resolveBinary] at h
    split at h
    · cases h
    split at h
    · obtain ⟨w, -, h⟩ := bind_ok_iff.1 h
      obtain ⟨u, hu, h⟩ := bind_ok_iff.1 h
      cases h
      exact .inl (Ty.wide_sized hu)
    · obtain ⟨u, hu, h⟩ := bind_ok_iff.1 h
      cases h
      rcases BinaryOp.wide_result hu with same | wide
      · exact .inr (.inr (.inr ⟨op, lhs, rhs, rfl, same⟩))
      · exact .inl wide

end Form

/-! ## What keeps the types -/

namespace Function

variable {T : Ty → Prop} {f : Function}

theorem Uses.congr {f' : Function} (h : f.Uses T) (returns : f'.returns = f.returns) (callee : f'.callee = f.callee) :
    f'.Uses T := ⟨by rw [returns]; exact h.returns, by rw [callee]; exact h.callee⟩

theorem Uses.addVar (h : f.Uses T) (role : VarRole) {v : Var} (hv : T v.typ) : (f.addVar role v).Uses T := by
  cases role with
  | parameter | localVar => exact h.congr rfl rfl
  | returnValue => exact ⟨List.forall_mem_append.2 ⟨h.returns, List.forall_mem_singleton.2 hv⟩, h.callee⟩

theorem Uses.addClause (h : f.Uses T) (kind : ClauseKind) (c : Clause) : (f.addClause kind c).Uses T := by
  cases kind <;> exact h.congr rfl rfl

theorem Uses.signature (h : f.Uses T) (id : Nat) : ∀ t ∈ (f.signature id).returns, T t :=
  List.forall_mem_map.2 h.returns

theorem Uses.sign (h : f.Uses T) (id : Nat) : Function.Uses T { f with callee := some (f.signature id) } where
  returns := h.returns
  callee c hc := by
    cases hc
    exact h.signature id

end Function

namespace Workspace.Uses

variable {T : Ty → Prop} {w w' : Workspace}

/-- The class of all types. -/
theorem of_all (hT : ∀ t, T t) : w.Uses T :=
  ⟨fun _ => hT _, fun _ _ => hT _, fun _ _ _ _ => hT _, fun _ _ _ _ => ⟨fun _ _ => hT _, fun _ _ _ _ => hT _⟩⟩

theorem empty (hT : ∀ t, t.Wide → T t) : Workspace.empty.Uses T :=
  ⟨fun _ => hT .bool (by decide), nofun, nofun, nofun⟩

theorem recounted (h : w.Uses T) {f : Store → Store} (counts : w.store.Recounted (f w.store)) :
    (w.mapStore f).Uses T where
  nodes n := by
    have same := congrFun counts.typ n
    change T ((f w.store).typ n)
    rw [same]
    exact h.nodes n
  vars := h.vars
  callees := h.callees
  functions := h.functions

theorem acquire (h : w.Uses T) (held evaluated : List NodeId) : (w.acquire held evaluated).Uses T :=
  h.recounted (.acquire w held evaluated)

theorem giveUp (h : w.Uses T) (held evaluated : List NodeId) : (w.giveUp held evaluated).Uses T :=
  h.recounted (.giveUp w held evaluated)

theorem prevent (h : w.Uses T) (n : NodeId) : (w.mapStore (Store.prevent n)).Uses T where
  nodes m := by
    change T ((w.store.prevent n).typ m)
    rw [Store.prevent, Store.typ_mapCells (Store.recounts_prevent n)]
    exact h.nodes m
  vars := h.vars
  callees := h.callees
  functions := h.functions

theorem alloc (h : w.Uses T) {shape : Shape NodeId} {t : Ty} (ht : T t) :
    Workspace.Uses T { w with store := (w.store.alloc shape t).2 } where
  nodes n := by
    change T ((w.store.alloc shape t).2.cell n).typ
    by_cases hn : n = ⟨w.store.next⟩
    · rw [hn, Store.cell_alloc_self]
      exact ht
    · rw [Store.cell_alloc_of_ne hn]
      have same : (w.store.retain shape.operands).typ n = w.store.typ n :=
        Store.typ_mapCells (Store.recounts_holders _) _
      change T ((w.store.retain shape.operands).typ n)
      rw [same]
      exact h.nodes n
  vars := h.vars
  callees := h.callees
  functions := h.functions

theorem sweep (h : w.Uses T) (hT : ∀ t, t.Wide → T t) (hb : Config.Balanced ⟨[], w⟩) : w.tidy.Uses T where
  nodes n := by
    by_cases hn : w.tidy.store.Live n
    · have same : w.tidy.store.typ n = w.store.typ n := Store.Books.typ_sweep hb hn
      rw [same]
      exact h.nodes n
    · rw [Store.typ, Store.cell_of_not_live hn]
      exact hT .bool (by decide)
  vars := h.vars
  callees := h.callees
  functions := h.functions

theorem setExpr (h : w.Uses T) (x : String) (n : NodeId) : (w.setExpr x n).Uses T :=
  have counted := (h.acquire [n] []).giveUp (w.exprs.get? x).toList []
  ⟨counted.nodes, counted.vars, counted.callees, counted.functions⟩

theorem eraseExpr (h : w.Uses T) (x : String) : (w.eraseExpr x).Uses T :=
  have counted := h.giveUp (w.exprs.get? x).toList []
  ⟨counted.nodes, counted.vars, counted.callees, counted.functions⟩

theorem setVar (h : w.Uses T) (x : String) {v : Var} (hv : T v.typ) : (w.setVar x v).Uses T where
  nodes := h.nodes
  vars u hu := (Table.mem_values_put hu).elim (fun he => he ▸ hv) (h.vars u)
  callees := h.callees
  functions := h.functions

theorem eraseVar (h : w.Uses T) (x : String) : (w.eraseVar x).Uses T where
  nodes := h.nodes
  vars u hu := h.vars u ((List.filter_sublist.map _).subset hu)
  callees := h.callees
  functions := h.functions

theorem setCallee (h : w.Uses T) (x : String) {c : Callee} (hc : ∀ t ∈ c.returns, T t) : (w.setCallee x c).Uses T where
  nodes := h.nodes
  vars := h.vars
  callees k hk := (Table.mem_values_put hk).elim (fun he => he ▸ hc) (h.callees k)
  functions := h.functions

theorem take (h : w.Uses T) (kind : OwnedKind) (x : String) : (w.take kind x).Uses T where
  nodes := by
    rw [Workspace.store_take]
    exact h.nodes
  vars := by cases kind <;> exact h.vars
  callees := by cases kind <;> exact h.callees
  functions o ho := h.functions o ((w.owned_take kind x).mem_iff.2 (List.mem_append_right _ ho))

theorem put (h : w.Uses T) (x : String) {o : Owned} (ho : ∀ f ∈ o.functions, f.Uses T) : (w.put x o).Uses T where
  nodes := by
    rw [Workspace.store_put]
    exact h.nodes
  vars := by cases o <;> exact h.vars
  callees := by cases o <;> exact h.callees
  functions p hp := by
    have rest := ((w.put x o).owned_take o.kind x).mem_iff.1 hp
    rw [Workspace.owned?_put, Workspace.take_put] at rest
    rcases List.mem_cons.1 rest with rfl | rest
    · exact ho
    · exact (h.take o.kind x).functions p rest

theorem function_of_get? (h : w.Uses T) {x : String} {f : Function} (here : w.functions.get? x = some f) : f.Uses T :=
  h.functions (.function f) (List.mem_append_left _ (List.mem_append_right _ (List.mem_map_of_mem
    (Table.mem_values_of_get? here)))) f (List.mem_singleton_self f)

theorem functions_of_get? (h : w.Uses T) {x : String} {m : Module} (here : w.modules.get? x = some m) :
    ∀ f ∈ m.functions, f.Uses T :=
  h.functions (.module m) (Workspace.module_mem_owned (Table.mem_values_of_get? here))

theorem putFunction (h : w.Uses T) (site : FunctionSite) {f : Function} (hf : f.Uses T) :
    (w.putFunction site f).Uses T := by
  cases site with
  | loose x => exact h.put x (o := .function f) (List.forall_mem_singleton.2 hf)
  | inModule x i =>
    rw [Workspace.putFunction]
    split
    · rename_i m hm
      refine h.put x (o := .module (m.setFunction i f)) fun g hg => ?_
      rcases List.mem_or_eq_of_mem_set hg with hg | rfl
      · exact h.functions_of_get? hm g hg
      · exact hf
    · exact h

theorem putBlock (h : w.Uses T) (site : BlockSite) (b : Block) : (w.putBlock site b).Uses T := by
  cases site with
  | loose x => exact h.put x (o := .block b) (List.forall_mem_nil _)
  | inFunction x i =>
    rw [Workspace.putBlock]
    split
    · rename_i f hf
      exact h.put x (o := .function (f.setBlock i b))
        (List.forall_mem_singleton.2 ((h.function_of_get? hf).congr rfl rfl))
    · exact h

theorem putModule (h : w.Uses T) (x : String) {m : Module} (hm : ∀ f ∈ m.functions, f.Uses T) :
    (w.putModule x m).Uses T := h.put x (o := .module m) hm

end Workspace.Uses

namespace Build

variable {α β : Type} {T : Ty → Prop} {E : Failure → Prop} {Q : α → Prop} {R : β → Prop}

/-- **The computation is tame**: it ends with types in `T` where it began so, and what it answers with satisfies `Q`, or
its failure is in `E`. -/
def Tame (T : Ty → Prop) (E : Failure → Prop) (act : Build α) (Q : α → Prop) : Prop :=
  ∀ w, w.Uses T → act.Ends w (fun a w' => w'.Uses T ∧ Q a) (fun e w' => w'.Uses T ∧ E e)

namespace Tame

theorem pure {a : α} (ha : Q a) : Tame T E (pure a) Q := fun _ hw => ⟨hw, ha⟩

theorem throw {e : Failure} (he : E e) : Tame T E (throw e : Build α) Q := fun _ hw => ⟨hw, he⟩

theorem bind {act : Build α} {f : α → Build β} (h : Tame T E act Q) (hf : ∀ a, Q a → Tame T E (f a) R) :
    Tame T E (act >>= f) R := fun w hw => (h w hw).bind fun a w' ha => hf a ha.2 w' ha.1

theorem weaken {act : Build α} (h : Tame T E act Q) : Tame T E act fun _ => True := fun w hw =>
  (h w hw).imp fun _ _ ha => ⟨ha.1, trivial⟩

theorem get {f : Workspace → Build α} (hf : ∀ w, w.Uses T → Tame T E (f w) Q) : Tame T E (get >>= f) Q :=
  fun w hw => ends_get (hf w hw w hw)

theorem modify {g : Workspace → Workspace} (hg : ∀ w, w.Uses T → (g w).Uses T) :
    Tame T E (modify g : Build Unit) fun _ => True := fun w hw => ⟨hg w hw, trivial⟩

/-- What no number and no name changes. -/
theorem modifyGet {g : Workspace → α × Workspace} (hg : ∀ w, w.Uses T → (g w).2.Uses T) :
    Tame T E (modifyGet g) fun _ => True := fun w hw => ⟨hg w hw, trivial⟩

theorem discard {act : Build α} (h : Tame T E act Q) : Tame T E (discard act) fun _ => True := fun w hw =>
  (Ends.discard (h w hw)).imp fun _ _ ⟨_, ha⟩ => ⟨ha.1, trivial⟩

theorem mapM {f : β → Build α} (hf : ∀ b, Tame T E (f b) fun _ => True) : ∀ l : List β,
    Tame T E (l.mapM f) fun _ => True
  | [] => pure trivial
  | b :: l => by
    rw [List.mapM_cons]
    exact (hf b).bind fun _ _ => (mapM hf l).bind fun _ _ => pure trivial

theorem freshId : Tame T E freshId fun _ => True := modifyGet fun _ hw => ⟨hw.nodes, hw.vars, hw.callees, hw.functions⟩

theorem newLocs (list : List SourceLoc) : Tame T E (newLocs list) fun _ => True := freshId.bind fun _ _ => pure trivial

theorem keep {set : String → α → Workspace → Workspace} (into : Option String) {a : α}
    (hs : ∀ x w, w.Uses T → (set x a w).Uses T) : Tame T E (keep set into a) fun _ => True := by
  cases into with
  | some x => exact modify (hs x)
  | none => exact pure trivial

variable (h : Rules T E)
include h

theorem missing (m : Missing) : Tame T E (MonadExcept.throw (.missing m) : Build α) Q :=
  throw (h.plain _ fun _ _ _ => nofun)

theorem refuse {f : Fault} (hf : f.Plain) : Tame T E (refuse f : Build α) Q :=
  throw (h.plain _ (Failure.unplaced_refused hf))

theorem ofExcept {x : Except Fault α} (hx : Fault.Plainly x) (hq : ∀ a, x = .ok a → Q a) : Tame T E (ofExcept x) Q :=
  fun _ hw => ends_ofExcept (fun a ha => ⟨hw, hq a ha⟩) fun e he => ⟨hw, h.plain _ (Failure.unplaced_refused (hx e he))⟩

theorem check {x : Except Fault α} (hx : Fault.Plainly x) : Tame T E (Build.ofExcept x) fun _ => True :=
  ofExcept h hx fun _ _ => trivial

theorem checkNames : Tame T E checkNames fun _ => True := .get fun w _ => check h (Fault.plainly_checkNames w)

theorem intern (s : String) : Tame T E (intern s) fun _ => True :=
  (checkNames h).bind fun _ _ => modifyGet fun _ hw => ⟨hw.nodes, hw.vars, hw.callees, hw.functions⟩

theorem slot {kind : SlotKind} {table : Workspace → Table α} (x : String)
    (hq : ∀ w a, w.Uses T → (table w).get? x = some a → Q a) : Tame T E (slot kind table x) Q := fun w hw =>
  ends_slot (fun a ha => ⟨hw, hq w a hw ha⟩) fun _ => ⟨hw, h.plain _ fun _ _ _ => nofun⟩

/-- A slot whose content has no type of its own. -/
theorem plainSlot (kind : SlotKind) (table : Workspace → Table α) (x : String) :
    Tame T E (Build.slot kind table x) fun _ => True := slot h x fun _ _ _ _ => trivial

theorem varSlot (x : String) : Tame T E (varSlot x) fun v => T v.typ :=
  slot h x fun _ v hw hv => hw.vars v (Table.mem_values_of_get? hv)

theorem calleeSlot (x : String) : Tame T E (calleeSlot x) fun c => ∀ t ∈ c.returns, T t :=
  slot h x fun _ c hw hc => hw.callees c (Table.mem_values_of_get? hc)

theorem functionSlot (x : String) : Tame T E (functionSlot x) (Function.Uses T) :=
  slot h x fun _ _ hw hf => hw.function_of_get? hf

theorem moduleSlot (x : String) : Tame T E (moduleSlot x) fun m => ∀ f ∈ m.functions, f.Uses T :=
  slot h x fun _ _ hw hm => hw.functions_of_get? hm

theorem giveUp (held evaluated : List NodeId) : Tame T E (giveUp held evaluated) fun _ => True := .get fun w _ => by
  split
  · exact modify fun _ hw => hw.giveUp held evaluated
  · exact throw (h.plain _ fun _ _ _ => nofun)

theorem dropOnFailure (ss : List (Stmt NodeId)) {act : Build α} (ht : Tame T E act Q) :
    Tame T E (dropOnFailure ss act) Q := by
  intro w hw
  have ends := ht w hw
  unfold Ends Build.dropOnFailure
  dsimp only
  cases hr : act w with
  | ok a w' => exact ends.ok hr
  | error e w' =>
    obtain ⟨hw', he⟩ := ends.error hr
    have : Tame T E (do dropStmts ss; MonadExcept.throw e : Build α) Q := (giveUp h _ _).bind fun _ _ => throw he
    exact this w' hw'

theorem setOwned (x : String) {o : Owned} (ho : ∀ f ∈ o.functions, f.Uses T) :
    Tame T E (setOwned x o) fun _ => True :=
  .get fun _ _ => (modify fun _ hw => hw.take o.kind x).bind fun _ _ => (giveUp h _ _).bind fun _ _ =>
    modify fun _ hw => hw.put x ho

theorem keepOwned (into : Option String) {o : Owned} (ho : ∀ f ∈ o.functions, f.Uses T) :
    Tame T E (keepOwned into o) fun _ => True := by
  cases into with
  | some x => exact setOwned h x ho
  | none => exact giveUp h _ _

theorem remove (x : String) (o : Owned) : Tame T E (remove x o) fun _ => True :=
  (modify fun _ hw => hw.take o.kind x).bind fun _ _ => giveUp h _ _

/-! ## Handles, nodes and statements -/

theorem loc (l : LocTerm) : Tame T E l.build fun _ => True :=
  (intern h _).bind fun _ _ => (intern h _).bind fun _ _ => (check h (Fault.plainly_wordOfInt _)).bind fun _ _ =>
    (check h (Fault.plainly_wordOfInt _)).bind fun _ _ => pure trivial

theorem locs : ∀ t : LocsTerm, Tame T E t.build fun _ => True
  | .slot x => plainSlot h _ _ x
  | .list ls => (mapM (loc h) ls).bind fun _ _ => newLocs _

/-- **A constructor makes no type of width `0` of its own.** -/
theorem construct {f : Form NodeId} (vars : ∀ v, f = .varRef v → T v.typ)
    (callees : ∀ c args, f = .call c args → ∀ t ∈ c.returns, T t) : Tame T E (construct f) fun _ => True := by
  intro w hw
  unfold Ends
  rw [run_construct]
  cases hr : f.resolve w.store.reader with
  | error x => exact ⟨hw, h.plain _ (Failure.unplaced_refused (Fault.plainly_resolve _ f x hr))⟩
  | ok b =>
    cases b with
    | reuse n => exact ⟨hw, trivial⟩
    | fresh shape t =>
      refine ⟨hw.alloc ?_, trivial⟩
      rcases Form.typ_of_fresh hr with wide | ⟨v, hv, rfl⟩ | ⟨c, args, hc, ht⟩ | ⟨op, lhs, rhs, -, rfl⟩
      · exact h.wide t wide
      · exact vars v hv
      · exact callees c args hc t ht
      · exact hw.nodes lhs

theorem plain {f : Form NodeId} (vars : ∀ v, f ≠ .varRef v) (callees : ∀ c args, f ≠ .call c args) :
    Tame T E (Build.construct f) fun _ => True :=
  construct h (fun v hv => absurd hv (vars v)) fun c args hc => absurd hc (callees c args)

/-- A new statement is in no block. -/
theorem newStmt (body : StmtBody NodeId) (locs : Locs) : Tame T E (newStmt body locs) fun s => s.parent = none :=
  .get fun _ _ => (check h (Fault.plainly_check _ body)).bind fun _ _ => (modify fun _ hw => hw.acquire _ _).bind
    fun _ _ => freshId.bind fun _ _ => pure rfl

theorem located (body : StmtBody NodeId) {locs : Build Locs} (hl : Tame T E locs fun _ => True) :
    Tame T E (locs >>= Build.newStmt body) fun _ => True :=
  hl.bind fun l _ => (newStmt h body l).weaken

theorem newIndirectCall (func : NodeId) (ss : List (Stmt NodeId)) (locs : Locs) :
    Tame T E (newIndirectCall func ss locs) fun _ => True := by
  refine (dropOnFailure (Q := fun _ => True) h ss (.get fun w _ => ?_)).bind fun _ _ =>
    (giveUp h _ _).bind fun _ _ => pure trivial
  exact (check h (Fault.plainly_indirect _ func)).bind fun _ _ =>
    (check h (Fault.Plainly.mapM (Fault.plainly_asCall _) ss)).bind fun _ _ => (newStmt h _ _).weaken

end Tame

end Build

open Build

section

variable {α β : Type} {T : Ty → Prop} {E : Failure → Prop}

/-! ## Terms -/

namespace Term

mutual

theorem tame (h : Rules T E) : ∀ t : Term, Tame T E t.build fun _ => True
  | .slot x => .plainSlot h _ _ x
  | .bvConst _ _ => .plain h nofun nofun
  | .bvZero _ => .plain h nofun nofun
  | .boolConst _ => .plain h nofun nofun
  | .arrayRef a => (Tame.plainSlot h _ _ a).bind fun _ _ => .plain h nofun nofun
  | .varRef v => (Tame.varSlot h v).bind fun _ hv =>
      .construct h (fun _ he => by cases he; exact hv) fun _ _ he => by cases he
  | .pointer a o => (a.tame h).bind fun _ _ => (o.tame h).bind fun _ _ => .plain h nofun nofun
  | .load a o => (a.tame h).bind fun _ _ => (o.tame h).bind fun _ _ => .plain h nofun nofun
  | .call c args => (Tame.calleeSlot h c).bind fun _ hc => (tameList h args).bind fun _ _ =>
      .construct h (fun _ he => by cases he) fun _ _ he => by cases he; exact hc
  | .bvExtract e _ _ => (e.tame h).bind fun _ _ => .plain h nofun nofun
  | .extend _ e _ => (e.tame h).bind fun _ _ => .plain h nofun nofun
  | .unary _ e => (e.tame h).bind fun _ _ => .plain h nofun nofun
  | .binary _ l r => (l.tame h).bind fun _ _ => (r.tame h).bind fun _ _ => .plain h nofun nofun

theorem tameList (h : Rules T E) : ∀ ts : List Term, Tame T E (buildList ts) fun _ => True
  | [] => .pure trivial
  | t :: ts => (t.tame h).bind fun _ _ => (tameList h ts).bind fun _ _ => .pure trivial

end

end Term

variable (h : Rules T E)
include h

namespace StmtTerm

theorem tame_marked (value : Bool) (facets : Facets) (locs : LocsTerm) :
    Tame T E (buildMarked value facets locs) fun _ => True :=
  (Tame.locs h locs).bind fun _ _ => (Tame.plain h (f := .boolConst value) nofun nofun).bind fun _ _ =>
    (Tame.newStmt h _ _).weaken

mutual

theorem tame : ∀ s : StmtTerm, Tame T E s.build fun _ => True
  | .slot x => (Tame.plainSlot h _ _ x).bind fun _ _ => (Tame.modify fun _ hw => hw.take .stmt x).bind fun _ _ =>
      .pure trivial
  | .eval e locs => (e.tame h).bind fun _ _ => .located h _ (.locs h locs)
  | .store a o v locs => (a.tame h).bind fun _ _ => (o.tame h).bind fun _ _ => (v.tame h).bind fun _ _ =>
      .located h _ (.locs h locs)
  | .varAssign vars values => (Tame.mapM (fun x => (Tame.varSlot h x).weaken) vars).bind fun _ _ =>
      (Term.tameList h values).bind fun _ _ => .located h _ (.newLocs [])
  | .goto _ => .located h _ (.newLocs [])
  | .ret => .located h _ (.newLocs [])
  | .assume e _ => (e.tame h).bind fun _ _ => .located h _ (.newLocs [])
  | .assert e _ _ _ locs => (e.tame h).bind fun _ _ => .located h _ (.locs h locs)
  | .badAccess locs => tame_marked h _ _ locs
  | .blockSourceLoc locs => tame_marked h _ _ locs
  | .call c args locs => (Tame.calleeSlot h c).bind fun _ _ => (Term.tameList h args).bind fun _ _ =>
      .located h _ (.locs h locs)
  | .callMemberOf func locs calls => (func.tame h).bind fun _ _ => (Tame.locs h locs).bind fun _ _ =>
      (tameList calls).bind fun _ _ => .newIndirectCall h _ _ _
  | .waitGroupEvent e locs => (e.tame h).bind fun _ _ => .located h _ (.locs h locs)

theorem tameList : ∀ ss : List StmtTerm, Tame T E (buildList ss) fun _ => True
  | [] => .pure trivial
  | s :: ss => s.tame.bind fun st _ => (Tame.dropOnFailure h [st] (tameList ss)).bind fun _ _ => .pure trivial

end

end StmtTerm

/-! ## Commands -/

namespace Build.Tame

theorem block (site : BlockSite) : Tame T E (blockAt site) fun _ => True := by
  cases site with
  | loose x => exact plainSlot h _ _ x
  | inFunction x i => exact (functionSlot h x).bind fun f _ => check h (Fault.plainly_block f i)

theorem nthFunction {m : String} {i : Nat} {md : Module} (hm : ∀ f ∈ md.functions, f.Uses T) :
    Tame T E (findFunction.nthFunction m i md) fun p => p.2.Uses T := by
  unfold findFunction.nthFunction
  split
  · rename_i f hf
    exact pure (hm f (List.mem_of_getElem? hf))
  · exact missing h _

theorem findFunction (f : FunctionRef) : Tame T E (findFunction f) fun p => p.2.Uses T := by
  cases f with
  | loose x => exact (functionSlot h x).bind fun _ hf => pure hf
  | nth m i => exact (moduleSlot h m).bind fun _ hm => nthFunction h hm
  | named m text =>
    refine (moduleSlot h m).bind fun md hm => (checkNames h).bind fun _ _ => .get fun w _ => ?_
    split
    · exact nthFunction h hm
    · exact missing h _

theorem findBlock (b : BlockRef) : Tame T E (findBlock b) fun _ => True := by
  cases b with
  | loose x => exact plainSlot h _ _ x
  | ofFunction f i => exact (findFunction h f).bind fun p _ => check h (Fault.plainly_block p.2 i)

theorem findStmt (s : StmtRef) : Tame T E (findStmt s) fun _ => True := by
  cases s with
  | loose x => exact plainSlot h _ _ x
  | ofBlock b i =>
    refine (findBlock h b).bind fun b _ => ?_
    split
    · exact pure trivial
    · exact missing h _

theorem distinct (kind : HandleKind) (xs : List String) : Tame T E (distinct kind xs) fun _ => True := by
  cases kind with
  | var | array | callee => exact (mapM (plainSlot h _ _) xs).bind fun _ _ => pure trivial

theorem debug (kind : ShownKind) (x : String) : Tame T E (debug kind x) fun _ => True := by
  refine .get fun w _ => ?_
  cases kind with
  | expr | var | array | callee | stmt | block => exact (plainSlot h _ _ x).bind fun _ _ => pure trivial

theorem drop (kind : DroppedKind) (x : String) : Tame T E (drop kind x) fun _ => True := by
  cases kind with
  | expr => exact (discard (plainSlot h _ _ x)).bind fun _ _ => modify fun _ hw => hw.eraseExpr x
  | var => exact (discard (plainSlot h _ _ x)).bind fun _ _ => modify fun _ hw => hw.eraseVar x
  | stmt | block | function | module => exact (plainSlot h _ _ x).bind fun _ _ => remove h x _

/-- A statement without a parent can join any block. -/
theorem appendStmt (site : BlockSite) {s : Stmt NodeId} (free : s.parent = none ∨ ∀ e, E e) :
    Tame T E (appendStmt site s) fun _ => True := by
  have place : ∀ b, Tame T E (Build.ofExcept (s.place b)) fun _ => True := fun b => by
    rcases free with free | all
    · rw [Stmt.place, free]
      exact pure trivial
    · exact fun _ hw => ends_ofExcept (fun _ _ => ⟨hw, trivial⟩) fun _ _ => ⟨hw, all _⟩
  have pushed : Tame T E (Build.dropOnFailure [s] do
      let b ← blockAt site
      return b.push (← Build.ofExcept (s.place b.id))) fun _ => True :=
    dropOnFailure h [s] ((block h site).bind fun b _ => (place b.id).bind fun _ _ => pure trivial)
  exact pushed.bind fun _ _ => (modify fun _ hw => hw.putBlock site _).bind fun _ _ => pure trivial

theorem addEvalTo (site : BlockSite) (n : NodeId) (locs : Locs) :
    Tame T E (Command.addEvalTo site n locs) fun _ => True := by
  refine .get fun w _ => ?_
  dsimp only
  split
  · exact (block h site).bind fun _ _ => pure trivial
  · exact (newStmt h _ locs).bind fun s free => appendStmt h site (.inl free)

omit h in
theorem calleeOf (site : FunctionSite) {f : Function} (hf : f.Uses T) :
    Tame T E (calleeOf site f) fun c => ∀ t ∈ c.returns, T t := by
  unfold Build.calleeOf
  split
  · rename_i c hc
    exact pure (hf.callee c hc)
  · exact freshId.bind fun id _ => (modify fun _ hw => hw.putFunction site (hf.sign id)).bind fun _ _ =>
      pure (hf.signature id)

theorem moveFunction (m f : String) : Tame T E (moveFunction m f) fun _ => True := by
  refine (moduleSlot h m).bind fun md hm => (functionSlot h f).bind fun fn hf =>
    (modify fun _ hw => hw.take .function f).bind fun _ _ => ?_
  split
  · rename_i md' fits
    obtain ⟨-, -, rfl⟩ := Module.accept_ok_iff.1 fits
    have all := List.forall_mem_append.2 ⟨hm, List.forall_mem_singleton.2 hf⟩
    exact (modify fun _ hw => hw.putModule m all).bind fun _ _ => pure trivial
  · rename_i refused
    exact (giveUp h _ _).bind fun _ _ => refuse h (Fault.plainly_accept fn md _ refused)

theorem ofResult {x : Except Failure α} {Q : α → Prop} (hx : ∀ e, x = .error e → e.Unplaced)
    (hq : ∀ a, x = .ok a → Q a) : Tame T E (ofResult x) Q := fun _ hw =>
  ends_ofResult (fun a ha => ⟨hw, hq a ha⟩) fun e he => ⟨hw, h.plain e (hx e he)⟩

theorem typ {t : TyTerm} (ht : ∀ u, t.eval = .ok u → T u) : Tame T E (Build.ofResult t.eval) T := by
  refine ofResult h (fun e he => ?_) ht
  obtain ⟨kind, w, f, refused, rfl⟩ | rfl := TyTerm.eval_error he
  · exact Failure.unplaced_refused (Fault.plainly_sized kind w f refused)
  · exact Failure.unplaced_undecodable

theorem model (t : ModelTerm) : Tame T E (Build.ofResult t.eval) fun _ => True :=
  ofResult h (fun _ he => ModelTerm.eval_error he ▸ Failure.unplaced_undecodable) fun _ _ => trivial

theorem newVar (name : String) {t : Ty} (ht : T t) : Tame T E (newVar name t) fun v => T v.typ :=
  (intern h name).bind fun _ _ => freshId.bind fun _ _ => pure ht

theorem newArray (name : String) (space : MemorySpace) : Tame T E (newArray name space) fun _ => True :=
  (intern h name).bind fun _ _ => freshId.bind fun _ _ => pure trivial

end Build.Tame

end

/-- The command declares a variable of this type. -/
def Command.Declares (t : Ty) : Command → Prop
  | .addVar _ _ _ typ _ => typ.eval = .ok t
  | _ => False

/-- **Every command is tame**, where what it declares is in `T`. -/
theorem Command.tame {T : Ty → Prop} {E : Failure → Prop} (h : Rules T E) : ∀ c : Command, (∀ t, c.Declares t → T t) →
    ((∀ site s, c ≠ .addStmt site s) ∨ ∀ e, E e) → Tame T E c.perform fun _ => True
  | .expr e into, _, _ => (e.tame h).bind fun n _ => .get fun _ _ =>
      (Tame.keep into fun x _ hw => hw.setExpr x n).bind fun _ _ => .pure trivial
  | .operand x i into, _, _ => by
    refine (Tame.plainSlot h _ _ x).bind fun n _ => .get fun w _ => ?_
    split
    · exact (Tame.keep into fun x _ hw => hw.setExpr x _).bind fun _ _ => .pure trivial
    · exact .missing h _
  | .info x, _, _ | .dump x, _, _ | .refCount x, _, _ | .markers x, _, _ | .showModule x, _, _ =>
    (Tame.plainSlot h _ _ x).bind fun _ _ => .get fun _ _ => .pure trivial
  | .preventEval x, _, _ => (Tame.plainSlot h _ _ x).bind fun n _ =>
      (Tame.modify fun _ hw => hw.prevent n).bind fun _ _ => .pure trivial
  | .sameNode x y, _, _ | .compareLocs x y, _, _ =>
    (Tame.plainSlot h _ _ x).bind fun _ _ => (Tame.plainSlot h _ _ y).bind fun _ _ => .pure trivial
  | .typecheckCall c args, _, _ => (Tame.plainSlot h _ _ c).bind fun _ _ => (Term.tameList h args).bind fun _ _ =>
      .get fun _ _ => .pure trivial
  | .distinct kind xs, _, _ => (Tame.distinct h kind xs).bind fun _ _ => .pure trivial
  | .debug kind x, _, _ => (Tame.debug h kind x).bind fun _ _ => .pure trivial
  | .drop kind x, _, _ => (Tame.drop h kind x).bind fun _ _ => .pure trivial
  | .locs t into, _, _ => (Tame.locs h t).bind fun _ _ =>
      (Tame.keep into fun _ _ hw => ⟨hw.nodes, hw.vars, hw.callees, hw.functions⟩).bind fun _ _ => .get fun _ _ =>
        .pure trivial
  | .stmt s into, _, _ => (s.tame h).bind fun _ _ => .get fun _ _ =>
      (Tame.keepOwned h into (List.forall_mem_nil _)).bind fun _ _ => .pure trivial
  | .showStmt s, _, _ => (Tame.findStmt h s).bind fun _ _ => .get fun _ _ => .pure trivial
  | .sourceLocs s, _, _ => by
    refine (Tame.findStmt h s).bind fun s _ => ?_
    split
    · exact (Tame.refuse (Q := fun _ => True) h (f := .unlocated s.kind) trivial).bind fun _ _ => .get fun _ _ =>
        .pure trivial
    · exact .get fun _ _ => .pure trivial
  | .block id name into, _, _ => (Tame.intern h name).bind fun _ _ =>
      (Tame.keepOwned h into (List.forall_mem_nil _)).bind fun _ _ => .get fun _ _ => .pure trivial
  | .addStmt site s, _, free => (Tame.discard (.block h site)).bind fun _ _ => (s.tame h).bind fun _ _ =>
      (Tame.appendStmt h site (.inr (free.resolve_left fun moves => moves site s rfl))).bind fun _ _ => .pure trivial
  | .addEval site e t, _, _ => (Tame.discard (.block h site)).bind fun _ _ => (e.tame h).bind fun _ _ =>
      (Tame.locs h t).bind fun _ _ => (Tame.addEvalTo h site _ _).bind fun _ _ => .pure trivial
  | .showBlock b, _, _ => (Tame.findBlock h b).bind fun _ _ => .get fun _ _ => .pure trivial
  | .function name into, _, _ => (Tame.intern h name).bind fun y _ =>
      (Tame.keepOwned h into (List.forall_mem_singleton.2 ⟨List.forall_mem_nil _, nofun⟩)).bind fun _ _ =>
        .get fun _ _ => .pure trivial
  | .addVar role f name typ into, ht, _ => (Tame.functionSlot h f).bind fun fn hf => (Tame.typ h ht).bind fun _ ht =>
      (Tame.check h (Fault.plainly_checkOpen fn role)).bind fun _ _ => (Tame.newVar h name ht).bind fun _ hv =>
        (Tame.modify fun _ hw => hw.putFunction (.loose f) (hf.addVar role hv)).bind fun _ _ =>
          (Tame.keep into fun x _ hw => hw.setVar x hv).bind fun _ _ => .pure trivial
  | .addBlock f name, _, _ => (Tame.functionSlot h f).bind fun fn hf => (Tame.intern h name).bind fun y _ =>
      (Tame.modify fun _ hw => hw.putFunction (.loose f) (f := fn.addBlock y) (hf.congr rfl rfl)).bind fun _ _ =>
        .pure trivial
  | .addAttribute f name, _, _ => (Tame.functionSlot h f).bind fun fn hf => (Tame.intern h name).bind fun y _ =>
      (Tame.modify fun _ hw => hw.putFunction (.loose f) (f := fn.addAttribute y) (hf.congr rfl rfl)).bind fun _ _ =>
        .pure trivial
  | .addClause kind f e t, _, _ => (Tame.functionSlot h f).bind fun _ hf => (e.tame h).bind fun n _ =>
      (Tame.locs h t).bind fun _ _ => .get fun _ _ => (Tame.check h (Fault.plainly_predicate _ _ n)).bind fun _ _ =>
        (Tame.modify fun _ hw => hw.acquire _ _).bind fun _ _ =>
          (Tame.modify fun _ hw => hw.putFunction (.loose f) (hf.addClause kind _)).bind fun _ _ => .pure trivial
  | .hasAttribute f name, _, _ => by
    refine (Tame.findFunction h f).bind fun _ _ => ?_
    split
    · exact (Tame.checkNames h).bind fun _ _ => .get fun _ _ => .pure trivial
    · exact .get fun _ _ => .pure trivial
  | .callee f into, _, _ => (Tame.findFunction h f).bind fun p hp => (Tame.calleeOf p.1 hp).bind fun _ hc =>
      .get fun _ _ => (Tame.keep into fun x _ hw => hw.setCallee x hc).bind fun _ _ => .pure trivial
  | .showFunction f, _, _ => (Tame.findFunction h f).bind fun _ _ => .get fun _ _ => .pure trivial
  | .module name model into, _, _ => (Tame.model h model).bind fun _ _ => (Tame.intern h name).bind fun _ _ =>
      (Tame.keepOwned h into (List.forall_mem_nil _)).bind fun _ _ => .get fun _ _ => .pure trivial
  | .addArray m name space into, _, _ => (Tame.moduleSlot h m).bind fun md hm =>
      (Tame.newArray h name space).bind fun a _ => (Tame.modify fun _ hw => hw.putModule m (m := md.addArray a) hm).bind
        fun _ _ => (Tame.keep into fun _ _ hw => ⟨hw.nodes, hw.vars, hw.callees, hw.functions⟩).bind fun _ _ =>
          .get fun _ _ => .pure trivial
  | .addFunction m f, _, _ => (Tame.moveFunction h m f).bind fun _ _ => .pure trivial
  | .addAxiom m e, _, _ => (Tame.moduleSlot h m).bind fun md hm => (e.tame h).bind fun n _ => .get fun _ _ =>
      (Tame.check h (Fault.plainly_predicate _ _ n)).bind fun _ _ => (Tame.modify fun _ hw => hw.acquire _ _).bind
        fun _ _ => (Tame.modify fun _ hw => hw.putModule m (m := md.addAxiom n) hm).bind fun _ _ =>
          .pure trivial

end KernelIR
