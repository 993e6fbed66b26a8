import KernelIR.Proofs.Separation.Shown
/-!
# Agree — the checks decide the same on linked objects

A check that passes on an object passes on a linked one, with linked results; one that refuses gives a fault of the same
message (`Agree`).  The checks look at types, at constants and at positions, and compare numbers only with each other.

Main statement: a constructor agrees with itself over linked operands (`Form.Linked.resolve`).
-/
namespace KernelIR

variable {α β γ δ : Type} {L : Link}

/-- The two faults have one message. -/
def Fault.Alike (L : Link) (f f' : Fault) : Prop := ∀ N N', L.Reads N N' → f'.message N' = f.message N

/-- Both succeed, with results in `Q`, or both refuse, in the same words. -/
inductive Agree (L : Link) (Q : α → β → Prop) : Except Fault α → Except Fault β → Prop
  | ok {a : α} {b : β} (h : Q a b) : Agree L Q (.ok a) (.ok b)
  | error {f f' : Fault} (h : f.Alike L f') : Agree L Q (.error f) (.error f')

/-- What is read of linked nodes. -/
structure Reader.Linked (L : Link) (r r' : Reader NodeId) : Prop where
  shape : ∀ {n n'}, L.node n n' → (r.node n).shape.Linked L L.node (r'.node n').shape
  typ : ∀ {n n'}, L.node n n' → (r'.node n').typ = (r.node n).typ
  tree : ∀ {n n'}, L.node n n' → (r.tree n).Alike L (r'.tree n')

theorem Fault.Alike.imp {L' : Link} {f f' : Fault} (h : f.Alike L f') (le : L ≤ L') : f.Alike L' f' :=
  fun N N' reads => h N N' (reads.mono le)

namespace Agree

variable {Q : α → β → Prop} {S : γ → δ → Prop}

theorem bind {x : Except Fault α} {x' : Except Fault β} {g : α → Except Fault γ} {g' : β → Except Fault δ}
    (h : Agree L Q x x') (hg : ∀ a b, Q a b → Agree L S (g a) (g' b)) : Agree L S (x >>= g) (x' >>= g') := by
  cases h with
  | ok h => exact hg _ _ h
  | error h => exact .error h

/-- One computation of data without numbers. -/
theorem bindSame {x : Except Fault α} {g : α → Except Fault γ} {g' : α → Except Fault δ}
    (hx : ∀ f, x = .error f → f.Alike L f) (hg : ∀ a, Agree L S (g a) (g' a)) : Agree L S (x >>= g) (x >>= g') := by
  cases x with
  | ok a => exact hg a
  | error f => exact .error (hx f rfl)

theorem same {Q : α → α → Prop} {x : Except Fault α} (hx : ∀ f, x = .error f → f.Alike L f)
    (hq : ∀ a, Q a a) : Agree L Q x x := by
  cases x with
  | ok a => exact .ok (hq a)
  | error f => exact .error (hx f rfl)

theorem mapM {f : α → Except Fault γ} {g : β → Except Fault δ} (hf : ∀ a b, Q a b → Agree L S (f a) (g b))
    {l : List α} {l' : List β} (h : List.Forall₂ Q l l') : Agree L (List.Forall₂ S) (l.mapM f) (l'.mapM g) := by
  induction h with
  | nil => exact .ok .nil
  | cons head _ ih =>
    rw [List.mapM_cons, List.mapM_cons]
    exact (hf _ _ head).bind fun _ _ hx => ih.bind fun _ _ hxs => .ok (.cons hx hxs)

end Agree

/-! ## Types -/

theorem Ty.sized_alike {kind : SizedKind} {w : UInt64} {f : Fault} (h : sized kind w = .error f) : f.Alike L f := by
  unfold sized at h
  split at h <;> cases h
  exact fun _ _ _ => rfl

theorem Ty.expectWidth_alike {t : Ty} {f : Fault} (h : t.expectWidth = .error f) : f.Alike L f := by
  unfold expectWidth at h
  split at h <;> cases h
  exact fun _ _ _ => rfl

theorem Ty.sized_expected {kind : SizedKind} {t : Ty} {f : Fault}
    (h : (do Ty.sized kind (← t.expectWidth)) = .error f) : f.Alike L f := by
  cases hw : t.expectWidth with
  | ok w =>
    rw [hw] at h
    exact sized_alike h
  | error f' =>
    rw [hw] at h
    cases h
    exact expectWidth_alike hw

theorem UnaryOp.result_alike {op : UnaryOp} {t : Ty} {f : Fault} (h : op.result t = .error f) : f.Alike L f := by
  cases op with
  | arrayId | bvToBool | not => cases h
  | boolToBv => exact Ty.sized_alike h
  | arrayOffset | bvToFloat | floatToBv | bvToPtr | ptrToBv => exact Ty.sized_expected h

theorem BinaryOp.result_alike {op : BinaryOp} {l r : Ty} {f : Fault} (h : op.result l r = .error f) : f.Alike L f := by
  unfold result at h
  cases hf : op.family with
  | arithmetic | comparison | equality | connective =>
    rw [hf] at h
    cases h
  | concatenation =>
    rw [hf] at h
    cases hl : l.expectWidth with
    | error f' =>
      rw [hl] at h
      cases h
      exact Ty.expectWidth_alike hl
    | ok v =>
      cases hr : r.expectWidth with
      | error f' =>
        rw [hl, hr] at h
        cases h
        exact Ty.expectWidth_alike hr
      | ok w =>
        rw [hl, hr] at h
        exact Ty.sized_alike h

/-! ## Constructors -/

theorem Callee.message_alike {c c' : Callee} {ts ts' : List Tree} (hc : c.Linked L c')
    (ht : List.Forall₂ (Tree.Alike L) ts ts') : (Fault.callArguments c ts).Alike L (.callArguments c' ts') := by
  intro N N' reads
  unfold Fault.message
  dsimp only
  rw [hc.debug reads, map_eq_of_forall₂ (fun _ _ h => h.debug N N' reads) ht]

section

variable {R : α → β → Prop} {s : Shape α} {s' : Shape β}

theorem Shape.Linked.cancel? (h : s.Linked L R s') (op : UnaryOp) : Option.Rel R (op.cancel? s) (op.cancel? s') := by
  cases h with
  | pointer ha ho =>
    cases op with
    | arrayId => exact .some ha
    | arrayOffset => exact .some ho
    | _ => exact .none
  | unary op' he => cases op <;> cases op' <;> first | exact .some he | exact .none
  | _ => cases op <;> exact .none

theorem Shape.Linked.addends? {m : Shape α} {m' : Shape β} (h : s.Linked L R s') (hm : m.Linked L R m')
    (op : BinaryOp) : op.addends? s' m' = op.addends? s m := by
  cases op with
  | bvAdd => cases h <;> cases hm <;> rfl
  | _ => rfl

end

namespace Reader.Linked

variable {r r' : Reader NodeId} (hr : r.Linked L r')
include hr

theorem typs {ns ns' : List NodeId} (h : List.Forall₂ L.node ns ns') :
    (ns'.map fun n => (r'.node n).typ) = ns.map fun n => (r.node n).typ :=
  map_eq_of_forall₂ (fun _ _ hn => hr.typ hn) h

theorem trees {ns ns' : List NodeId} (h : List.Forall₂ L.node ns ns') :
    List.Forall₂ (Tree.Alike L) (ns.map r.tree) (ns'.map r'.tree) := List.rel_map (fun _ _ hn => hr.tree hn) h

theorem accepts {c c' : Callee} {args args' : List NodeId} (hc : c.Linked L c') (ha : List.Forall₂ L.node args args') :
    c'.accepts (args'.map fun a => (r'.node a).typ) = c.accepts (args.map fun a => (r.node a).typ) := by
  rw [Callee.accepts, Callee.accepts, hr.typs ha, hc.parameters]

theorem access {a o a' o' : NodeId} (x : Access) (ha : L.node a a') (ho : L.node o o') :
    Agree L (fun t t' => t' = t) (Form.access r x a o) (Form.access r' x a' o') := by
  unfold Form.access
  rw [hr.typ ha, hr.typ ho]
  split
  · exact .error fun _ _ _ => rfl
  split
  · exact .error fun _ _ _ => rfl
  cases x with
  | pointer => exact .same (fun _ => Ty.sized_expected) fun _ => rfl
  | load => exact .same (fun _ => Ty.sized_alike) fun _ => rfl

theorem resolveCall {c c' : Callee} {args args' : List NodeId} (hc : c.Linked L c')
    (ha : List.Forall₂ L.node args args') :
    Agree L (Built.Linked L) (Form.resolveCall r c args) (Form.resolveCall r' c' args') := by
  unfold Form.resolveCall
  rw [hr.accepts hc ha, hc.returns]
  split
  · exact .error (Callee.message_alike hc (hr.trees ha))
  split
  · exact .ok (.fresh (.call hc ha) _)
  · refine .error fun N N' reads => ?_
    unfold Fault.message
    dsimp only
    rw [reads _ _ hc.name, hc.returns]

theorem resolveExtract {e e' : NodeId} (he : L.node e e') (offset width : UInt64) :
    Agree L (Built.Linked L) (Form.resolveExtract r e offset width) (Form.resolveExtract r' e' offset width) := by
  unfold Form.resolveExtract
  rw [hr.typ he]
  split
  · split
    · exact .bindSame (fun _ => Ty.sized_alike) fun t => .ok (.fresh (.bvExtract he offset) t)
    · exact .error fun _ _ _ => rfl
  · exact .error fun _ _ _ => rfl

theorem resolveExtend {e e' : NodeId} (x : Extension) (he : L.node e e') (width : UInt64) :
    Agree L (Built.Linked L) (Form.resolveExtend r x e width) (Form.resolveExtend r' x e' width) := by
  have shape : (x.shape e).Linked L L.node (x.shape e') := by
    cases x with
    | zero => exact .bvZExt he
    | sign => exact .bvSExt he
  unfold Form.resolveExtend
  rw [hr.typ he]
  split
  · exact .bindSame (fun _ => Ty.sized_alike) fun t => .ok (.fresh shape t)
  · exact .error fun _ _ _ => rfl

theorem resolveUnary {e e' : NodeId} (op : UnaryOp) (he : L.node e e') :
    Agree L (Built.Linked L) (Form.resolveUnary r op e) (Form.resolveUnary r' op e') := by
  unfold Form.resolveUnary
  simp only [hr.typ he]
  split
  · exact .error fun _ _ _ => rfl
  · have cancels := (hr.shape he).cancel? op
    generalize op.cancel? (r.node e).shape = x at cancels
    generalize op.cancel? (r'.node e').shape = x' at cancels
    cases cancels with
    | some h => exact .ok (.reuse h)
    | none => exact .bindSame (fun _ => UnaryOp.result_alike) fun t => .ok (.fresh (.unary op he) t)

theorem resolveBinary {l m l' m' : NodeId} (op : BinaryOp) (hl : L.node l l') (hm : L.node m m') :
    Agree L (Built.Linked L) (Form.resolveBinary r op l m) (Form.resolveBinary r' op l' m') := by
  unfold Form.resolveBinary
  simp only [hr.typ hl, hr.typ hm, (hr.shape hl).addends? (hr.shape hm)]
  split
  · exact .error fun _ _ _ => rfl
  split
  · exact .bindSame (fun _ => Ty.expectWidth_alike) fun w => .bindSame (fun _ => Ty.sized_alike) fun t =>
      .ok (.fresh (.bvConst _) t)
  · exact .bindSame (fun _ => BinaryOp.result_alike) fun t => .ok (.fresh (.binary op hl hm) t)

/-- **A constructor agrees with itself** over linked operands. -/
theorem resolve {f f' : Form NodeId} (h : f.Linked L f') : Agree L (Built.Linked L) (f.resolve r) (f'.resolve r') := by
  cases h with
  | bvConst w v => exact .bindSame (fun _ => Ty.sized_alike) fun t => .ok (.fresh (.bvConst _) t)
  | bvZero w => exact .bindSame (fun _ => Ty.sized_alike) fun t => .ok (.fresh (.bvConst _) t)
  | boolConst b => exact .ok (.fresh (.boolConst b) _)
  | arrayRef h => exact .ok (.fresh (.arrayRef h) _)
  | varRef h =>
    simp only [Form.resolve, h.typ]
    exact .ok (.fresh (.varRef h) _)
  | pointer ha ho =>
    exact (hr.access .pointer ha ho).bind fun t t' ht => by
      subst ht
      exact .ok (.fresh (.pointer ha ho) t')
  | load ha ho =>
    exact (hr.access .load ha ho).bind fun t t' ht => by
      subst ht
      exact .ok (.fresh (.load ha ho) t')
  | call hc ha => exact hr.resolveCall hc ha
  | bvExtract he offset width => exact hr.resolveExtract he offset width
  | extend x he width => exact hr.resolveExtend x he width
  | unary op he => exact hr.resolveUnary op he
  | binary op hl hm => exact hr.resolveBinary op hl hm

/-! ## Statements -/

theorem predicate {p p' : NodeId} (role : PredicateRole) (hp : L.node p p') :
    Agree L (fun _ _ => True) (checkPredicate r role p) (checkPredicate r' role p') := by
  unfold checkPredicate
  rw [hr.typ hp]
  split
  · exact .ok trivial
  · refine .error fun N N' reads => ?_
    unfold Fault.message
    dsimp only
    rw [(hr.tree hp).debug N N' reads]

theorem indirect {f f' : NodeId} (hf : L.node f f') :
    Agree L (fun _ _ => True) (StmtBody.checkIndirect r f) (StmtBody.checkIndirect r' f') := by
  unfold StmtBody.checkIndirect
  rw [hr.typ hf]
  split
  · exact .ok trivial
  · refine .error fun N N' reads => ?_
    unfold Fault.message
    dsimp only
    rw [(hr.tree hf).debug N N' reads]

theorem store {a o v a' o' v' : NodeId} (ha : L.node a a') (ho : L.node o o') (hv : L.node v v') :
    Agree L (fun _ _ => True) (StmtBody.checkStore r a o v) (StmtBody.checkStore r' a' o' v') := by
  unfold StmtBody.checkStore
  rw [hr.typ ha, hr.typ ho, hr.typ hv]
  split
  · refine .error fun N N' reads => ?_
    unfold Fault.message
    dsimp only
    rw [(hr.tree ha).debug N N' reads]
  split
  · exact .error fun _ _ _ => rfl
  split
  · refine .error fun N N' reads => ?_
    unfold Fault.message
    dsimp only
    rw [(hr.tree hv).debug N N' reads, (hr.tree hv).typ]
  · exact .ok trivial

theorem pairs {vars vars' : List Var} (hv : List.Forall₂ (Var.Linked L) vars vars') {values values' : List NodeId}
    (he : List.Forall₂ L.node values values') :
    Agree L (fun _ _ => True) (StmtBody.checkPairs r (vars.zip values))
      (StmtBody.checkPairs r' (vars'.zip values')) := by
  induction hv generalizing values values' with
  | nil => exact .ok trivial
  | cons head _ ih =>
    cases he with
    | nil => exact .ok trivial
    | cons first rest =>
      simp only [List.zip_cons_cons, StmtBody.checkPairs, head.typ, hr.typ first]
      split
      · refine .error fun N N' reads => ?_
        unfold Fault.message
        dsimp only
        rw [head.debug reads, (hr.tree first).debug N N' reads, (hr.tree first).typ,
          head.typ]
      · exact ih rest

theorem assign {vars vars' : List Var} (hv : List.Forall₂ (Var.Linked L) vars vars') {values values' : List NodeId}
    (he : List.Forall₂ L.node values values') :
    Agree L (fun _ _ => True) (StmtBody.checkAssign r vars values) (StmtBody.checkAssign r' vars' values') := by
  have empty : vars'.isEmpty = vars.isEmpty := by cases hv <;> rfl
  unfold StmtBody.checkAssign
  rw [empty, ← hv.length_eq, ← he.length_eq]
  split
  · exact .error fun _ _ _ => rfl
  split
  · exact .error fun _ _ _ => rfl
  · exact hr.pairs hv he

theorem call {c c' : Callee} {args args' : List NodeId} (hc : c.Linked L c') (ha : List.Forall₂ L.node args args') :
    Agree L (fun _ _ => True) (StmtBody.checkCall r c args) (StmtBody.checkCall r' c' args') := by
  unfold StmtBody.checkCall
  rw [hr.accepts hc ha]
  split
  · exact .ok trivial
  · exact .error (Callee.message_alike hc (hr.trees ha))

theorem check {s s' : StmtBody NodeId} (h : s.Linked L L.node s') :
    Agree L (fun _ _ => True) (s.check r) (s'.check r') := by
  cases h with
  | store ha ho hv => exact hr.store ha ho hv
  | varAssign hv he => exact hr.assign hv he
  | assume hp => exact hr.predicate .assumption hp
  | assert hp => exact hr.predicate .assertion hp
  | call hc ha => exact hr.call hc ha
  | callMemberOf hf => exact hr.indirect hf
  | eval | goto | ret | waitGroupEvent => exact .ok trivial

theorem asCall {s s' : Stmt NodeId} (h : s.Linked L L.node s') :
    Agree L (CallStmt.Linked L L.node) (s.asCall r) (s'.asCall r') := by
  have refused : (Fault.indirectMember (s.map r.tree)).Alike L (.indirectMember (s'.map r'.tree)) := by
    intro N N' reads
    have shown := (h.map (S := Tree.Alike L) (le_refl L) fun _ _ hn => hr.tree hn).map (f := Tree.debug N)
      (g := Tree.debug N') (S := fun a b => b = a) (le_refl L) fun _ _ ht => ht.debug N N' reads
    have kind : (s'.map r'.tree).kind = (s.map r.tree).kind :=
      (h.map (S := Tree.Alike L) (le_refl L) fun _ _ hn => hr.tree hn).kind
    unfold Fault.message
    dsimp only
    rw [shown.debug reads, kind]
  obtain ⟨id, body, parent, locs⟩ := s
  obtain ⟨id', body', parent', locs'⟩ := s'
  have linked : body.Linked L L.node body' := h.body
  cases linked with
  | call hc ha => exact .ok ⟨h.id, hc, ha, h.parent, h.locs⟩
  | _ => exact .error refused

end Reader.Linked

theorem Stmt.Linked.place {s s' : Stmt NodeId} (h : s.Linked L L.node s') (b : BlockId) :
    Agree L (Stmt.Linked L L.node) (s.place b) (s'.place b) := by
  unfold Stmt.place
  rw [h.parent, h.kind]
  split
  · exact .ok ⟨h.id, h.body, rfl, h.locs⟩
  · exact .error fun _ _ _ => rfl

theorem wordOfInt_alike {n : Int} {f : Fault} (h : wordOfInt n = .error f) : f.Alike L f := by
  unfold wordOfInt at h
  split at h
  · cases h
    exact fun _ _ _ => rfl
  split at h <;> cases h
  exact fun _ _ _ => rfl

/-! ## Functions and modules -/

section

variable {f f' : Function} {m m' : Module} {N N' : Names}

theorem getElem?_linked {R : α → β → Prop} {l : List α} {l' : List β} (h : List.Forall₂ R l l') (i : Nat) :
    Option.Rel R l[i]? l'[i]? := by
  induction h generalizing i with
  | nil => exact .none
  | cons head _ ih =>
    cases i with
    | zero => exact .some head
    | succ i => exact ih i

theorem isEmpty_linked {R : α → β → Prop} {l : List α} {l' : List β} (h : List.Forall₂ R l l') :
    l'.isEmpty = l.isEmpty := by cases h <;> rfl

theorem Function.Linked.checkOpen (h : f.Linked L f') (role : VarRole) :
    Agree L (fun _ _ => True) (f.checkOpen role) (f'.checkOpen role) := by
  unfold Function.checkOpen
  have callee := h.callee
  generalize f.callee = c at callee
  generalize f'.callee = c' at callee
  cases role with
  | localVar => exact .ok trivial
  | parameter | returnValue =>
    cases callee with
    | none => exact .ok trivial
    | some _ =>
      refine .error fun N N' reads => ?_
      unfold Fault.message
      dsimp only
      rw [reads _ _ h.name]

theorem Function.Linked.block (h : f.Linked L f') (i : Nat) : Agree L (Block.Linked L) (f.block i) (f'.block i) := by
  unfold Function.block
  have here := getElem?_linked h.blocks i
  rw [← h.blocks.length_eq]
  generalize f.blocks[i]? = b at here
  generalize f'.blocks[i]? = b' at here
  cases here with
  | some hb => exact .ok hb
  | none => exact .error fun _ _ _ => rfl

theorem Function.Linked.strayTarget? (h : f.Linked L f') :
    Option.Rel (fun p p' => p.1.Linked L p'.1 ∧ p'.2 = p.2) f.strayTarget? f'.strayTarget? := by
  unfold Function.strayTarget?
  rw [← h.blocks.length_eq]
  generalize f.blocks.length = n
  have linked := h.blocks
  generalize f.blocks = blocks at linked
  generalize f'.blocks = blocks' at linked
  induction linked with
  | nil => exact .none
  | cons head _ ih =>
    rw [List.findSome?_cons, List.findSome?_cons, head.successors]
    generalize List.find? (fun t : BlockId => decide (n ≤ t.index)) _ = stray
    cases stray with
    | none => exact ih
    | some t => exact .some ⟨head, rfl⟩

/-- The position of a name does not depend on the numbers. -/
theorem lookup_linked {R : α → β → Prop} [BEq α] [LawfulBEq α] [BEq β] [LawfulBEq β]
    {l : List (α × Nat)} {l' : List (β × Nat)} (h : List.Forall₂ (fun p p' => R p.1 p'.1 ∧ p'.2 = p.2) l l') {y : α}
    {y' : β} (unique : ∀ z z', R z z' → (y' = z' ↔ y = z)) : l'.lookup y' = l.lookup y := by
  induction h with
  | nil => rfl
  | @cons p p' _ _ head _ ih =>
    have same : (y' == p'.1) = (y == p.1) := beq_eq_beq.2 (unique _ _ head.1)
    rw [List.lookup_cons, List.lookup_cons, same, ih, head.2]

/-- **A module accepts a linked function, or refuses it in the same words.** -/
theorem Module.Linked.accept (hm : m.Linked L m') (faithful : L.Faithful) (hf : f.Linked L f') :
    Agree L (Module.Linked L) (m.accept f) (m'.accept f') := by
  have lookup : m'.index.lookup f'.name = m.index.lookup f.name :=
    lookup_linked hm.index fun z z' hz => faithful.sym hf.name hz
  unfold Module.accept
  have stray := hf.strayTarget?
  generalize f.strayTarget? = t at stray
  generalize f'.strayTarget? = t' at stray
  cases stray with
  | some hb =>
    obtain ⟨hb, ht⟩ := hb
    refine .error fun N N' reads => ?_
    unfold Fault.message
    dsimp only
    rw [reads _ _ hf.name, reads _ _ hb.name, ht]
  | none =>
    simp only [lookup]
    split
    · refine .error fun N N' reads => ?_
      unfold Fault.message
      dsimp only
      rw [reads _ _ hm.name, reads _ _ hf.name]
    · have functions := List.rel_append hm.functions (.cons hf .nil)
      have last : L.sym (f.name, m.functions.length).1 (f'.name, m'.functions.length).1 ∧
          m'.functions.length = m.functions.length := ⟨hf.name, hm.functions.length_eq.symm⟩
      have index := List.rel_append hm.index (.cons last .nil)
      exact .ok ⟨hm.name, hm.model, hm.arrays, functions, index, hm.axioms⟩

theorem Function.Linked.hasAttribute (h : f.Linked L f') (reads : L.Reads N N') (text : String) :
    f'.hasAttribute N' text = f.hasAttribute N text := by
  have linked := h.attributes
  unfold Function.hasAttribute
  generalize f.attributes = attributes at linked
  generalize f'.attributes = attributes' at linked
  induction linked with
  | nil => rfl
  | cons head _ ih => rw [List.any_cons, List.any_cons, reads _ _ head, ih]

end

theorem SourceLoc.linked_biUnique (faithful : L.Faithful) : Relator.BiUnique (SourceLoc.Linked L) := by
  constructor
  · rintro ⟨f, p, l, c⟩ ⟨f', p', l', c'⟩ k hl hm
    have file : f = f' := (faithful.sym hl.file hm.file).1 rfl
    have path : p = p' := (faithful.sym hl.path hm.path).1 rfl
    have line : l = l' := hl.line.symm.trans hm.line
    have column : c = c' := hl.column.symm.trans hm.column
    rw [file, path, line, column]
  · rintro k ⟨f, p, l, c⟩ ⟨f', p', l', c'⟩ hl hm
    have file : f = f' := (faithful.sym hl.file hm.file).2 rfl
    have path : p = p' := (faithful.sym hl.path hm.path).2 rfl
    have line : l = l' := hl.line.trans hm.line.symm
    have column : c = c' := hl.column.trans hm.column.symm
    rw [file, path, line, column]

theorem Locs.list_eq_linked (faithful : L.Faithful) {a a' b b' : Locs} (ha : a.Linked L a') (hb : b.Linked L b') :
    a'.list = b'.list ↔ a.list = b.list :=
  (Relator.rel_eq (SourceLoc.linked_biUnique faithful).forall₂ ha.list hb.list).symm

/-- Linked numbers are as many different ones. -/
theorem countDistinct_linked (faithful : L.Faithful) : ∀ {l l' : List Nat}, List.Forall₂ L.num l l' →
    Build.countDistinct l' = Build.countDistinct l
  | [], _, .nil => rfl
  | i :: l, i' :: l', .cons head rest => by
    have others : List.Forall₂ L.num (l.filter fun j => !j == i) (l'.filter fun j => !j == i') := by
      refine List.rel_filter (fun j j' hj => ?_) rest
      simpa using not_congr (faithful.num hj head).symm
    rw [Build.countDistinct, Build.countDistinct, List.eraseDups_cons, List.eraseDups_cons]
    exact congrArg (· + 1) (countDistinct_linked faithful others)
termination_by l => l.length
decreasing_by exact Nat.lt_succ_of_le (List.length_filter_le _ _)

end KernelIR
