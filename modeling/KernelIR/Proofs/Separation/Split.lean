import Mathlib.Data.List.Sort
import KernelIR.Proofs.Separation.Agree
import KernelIR.Proofs.Move
import KernelIR.Proofs.Names
/-!
# Split — a workspace that two producers share

Two producers fill one workspace, each with slots of its own.  The workspace is split (`Split`) when each slot holds
what it holds in a workspace that its producer has alone, up to a link, and the cells of the store are the cells of the
two in some order (`CellsSplit`).  The two links name disjoint numbers and nodes, so nothing that one producer has is
anything that the other has; symbols may be shared, as their texts are.

What one producer does keeps the split, and leaves the part of the other as it is.
-/
namespace KernelIR

variable {L L' R : Link} {a a' b w w' : Workspace}

/-! ## The three sets of numbers -/

/-- The link is about the numbers given out in the two workspaces; equal numbers have equal partners. -/
structure Link.Fits (L : Link) (a w : Workspace) : Prop where
  sym : ∀ {y y'}, L.sym y y' → ∃ s, a.names.texts[y.index]? = some s ∧ w.names.texts[y'.index]? = some s
  num : ∀ {i i'}, L.num i i' → i < a.supply ∧ i' < w.supply
  node : ∀ {n n'}, L.node n n' → n.index < a.store.next ∧ n'.index < w.store.next
  numUnique : ∀ {i i' j j'}, L.num i i' → L.num j j' → (i' = j' ↔ i = j)
  nodeUnique : ∀ {n n' m m'}, L.node n n' → L.node m m' → (n' = m' ↔ n = m)

/-- No number and no node has a partner on both sides. -/
structure Link.Apart (L R : Link) : Prop where
  num : ∀ {i j k}, L.num i k → ¬ R.num j k
  node : ∀ {n m k}, L.node n k → ¬ R.node m k

/-- Names, numbers and nodes were added. -/
structure Workspace.Later (a a' : Workspace) : Prop where
  names : a.names.texts <+: a'.names.texts
  supply : a.supply ≤ a'.supply
  next : a.store.next ≤ a'.store.next

/-- All but the slots is the same. -/
structure Workspace.SameRest (a a' : Workspace) : Prop where
  names : a'.names = a.names
  supply : a'.supply = a.supply
  store : a'.store = a.store
  poisoned : a'.poisoned = a.poisoned

theorem Workspace.sameRest_take (a : Workspace) (kind : OwnedKind) (x : String) : a.SameRest (a.take kind x) := by
  cases kind <;> exact ⟨rfl, rfl, rfl, rfl⟩

theorem Workspace.sameRest_put (a : Workspace) (x : String) (o : Owned) : a.SameRest (a.put x o) := by
  cases o <;> exact ⟨rfl, rfl, rfl, rfl⟩

theorem Workspace.SameRest.later (h : a.SameRest a') : a.Later a' :=
  ⟨h.names ▸ List.prefix_rfl, h.supply.ge, h.store ▸ Nat.le_refl _⟩

namespace Link

theorem Apart.symm (h : L.Apart R) : R.Apart L := ⟨fun hi hj => h.num hj hi, fun hn hm => h.node hm hn⟩

/-- Nothing stands for anything. -/
def nothing : Link := ⟨fun _ _ => False, fun _ _ => False, fun _ _ => False⟩

def addSym (L : Link) (y y' : Symbol) : Link := { L with sym := fun z z' => L.sym z z' ∨ z = y ∧ z' = y' }

def addNum (L : Link) (i i' : Nat) : Link := { L with num := fun j j' => L.num j j' ∨ j = i ∧ j' = i' }

def addNode (L : Link) (n n' : NodeId) : Link := { L with node := fun m m' => L.node m m' ∨ m = n ∧ m' = n' }

theorem le_addSym (L : Link) (y y' : Symbol) : L ≤ L.addSym y y' := ⟨.inl, id, id⟩

theorem le_addNum (L : Link) (i i' : Nat) : L ≤ L.addNum i i' := ⟨id, .inl, id⟩

theorem le_addNode (L : Link) (n n' : NodeId) : L ≤ L.addNode n n' := ⟨id, id, .inl⟩

end Link

theorem exists_of_forall₂ {α β : Type} {Q : α → β → Prop} {l : List α} {l' : List β} (h : List.Forall₂ Q l l') {b : β}
    (hb : b ∈ l') : ∃ a ∈ l, Q a b := by
  induction h with
  | nil => cases hb
  | cons head _ ih =>
    rcases List.mem_cons.1 hb with rfl | hb
    · exact ⟨_, List.mem_cons_self .., head⟩
    · obtain ⟨a, ha, hq⟩ := ih hb
      exact ⟨a, List.mem_cons_of_mem _ ha, hq⟩

namespace Link.Fits

theorem reads (h : L.Fits a w) : L.Reads a.names w.names := fun y y' hy => by
  obtain ⟨s, hs, hs'⟩ := h.sym hy
  rw [Names.text_eq hs, Names.text_eq hs']

theorem faithful (h : L.Fits a w) : L.Faithful where
  sym {y y' z z'} hy hz := by
    obtain ⟨s, hs, hs'⟩ := h.sym hy
    obtain ⟨t, ht, ht'⟩ := h.sym hz
    rw [Names.symbol_eq_iff hs' ht', Names.symbol_eq_iff hs ht]
  num := h.numUnique
  node := h.nodeUnique

theorem later (h : L.Fits a w) (ha : a.Later a') (hw : w.Later w') : L.Fits a' w' where
  sym hy := by
    obtain ⟨s, hs, hs'⟩ := h.sym hy
    exact ⟨s, getElem?_mono ha.names hs, getElem?_mono hw.names hs'⟩
  num hi := ⟨Nat.lt_of_lt_of_le (h.num hi).1 ha.supply, Nat.lt_of_lt_of_le (h.num hi).2 hw.supply⟩
  node hn := ⟨Nat.lt_of_lt_of_le (h.node hn).1 ha.next, Nat.lt_of_lt_of_le (h.node hn).2 hw.next⟩
  numUnique := h.numUnique
  nodeUnique := h.nodeUnique

/-- A module finds the function of a name at the same position, whoever has interned the name. -/
theorem positionOf? (h : L.Fits a w) {m m' : Module} (hm : m.Linked L m') (text : String) :
    m'.positionOf? w.names text = m.positionOf? a.names text := by
  have linked := hm.index
  unfold Module.positionOf?
  generalize m.index = index at linked
  generalize m'.index = index' at linked
  have search : ∀ (N : Names) (p : Symbol × Nat) (l : List (Symbol × Nat)),
      (N.lookup? text >>= fun y => (p :: l).lookup y) =
        if N.lookup? text = some p.1 then some p.2 else N.lookup? text >>= fun y => l.lookup y := by
    intro N p l
    cases N.lookup? text with
    | none => rfl
    | some y =>
      change (p :: l).lookup y = _
      rw [List.lookup_cons]
      by_cases hy : y = p.1
      · rw [if_pos (congrArg some hy), hy, beq_self_eq_true]
      · rw [if_neg (mt Option.some.inj hy), beq_eq_false_iff_ne.2 hy]
        rfl
  induction linked with
  | nil => cases w.names.lookup? text <;> cases a.names.lookup? text <;> rfl
  | @cons p p' _ _ head _ ih =>
    obtain ⟨s, hs, hs'⟩ := h.sym head.1
    have same : w.names.lookup? text = some p'.1 ↔ a.names.lookup? text = some p.1 :=
      (Names.lookup?_eq_some_iff hs' text).trans (Names.lookup?_eq_some_iff hs text).symm
    rw [search, search, head.2, ih]
    simp only [same]

end Link.Fits

/-! ## The cells -/

/-- The cells of two stores, in some order, up to the links. -/
inductive CellsSplit (L R : Link) : List Cell → List Cell → List Cell → Prop
  | nil : CellsSplit L R [] [] []
  | left {c c' : Cell} {as bs cs : List Cell} (h : c.Linked L c') (rest : CellsSplit L R as bs cs) :
    CellsSplit L R (c :: as) bs (c' :: cs)
  | right {c c' : Cell} {as bs cs : List Cell} (h : c.Linked R c') (rest : CellsSplit L R as bs cs) :
    CellsSplit L R as (c :: bs) (c' :: cs)

section Counts

variable {ns ns' : List NodeId} {n n' : NodeId}

theorem count_linked (faithful : L.Faithful) (h : List.Forall₂ L.node ns ns') (hn : L.node n n') :
    ns'.count n' = ns.count n := by
  induction h with
  | nil => rfl
  | @cons m m' _ _ head _ ih =>
    have same : (m' == n') = (m == n) := beq_eq_beq.2 (faithful.node head hn)
    rw [List.count_cons, List.count_cons, ih, same]

theorem count_apart (apart : L.Apart R) (h : List.Forall₂ L.node ns ns') (hn : R.node n n') : ns'.count n' = 0 := by
  refine List.count_eq_zero.2 fun hm => ?_
  obtain ⟨m, -, hm⟩ := exists_of_forall₂ h hm
  exact apart.node hm hn

end Counts

namespace CellsSplit

variable {as bs cs : List Cell}

theorem imp (h : CellsSplit L R as bs cs) (le : L ≤ L') : CellsSplit L' R as bs cs := by
  induction h with
  | nil => exact .nil
  | left h _ ih => exact .left (h.imp le) ih
  | right h _ ih => exact .right h ih

theorem symm (h : CellsSplit L R as bs cs) : CellsSplit R L bs as cs := by
  induction h with
  | nil => exact .nil
  | left h _ ih => exact .right h ih
  | right h _ ih => exact .left h ih

/-- One change of the left cells and of all cells, which is none for those of the right. -/
theorem map {f f' : Cell → Cell} (h : CellsSplit L R as bs cs)
    (hl : ∀ c c' : Cell, c.Linked L c' → (f c).Linked L (f' c'))
    (hr : ∀ c c' : Cell, c.Linked R c' → c.Linked R (f' c')) : CellsSplit L R (as.map f) bs (cs.map f') := by
  induction h with
  | nil => exact .nil
  | left h _ ih => exact .left (hl _ _ h) ih
  | right h _ ih => exact .right (hr _ _ h) ih

theorem find? (h : CellsSplit L R as bs cs) (faithful : L.Faithful) (apart : L.Apart R) {n n' : NodeId}
    (hn : L.node n n') :
    Option.Rel (Cell.Linked L) (as.find? fun c => c.id == n) (cs.find? fun c => c.id == n') := by
  induction h with
  | nil => exact .none
  | @left c c' _ _ _ head _ ih =>
    have same : (c'.id == n') = (c.id == n) := beq_eq_beq.2 (faithful.node head.id hn)
    rw [List.find?_cons, List.find?_cons, same]
    split
    · exact .some head
    · exact ih
  | @right c c' _ _ _ head _ ih =>
    have other : (c'.id == n') = false := beq_eq_false_iff_ne.2 fun he => apart.node hn (he ▸ head.id)
    rw [List.find?_cons, other]
    exact ih

theorem tree (h : CellsSplit L R as bs cs) (faithful : L.Faithful) (apart : L.Apart R) {n n' : NodeId}
    (hn : L.node n n') : (Store.treeIn as n).Alike L (Store.treeIn cs n') := by
  induction h generalizing n n' with
  | nil => exact Shape.Linked.alike (.boolConst false) .bool
  | @left c c' _ _ _ head _ ih =>
    have same : c'.id = n' ↔ c.id = n := faithful.node head.id hn
    rw [Store.treeIn, Store.treeIn]
    by_cases he : c.id = n
    · rw [if_pos he, if_pos (same.2 he), head.typ]
      exact Shape.Linked.alike (head.shape.map (le_refl L) fun _ _ hm => ih hm) c.typ
    · rw [if_neg he, if_neg (mt same.1 he)]
      exact ih hn
  | @right c c' _ _ _ head _ ih =>
    have other : c'.id ≠ n' := fun he => apart.node hn (he ▸ head.id)
    rw [Store.treeIn, if_neg other]
    exact ih hn

/-- **A sweep removes the cells of each side that nothing holds.**  The holders that the right side loses here are none,
and a cell of the right side has a holder. -/
theorem sweep (h : CellsSplit L R as bs cs) (faithful : L.Faithful) (apart : L.Apart R) (held : ∀ c ∈ bs, 0 < c.holders)
    {freed freed' : List NodeId} (hf : List.Forall₂ L.node freed freed') :
    CellsSplit L R (Store.sweepCells freed as) bs (Store.sweepCells freed' cs) := by
  induction h generalizing freed freed' with
  | nil => exact .nil
  | @left c c' _ _ _ head _ ih =>
    rw [Store.sweepCells, Store.sweepCells]
    simp only [head.holders, count_linked faithful hf head.id]
    split
    · exact ih held (List.rel_append head.shape.operands hf)
    · exact .left ⟨head.id, head.shape, head.typ, rfl, head.evals, head.prevented⟩ (ih held hf)
  | @right c c' _ _ _ head _ ih =>
    -- what was freed so far belongs to the left, so this cell keeps all its holders, and it has one
    obtain ⟨first, held⟩ := List.forall_mem_cons.1 held
    have here : c'.holders - freed'.count c'.id = c.holders := by
      rw [count_apart apart hf head.id, head.holders, Nat.sub_zero]
    rw [Store.sweepCells]
    simp only [here]
    rw [if_neg (Nat.pos_iff_ne_zero.1 first)]
    exact .right ⟨head.id, head.shape, head.typ, rfl, head.evals, head.prevented⟩ (ih held hf)

end CellsSplit

/-! ## The slots -/

/-- **A table that two producers share**: the slots of the first are `mine`, and all others are the second's. -/
structure TableSplit {α : Type} (mine : String → Prop) (Q S : α → α → Prop) (a b t : Table α) : Prop where
  left : ∀ x, mine x → Option.Rel Q (a.get? x) (t.get? x)
  right : ∀ x, ¬ mine x → Option.Rel S (b.get? x) (t.get? x)
  leftOnly : ∀ x, ¬ mine x → a.get? x = none
  rightOnly : ∀ x, mine x → b.get? x = none

namespace TableSplit

variable {α : Type} {mine : String → Prop} {Q Q' S : α → α → Prop} {ta tb t : Table α}

theorem empty : TableSplit mine Q S Table.empty Table.empty Table.empty :=
  ⟨fun _ _ => .none, fun _ _ => .none, fun _ _ => rfl, fun _ _ => rfl⟩

theorem imp (h : TableSplit mine Q S ta tb t) (hq : ∀ o o', Q o o' → Q' o o') : TableSplit mine Q' S ta tb t :=
  ⟨fun x hx => optionRel_imp hq (h.left x hx), h.right, h.leftOnly, h.rightOnly⟩

theorem symm (h : TableSplit mine Q S ta tb t) : TableSplit (fun x => ¬ mine x) S Q tb ta t :=
  ⟨h.right, fun x hx => h.left x (not_not.1 hx), fun x hx => h.rightOnly x (not_not.1 hx), h.leftOnly⟩

theorem put (h : TableSplit mine Q S ta tb t) {x : String} (hx : mine x) {o o' : α} (ho : Q o o') :
    TableSplit mine Q S (ta.put x o) tb (t.put x o') where
  left y hy := by
    rw [Table.get?_put_eq, Table.get?_put_eq]
    split
    · exact .some ho
    · exact h.left y hy
  right y hy := by
    have other : y ≠ x := fun he => hy (he ▸ hx)
    rw [Table.get?_put_of_ne other]
    exact h.right y hy
  leftOnly y hy := by
    have other : y ≠ x := fun he => hy (he ▸ hx)
    rw [Table.get?_put_of_ne other]
    exact h.leftOnly y hy
  rightOnly := h.rightOnly

theorem erase (h : TableSplit mine Q S ta tb t) {x : String} (hx : mine x) :
    TableSplit mine Q S (ta.erase x) tb (t.erase x) where
  left y hy := by
    rw [Table.get?_erase_eq, Table.get?_erase_eq]
    split
    · exact .none
    · exact h.left y hy
  right y hy := by
    have other : y ≠ x := fun he => hy (he ▸ hx)
    rw [Table.get?_erase_of_ne other]
    exact h.right y hy
  leftOnly y hy := by
    have other : y ≠ x := fun he => hy (he ▸ hx)
    rw [Table.get?_erase_of_ne other]
    exact h.leftOnly y hy
  rightOnly := h.rightOnly

/-- A search that finds nothing of the right side lists the slots that it lists on the left. -/
theorem namesWhere (h : TableSplit mine Q S ta tb t) {p p' : α → Bool} (hq : ∀ o o', Q o o' → p' o' = p o)
    (hs : ∀ o o', S o o' → p' o' = false) : t.namesWhere p' = ta.namesWhere p := by
  refine List.Pairwise.eq_of_mem_iff (t.ascending_namesWhere p') (ta.ascending_namesWhere p) fun x => ?_
  rw [Table.mem_namesWhere, Table.mem_namesWhere]
  by_cases hx : mine x
  · have here := h.left x hx
    generalize ta.get? x = o at here
    generalize t.get? x = o' at here
    cases here with
    | none => simp
    | some ho => simp [hq _ _ ho]
  · have here := h.right x hx
    rw [h.leftOnly x hx]
    generalize tb.get? x = o at here
    generalize t.get? x = o' at here
    cases here with
    | none => simp
    | some ho => simp [hs _ _ ho]

end TableSplit

/-- The slot that the block is kept in. -/
def BlockSite.slot : BlockSite → SlotKind × String
  | .loose x => (.block, x)
  | .inFunction x _ => (.function, x)

/-- The slot that the function is kept in. -/
def FunctionSite.slot : FunctionSite → SlotKind × String
  | .loose x => (.function, x)
  | .inModule x _ => (.module, x)

structure TablesSplit (mine : SlotKind → String → Prop) (L R : Link) (a b w : Workspace) : Prop where
  exprs : TableSplit (mine .expr) L.node R.node a.exprs b.exprs w.exprs
  vars : TableSplit (mine .var) (Var.Linked L) (Var.Linked R) a.vars b.vars w.vars
  arrays : TableSplit (mine .array) (GlobalArray.Linked L) (GlobalArray.Linked R) a.arrays b.arrays w.arrays
  callees : TableSplit (mine .callee) (Callee.Linked L) (Callee.Linked R) a.callees b.callees w.callees
  locs : TableSplit (mine .locs) (Locs.Linked L) (Locs.Linked R) a.locs b.locs w.locs
  stmts : TableSplit (mine .stmt) (Stmt.Linked L L.node) (Stmt.Linked R R.node) a.stmts b.stmts w.stmts
  blocks : TableSplit (mine .block) (Block.Linked L) (Block.Linked R) a.blocks b.blocks w.blocks
  functions : TableSplit (mine .function) (Function.Linked L) (Function.Linked R) a.functions b.functions w.functions
  modules : TableSplit (mine .module) (Module.Linked L) (Module.Linked R) a.modules b.modules w.modules

/-- **The workspace `w` is split** between one producer, who alone would have `a`, and another, who would have `b`. -/
structure Split (mine : SlotKind → String → Prop) (L R : Link) (a b w : Workspace) : Prop where
  fits : L.Fits a w
  fitsRight : R.Fits b w
  apart : L.Apart R
  cells : CellsSplit L R a.store.cells b.store.cells w.store.cells
  tables : TablesSplit mine L R a b w
  /-- The table of names is one for both. -/
  poisoned : a.poisoned = w.poisoned
  poisonedRight : b.poisoned = w.poisoned

variable {mine : SlotKind → String → Prop}

theorem TablesSplit.imp (h : TablesSplit mine L R a b w) (le : L ≤ L') : TablesSplit mine L' R a b w where
  exprs := h.exprs.imp fun _ _ => Link.le_node le
  vars := h.vars.imp fun _ _ hx => hx.imp le
  arrays := h.arrays.imp fun _ _ hx => hx.imp le
  callees := h.callees.imp fun _ _ hx => hx.imp le
  locs := h.locs.imp fun _ _ hx => hx.imp le
  stmts := h.stmts.imp fun _ _ hx => hx.imp le
  blocks := h.blocks.imp fun _ _ hx => hx.imp le
  functions := h.functions.imp fun _ _ hx => hx.imp le
  modules := h.modules.imp fun _ _ hx => hx.imp le

theorem TablesSplit.symm (h : TablesSplit mine L R a b w) : TablesSplit (fun kind x => ¬ mine kind x) R L b a w :=
  ⟨h.exprs.symm, h.vars.symm, h.arrays.symm, h.callees.symm, h.locs.symm, h.stmts.symm, h.blocks.symm,
    h.functions.symm, h.modules.symm⟩

theorem TablesSplit.sameSlots (h : TablesSplit mine L R a b w) (ha : a.SameSlots a') (hw : w.SameSlots w') :
    TablesSplit mine L R a' b w' := by
  rw [ha, hw]
  exact ⟨h.exprs, h.vars, h.arrays, h.callees, h.locs, h.stmts, h.blocks, h.functions, h.modules⟩

namespace Split

/-- Two producers who have nothing yet, whatever names there are. -/
theorem empty (mine : SlotKind → String → Prop) (names : Names) :
    Split mine .nothing .nothing .empty .empty { Workspace.empty with names := names } where
  fits := ⟨nofun, nofun, nofun, nofun, nofun⟩
  fitsRight := ⟨nofun, nofun, nofun, nofun, nofun⟩
  apart := ⟨nofun, nofun⟩
  cells := .nil
  tables := ⟨.empty, .empty, .empty, .empty, .empty, .empty, .empty, .empty, .empty⟩
  poisoned := rfl
  poisonedRight := rfl

theorem symm (h : Split mine L R a b w) : Split (fun kind x => ¬ mine kind x) R L b a w :=
  ⟨h.fitsRight, h.fits, h.apart.symm, h.cells.symm, h.tables.symm, h.poisonedRight, h.poisoned⟩

section

variable (h : Split mine L R a b w)
include h

theorem faithful : L.Faithful := h.fits.faithful

theorem cell {n n' : NodeId} (hn : L.node n n') : (a.store.cell n).Linked L (w.store.cell n') := by
  have found := h.cells.find? h.faithful h.apart hn
  unfold Store.cell Store.find?
  generalize List.find? _ a.store.cells = c at found
  generalize List.find? _ w.store.cells = c' at found
  cases found with
  | some hc => exact hc
  | none => exact ⟨hn, .boolConst false, rfl, rfl, rfl, rfl⟩

theorem tree {n n' : NodeId} (hn : L.node n n') : (a.store.tree n).Alike L (w.store.tree n') :=
  h.cells.tree h.faithful h.apart hn

theorem reader : Reader.Linked L a.store.reader w.store.reader :=
  ⟨fun hn => (h.cell hn).shape, fun hn => (h.cell hn).typ, fun hn => h.tree hn⟩

/-- **The first producer sees what it would see alone.** -/
theorem sees : a.Sees L w where
  reads := h.fits.reads
  cell := h.cell
  tree := h.tree
  exprs hn := h.tables.exprs.namesWhere (fun _ _ hm => beq_eq_beq.2 (h.faithful.node hm hn))
    fun _ _ hm => beq_eq_false_iff_ne.2 fun he => h.apart.node hn (he ▸ hm)
  vars hi := h.tables.vars.namesWhere (fun _ _ hv => beq_eq_beq.2 (h.faithful.num hv.id hi))
    fun _ _ hv => beq_eq_false_iff_ne.2 fun he => h.apart.num hi (he ▸ hv.id)
  arrays hi := h.tables.arrays.namesWhere (fun _ _ ha => beq_eq_beq.2 (h.faithful.num ha.id hi))
    fun _ _ ha => beq_eq_false_iff_ne.2 fun he => h.apart.num hi (he ▸ ha.id)
  callees hi := h.tables.callees.namesWhere (fun _ _ hc => beq_eq_beq.2 (h.faithful.num hc.id hi))
    fun _ _ hc => beq_eq_false_iff_ne.2 fun he => h.apart.num hi (he ▸ hc.id)
  locs hi := h.tables.locs.namesWhere (fun _ _ hl => beq_eq_beq.2 (h.faithful.num hl.id hi))
    fun _ _ hl => beq_eq_false_iff_ne.2 fun he => h.apart.num hi (he ▸ hl.id)

/-! ## What the first producer does -/

theorem intern (s : String) :
    Split mine (L.addSym (a.names.intern s).1 (w.names.intern s).1) R { a with names := (a.names.intern s).2 } b
      { w with names := (w.names.intern s).2 } where
  fits := by
    have later : L.Fits { a with names := (a.names.intern s).2 } { w with names := (w.names.intern s).2 } :=
      h.fits.later ⟨a.names.prefix_intern s, Nat.le_refl _, Nat.le_refl _⟩
        ⟨w.names.prefix_intern s, Nat.le_refl _, Nat.le_refl _⟩
    refine ⟨?_, later.num, later.node, later.numUnique, later.nodeUnique⟩
    rintro y y' (hy | ⟨rfl, rfl⟩)
    · exact later.sym hy
    · exact ⟨s, a.names.texts_intern_get s, w.names.texts_intern_get s⟩
  fitsRight := h.fitsRight.later ⟨List.prefix_rfl, Nat.le_refl _, Nat.le_refl _⟩
    ⟨w.names.prefix_intern s, Nat.le_refl _, Nat.le_refl _⟩
  apart := ⟨h.apart.num, h.apart.node⟩
  cells := h.cells.imp (L.le_addSym _ _)
  tables := (h.tables.imp (L.le_addSym _ _)).sameSlots rfl rfl
  poisoned := h.poisoned
  poisonedRight := h.poisonedRight

theorem freshId :
    Split mine (L.addNum a.supply w.supply) R { a with supply := a.supply + 1 } b
      { w with supply := w.supply + 1 } where
  fits := by
    have later : L.Fits { a with supply := a.supply + 1 } { w with supply := w.supply + 1 } := h.fits.later
      ⟨List.prefix_rfl, Nat.le_succ _, Nat.le_refl _⟩ ⟨List.prefix_rfl, Nat.le_succ _, Nat.le_refl _⟩
    refine ⟨later.sym, ?_, later.node, ?_, later.nodeUnique⟩
    · rintro i i' (hi | ⟨rfl, rfl⟩)
      · exact later.num hi
      · exact ⟨Nat.lt_succ_self _, Nat.lt_succ_self _⟩
    -- the number is new on both sides, so it equals no old one on either
    · rintro i i' j j' (hi | ⟨rfl, rfl⟩) (hj | ⟨rfl, rfl⟩)
      · exact h.fits.numUnique hi hj
      · exact iff_of_false (Nat.ne_of_lt (h.fits.num hi).2) (Nat.ne_of_lt (h.fits.num hi).1)
      · exact iff_of_false (Nat.ne_of_gt (h.fits.num hj).2) (Nat.ne_of_gt (h.fits.num hj).1)
      · exact iff_of_true rfl rfl
  fitsRight := h.fitsRight.later ⟨List.prefix_rfl, Nat.le_refl _, Nat.le_refl _⟩
    ⟨List.prefix_rfl, Nat.le_succ _, Nat.le_refl _⟩
  apart := by
    refine ⟨?_, h.apart.node⟩
    rintro i j k (hi | ⟨rfl, rfl⟩) hj
    · exact h.apart.num hi hj
    · exact Nat.lt_irrefl _ (h.fitsRight.num hj).2
  cells := h.cells.imp (L.le_addNum _ _)
  tables := (h.tables.imp (L.le_addNum _ _)).sameSlots rfl rfl
  poisoned := h.poisoned
  poisonedRight := h.poisonedRight

/-- What changes cells and makes none. -/
theorem mapCells {f f' : Cell → Cell} (hl : ∀ c c' : Cell, c.Linked L c' → (f c).Linked L (f' c'))
    (hr : ∀ c c' : Cell, c.Linked R c' → c.Linked R (f' c')) :
    Split mine L R (a.mapStore (Store.mapCells f)) b (w.mapStore (Store.mapCells f')) where
  fits := ⟨h.fits.sym, h.fits.num, h.fits.node, h.fits.numUnique, h.fits.nodeUnique⟩
  fitsRight := ⟨h.fitsRight.sym, h.fitsRight.num, h.fitsRight.node, h.fitsRight.numUnique, h.fitsRight.nodeUnique⟩
  apart := h.apart
  cells := h.cells.map hl hr
  tables := h.tables.sameSlots (.mapStore _ _) (.mapStore _ _)
  poisoned := h.poisoned
  poisonedRight := h.poisonedRight

theorem retain {ns ns' : List NodeId} (hn : List.Forall₂ L.node ns ns') :
    Split mine L R (a.mapStore (Store.retain ns)) b (w.mapStore (Store.retain ns')) :=
  h.mapCells (fun c c' hc => ⟨hc.id, hc.shape, hc.typ, by simp only [hc.holders, count_linked h.faithful hn hc.id],
    hc.evals, hc.prevented⟩) fun c c' hc =>
      ⟨hc.id, hc.shape, hc.typ, by simp only [hc.holders, count_apart h.apart hn hc.id, Nat.add_zero], hc.evals,
        hc.prevented⟩

theorem acquire {held held' evaluated evaluated' : List NodeId} (hh : List.Forall₂ L.node held held')
    (he : List.Forall₂ L.node evaluated evaluated') :
    Split mine L R (a.acquire held evaluated) b (w.acquire held' evaluated') :=
  (h.retain hh).mapCells (fun c c' hc => ⟨hc.id, hc.shape, hc.typ, hc.holders,
      by simp only [hc.evals, count_linked h.faithful he hc.id], hc.prevented⟩) fun c c' hc =>
        ⟨hc.id, hc.shape, hc.typ, hc.holders, by simp only [hc.evals, count_apart h.apart he hc.id, Nat.add_zero],
          hc.prevented⟩

theorem giveUp {held held' evaluated evaluated' : List NodeId} (hh : List.Forall₂ L.node held held')
    (he : List.Forall₂ L.node evaluated evaluated') :
    Split mine L R (a.giveUp held evaluated) b (w.giveUp held' evaluated') := by
  have unmarked : Split mine L R (a.mapStore (Store.unmark evaluated)) b (w.mapStore (Store.unmark evaluated')) :=
    h.mapCells (fun c c' hc => ⟨hc.id, hc.shape, hc.typ, hc.holders,
      by simp only [hc.evals, count_linked h.faithful he hc.id], hc.prevented⟩) fun c c' hc =>
        ⟨hc.id, hc.shape, hc.typ, hc.holders, by simp only [hc.evals, count_apart h.apart he hc.id, Nat.sub_zero],
          hc.prevented⟩
  exact unmarked.mapCells (fun c c' hc => ⟨hc.id, hc.shape, hc.typ,
      by simp only [hc.holders, count_linked h.faithful hh hc.id], hc.evals, hc.prevented⟩) fun c c' hc =>
        ⟨hc.id, hc.shape, hc.typ, by simp only [hc.holders, count_apart h.apart hh hc.id, Nat.sub_zero], hc.evals,
          hc.prevented⟩

theorem prevent {n n' : NodeId} (hn : L.node n n') :
    Split mine L R (a.mapStore (Store.prevent n)) b (w.mapStore (Store.prevent n')) := by
  refine h.mapCells (fun c c' hc => ⟨hc.id, hc.shape, hc.typ, hc.holders, hc.evals, ?_⟩) fun c c' hc =>
    ⟨hc.id, hc.shape, hc.typ, hc.holders, hc.evals, ?_⟩
  · have same : (c'.id == n') = (c.id == n) := beq_eq_beq.2 (h.faithful.node hc.id hn)
    simp only [hc.prevented, same]
  · have other : (c'.id == n') = false := beq_eq_false_iff_ne.2 fun he => h.apart.node hn (he ▸ hc.id)
    simp only [hc.prevented, other, Bool.or_false]

theorem backs {evaluated evaluated' : List NodeId} (he : List.Forall₂ L.node evaluated evaluated') :
    w.backs evaluated' = a.backs evaluated := by
  have all : ∀ {ns ns' : List NodeId}, List.Forall₂ L.node ns ns' →
      (ns'.all fun n => evaluated'.count n ≤ (w.store.cell n).evals) =
        ns.all fun n => evaluated.count n ≤ (a.store.cell n).evals := by
    intro ns ns' hn
    induction hn with
    | nil => rfl
    | cons head _ ih =>
      rw [List.all_cons, List.all_cons, ih, count_linked h.faithful he head, (h.cell head).evals]
  exact all he

theorem alloc {shape shape' : Shape NodeId} (hs : shape.Linked L L.node shape') (t : Ty) :
    Split mine (L.addNode ⟨a.store.next⟩ ⟨w.store.next⟩) R { a with store := (a.store.alloc shape t).2 } b
      { w with store := (w.store.alloc shape' t).2 } := by
  have le := L.le_addNode ⟨a.store.next⟩ ⟨w.store.next⟩
  have retained := h.retain hs.operands
  have later : L.Fits { a with store := (a.store.alloc shape t).2 } { w with store := (w.store.alloc shape' t).2 } :=
    h.fits.later ⟨List.prefix_rfl, Nat.le_refl _, Nat.le_succ _⟩
      ⟨List.prefix_rfl, Nat.le_refl _, Nat.le_succ _⟩
  refine ⟨⟨later.sym, later.num, ?_, later.numUnique, ?_⟩,
    h.fitsRight.later ⟨List.prefix_rfl, Nat.le_refl _, Nat.le_refl _⟩ ⟨List.prefix_rfl, Nat.le_refl _, Nat.le_succ _⟩,
    ⟨h.apart.num, ?_⟩, .left ⟨.inr ⟨rfl, rfl⟩, hs.imp le, rfl, rfl, rfl, rfl⟩ (retained.cells.imp le),
    (h.tables.imp le).sameSlots rfl rfl, h.poisoned, h.poisonedRight⟩
  · rintro n n' (hn | ⟨rfl, rfl⟩)
    · exact later.node hn
    · exact ⟨Nat.lt_succ_self _, Nat.lt_succ_self _⟩
  · have old : ∀ {n n'}, L.node n n' → n' ≠ ⟨w.store.next⟩ ∧ n ≠ ⟨a.store.next⟩ := fun hn =>
      ⟨fun he => Nat.ne_of_lt (h.fits.node hn).2 (congrArg NodeId.index he),
        fun he => Nat.ne_of_lt (h.fits.node hn).1 (congrArg NodeId.index he)⟩
    rintro n n' m m' (hn | ⟨rfl, rfl⟩) (hm | ⟨rfl, rfl⟩)
    · exact h.fits.nodeUnique hn hm
    · exact iff_of_false (old hn).1 (old hn).2
    · exact iff_of_false (old hm).1.symm (old hm).2.symm
    · exact iff_of_true rfl rfl
  · rintro n m k (hn | ⟨rfl, rfl⟩) hm
    · exact h.apart.node hn hm
    · exact Nat.lt_irrefl _ (h.fitsRight.node hm).2

/-- **Tidying removes what each producer alone would see removed.** -/
theorem tidy (held : ∀ c ∈ b.store.cells, 0 < c.holders) : Split mine L R a.tidy b w.tidy where
  fits := ⟨h.fits.sym, h.fits.num, h.fits.node, h.fits.numUnique, h.fits.nodeUnique⟩
  fitsRight := ⟨h.fitsRight.sym, h.fitsRight.num, h.fitsRight.node, h.fitsRight.numUnique, h.fitsRight.nodeUnique⟩
  apart := h.apart
  cells := h.cells.sweep h.faithful h.apart held .nil
  tables := h.tables.sameSlots (.mapStore _ _) (.mapStore _ _)
  poisoned := h.poisoned
  poisonedRight := h.poisonedRight

/-! ## Filling and emptying slots -/

theorem withTables (ha : a.SameRest a') (hw : w.SameRest w') (tables : TablesSplit mine L R a' b w') :
    Split mine L R a' b w' where
  fits := h.fits.later ha.later hw.later
  fitsRight := h.fitsRight.later ⟨List.prefix_rfl, Nat.le_refl _, Nat.le_refl _⟩ hw.later
  apart := h.apart
  cells := by
    rw [ha.store, hw.store]
    exact h.cells
  tables := tables
  poisoned := by rw [ha.poisoned, hw.poisoned, h.poisoned]
  poisonedRight := by rw [hw.poisoned, h.poisonedRight]

theorem setVar {x : String} (hx : mine .var x) {v v' : Var} (hv : v.Linked L v') :
    Split mine L R (a.setVar x v) b (w.setVar x v') :=
  h.withTables ⟨rfl, rfl, rfl, rfl⟩ ⟨rfl, rfl, rfl, rfl⟩ { h.tables with vars := h.tables.vars.put hx hv }

theorem eraseVar {x : String} (hx : mine .var x) : Split mine L R (a.eraseVar x) b (w.eraseVar x) :=
  h.withTables ⟨rfl, rfl, rfl, rfl⟩ ⟨rfl, rfl, rfl, rfl⟩ { h.tables with vars := h.tables.vars.erase hx }

theorem setArray {x : String} (hx : mine .array x) {g g' : GlobalArray} (hg : g.Linked L g') :
    Split mine L R (a.setArray x g) b (w.setArray x g') :=
  h.withTables ⟨rfl, rfl, rfl, rfl⟩ ⟨rfl, rfl, rfl, rfl⟩ { h.tables with arrays := h.tables.arrays.put hx hg }

theorem setCallee {x : String} (hx : mine .callee x) {c c' : Callee} (hc : c.Linked L c') :
    Split mine L R (a.setCallee x c) b (w.setCallee x c') :=
  h.withTables ⟨rfl, rfl, rfl, rfl⟩ ⟨rfl, rfl, rfl, rfl⟩ { h.tables with callees := h.tables.callees.put hx hc }

theorem setLocs {x : String} (hx : mine .locs x) {l l' : Locs} (hl : l.Linked L l') :
    Split mine L R (a.setLocs x l) b (w.setLocs x l') :=
  h.withTables ⟨rfl, rfl, rfl, rfl⟩ ⟨rfl, rfl, rfl, rfl⟩ { h.tables with locs := h.tables.locs.put hx hl }

theorem putExpr {x : String} (hx : mine .expr x) {n n' : NodeId} (hn : L.node n n') :
    Split mine L R { a with exprs := a.exprs.put x n } b { w with exprs := w.exprs.put x n' } :=
  h.withTables ⟨rfl, rfl, rfl, rfl⟩ ⟨rfl, rfl, rfl, rfl⟩ { h.tables with exprs := h.tables.exprs.put hx hn }

theorem takeExpr {x : String} (hx : mine .expr x) :
    Split mine L R { a with exprs := a.exprs.erase x } b { w with exprs := w.exprs.erase x } :=
  h.withTables ⟨rfl, rfl, rfl, rfl⟩ ⟨rfl, rfl, rfl, rfl⟩ { h.tables with exprs := h.tables.exprs.erase hx }

theorem held_expr {x : String} (hx : mine .expr x) :
    List.Forall₂ L.node (a.exprs.get? x).toList (w.exprs.get? x).toList :=
  toList_linked (h.tables.exprs.left x hx)

theorem setExpr {x : String} (hx : mine .expr x) {n n' : NodeId} (hn : L.node n n') :
    Split mine L R (a.setExpr x n) b (w.setExpr x n') :=
  ((h.acquire (.cons hn .nil) .nil).giveUp (h.held_expr hx) .nil).putExpr hx hn

theorem eraseExpr {x : String} (hx : mine .expr x) : Split mine L R (a.eraseExpr x) b (w.eraseExpr x) :=
  (h.giveUp (h.held_expr hx) .nil).takeExpr hx

theorem owned? (kind : OwnedKind) {x : String} (hx : mine kind.slot x) :
    Option.Rel (Owned.Linked L) (a.owned? kind x) (w.owned? kind x) := by
  cases kind with
  | stmt => exact optionRel_map (fun _ _ => .stmt) (h.tables.stmts.left x hx)
  | block => exact optionRel_map (fun _ _ => .block) (h.tables.blocks.left x hx)
  | function => exact optionRel_map (fun _ _ => .function) (h.tables.functions.left x hx)
  | module => exact optionRel_map (fun _ _ => .module) (h.tables.modules.left x hx)

theorem take (kind : OwnedKind) {x : String} (hx : mine kind.slot x) :
    Split mine L R (a.take kind x) b (w.take kind x) := by
  refine h.withTables (a.sameRest_take kind x) (w.sameRest_take kind x) ?_
  cases kind with
  | stmt => exact { h.tables with stmts := h.tables.stmts.erase hx }
  | block => exact { h.tables with blocks := h.tables.blocks.erase hx }
  | function => exact { h.tables with functions := h.tables.functions.erase hx }
  | module => exact { h.tables with modules := h.tables.modules.erase hx }

theorem put {o o' : Owned} (ho : o.Linked L o') {x : String} (hx : mine o.kind.slot x) :
    Split mine L R (a.put x o) b (w.put x o') := by
  refine h.withTables (a.sameRest_put x o) (w.sameRest_put x o') ?_
  cases ho with
  | stmt hs => exact { h.tables with stmts := h.tables.stmts.put hx hs }
  | block hb => exact { h.tables with blocks := h.tables.blocks.put hx hb }
  | function hf => exact { h.tables with functions := h.tables.functions.put hx hf }
  | module hm => exact { h.tables with modules := h.tables.modules.put hx hm }

theorem putModule {x : String} (hx : mine .module x) {m m' : Module} (hm : m.Linked L m') :
    Split mine L R (a.putModule x m) b (w.putModule x m') := h.put (.module hm) hx

theorem putBlock {site : BlockSite} (hx : mine site.slot.1 site.slot.2) {k k' : Block} (hk : k.Linked L k') :
    Split mine L R (a.putBlock site k) b (w.putBlock site k') := by
  cases site with
  | loose x => exact h.put (.block hk) hx
  | inFunction x i =>
    have here := h.tables.functions.left x hx
    unfold Workspace.putBlock
    dsimp only
    generalize a.functions.get? x = f at here
    generalize w.functions.get? x = f' at here
    cases here with
    | some hf => exact h.put (.function (hf.setBlock i hk)) hx
    | none => exact h

theorem putFunction {site : FunctionSite} (hx : mine site.slot.1 site.slot.2) {f f' : Function} (hf : f.Linked L f') :
    Split mine L R (a.putFunction site f) b (w.putFunction site f') := by
  cases site with
  | loose x => exact h.put (.function hf) hx
  | inModule x i =>
    have here := h.tables.modules.left x hx
    unfold Workspace.putFunction
    dsimp only
    generalize a.modules.get? x = m at here
    generalize w.modules.get? x = m' at here
    cases here with
    | some hm => exact h.put (.module (hm.setFunction i hf)) hx
    | none => exact h

end

end Split
end KernelIR
