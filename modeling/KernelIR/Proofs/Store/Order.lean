import KernelIR.Proofs.Typing
import KernelIR.Store
/-!
# Order — live nodes stand newest first, above their operands

The cells of a store descend, and the operands of each stand further down (`Ordered`).  Reading a live node survives all
that a command does to the store (`Extends`): other counters, and new nodes on top.
-/
namespace KernelIR
namespace Store

def Live (s : Store) (n : NodeId) : Prop := n ∈ s.cells.map (·.id)

instance (s : Store) (n : NodeId) : Decidable (s.Live n) := inferInstanceAs (Decidable (_ ∈ _))

/-- Each cell is newer than those after it, and its operands are among them. -/
def Layered : List Cell → Prop
  | [] => True
  | c :: cs => (∀ d ∈ cs, d.id.index < c.id.index) ∧ (∀ n ∈ c.operands, n ∈ cs.map (·.id)) ∧ Layered cs

structure Ordered (s : Store) : Prop where
  layered : Layered s.cells
  below : ∀ c ∈ s.cells, c.id.index < s.next

/-- Every live node stands in the table. -/
def Typed (s : Store) : Prop := ∀ c ∈ s.cells, Node.Typed s.typ c.node

/-- All live nodes of `s` are in `s'`, and read the same. -/
structure Extends (s s' : Store) : Prop where
  live : ∀ {n}, s.Live n → s'.Live n
  node : ∀ {n}, s.Live n → (s'.cell n).node = (s.cell n).node
  tree : ∀ {n}, s.Live n → s'.tree n = s.tree n

namespace Extends

theorem refl (s : Store) : s.Extends s := ⟨id, fun _ => rfl, fun _ => rfl⟩

theorem trans {s s' s'' : Store} (h : s.Extends s') (h' : s'.Extends s'') : s.Extends s'' where
  live hn := h'.live (h.live hn)
  node hn := (h'.node (h.live hn)).trans (h.node hn)
  tree hn := (h'.tree (h.live hn)).trans (h.tree hn)

theorem typ {s s' : Store} (h : s.Extends s') {n : NodeId} (hn : s.Live n) : s'.typ n = s.typ n :=
  congrArg Node.typ (h.node hn)

end Extends

/-- A change of counters only. -/
structure Recounts (f : Cell → Cell) : Prop where
  id : ∀ c, (f c).id = c.id
  node : ∀ c, (f c).node = c.node

/-! ## Looking a node up -/

theorem live_iff {s : Store} {n : NodeId} : s.Live n ↔ ∃ c ∈ s.cells, c.id = n := List.mem_map

theorem live_of_mem {s : Store} {c : Cell} (h : c ∈ s.cells) : s.Live c.id := List.mem_map_of_mem h

theorem find?_of_mem : ∀ {cs : List Cell} {c : Cell}, Layered cs → c ∈ cs → cs.find? (fun d => d.id == c.id) = some c
  | [], _, _, hc => nomatch hc
  | d :: cs, c, h, hc => by
    rw [List.find?_cons]
    by_cases hd : d.id = c.id
    · rcases List.mem_cons.1 hc with rfl | hc
      · simp
      · exact absurd (h.1 c hc) (by rw [hd]; exact Nat.lt_irrefl _)
    · rw [beq_eq_false_iff_ne.2 hd]
      exact find?_of_mem h.2.2 ((List.mem_cons.1 hc).resolve_left fun he => hd (by rw [he]))

theorem Ordered.cell_of_mem {s : Store} (h : s.Ordered) {c : Cell} (hc : c ∈ s.cells) : s.cell c.id = c := by
  rw [cell, find?, find?_of_mem h.layered hc, Option.getD_some]

theorem Ordered.cell_mem {s : Store} (h : s.Ordered) {n : NodeId} (hn : s.Live n) : s.cell n ∈ s.cells := by
  obtain ⟨c, hc, rfl⟩ := live_iff.1 hn
  rw [h.cell_of_mem hc]
  exact hc

theorem cell_id (s : Store) (n : NodeId) : (s.cell n).id = n := by
  unfold cell find?
  cases hf : s.cells.find? (fun c => c.id == n) with
  | none => rfl
  | some c => simpa using List.find?_some hf

/-- A node that is not in the store reads as held and evaluated by no one. -/
theorem cell_of_not_live {s : Store} {n : NodeId} (h : ¬ s.Live n) :
    s.cell n = ⟨n, .boolConst false, .bool, 0, 0, false⟩ := by
  have : s.cells.find? (fun c => c.id == n) = none :=
    List.find?_eq_none.2 fun c hc he => h (live_iff.2 ⟨c, hc, by simpa using he⟩)
  rw [cell, find?, this, Option.getD_none]

theorem Layered.operands_mem : ∀ {cs : List Cell}, Layered cs → ∀ c ∈ cs, ∀ n ∈ c.operands, n ∈ cs.map (·.id)
  | [], _, _, hc, _, _ => nomatch hc
  | d :: cs, h, c, hc, n, hn => by
    rcases List.mem_cons.1 hc with rfl | hc
    · exact List.mem_cons_of_mem _ (h.2.1 n hn)
    · exact List.mem_cons_of_mem _ (h.2.2.operands_mem c hc n hn)

theorem Layered.operands_older : ∀ {cs : List Cell}, Layered cs → ∀ c ∈ cs, ∀ n ∈ c.operands, n.index < c.id.index
  | [], _, _, hc, _, _ => nomatch hc
  | d :: cs, h, c, hc, n, hn => by
    rcases List.mem_cons.1 hc with rfl | hc
    · obtain ⟨e, he, rfl⟩ := List.mem_map.1 (h.2.1 n hn)
      exact h.1 e he
    · exact h.2.2.operands_older c hc n hn

theorem Ordered.live_of_operand {s : Store} (h : s.Ordered) {c : Cell} (hc : c ∈ s.cells) {n : NodeId}
    (hn : n ∈ c.operands) : s.Live n := h.layered.operands_mem c hc n hn

theorem Ordered.operands_live {s : Store} (h : s.Ordered) {n m : NodeId} (hm : m ∈ (s.cell n).operands) : s.Live m := by
  by_cases hn : s.Live n
  · exact h.layered.operands_mem _ (h.cell_mem hn) m hm
  · rw [cell_of_not_live hn] at hm
    cases hm

theorem Ordered.operands_older {s : Store} (h : s.Ordered) {n m : NodeId} (hm : m ∈ (s.cell n).operands) :
    m.index < n.index := by
  by_cases hn : s.Live n
  · have := h.layered.operands_older _ (h.cell_mem hn) m hm
    rwa [cell_id] at this
  · rw [cell_of_not_live hn] at hm
    cases hm

theorem Ordered.next_not_live {s : Store} (h : s.Ordered) : ¬ s.Live ⟨s.next⟩ := by
  intro hl
  obtain ⟨c, hc, he⟩ := live_iff.1 hl
  have := h.below c hc
  rw [he] at this
  exact Nat.lt_irrefl _ this

/-! ## Trees -/

theorem treeIn_cons_of_mem {c : Cell} {cs : List Cell} (h : Layered (c :: cs)) {n : NodeId} (hn : n ∈ cs.map (·.id)) :
    treeIn (c :: cs) n = treeIn cs n := by
  obtain ⟨d, hd, rfl⟩ := List.mem_map.1 hn
  rw [treeIn, if_neg]
  intro he
  have := h.1 d hd
  rw [he] at this
  exact Nat.lt_irrefl _ this

theorem treeIn_eq : ∀ {cs : List Cell}, Layered cs → ∀ c ∈ cs, treeIn cs c.id = .mk (c.shape.map (treeIn cs)) c.typ
  | [], _, _, hc => nomatch hc
  | d :: cs, h, c, hc => by
    have hop : ∀ m ∈ c.operands, m ∈ cs.map (·.id) := by
      rcases List.mem_cons.1 hc with rfl | hc
      · exact h.2.1
      · exact h.2.2.operands_mem c hc
    rw [Shape.map_congr fun m hm => treeIn_cons_of_mem h (hop m hm)]
    rcases List.mem_cons.1 hc with rfl | hc
    · rw [treeIn, if_pos rfl]
    · rw [treeIn_cons_of_mem h (List.mem_map_of_mem hc), treeIn_eq h.2.2 c hc]

theorem Ordered.tree_eq {s : Store} (h : s.Ordered) {n : NodeId} (hn : s.Live n) :
    s.tree n = .mk ((s.cell n).shape.map s.tree) (s.cell n).typ := by
  have := treeIn_eq h.layered _ (h.cell_mem hn)
  rwa [cell_id] at this

/-- A node that lives in two stores unfolds to one tree where the nodes that live in both are the same, by induction on
its age. -/
theorem Ordered.tree_congr {s s' : Store} (h : s.Ordered) (h' : s'.Ordered)
    (same : ∀ n, s.Live n → s'.Live n → (s'.cell n).node = (s.cell n).node) {n : NodeId} (hn : s.Live n)
    (hn' : s'.Live n) : s'.tree n = s.tree n := by
  generalize hk : n.index = k
  induction k using Nat.strongRecOn generalizing n with
  | ind k ih =>
    have node := same n hn hn'
    have shape : (s'.cell n).shape = (s.cell n).shape := congrArg Node.shape node
    rw [h.tree_eq hn, h'.tree_eq hn', shape, show (s'.cell n).typ = (s.cell n).typ from congrArg Node.typ node]
    refine congrArg (Tree.mk · _) (Shape.map_congr fun m hm => ?_)
    have hm' : m ∈ (s'.cell n).operands := by
      rw [Cell.operands, shape]
      exact hm
    exact ih m.index (hk ▸ h.operands_older hm) (h.operands_live hm) (h'.operands_live hm') rfl

/-! ## Changes of counters -/

section Recounts

variable {f : Cell → Cell} (hf : Recounts f) (s : Store)
include hf

theorem Recounts.shape (c : Cell) : (f c).shape = c.shape := congrArg Node.shape (hf.node c)

theorem Recounts.typ (c : Cell) : (f c).typ = c.typ := congrArg Node.typ (hf.node c)

theorem Recounts.operands (c : Cell) : (f c).operands = c.operands := congrArg Shape.operands (hf.shape c)

theorem ids_map (cs : List Cell) : (cs.map f).map (·.id) = cs.map (·.id) := by
  rw [List.map_map]
  exact List.map_congr_left fun c _ => hf.id c

theorem live_mapCells {n : NodeId} : (s.mapCells f).Live n ↔ s.Live n := by
  unfold Live mapCells
  rw [ids_map hf]

theorem cell_mapCells {n : NodeId} (hn : s.Live n) : (s.mapCells f).cell n = f (s.cell n) := by
  obtain ⟨c, hc, rfl⟩ := live_iff.1 hn
  have hp : ((fun d : Cell => d.id == c.id) ∘ f) = fun d => d.id == c.id := funext fun d => by simp [hf.id d]
  have hs : (s.cells.find? fun d => d.id == c.id).isSome := List.find?_isSome.2 ⟨c, hc, by simp⟩
  obtain ⟨d, hd⟩ := Option.isSome_iff_exists.1 hs
  unfold cell find? mapCells
  rw [List.find?_map, hp, hd]
  rfl

theorem layered_map : ∀ {cs : List Cell}, Layered cs → Layered (cs.map f)
  | [], _ => trivial
  | c :: cs, h => by
    refine ⟨fun d hd => ?_, fun n hn => ?_, layered_map h.2.2⟩
    · obtain ⟨e, he, rfl⟩ := List.mem_map.1 hd
      rw [hf.id, hf.id]
      exact h.1 e he
    · rw [hf.operands] at hn
      rw [ids_map hf]
      exact h.2.1 n hn

theorem treeIn_map : ∀ (cs : List Cell) (n : NodeId), treeIn (cs.map f) n = treeIn cs n
  | [], _ => rfl
  | c :: cs, n => by
    have : treeIn (cs.map f) = treeIn cs := funext (treeIn_map cs)
    rw [List.map_cons, treeIn, treeIn, hf.id, hf.shape, hf.typ, this]

theorem extends_mapCells : s.Extends (s.mapCells f) where
  live hn := (live_mapCells hf s).2 hn
  node hn := by rw [cell_mapCells hf s hn, hf.node]
  tree _ := treeIn_map hf s.cells _

theorem node_mapCells {n : NodeId} : ((s.mapCells f).cell n).node = (s.cell n).node := by
  by_cases hn : s.Live n
  · rw [cell_mapCells hf s hn, hf.node]
  · rw [cell_of_not_live (mt (live_mapCells hf s).1 hn), cell_of_not_live hn]

theorem typ_mapCells {n : NodeId} : (s.mapCells f).typ n = s.typ n := congrArg Node.typ (node_mapCells hf s)

theorem prevented_mapCells (hp : ∀ c, (f c).prevented = c.prevented) (n : NodeId) :
    ((s.mapCells f).cell n).prevented = (s.cell n).prevented := by
  by_cases hn : s.Live n
  · rw [cell_mapCells hf s hn, hp]
  · rw [cell_of_not_live (mt (live_mapCells hf s).1 hn), cell_of_not_live hn]

theorem ordered_mapCells (h : s.Ordered) : (s.mapCells f).Ordered where
  layered := layered_map hf h.layered
  below := fun c hc => by
    obtain ⟨d, hd, rfl⟩ := List.mem_map.1 hc
    rw [hf.id]
    exact h.below d hd

theorem typed_mapCells (h : s.Typed) : (s.mapCells f).Typed := fun c hc => by
  obtain ⟨d, hd, rfl⟩ := List.mem_map.1 hc
  have ht : (s.mapCells f).typ = s.typ := funext fun n => typ_mapCells hf s
  rw [hf.node, ht]
  exact h d hd

end Recounts

theorem recounts_holders (g : Cell → Nat) : Recounts fun c => { c with holders := g c } := ⟨fun _ => rfl, fun _ => rfl⟩

theorem recounts_evals (g : Cell → Nat) : Recounts fun c => { c with evals := g c } := ⟨fun _ => rfl, fun _ => rfl⟩

theorem recounts_prevent (n : NodeId) : Recounts fun c => { c with prevented := c.prevented || c.id == n } :=
  ⟨fun _ => rfl, fun _ => rfl⟩

/-! ## A new node -/

section Alloc

variable {s : Store} {shape : Shape NodeId} {t : Ty}

theorem alloc_cells : (s.alloc shape t).2.cells =
    ⟨⟨s.next⟩, shape, t, 0, 0, false⟩ :: (s.retain shape.operands).cells := rfl

theorem live_alloc {n : NodeId} : (s.alloc shape t).2.Live n ↔ n = ⟨s.next⟩ ∨ s.Live n := by
  unfold Live
  rw [alloc_cells, List.map_cons, List.mem_cons]
  exact or_congr_right (live_mapCells (recounts_holders _) s)

theorem cell_alloc_self : (s.alloc shape t).2.cell ⟨s.next⟩ = ⟨⟨s.next⟩, shape, t, 0, 0, false⟩ := by
  unfold cell find?
  rw [alloc_cells, List.find?_cons_of_pos (by simp)]
  rfl

theorem cell_alloc_of_ne {n : NodeId} (hn : n ≠ ⟨s.next⟩) :
    (s.alloc shape t).2.cell n = (s.retain shape.operands).cell n := by
  unfold cell find?
  rw [alloc_cells, List.find?_cons_of_neg (by simpa using Ne.symm hn)]

theorem Ordered.ne_next (h : s.Ordered) {n : NodeId} (hn : s.Live n) : n ≠ ⟨s.next⟩ :=
  fun he => h.next_not_live (he ▸ hn)

theorem Ordered.extends_alloc (h : s.Ordered) : s.Extends (s.alloc shape t).2 where
  live hn := live_alloc.2 (.inr hn)
  node hn := by
    rw [cell_alloc_of_ne (h.ne_next hn), retain, cell_mapCells (recounts_holders _) s hn]
    rfl
  tree {n} hn := by
    change treeIn (_ :: (s.retain shape.operands).cells) n = treeIn s.cells n
    rw [treeIn, if_neg (Ne.symm (h.ne_next hn)), retain, mapCells, treeIn_map (recounts_holders _)]

theorem Ordered.alloc (h : s.Ordered) (ho : ∀ n ∈ shape.operands, s.Live n) : (s.alloc shape t).2.Ordered where
  layered := by
    have hr := ordered_mapCells (recounts_holders fun c => c.holders + shape.operands.count c.id) s h
    refine ⟨fun d hd => hr.below d hd, fun n hn => ?_, hr.layered⟩
    exact (live_mapCells (recounts_holders _) s).2 (ho n hn)
  below := fun c hc => by
    rcases List.mem_cons.1 hc with rfl | hc
    · exact Nat.lt_succ_self _
    · exact Nat.lt_succ_of_lt ((ordered_mapCells (recounts_holders _) s h).below c hc)

theorem Ordered.tree_alloc (h : s.Ordered) (ho : ∀ n ∈ shape.operands, s.Live n) :
    (s.alloc shape t).2.tree ⟨s.next⟩ = .mk (shape.map s.tree) t := by
  rw [(h.alloc ho).tree_eq (live_alloc.2 (.inl rfl)), cell_alloc_self]
  exact congrArg (Tree.mk · t) (Shape.map_congr fun n hn => h.extends_alloc.tree (ho n hn))

theorem Typed.alloc (h : s.Typed) (hs : s.Ordered) (ho : ∀ n ∈ shape.operands, s.Live n)
    (ht : Node.Typed s.typ ⟨shape, t⟩) : (s.alloc shape t).2.Typed := fun c hc => by
  have he : s.Extends (s.alloc shape t).2 := hs.extends_alloc
  rcases List.mem_cons.1 hc with rfl | hc
  · exact ht.congr fun n hn => he.typ (ho n hn)
  · obtain ⟨d, hd, rfl⟩ := List.mem_map.1 hc
    exact (h d hd).congr fun n hn => he.typ (hs.live_of_operand hd hn)

end Alloc

end Store
end KernelIR
