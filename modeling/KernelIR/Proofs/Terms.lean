import KernelIR.Proofs.Move
import KernelIR.Proofs.Outcome
import KernelIR.Proofs.Trees
import KernelIR.Script.Term
/-!
# Terms — the evaluation of a term, without the store

`Term.eval` evaluates a term to a tree, by the constructors over trees.  The evaluation over the store comes to the same
(`Term.build_yields`): a node that unfolds to that tree, or that failure.  On the way only names, numbers and nodes are
added.
-/
namespace KernelIR

/-! ## Nodes and their trees -/

namespace Store.Books

variable {s : Store} {held evaluated : List NodeId}

theorem unfolds (h : s.Books held evaluated) {n : NodeId} (hn : s.Live n) : s.reader.Unfolds n := h.ordered.tree_eq hn

theorem typ_tree (h : s.Books held evaluated) {n : NodeId} (hn : s.Live n) : (s.tree n).typ = s.typ n := by
  rw [h.ordered.tree_eq hn]
  rfl

/-- Every live node unfolds to a typed tree, by induction on its age. -/
theorem tree_typed (h : s.Books held evaluated) {n : NodeId} (hn : s.Live n) : (s.tree n).Typed := by
  generalize hk : n.index = k
  induction k using Nat.strongRecOn generalizing n with
  | ind k ih =>
    rw [h.ordered.tree_eq hn]
    refine .mk ((h.node_typed hn).map fun m hm => h.typ_tree (h.ordered.operands_live hm)) fun u hu => ?_
    rw [Shape.operands_map] at hu
    obtain ⟨m, hm, rfl⟩ := List.mem_map.1 hu
    exact ih m.index (hk ▸ h.ordered.operands_older hm) (h.ordered.operands_live hm) rfl

end Store.Books

/-! ## Evaluation to a tree -/

namespace Term

section Eval

variable (w : Workspace)

def lookup {α : Type} (kind : SlotKind) (t : Table α) (x : String) : Except Failure α :=
  match t.get? x with
  | some a => .ok a
  | none => .error (.missing (.slot kind x))

def apply (f : Form Tree) : Except Failure Tree := (Tree.construct f).mapError .refused

mutual

/-- The tree that a term stands for, with no simplification left to do. -/
def eval : Term → Except Failure Tree
  | .slot x => return w.store.tree (← lookup .expr w.exprs x)
  | .bvConst k v => apply (.bvConst k v)
  | .bvZero k => apply (.bvZero k)
  | .boolConst b => apply (.boolConst b)
  | .arrayRef a => do apply (.arrayRef (← lookup .array w.arrays a))
  | .varRef v => do apply (.varRef (← lookup .var w.vars v))
  | .pointer a o => do apply (.pointer (← a.eval) (← o.eval))
  | .load a o => do apply (.load (← a.eval) (← o.eval))
  | .call c args => do apply (.call (← lookup .callee w.callees c) (← evalList args))
  | .bvExtract e offset width => do apply (.bvExtract (← e.eval) offset width)
  | .extend x e width => do apply (.extend x (← e.eval) width)
  | .unary op e => do apply (.unary op (← e.eval))
  | .binary op l r => do apply (.binary op (← l.eval) (← r.eval))

def evalList : List Term → Except Failure (List Tree)
  | [] => return []
  | t :: ts => return (← t.eval) :: (← evalList ts)

end

end Eval

theorem lookup_ok_iff {α : Type} {kind : SlotKind} {t : Table α} {x : String} {a : α} :
    lookup kind t x = .ok a ↔ t.get? x = some a := by
  unfold lookup
  cases t.get? x <;> simp

theorem apply_ok_iff {f : Form Tree} {u : Tree} : apply f = .ok u ↔ Tree.construct f = .ok u := by
  unfold apply
  cases Tree.construct f with
  | ok v =>
    have keeps : Except.mapError Failure.refused (.ok v) = .ok v := rfl
    rw [keeps, Except.ok.injEq, Except.ok.injEq]
  | error e => exact ⟨nofun, nofun⟩

/-- A constructor over typed trees answers with a typed tree, of the type in the table. -/
theorem apply_sound {f : Form Tree} {u : Tree} (hf : ∀ v ∈ f.operands, v.Typed) (h : apply f = .ok u) :
    u.Typed ∧ Form.Typed (f.map Tree.typ) u.typ :=
  Tree.Typed.construct hf (apply_ok_iff.1 h)

theorem apply_complete {f : Form Tree} {τ : Ty} (hf : ∀ v ∈ f.operands, v.Typed) (row : Form.Typed (f.map Tree.typ) τ) :
    ∃ u, apply f = .ok u ∧ u.Typed ∧ u.typ = τ := by
  obtain ⟨u, hu, ht⟩ := Tree.construct_of_typed hf row
  exact ⟨u, apply_ok_iff.2 hu, (Tree.Typed.construct hf hu).1, ht⟩

end Term

/-! ## The store comes to the same -/

namespace Build

variable {w₀ w : Workspace} {held evaluated : List NodeId}

/-- A constructor decides, and changes nothing unless it makes a node. -/
theorem run_construct (f : Form NodeId) (w : Workspace) : construct f w =
    match f.resolve w.store.reader with
    | .error x => .error (.refused x) w
    | .ok (.reuse n) => .ok n w
    | .ok (.fresh shape t) => .ok ⟨w.store.next⟩ { w with store := (w.store.alloc shape t).2 } := by
  have read : (get : Build Workspace) w = .ok w w := rfl
  unfold construct
  rw [run_bind read]
  rcases f.resolve w.store.reader with x | n | ⟨shape, t⟩ <;> rfl

/-- The workspace after a constructor: as it was, or with the node that it makes. -/
def Builds (f : Form NodeId) (w w' : Workspace) : Prop :=
  w' = w ∨ ∃ shape t, f.resolve w.store.reader = .ok (.fresh shape t) ∧
    w' = { w with store := (w.store.alloc shape t).2 }

theorem Builds.store (h : w.store.Books held evaluated) {f : Form NodeId} (ho : ∀ n ∈ f.operands, w.store.Live n)
    {w' : Workspace} (hw : Builds f w w') : w'.store.Books held evaluated ∧ w.store.Extends w'.store := by
  rcases hw with rfl | ⟨shape, t, made, rfl⟩
  · exact ⟨h, .refl _⟩
  · exact ⟨(h.resolve ho made).2, h.ordered.extends_alloc⟩

/-- **A constructor answers with the tree that the constructor over trees comes to**, or fails as that does. -/
theorem construct_builds (hb : w.store.Books held evaluated) {f : Form NodeId}
    (ho : ∀ n ∈ f.operands, w.store.Live n) : (construct f).Ends w
      (fun n w' => Builds f w w' ∧ w'.store.Live n ∧ Tree.construct (f.map w.store.tree) = .ok (w'.store.tree n))
      (fun e w' => w' = w ∧ e.Foreseen ∧ ∃ x, Tree.construct (f.map w.store.tree) = .error x ∧ e = .refused x) := by
  have ht := f.construct_tree (r := w.store.reader) fun n hn => hb.unfolds (ho n hn)
  change Tree.construct (f.map w.store.tree) = _ at ht
  unfold Ends
  rw [ht, run_construct]
  cases hr : f.resolve w.store.reader with
  | error x => exact ⟨rfl, Failure.foreseen_refused (Fault.plainly_resolve _ f x hr).foreseen, x, rfl, rfl⟩
  | ok b =>
    have hs := hb.resolve ho hr
    cases b with
    | reuse n => exact ⟨.inl rfl, hs, rfl⟩
    | fresh shape t =>
      have live : (w.store.alloc shape t).2.Live ⟨w.store.next⟩ := Store.live_alloc.2 (.inl rfl)
      exact ⟨.inr ⟨shape, t, hr, rfl⟩, live, congrArg Except.ok (hb.ordered.tree_alloc hs.1).symm⟩

/-- Where its handles are known, a constructor lets the workspace grow. -/
theorem construct_ends (hb : w.store.Books held evaluated) {f : Form NodeId} (ho : ∀ n ∈ f.operands, w.store.Live n)
    (known : ∀ c ∈ f.callees, c ∈ w.callees.values) : (construct f).Ends w
      (fun n w' => Grows w w' ∧ w'.store.Live n ∧ Tree.construct (f.map w.store.tree) = .ok (w'.store.tree n))
      (fun e w' => w' = w ∧ e.Foreseen ∧ ∃ x, Tree.construct (f.map w.store.tree) = .error x ∧ e = .refused x) := by
  refine Ends.mono (construct_builds hb ho) ?_ fun _ _ => id
  rintro n w' ⟨rfl | ⟨shape, t, made, rfl⟩, built⟩
  · exact ⟨.refl, built⟩
  · exact ⟨.single (.node ho known made), built⟩

/-! ## One computation beside the other -/

/-- The node is there, and the tree is its own. -/
def Stands (w : Workspace) (n : NodeId) (u : Tree) : Prop := w.store.Live n ∧ w.store.tree n = u

def StandAll (w : Workspace) (ns : List NodeId) (us : List Tree) : Prop :=
  (∀ n ∈ ns, w.store.Live n) ∧ ns.map w.store.tree = us

theorem Stands.grows {w' : Workspace} {n : NodeId} {u : Tree} (h : Stands w n u) (hb : w.store.Books held evaluated)
    (hg : Grows w w') : Stands w' n u := by
  have ex := hg.extends_store hb
  exact ⟨ex.live h.1, (ex.tree h.1).trans h.2⟩

/-- The computation comes to what `r` does: to an answer that stands for that of `r`, where the workspace has only
grown, or to the same failure. -/
def Yields {α β : Type} (w₀ w : Workspace) (stands : Workspace → α → β → Prop) (act : Build α) (r : Except Failure β) :
    Prop :=
  act.Ends w (fun a w' => Grows w w' ∧ ∃ b, stands w' a b ∧ r = .ok b)
    (fun e w' => Grows w₀ w' ∧ e.Foreseen ∧ r = .error e)

theorem Yields.bind {α β γ δ : Type} {stands : Workspace → α → β → Prop} {stands' : Workspace → γ → δ → Prop}
    {act : Build α} {r : Except Failure β} {f : α → Build γ} {g : β → Except Failure δ} (h : Yields w₀ w stands act r)
    (hf : ∀ a b w', Grows w w' → stands w' a b → Yields w₀ w' stands' (f a) (g b)) :
    Yields w₀ w stands' (act >>= f) (r >>= g) := by
  refine Ends.bind (Q := fun a w' => Grows w w' ∧ ∃ b, stands w' a b ∧ r = .ok b) ?_ ?_
  · refine Ends.mono h (fun _ _ => id) fun e w' he => ⟨he.1, he.2.1, ?_⟩
    rw [he.2.2]
    rfl
  · intro a w' hw
    obtain ⟨hg, b, hb, rfl⟩ := hw
    exact (hf a b w' hg hb).imp fun c w'' hc => ⟨hg.trans hc.1, hc.2⟩

theorem slot_yields {α : Type} (kind : SlotKind) (table : Workspace → Table α) (x : String) (hs : table w = table w₀)
    (hg : Grows w₀ w) : Yields w₀ w (fun _ a b => a = b ∧ a ∈ (table w₀).values) (slot kind table x)
      (Term.lookup kind (table w₀) x) := by
  rw [← hs]
  unfold Term.lookup
  exact ends_slot (fun a ha => ⟨.refl, a, ⟨rfl, Table.mem_values_of_get? ha⟩, by rw [ha]⟩)
    fun hn => ⟨hg, Failure.foreseen_missing _, by rw [hn]⟩

theorem construct_yields (hb : w₀.store.Books held evaluated) (hg : Grows w₀ w) {f : Form NodeId} {g : Form Tree}
    (ho : ∀ n ∈ f.operands, w.store.Live n) (hc : ∀ c ∈ f.callees, c ∈ w₀.callees.values)
    (hf : f.map w.store.tree = g) : Yields w₀ w Stands (construct f) (Term.apply g) := by
  subst hf
  have known : ∀ c ∈ f.callees, c ∈ w.callees.values := by rwa [congrArg (·.callees) hg.tables]
  refine Ends.mono (construct_ends (hg.books hb) ho known) ?_ ?_
  · intro n w' hw
    obtain ⟨hg', hn, hc⟩ := hw
    exact ⟨hg', _, ⟨hn, rfl⟩, Term.apply_ok_iff.2 hc⟩
  · intro e w' hw
    obtain ⟨rfl, he, x, hx, rfl⟩ := hw
    refine ⟨hg, he, ?_⟩
    rw [Term.apply, hx]
    rfl

end Build

namespace Term

open Build

variable {w₀ : Workspace} {held evaluated : List NodeId}

theorem lookup_ok {α : Type} {kind : SlotKind} {table : Table α} {x : String} {a : α}
    (h : lookup kind table x = .ok a) : a ∈ table.values :=
  Table.mem_values_of_get? (lookup_ok_iff.1 h)

mutual

/-- **The store comes to the tree that the term stands for**, or to the same failure. -/
theorem build_yields (hb : w₀.store.Books held evaluated) (hx : ∀ n ∈ w₀.exprs.values, w₀.store.Live n) :
    ∀ (t : Term) {w : Workspace}, Grows w₀ w → Yields w₀ w Stands t.build (t.eval w₀)
  | .slot x, w, hg => by
    rw [build, eval]
    refine Ends.mono (slot_yields .expr (·.exprs) x (congrArg (·.exprs) hg.tables) hg) ?_ ?_
    · intro n w' hw
      obtain ⟨g, _, ⟨rfl, -⟩, h⟩ := hw
      have ex := (hg.trans g).extends_store hb
      have hn : w₀.store.Live n := hx n (lookup_ok h)
      exact ⟨g, _, ⟨ex.live hn, ex.tree hn⟩, by rw [h]; rfl⟩
    · intro e w' hw
      obtain ⟨g, he, h⟩ := hw
      exact ⟨g, he, by rw [h]; rfl⟩
  | .bvConst k v, w, hg => construct_yields hb hg (List.forall_mem_nil _) (List.forall_mem_nil _) rfl
  | .bvZero k, w, hg => construct_yields hb hg (List.forall_mem_nil _) (List.forall_mem_nil _) rfl
  | .boolConst b, w, hg => construct_yields hb hg (List.forall_mem_nil _) (List.forall_mem_nil _) rfl
  | .arrayRef a, w, hg => by
    rw [build, eval]
    refine (slot_yields .array (·.arrays) a (congrArg (·.arrays) hg.tables) hg).bind ?_
    rintro v _ w' g ⟨rfl, -⟩
    exact construct_yields hb (hg.trans g) (List.forall_mem_nil _) (List.forall_mem_nil _) rfl
  | .varRef v, w, hg => by
    rw [build, eval]
    refine (slot_yields .var (·.vars) v (congrArg (·.vars) hg.tables) hg).bind ?_
    rintro v _ w' g ⟨rfl, -⟩
    exact construct_yields hb (hg.trans g) (List.forall_mem_nil _) (List.forall_mem_nil _) rfl
  | .pointer l r, w, hg => by
    rw [build, eval]
    refine (build_yields hb hx l hg).bind fun n u w₁ g₁ hn => ?_
    refine (build_yields hb hx r (hg.trans g₁)).bind fun m v w₂ g₂ hm => ?_
    have hn := hn.grows ((hg.trans g₁).books hb) g₂
    exact construct_yields hb ((hg.trans g₁).trans g₂) (by simpa [Form.operands] using ⟨hn.1, hm.1⟩)
      (List.forall_mem_nil _) (by rw [Form.map, hn.2, hm.2])
  | .load l r, w, hg => by
    rw [build, eval]
    refine (build_yields hb hx l hg).bind fun n u w₁ g₁ hn => ?_
    refine (build_yields hb hx r (hg.trans g₁)).bind fun m v w₂ g₂ hm => ?_
    have hn := hn.grows ((hg.trans g₁).books hb) g₂
    exact construct_yields hb ((hg.trans g₁).trans g₂) (by simpa [Form.operands] using ⟨hn.1, hm.1⟩)
      (List.forall_mem_nil _) (by rw [Form.map, hn.2, hm.2])
  | .call c args, w, hg => by
    rw [build, eval]
    refine (slot_yields .callee (·.callees) c (congrArg (·.callees) hg.tables) hg).bind ?_
    rintro c _ w₁ g₁ ⟨rfl, known⟩
    refine (buildList_yields hb hx args (hg.trans g₁)).bind fun ns us w₂ g₂ hns => ?_
    exact construct_yields (f := .call c ns) hb ((hg.trans g₁).trans g₂) hns.1 (List.forall_mem_singleton.2 known)
      (by rw [Form.map, hns.2])
  | .bvExtract e offset width, w, hg => by
    rw [build, eval]
    refine (build_yields hb hx e hg).bind fun n u w₁ g₁ hn => ?_
    exact construct_yields hb (hg.trans g₁) (by simpa [Form.operands] using hn.1) (List.forall_mem_nil _)
      (by rw [Form.map, hn.2])
  | .extend x e width, w, hg => by
    rw [build, eval]
    refine (build_yields hb hx e hg).bind fun n u w₁ g₁ hn => ?_
    exact construct_yields hb (hg.trans g₁) (by simpa [Form.operands] using hn.1) (List.forall_mem_nil _)
      (by rw [Form.map, hn.2])
  | .unary op e, w, hg => by
    rw [build, eval]
    refine (build_yields hb hx e hg).bind fun n u w₁ g₁ hn => ?_
    exact construct_yields hb (hg.trans g₁) (by simpa [Form.operands] using hn.1) (List.forall_mem_nil _)
      (by rw [Form.map, hn.2])
  | .binary op l r, w, hg => by
    rw [build, eval]
    refine (build_yields hb hx l hg).bind fun n u w₁ g₁ hn => ?_
    refine (build_yields hb hx r (hg.trans g₁)).bind fun m v w₂ g₂ hm => ?_
    have hn := hn.grows ((hg.trans g₁).books hb) g₂
    exact construct_yields hb ((hg.trans g₁).trans g₂) (by simpa [Form.operands] using ⟨hn.1, hm.1⟩)
      (List.forall_mem_nil _) (by rw [Form.map, hn.2, hm.2])

theorem buildList_yields (hb : w₀.store.Books held evaluated) (hx : ∀ n ∈ w₀.exprs.values, w₀.store.Live n) :
    ∀ (ts : List Term) {w : Workspace}, Grows w₀ w → Yields w₀ w StandAll (buildList ts) (evalList w₀ ts)
  | [], w, hg => by
    rw [buildList, evalList]
    exact ends_pure ⟨.refl, [], ⟨List.forall_mem_nil _, rfl⟩, rfl⟩
  | t :: ts, w, hg => by
    rw [buildList, evalList]
    refine (build_yields hb hx t hg).bind fun n u w₁ g₁ hn => ?_
    refine (buildList_yields hb hx ts (hg.trans g₁)).bind fun ns us w₂ g₂ hns => ?_
    have hn := hn.grows ((hg.trans g₁).books hb) g₂
    refine ends_pure ⟨.refl, u :: us, ⟨List.forall_mem_cons.2 ⟨hn.1, hns.1⟩, ?_⟩, rfl⟩
    rw [List.map_cons, hn.2, hns.2]

end

end Term
end KernelIR
