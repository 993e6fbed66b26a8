import KernelIR.Proofs.Reachable
/-!
# Acceptance — the constructors accept exactly the typed terms

`HasType w t τ`: the term, as it is written, has the type, by the table (`Form.Typed`) at each of its constructors.
Nothing of it knows about simplification.  Evaluation succeeds exactly on the terms that have a type, and the node that
it answers with has that type, over a tree that stands in the table at every node.

A concatenation is typed over unbounded widths; terms in which a doubled width does not fit 64 bits are left out
(`Term.Narrow`).
-/
namespace KernelIR

mutual

/-- **The types of terms**, over the handles and nodes in the slots of a workspace. -/
inductive HasType (w : Workspace) : Term → Ty → Prop
  | slot {x : String} {n : NodeId} (h : w.exprs.get? x = some n) : HasType w (.slot x) (w.store.typ n)
  | bvConst {k : UInt64} {v : Int} {t : Ty} (row : Form.Typed (.bvConst k v) t) : HasType w (.bvConst k v) t
  | bvZero {k : UInt64} {t : Ty} (row : Form.Typed (.bvZero k) t) : HasType w (.bvZero k) t
  | boolConst {b : Bool} {t : Ty} (row : Form.Typed (.boolConst b) t) : HasType w (.boolConst b) t
  | arrayRef {x : String} {a : GlobalArray} {t : Ty} (h : w.arrays.get? x = some a)
    (row : Form.Typed (.arrayRef a) t) : HasType w (.arrayRef x) t
  | varRef {x : String} {v : Var} {t : Ty} (h : w.vars.get? x = some v) (row : Form.Typed (.varRef v) t) :
    HasType w (.varRef x) t
  | pointer {a o : Term} {ta tb t : Ty} (ha : HasType w a ta) (ho : HasType w o tb)
    (row : Form.Typed (.pointer ta tb) t) : HasType w (.pointer a o) t
  | load {a o : Term} {ta tb t : Ty} (ha : HasType w a ta) (ho : HasType w o tb) (row : Form.Typed (.load ta tb) t) :
    HasType w (.load a o) t
  | call {x : String} {c : Callee} {args : List Term} {ts : List Ty} {t : Ty} (h : w.callees.get? x = some c)
    (ha : HasTypes w args ts) (row : Form.Typed (.call c ts) t) : HasType w (.call x args) t
  | bvExtract {e : Term} {offset width : UInt64} {te t : Ty} (he : HasType w e te)
    (row : Form.Typed (.bvExtract te offset width) t) : HasType w (.bvExtract e offset width) t
  | extend {x : Extension} {e : Term} {width : UInt64} {te t : Ty} (he : HasType w e te)
    (row : Form.Typed (.extend x te width) t) : HasType w (.extend x e width) t
  | unary {op : UnaryOp} {e : Term} {te t : Ty} (he : HasType w e te) (row : Form.Typed (.unary op te) t) :
    HasType w (.unary op e) t
  | binary {op : BinaryOp} {l r : Term} {tl tr t : Ty} (plain : op ≠ .bvConcat) (hl : HasType w l tl)
    (hr : HasType w r tr) (row : Form.Typed (.binary op tl tr) t) : HasType w (.binary op l r) t
  | bvConcat {l r : Term} {k v : UInt64} (hl : HasType w l (.bv k)) (hr : HasType w r (.bv k))
    (sum : v.toNat = k.toNat + k.toNat) (pos : 0 < v) : HasType w (.binary .bvConcat l r) (.bv v)

inductive HasTypes (w : Workspace) : List Term → List Ty → Prop
  | nil : HasTypes w [] []
  | cons {t : Term} {τ : Ty} {ts : List Term} {τs : List Ty} (h : HasType w t τ) (hs : HasTypes w ts τs) :
    HasTypes w (t :: ts) (τ :: τs)

end

namespace Term

mutual

/-- No concatenation in the term doubles a width beyond 64 bits. -/
def Narrow (w : Workspace) : Term → Prop
  | .slot _ | .bvConst _ _ | .bvZero _ | .boolConst _ | .arrayRef _ | .varRef _ => True
  | .pointer a o | .load a o => a.Narrow w ∧ o.Narrow w
  | .call _ args => NarrowList w args
  | .bvExtract e _ _ | .extend _ e _ | .unary _ e => e.Narrow w
  | .binary op l r => l.Narrow w ∧ r.Narrow w ∧
    (op = .bvConcat → ∀ k, HasType w l (.bv k) → k.toNat + k.toNat < UInt64.size)

def NarrowList (w : Workspace) : List Term → Prop
  | [] => True
  | t :: ts => t.Narrow w ∧ NarrowList w ts

end

variable {w : Workspace}

theorem concat_typed {l r : Term} {tl tr t : Ty} (fits : ∀ k, HasType w l (.bv k) → k.toNat + k.toNat < UInt64.size)
    (hl : HasType w l tl) (hr : HasType w r tr) (row : Form.Typed (.binary .bvConcat tl tr) t) :
    HasType w (.binary .bvConcat l r) t := by
  cases row.of_binary with
  | @concatenation k pos =>
    have := fits k hl
    unfold UInt64.size at this
    exact .bvConcat hl hr (by rw [UInt64.toNat_add]; omega) pos
  | arithmetic h | comparison h => exact absurd h (by decide)
  | equality h | connective h => exact absurd h (by decide)

theorem concat_row {k v : UInt64} (sum : v.toNat = k.toNat + k.toNat) (pos : 0 < v) :
    Form.Typed (.binary .bvConcat (.bv k) (.bv k)) (.bv v) := by
  have hv : v = k + k := by
    rw [← UInt64.toNat_inj, UInt64.toNat_add, sum]
    have := v.toNat_lt
    omega
  subst hv
  exact .binary (.concatenation pos)

/-! ## What is accepted is typed -/

mutual

theorem typed_of_eval (hs : w.Sound) : ∀ (t : Term) {u : Tree}, t.Narrow w → t.eval w = .ok u →
    u.Typed ∧ HasType w t u.typ
  | .slot x, u, _, h => by
    rw [eval] at h
    obtain ⟨n, hn, h⟩ := bind_ok_iff.1 h
    cases h
    have hl : w.store.Live n := hs.live_of_slot (lookup_ok hn)
    rw [hs.books.typ_tree hl]
    exact ⟨hs.books.tree_typed hl, .slot (lookup_ok_iff.1 hn)⟩
  | .bvConst k v, u, _, h => by
    rw [eval] at h
    obtain ⟨hu, row⟩ := apply_sound (List.forall_mem_nil _) h
    exact ⟨hu, .bvConst row⟩
  | .bvZero k, u, _, h => by
    rw [eval] at h
    obtain ⟨hu, row⟩ := apply_sound (List.forall_mem_nil _) h
    exact ⟨hu, .bvZero row⟩
  | .boolConst b, u, _, h => by
    rw [eval] at h
    obtain ⟨hu, row⟩ := apply_sound (List.forall_mem_nil _) h
    exact ⟨hu, .boolConst row⟩
  | .arrayRef x, u, _, h => by
    rw [eval] at h
    obtain ⟨a, ha, h⟩ := bind_ok_iff.1 h
    obtain ⟨hu, row⟩ := apply_sound (List.forall_mem_nil _) h
    exact ⟨hu, .arrayRef (lookup_ok_iff.1 ha) row⟩
  | .varRef x, u, _, h => by
    rw [eval] at h
    obtain ⟨v, hv, h⟩ := bind_ok_iff.1 h
    obtain ⟨hu, row⟩ := apply_sound (List.forall_mem_nil _) h
    exact ⟨hu, .varRef (lookup_ok_iff.1 hv) row⟩
  | .pointer a o, u, hn, h => by
    rw [eval] at h
    obtain ⟨va, ha, h⟩ := bind_ok_iff.1 h
    obtain ⟨vo, ho, h⟩ := bind_ok_iff.1 h
    obtain ⟨ta, ha⟩ := typed_of_eval hs a hn.1 ha
    obtain ⟨tb, ho⟩ := typed_of_eval hs o hn.2 ho
    obtain ⟨hu, row⟩ := apply_sound (by simpa [Form.operands] using ⟨ta, tb⟩) h
    exact ⟨hu, .pointer ha ho row⟩
  | .load a o, u, hn, h => by
    rw [eval] at h
    obtain ⟨va, ha, h⟩ := bind_ok_iff.1 h
    obtain ⟨vo, ho, h⟩ := bind_ok_iff.1 h
    obtain ⟨ta, ha⟩ := typed_of_eval hs a hn.1 ha
    obtain ⟨tb, ho⟩ := typed_of_eval hs o hn.2 ho
    obtain ⟨hu, row⟩ := apply_sound (by simpa [Form.operands] using ⟨ta, tb⟩) h
    exact ⟨hu, .load ha ho row⟩
  | .call x args, u, hn, h => by
    rw [eval] at h
    obtain ⟨c, hc, h⟩ := bind_ok_iff.1 h
    obtain ⟨vs, hv, h⟩ := bind_ok_iff.1 h
    obtain ⟨tv, hv⟩ := typed_of_evalList hs args hn hv
    obtain ⟨hu, row⟩ := apply_sound (f := .call c vs) tv h
    exact ⟨hu, .call (lookup_ok_iff.1 hc) hv row⟩
  | .bvExtract e offset width, u, hn, h => by
    rw [eval] at h
    obtain ⟨v, hv, h⟩ := bind_ok_iff.1 h
    obtain ⟨tv, hv⟩ := typed_of_eval hs e hn hv
    obtain ⟨hu, row⟩ := apply_sound (by simpa [Form.operands] using tv) h
    exact ⟨hu, .bvExtract hv row⟩
  | .extend x e width, u, hn, h => by
    rw [eval] at h
    obtain ⟨v, hv, h⟩ := bind_ok_iff.1 h
    obtain ⟨tv, hv⟩ := typed_of_eval hs e hn hv
    obtain ⟨hu, row⟩ := apply_sound (by simpa [Form.operands] using tv) h
    exact ⟨hu, .extend hv row⟩
  | .unary op e, u, hn, h => by
    rw [eval] at h
    obtain ⟨v, hv, h⟩ := bind_ok_iff.1 h
    obtain ⟨tv, hv⟩ := typed_of_eval hs e hn hv
    obtain ⟨hu, row⟩ := apply_sound (by simpa [Form.operands] using tv) h
    exact ⟨hu, .unary hv row⟩
  | .binary op l r, u, hn, h => by
    rw [eval] at h
    obtain ⟨vl, hl, h⟩ := bind_ok_iff.1 h
    obtain ⟨vr, hr, h⟩ := bind_ok_iff.1 h
    obtain ⟨tl, hl⟩ := typed_of_eval hs l hn.1 hl
    obtain ⟨tr, hr⟩ := typed_of_eval hs r hn.2.1 hr
    obtain ⟨hu, row⟩ := apply_sound (by simpa [Form.operands] using ⟨tl, tr⟩) h
    refine ⟨hu, ?_⟩
    by_cases hop : op = .bvConcat
    · subst hop
      exact concat_typed (hn.2.2 rfl) hl hr row
    · exact .binary hop hl hr row

theorem typed_of_evalList (hs : w.Sound) : ∀ (ts : List Term) {us : List Tree}, NarrowList w ts →
    evalList w ts = .ok us → (∀ u ∈ us, u.Typed) ∧ HasTypes w ts (us.map Tree.typ)
  | [], us, _, h => by
    cases h
    exact ⟨List.forall_mem_nil _, .nil⟩
  | t :: ts, us, hn, h => by
    rw [evalList] at h
    obtain ⟨v, hv, h⟩ := bind_ok_iff.1 h
    obtain ⟨vs, hvs, h⟩ := bind_ok_iff.1 h
    cases h
    obtain ⟨tv, hv⟩ := typed_of_eval hs t hn.1 hv
    obtain ⟨tvs, hvs⟩ := typed_of_evalList hs ts hn.2 hvs
    exact ⟨List.forall_mem_cons.2 ⟨tv, tvs⟩, .cons hv hvs⟩

end

/-! ## What is typed is accepted -/

mutual

theorem eval_of_typed (hs : w.Sound) : ∀ {t : Term} {τ : Ty}, HasType w t τ →
    ∃ u, t.eval w = .ok u ∧ u.Typed ∧ u.typ = τ
  | _, _, .slot (n := n) h => by
    have hl : w.store.Live n := hs.live_of_slot (Table.mem_values_of_get? h)
    exact ⟨w.store.tree n, by rw [eval, lookup_ok_iff.2 h]; rfl, hs.books.tree_typed hl, hs.books.typ_tree hl⟩
  | _, _, .bvConst row => by
    rw [eval]
    exact apply_complete (List.forall_mem_nil _) row
  | _, _, .bvZero row => by
    rw [eval]
    exact apply_complete (List.forall_mem_nil _) row
  | _, _, .boolConst row => by
    rw [eval]
    exact apply_complete (List.forall_mem_nil _) row
  | _, _, .arrayRef h row => by
    rw [eval, lookup_ok_iff.2 h]
    exact apply_complete (f := .arrayRef _) (List.forall_mem_nil _) row
  | _, _, .varRef h row => by
    rw [eval, lookup_ok_iff.2 h]
    exact apply_complete (f := .varRef _) (List.forall_mem_nil _) row
  | _, _, .pointer ha ho row => by
    obtain ⟨va, ea, ta, rfl⟩ := eval_of_typed hs ha
    obtain ⟨vo, eo, tb, rfl⟩ := eval_of_typed hs ho
    rw [eval, ea, eo]
    exact apply_complete (f := .pointer va vo) (by simpa [Form.operands] using ⟨ta, tb⟩) row
  | _, _, .load ha ho row => by
    obtain ⟨va, ea, ta, rfl⟩ := eval_of_typed hs ha
    obtain ⟨vo, eo, tb, rfl⟩ := eval_of_typed hs ho
    rw [eval, ea, eo]
    exact apply_complete (f := .load va vo) (by simpa [Form.operands] using ⟨ta, tb⟩) row
  | _, _, .call h ha row => by
    obtain ⟨vs, es, ts, rfl⟩ := evalList_of_typed hs ha
    rw [eval, lookup_ok_iff.2 h, es]
    exact apply_complete (f := .call _ vs) ts row
  | _, _, .bvExtract he row => by
    obtain ⟨v, e, t, rfl⟩ := eval_of_typed hs he
    rw [eval, e]
    exact apply_complete (f := .bvExtract v _ _) (by simpa [Form.operands] using t) row
  | _, _, .extend he row => by
    obtain ⟨v, e, t, rfl⟩ := eval_of_typed hs he
    rw [eval, e]
    exact apply_complete (f := .extend _ v _) (by simpa [Form.operands] using t) row
  | _, _, .unary he row => by
    obtain ⟨v, e, t, rfl⟩ := eval_of_typed hs he
    rw [eval, e]
    exact apply_complete (f := .unary _ v) (by simpa [Form.operands] using t) row
  | _, _, .binary _ hl hr row => by
    obtain ⟨vl, el, tl, rfl⟩ := eval_of_typed hs hl
    obtain ⟨vr, er, tr, rfl⟩ := eval_of_typed hs hr
    rw [eval, el, er]
    exact apply_complete (f := .binary _ vl vr) (by simpa [Form.operands] using ⟨tl, tr⟩) row
  | _, _, .bvConcat (k := k) hl hr sum pos => by
    obtain ⟨vl, el, tl, hvl⟩ := eval_of_typed hs hl
    obtain ⟨vr, er, tr, hvr⟩ := eval_of_typed hs hr
    rw [eval, el, er]
    refine apply_complete (f := .binary .bvConcat vl vr) (by simpa [Form.operands] using ⟨tl, tr⟩) ?_
    rw [Form.map, hvl, hvr]
    exact concat_row sum pos

theorem evalList_of_typed (hs : w.Sound) : ∀ {ts : List Term} {τs : List Ty}, HasTypes w ts τs →
    ∃ us, evalList w ts = .ok us ∧ (∀ u ∈ us, u.Typed) ∧ us.map Tree.typ = τs
  | _, _, .nil => ⟨[], rfl, List.forall_mem_nil _, rfl⟩
  | _, _, .cons h hs' => by
    obtain ⟨v, e, t, rfl⟩ := eval_of_typed hs h
    obtain ⟨vs, es, ts, rfl⟩ := evalList_of_typed hs hs'
    exact ⟨v :: vs, by rw [evalList, e, es]; rfl, List.forall_mem_cons.2 ⟨t, ts⟩, rfl⟩

end

end Term

namespace Workspace

variable {w : Workspace}

/-- **Acceptance is typing**: in every reachable workspace a term is accepted exactly if it has a type as it is written;
its type is unique, and the node that it evaluates to has it, over a tree that stands in the table at every node. -/
theorem Reachable.accepts_iff_typed (h : w.Reachable) {t : Term} (hn : t.Narrow w) :
    ((∃ n w', t.build w = .ok n w') ↔ ∃ τ, HasType w t τ) ∧
    ∀ n w', t.build w = .ok n w' →
      (∀ τ, HasType w t τ ↔ w'.store.typ n = τ) ∧ (w'.store.tree n).Typed ∧ w'.store.Typed := by
  have hs := h.sound
  have hy := hs.yields t
  refine ⟨⟨?_, ?_⟩, fun n w' hr => ?_⟩
  · rintro ⟨n, w', hr⟩
    obtain ⟨-, u, -, he⟩ := Build.Ends.ok hy hr
    exact ⟨_, (Term.typed_of_eval hs t hn he).2⟩
  · rintro ⟨τ, ht⟩
    obtain ⟨u, hu, -⟩ := Term.eval_of_typed hs ht
    cases hr : t.build w with
    | ok n w' => exact ⟨n, w', rfl⟩
    | error e w' => exact nomatch hu.symm.trans (Build.Ends.error hy hr).2.2
  · obtain ⟨hg, u, ⟨hl, rfl⟩, he⟩ := Build.Ends.ok hy hr
    have hb' := hg.books hs.books
    obtain ⟨tu, hu⟩ := Term.typed_of_eval hs t hn he
    rw [hb'.typ_tree hl] at hu
    refine ⟨fun τ => ⟨fun ht => ?_, fun ht => ht ▸ hu⟩, tu, hb'.typed⟩
    obtain ⟨v, hv, -, rfl⟩ := Term.eval_of_typed hs ht
    cases he.symm.trans hv
    exact (hb'.typ_tree hl).symm

/-- Two constants of 16 bits, one after the other. -/
def concatenated : Term := .binary .bvConcat (.bvConst 16 7) (.bvConst 16 9)

theorem accepts_iff_typed_concatenated : concatenated.Narrow empty ∧
    (∃ n w', concatenated.build empty = .ok n w') ∧
    ∀ n w', concatenated.build empty = .ok n w' → w'.store.typ n = .bv 32 := by
  have narrow : concatenated.Narrow empty := ⟨trivial, trivial, fun _ k hk => by
    cases hk with
    | bvConst row =>
      cases row
      decide⟩
  have typed : HasType empty concatenated (.bv 32) :=
    .bvConcat (.bvConst (.bvConst (by decide))) (.bvConst (.bvConst (by decide))) (by decide) (by decide)
  obtain ⟨accepts, types⟩ := Reachable.accepts_iff_typed ⟨[], rfl⟩ narrow
  exact ⟨narrow, accepts.2 ⟨_, typed⟩, fun n w' hr => ((types n w' hr).1 _).1 typed⟩

end Workspace
end KernelIR
