import KernelIR.Proofs.Atomicity
import KernelIR.Proofs.Meaning
import KernelIR.Proofs.Rewriting
/-!
# NormalForm — what is built is the normal form of what is written

A constructor looks one level down and no deeper.  Over operands that are normal forms that is enough
(`Tree.normalize_written`): a sub-node that it answers with was normal, and a node that it makes has no rule at its
root.  So an accepted term comes to the normal form of the tree that it writes down (`Term.written_of_eval`), and along
a script every slot holds the normal form of what was written for it (`Workspace.Normalizes.step`), also where the slot
stands in for a term in later ones.

No live node has a redex (`Workspace.Reachable.normal`), so its tree can be built again as it is
(`Build.replay_succeeds`).

Main statement: `Workspace.normal_form_unique`.
-/
namespace KernelIR

theorem Form.shape_map {α β : Type} (g : α → β) (f : Form α) : (f.map g).shape = f.shape.map g := by
  cases f with
  | extend x e width => cases x <;> rfl
  | bvConst | bvZero | boolConst | arrayRef | varRef | pointer | load | call | bvExtract | unary | binary => rfl

theorem Form.map_id {α : Type} (f : Form α) : f.map id = f := by
  cases f <;> simp [Form.map]

theorem Form.operands_map {α β : Type} (g : α → β) (f : Form α) : (f.map g).operands = f.operands.map g := by
  cases f <;> rfl

namespace Tree

/-! ## One constructor -/

/-- The tree that a constructor writes down: the node that it names, and no rule applied. -/
def written (f : Form Tree) : Tree := .mk f.shape (f.map Tree.typ).typ

/-- A node that no rule of its constructor replaces stays as it is. -/
theorem simplify_plain {f : Form Tree} {t : Ty} (hf : ∀ v ∈ f.operands, v.Typed)
    (plain : ∀ b, ¬ Form.Simplifies reader f b) : simplify f.shape t = .mk f.shape t := by
  cases f with
  | unary op e =>
    cases hc : op.cancel? e.shape with
    | none => simp [Form.shape, simplify, hc]
    | some v => exact absurd (.cancel hc) (plain (.reuse v))
  | binary op l r =>
    cases hs : op.addends? l.shape r.shape with
    | none => simp [Form.shape, simplify, hs]
    | some p =>
      obtain ⟨rfl, hl, hr⟩ := BinaryOp.addends_iff.1 hs
      obtain ⟨w, -, hw, -⟩ := (hf l (List.mem_cons_self ..)).node.const hl
      exact absurd (.sum hl hr hw) (plain _)
  | extend x e width => cases x <;> rfl
  | bvConst | bvZero | boolConst | arrayRef | varRef | pointer | load | call | bvExtract => rfl

/-- A rule of a constructor is the rule at the root of its node. -/
theorem simplify_rule {f : Form Tree} {b : Built Tree} : Form.Simplifies reader f b →
    simplify f.shape (b.typ reader) = match b with | .reuse v => v | .fresh s t => .mk s t := by
  intro h
  cases h with
  | @cancel op e x hc =>
    change op.cancel? e.shape = some x at hc
    simp [Form.shape, simplify, hc]
  | @sum l r m n w hl hr hw =>
    have hs : BinaryOp.addends? .bvAdd l.shape r.shape = some (m, n) := BinaryOp.addends_iff.2 ⟨rfl, hl, hr⟩
    simp [Form.shape, simplify, hs, Built.typ, Ty.width?]

/-- **One constructor builds the normal form**: over the normal forms of its operands it comes to that of the tree that
it writes down. -/
theorem normalize_written {f : Form Tree} {u : Tree} (hf : ∀ v ∈ f.operands, v.Typed)
    (h : Tree.construct (f.map normalize) = .ok u) : (written f).Typed ∧ normalize (written f) = u := by
  obtain ⟨b, hb, rfl⟩ := construct_ok h
  have operands : ∀ v ∈ (f.map normalize).operands, v.Typed := fun v hv => by
    rw [Form.operands_map] at hv
    obtain ⟨x, hx, rfl⟩ := List.mem_map.1 hv
    exact (hf x hx).normalize_typed.1
  obtain ⟨row, hs⟩ := Form.resolve_ok hb fun v hv => (operands v hv).node
  have types : (f.map normalize).map Tree.typ = f.map Tree.typ := by
    rw [Form.map_map]
    exact Form.map_congr fun v hv => (hf v hv).normalize_typed.2
  change Form.Typed ((f.map normalize).map Tree.typ) (b.typ reader) at row
  rw [types] at row
  have ht : (f.map Tree.typ).typ = b.typ reader := row.typ_eq
  refine ⟨.mk ?_ fun v hv => hf v (Form.shape_operands f ▸ hv), ?_⟩
  · rw [ht]
    exact Form.typed_shape row
  rw [written, normalize_mk, ← Form.shape_map, ht]
  rcases hs with hs | ⟨plain, t, rfl⟩
  · exact simplify_rule hs
  · exact simplify_plain operands plain

end Tree

/-! ## Terms -/

/-- **The slots hold the normal forms of what was written for them.** -/
def Workspace.Normalizes (w : Workspace) (ρ : Table Tree) : Prop :=
  ∀ {x n}, w.exprs.get? x = some n → ∃ r, ρ.get? x = some r ∧ r.Typed ∧ r.normalize = w.store.tree n

namespace Term

section Written

variable (w : Workspace) (ρ : Table Tree)

mutual

/-- The tree that a term writes down, where `ρ` tells what was written for the slots. -/
def written : Term → Option Tree
  | .slot x => ρ.get? x
  | .bvConst k v => return Tree.written (.bvConst k v)
  | .bvZero k => return Tree.written (.bvZero k)
  | .boolConst b => return Tree.written (.boolConst b)
  | .arrayRef a => return Tree.written (.arrayRef (← w.arrays.get? a))
  | .varRef v => return Tree.written (.varRef (← w.vars.get? v))
  | .pointer a o => return Tree.written (.pointer (← a.written) (← o.written))
  | .load a o => return Tree.written (.load (← a.written) (← o.written))
  | .call c args => return Tree.written (.call (← w.callees.get? c) (← writtenList args))
  | .bvExtract e offset width => return Tree.written (.bvExtract (← e.written) offset width)
  | .extend x e width => return Tree.written (.extend x (← e.written) width)
  | .unary op e => return Tree.written (.unary op (← e.written))
  | .binary op l r => return Tree.written (.binary op (← l.written) (← r.written))

def writtenList : List Term → Option (List Tree)
  | [] => return []
  | t :: ts => return (← t.written) :: (← writtenList ts)

end

end Written

variable {w : Workspace} {ρ : Table Tree}

theorem apply_written {f : Form Tree} {u : Tree} (hf : ∀ v ∈ f.operands, v.Typed)
    (h : apply (f.map Tree.normalize) = .ok u) : ∃ r, some (Tree.written f) = some r ∧ r.Typed ∧ r.normalize = u :=
  ⟨_, rfl, Tree.normalize_written hf (apply_ok_iff.1 h)⟩

mutual

theorem written_of_eval (hs : w.Normalizes ρ) : ∀ (t : Term) {u : Tree}, t.eval w = .ok u →
    ∃ r, t.written w ρ = some r ∧ r.Typed ∧ r.normalize = u
  | .slot x, u, h => by
    rw [eval] at h
    obtain ⟨n, hn, h⟩ := bind_ok_iff.1 h
    cases h
    exact hs (lookup_ok_iff.1 hn)
  | .bvConst k v, u, h | .bvZero k, u, h | .boolConst b, u, h => by
    rw [eval] at h
    exact apply_written (List.forall_mem_nil _) h
  | .arrayRef x, u, h => by
    rw [eval] at h
    obtain ⟨a, ha, h⟩ := bind_ok_iff.1 h
    rw [written, lookup_ok_iff.1 ha]
    exact apply_written (List.forall_mem_nil _) h
  | .varRef x, u, h => by
    rw [eval] at h
    obtain ⟨v, hv, h⟩ := bind_ok_iff.1 h
    rw [written, lookup_ok_iff.1 hv]
    exact apply_written (List.forall_mem_nil _) h
  | .pointer a o, u, h => by
    rw [eval] at h
    obtain ⟨va, ha, h⟩ := bind_ok_iff.1 h
    obtain ⟨vo, ho, h⟩ := bind_ok_iff.1 h
    obtain ⟨ra, wa, ta, rfl⟩ := written_of_eval hs a ha
    obtain ⟨rb, wb, tb, rfl⟩ := written_of_eval hs o ho
    rw [written, wa, wb]
    exact apply_written (f := .pointer ra rb) (by simpa [Form.operands] using ⟨ta, tb⟩) h
  | .load a o, u, h => by
    rw [eval] at h
    obtain ⟨va, ha, h⟩ := bind_ok_iff.1 h
    obtain ⟨vo, ho, h⟩ := bind_ok_iff.1 h
    obtain ⟨ra, wa, ta, rfl⟩ := written_of_eval hs a ha
    obtain ⟨rb, wb, tb, rfl⟩ := written_of_eval hs o ho
    rw [written, wa, wb]
    exact apply_written (f := .load ra rb) (by simpa [Form.operands] using ⟨ta, tb⟩) h
  | .call x args, u, h => by
    rw [eval] at h
    obtain ⟨c, hc, h⟩ := bind_ok_iff.1 h
    obtain ⟨vs, hv, h⟩ := bind_ok_iff.1 h
    obtain ⟨rs, ws, ts, rfl⟩ := writtenList_of_evalList hs args hv
    rw [written, lookup_ok_iff.1 hc, ws]
    exact apply_written (f := .call c rs) ts h
  | .bvExtract e offset width, u, h => by
    rw [eval] at h
    obtain ⟨v, hv, h⟩ := bind_ok_iff.1 h
    obtain ⟨r, wr, tr, rfl⟩ := written_of_eval hs e hv
    rw [written, wr]
    exact apply_written (f := .bvExtract r offset width) (by simpa [Form.operands] using tr) h
  | .extend x e width, u, h => by
    rw [eval] at h
    obtain ⟨v, hv, h⟩ := bind_ok_iff.1 h
    obtain ⟨r, wr, tr, rfl⟩ := written_of_eval hs e hv
    rw [written, wr]
    exact apply_written (f := .extend x r width) (by simpa [Form.operands] using tr) h
  | .unary op e, u, h => by
    rw [eval] at h
    obtain ⟨v, hv, h⟩ := bind_ok_iff.1 h
    obtain ⟨r, wr, tr, rfl⟩ := written_of_eval hs e hv
    rw [written, wr]
    exact apply_written (f := .unary op r) (by simpa [Form.operands] using tr) h
  | .binary op l r, u, h => by
    rw [eval] at h
    obtain ⟨vl, hl, h⟩ := bind_ok_iff.1 h
    obtain ⟨vr, hr, h⟩ := bind_ok_iff.1 h
    obtain ⟨rl, wl, tl, rfl⟩ := written_of_eval hs l hl
    obtain ⟨rr, wr, tr, rfl⟩ := written_of_eval hs r hr
    rw [written, wl, wr]
    exact apply_written (f := .binary op rl rr) (by simpa [Form.operands] using ⟨tl, tr⟩) h

theorem writtenList_of_evalList (hs : w.Normalizes ρ) : ∀ (ts : List Term) {us : List Tree}, evalList w ts = .ok us →
    ∃ rs, writtenList w ρ ts = some rs ∧ (∀ r ∈ rs, r.Typed) ∧ rs.map Tree.normalize = us
  | [], us, h => by
    cases h
    exact ⟨[], rfl, List.forall_mem_nil _, rfl⟩
  | t :: ts, us, h => by
    rw [evalList] at h
    obtain ⟨v, hv, h⟩ := bind_ok_iff.1 h
    obtain ⟨vs, hvs, h⟩ := bind_ok_iff.1 h
    cases h
    obtain ⟨r, wr, tr, rfl⟩ := written_of_eval hs t hv
    obtain ⟨rs, wrs, trs, rfl⟩ := writtenList_of_evalList hs ts hvs
    rw [writtenList, wr, wrs]
    exact ⟨r :: rs, rfl, List.forall_mem_cons.2 ⟨tr, trs⟩, rfl⟩

end

end Term

/-! ## Nodes -/

/-- A constructor over normal forms answers with a normal form. -/
theorem Tree.Normal.construct {f : Form Tree} {u : Tree} (hf : ∀ v ∈ f.operands, v.Typed)
    (normal : ∀ v ∈ f.operands, v.Normal) (h : Tree.construct f = .ok u) : u.Normal := by
  have same : f.map Tree.normalize = f :=
    (Form.map_congr (g := id) fun v hv => (normal v hv).normalize_eq (hf v hv)).trans f.map_id
  obtain ⟨typed, rfl⟩ := Tree.normalize_written hf (same.symm ▸ h)
  exact typed.normalize_normal

/-- Every live node unfolds to a normal form. -/
def Store.Normal (s : Store) : Prop := ∀ n, s.Live n → (s.tree n).Normal

theorem Growth.normal {w w' : Workspace} {held evaluated : List NodeId} (h : Growth w w')
    (hb : w.store.Books held evaluated) (hn : w.store.Normal) : w'.store.Normal := by
  cases h with
  | intern | number => exact hn
  | @node f shape t live known made =>
    have operands := (hb.resolve live made).1
    intro n hl
    rcases Store.live_alloc.1 hl with rfl | hl
    · rw [hb.ordered.tree_alloc operands]
      have built := f.construct_tree (r := w.store.reader) fun m hm => hb.unfolds (live m hm)
      rw [made] at built
      refine Tree.Normal.construct (fun v hv => ?_) (fun v hv => ?_) built <;> rw [Form.operands_map] at hv <;>
        obtain ⟨m, hm, rfl⟩ := List.mem_map.1 hv
      · exact hb.tree_typed (live m hm)
      · exact hn m (live m hm)
    · rw [hb.ordered.extends_alloc.tree hl]
      exact hn n hl

/-- **No move makes a node that is not a normal form.** -/
theorem normal_invariant : Invariant .all fun c => c.Balanced ∧ c.ws.store.Normal := by
  refine ⟨And.left, fun {c c'} h m => ⟨m.balanced h.1, ?_⟩⟩
  rcases m.store_cases with hr | ⟨k, -, hr⟩ | ⟨-, hg⟩
  · intro n hn
    rw [hr.tree]
    exact h.2 n (hr.live_iff.1 hn)
  · intro n hn
    rw [hr] at hn ⊢
    have extended := Store.extends_mapCells (Store.recounts_prevent k) c.ws.store
    have live := (Store.live_mapCells (Store.recounts_prevent k) _).1 hn
    rw [Store.prevent, extended.tree live]
    exact h.2 n live
  · exact hg.normal h.1 h.2

/-! ## Scripts -/

namespace Workspace

variable {w : Workspace}

/-- An operand of the node that a slot holds. -/
def operand? (w : Workspace) (x : String) (i : Nat) : Option NodeId := do
  (w.store.cell (← w.exprs.get? x)).operands[i]?

/-- The slot that a command fills, and what is written down for it: the command's term, or the operand that it reads. -/
def writes (w : Workspace) (ρ : Table Tree) : Command → Option (String × Tree)
  | .expr e (some x) => (e.written w ρ).map (x, ·)
  | .operand y i (some x) => (w.operand? y i).map fun o => (x, w.store.tree o)
  | _ => none

/-- What is written for the slots after a command. -/
def record (w : Workspace) (ρ : Table Tree) (c : Command) : Table Tree :=
  match (w.step c).1, w.writes ρ c with
  | .ok _, some (x, r) => ρ.put x r
  | _, _ => ρ

/-- What a script writes for the slots. -/
def written (w : Workspace) (ρ : Table Tree) : List Command → Table Tree
  | [] => ρ
  | c :: cs => (w.step c).2.written (w.record ρ c) cs

/-- The expression slots that a row of moves may not fill stay as they are. -/
theorem exprs_invariant (a : Scope) (w : Workspace) : Invariant a fun c =>
    c.Balanced ∧ ∀ x, ¬ a.fills x → c.ws.exprs.get? x = w.exprs.get? x := by
  refine ⟨And.left, fun {c c'} h m => ⟨m.balanced h.1, fun x hx => (?_ : _ = _).trans (h.2 x hx)⟩⟩
  cases m with
  | assemble m => rw [m.sameSlots.exprs]
  | setExpr allowed => exact Table.get?_put_of_ne (by rintro rfl; exact hx allowed) _ _
  | eraseExpr allowed => exact Table.get?_erase_of_ne (by rintro rfl; exact hx allowed) _
  | take kind => rw [exprs_take]
  | @put hand w y o => cases o <;> rfl
  | place => rw [putBlock_tables]
  | freeze => rw [putFunction_tables]
  | setVar | eraseVar | setArray | setCallee | setLocs | prevent | blank | accept | edit | addClause | addArray
  | addAxiom => rfl

theorem Sound.step_exprs (h : w.Sound) {c : Command} {x : String} (hx : x ∉ c.fills) :
    (w.step c).2.exprs.get? x = w.exprs.get? x := by
  have within : c.Within { Scope.all with fills := (· ∈ c.fills) } w :=
    { Command.within_all w c with fills := fun _ => id }
  obtain ⟨v, ⟨-, hv⟩, he⟩ := step_tidy_within (exprs_invariant _ w) ⟨h.books, fun _ _ => rfl⟩ within
  rw [he]
  exact hv x hx

/-- A failure leaves every expression slot as it is. -/
theorem Sound.exprs_of_error (h : w.Sound) {c : Command} {e : Failure} (he : (w.step c).1 = .error e) :
    (w.step c).2.exprs = w.exprs := by
  obtain ⟨v, remains, eq⟩ := h.remains_of_error he
  rw [eq]
  exact remains.slots.exprs.trans (exprs_emptied w _)

/-- A term that is kept fills its slot with a node of its tree. -/
theorem Sound.step_expr (h : w.Sound) {e : Term} {x : String} {r : Reply} (ok : (w.step (.expr e (some x))).1 = .ok r) :
    ∃ n, (w.step (.expr e (some x))).2.exprs.get? x = some n ∧
      e.eval w = .ok ((w.step (.expr e (some x))).2.store.tree n) := by
  have ends : (Command.perform (.expr e (some x))).Ends w (fun _ v =>
      v.store.Books v.held v.evaluated ∧ ∃ n, v.exprs.get? x = some n ∧ e.eval w = .ok (v.store.tree n))
      (fun _ _ => True) := by
    refine (Build.Ends.mono (h.yields e) (fun _ _ => id) fun _ _ _ => trivial).bind ?_
    intro n v hv
    obtain ⟨hg, u, ⟨live, rfl⟩, eval⟩ := hv
    have balanced : Config.Balanced ⟨[], v⟩ := Config.Balanced.invariant.grows (a := .all) h.books hg
    have kept : Config.Balanced ⟨[], v.setExpr x n⟩ := (Move.setExpr (a := .all) trivial live).balanced balanced
    have extends_store := (Move.setExpr (a := .all) (x := x) trivial live).extends_store balanced
    refine Build.ends_get (Build.Ends.bind (Build.ends_modify ?_) fun _ _ hv => hv)
    refine ⟨kept, n, Table.get?_put x n _, ?_⟩
    rw [eval, extends_store.tree live]
  obtain ⟨v, ⟨hb, n, hn, eval⟩, he⟩ := step_ok_of_ends ends ok
  have held : n ∈ v.held := List.mem_append_left _ (Table.mem_values_of_get? hn)
  rw [he]
  exact ⟨n, hn, eval.trans (congrArg Except.ok (hb.tree_sweep (hb.live_sweep held)).symm)⟩

/-- An operand that is kept is a node that was there. -/
theorem Sound.step_operand (h : w.Sound) {y : String} {i : Nat} {x : String} {r : Reply}
    (ok : (w.step (.operand y i (some x))).1 = .ok r) :
    ∃ o, w.operand? y i = some o ∧ w.store.Live o ∧ (w.step (.operand y i (some x))).2.exprs.get? x = some o := by
  have ends : (Command.perform (.operand y i (some x))).Ends w (fun _ v =>
      ∃ o, w.operand? y i = some o ∧ w.store.Live o ∧ v.exprs.get? x = some o) (fun _ _ => True) := by
    refine Build.Ends.bind (Q := fun n v => v = w ∧ w.exprs.get? y = some n)
      (Build.ends_slot (fun _ hn => ⟨rfl, hn⟩) fun _ => trivial) ?_
    rintro n _ ⟨rfl, hn⟩
    refine Build.ends_get ?_
    split
    · rename_i o ho
      refine Build.Ends.bind (Build.ends_modify ?_) fun _ _ hv => hv
      have live := h.books.ordered.operands_live (List.mem_of_getElem? ho)
      exact ⟨o, by rw [operand?, hn]; exact ho, live, Table.get?_put x o _⟩
    · exact Build.ends_throw trivial
  obtain ⟨v, hv, he⟩ := step_ok_of_ends ends ok
  rw [he]
  exact hv

theorem step_dropExpr {x : String} {r : Reply} (ok : (w.step (.drop .expr x)).1 = .ok r) :
    (w.step (.drop .expr x)).2.exprs.get? x = none := by
  have ends : (Command.perform (.drop .expr x)).Ends w (fun _ v => v.exprs.get? x = none) (fun _ _ => True) := by
    refine Build.Ends.bind (Q := fun _ v => v.exprs.get? x = none) ?_ fun _ _ hv => hv
    refine Build.Ends.bind (Q := fun _ _ => True) Build.ends_trivial ?_
    intro _ v _
    exact Table.get?_erase x _
  obtain ⟨v, hv, he⟩ := step_ok_of_ends ends ok
  rw [he]
  exact hv

/-- A slot that a command does not fill holds the node that it held, and the node its tree. -/
theorem Normalizes.kept {ρ : Table Tree} (hρ : w.Normalizes ρ) (h : w.Sound) {c : Command} {x : String} {n : NodeId}
    (same : (w.step c).2.exprs.get? x = w.exprs.get? x) (hn : (w.step c).2.exprs.get? x = some n) :
    ∃ r, ρ.get? x = some r ∧ r.Typed ∧ r.normalize = (w.step c).2.store.tree n := by
  have before : w.exprs.get? x = some n := same ▸ hn
  rw [h.step_tree c (h.live_of_slot (Table.mem_values_of_get? before))
    ((h.step c).live_of_slot (Table.mem_values_of_get? hn))]
  exact hρ before

theorem fills_of_writes {ρ : Table Tree} {c : Command} {x : String} {r : Tree} (h : w.writes ρ c = some (x, r)) :
    x ∈ c.fills := by
  cases c with
  | expr e into | operand y i into =>
    cases into with
    | none => cases h
    | some z =>
      obtain ⟨r', -, he⟩ := Option.map_eq_some_iff.1 h
      cases he
      exact List.mem_singleton_self _
  | _ => cases h

/-- **A command keeps the slots in normal form**: the one that it fills holds the normal form of its term. -/
theorem Normalizes.step {ρ : Table Tree} (hρ : w.Normalizes ρ) (h : w.Sound) (normal : w.store.Normal) (c : Command) :
    (w.step c).2.Normalizes (w.record ρ c) := by
  intro x n hn
  cases hr : (w.step c).1 with
  | error e =>
    rw [record, hr]
    exact hρ.kept h (by rw [h.exprs_of_error hr]) hn
  | ok r =>
    rw [record, hr]
    by_cases hx : x ∈ c.fills
    · cases c with
      | expr e into =>
        obtain rfl : into = some x := Option.mem_toList.1 hx
        obtain ⟨m, hm, eval⟩ := h.step_expr hr
        obtain rfl : m = n := Option.some.inj (hm.symm.trans hn)
        obtain ⟨r', wr, typed, normal⟩ := Term.written_of_eval hρ e eval
        rw [writes, wr]
        exact ⟨r', Table.get?_put x r' ρ, typed, normal⟩
      | operand y i into =>
        obtain rfl : into = some x := Option.mem_toList.1 hx
        obtain ⟨o, ho, live, filled⟩ := h.step_operand hr
        obtain rfl : o = n := Option.some.inj (filled.symm.trans hn)
        have typed := h.books.tree_typed live
        rw [writes, ho, h.step_tree _ live ((h.step _).live_of_slot (Table.mem_values_of_get? hn))]
        exact ⟨_, Table.get?_put x _ ρ, typed, (normal o live).normalize_eq typed⟩
      | drop kind y =>
        cases kind with
        | expr =>
          obtain rfl : x = y := List.mem_singleton.1 hx
          rw [step_dropExpr hr] at hn
          cases hn
        | var | stmt | block | function | module => cases hx
      | _ => cases hx
    · obtain ⟨r', hr', normal⟩ := hρ.kept h (h.step_exprs hx) hn
      refine ⟨r', ?_, normal⟩
      split
      · rename_i y r'' _ written
        have other : x ≠ y := by
          rintro rfl
          exact hx (fills_of_writes written)
        exact (Table.get?_put_of_ne other _ _).trans hr'
      · exact hr'

theorem Sound.step_normal (h : w.Sound) (hn : w.store.Normal) (c : Command) : (w.step c).2.store.Normal := by
  obtain ⟨v, ⟨hb, normal⟩, he⟩ := step_tidy normal_invariant ⟨h.books, hn⟩ c
  rw [he]
  intro n live
  have books : v.store.Books v.held v.evaluated := hb
  change (v.store.sweep.tree n).Normal
  rw [books.tree_sweep live]
  exact normal n (books.live_of_sweep live)

/-- **Every node of a reachable workspace unfolds to a normal form.** -/
theorem Reachable.normal (h : w.Reachable) : w.store.Normal :=
  have both : w.Sound ∧ w.store.Normal :=
    h.induct (I := fun w => w.Sound ∧ w.store.Normal) ⟨sound_empty, fun _ hn => nomatch hn⟩ fun _ c hw =>
      ⟨hw.1.step c, hw.1.step_normal hw.2 c⟩
  both.2

theorem Normalizes.run : ∀ (cs : List Command) {w : Workspace} {ρ : Table Tree}, w.Sound → w.store.Normal →
    w.Normalizes ρ → (w.run cs).2.Normalizes (w.written ρ cs)
  | [], _, _, _, _, hρ => hρ
  | c :: cs, _, _, h, hn, hρ => Normalizes.run cs (h.step c) (h.step_normal hn c) (hρ.step h hn c)

end Workspace

/-! ## Replay -/

/-- Runs the operands from left to right. -/
def Shape.sequence {α : Type} : Shape (Build α) → Build (Shape α)
  | .bvConst v => return .bvConst v
  | .boolConst b => return .boolConst b
  | .arrayRef a => return .arrayRef a
  | .varRef v => return .varRef v
  | .pointer a o => return .pointer (← a) (← o)
  | .load a o => return .load (← a) (← o)
  | .call c args => return .call c (← args.mapM id)
  | .bvExtract e offset => return .bvExtract (← e) offset
  | .bvZExt e => return .bvZExt (← e)
  | .bvSExt e => return .bvSExt (← e)
  | .unary op e => return .unary op (← e)
  | .binary op l r => return .binary op (← l) (← r)

/-- Builds a tree again, every node by the constructor that it records, after its operands. -/
def Tree.replay : Tree → Build NodeId := Tree.fold fun s t => do Build.construct ((← s.sequence).form t)

theorem Tree.replay_mk (s : Shape Tree) (t : Ty) :
    replay (.mk s t) = (do Build.construct ((← (s.map replay).sequence).form t)) := fold_mk ..

/-- The constructor that a node in the table records names that node. -/
theorem Node.Typed.shape_form {α : Type} {typ : α → Ty} {s : Shape α} {t : Ty} (h : Node.Typed typ ⟨s, t⟩) :
    (s.form t).shape = s := by
  cases s with
  | bvConst v =>
    obtain ⟨w, -, hw, hv⟩ := h.const rfl
    obtain rfl : t = .bv w := hw
    exact congrArg Shape.bvConst (Form.wrap_of_lt hv)
  | boolConst | arrayRef | pointer | load | varRef | call | bvExtract | bvZExt | bvSExt | unary | binary => rfl

/-- The constructor that a normal form records comes to that normal form. -/
theorem Tree.Normal.construct_form {s : Shape Tree} {t : Ty} (h : Normal (.mk s t)) (ht : (Tree.mk s t).Typed) :
    Tree.construct (s.form t) = .ok (.mk s t) := by
  have typed : ∀ v ∈ (s.form t).operands, v.Typed := fun v hv => ht.operand (s.form_operands t ▸ hv)
  have normal : ∀ v ∈ (s.form t).operands, v.Normal := fun v hv => h.operand (s.form_operands t ▸ hv)
  obtain ⟨u, hu, -⟩ := construct_of_typed typed ht.node.inTable
  have same : (s.form t).map normalize = s.form t :=
    (Form.map_congr (g := id) fun v hv => (normal v hv).normalize_eq (typed v hv)).trans (s.form t).map_id
  have itself : written (s.form t) = .mk s t := by
    have node : Node.Typed Tree.typ ⟨s, t⟩ := ht.node
    have typ : ((s.form t).map Tree.typ).typ = t := node.inTable.typ_eq
    rw [written, node.shape_form, typ]
  have built : u = normalize (written (s.form t)) := (normalize_written typed (same.symm ▸ hu)).2.symm
  rw [hu, built, itself, h.normalize_eq ht]

namespace Build

variable {held evaluated : List NodeId} {v : Workspace} {α β : Type}

/-- The computation succeeds and adds only nodes. -/
def Succeeds (held evaluated : List NodeId) (v : Workspace) (R : Workspace → α → Prop) (act : Build α) : Prop :=
  act.Ends v (fun a v' => v'.store.Books held evaluated ∧ v.store.Extends v'.store ∧ R v' a) fun _ _ => False

theorem Succeeds.bind {R : Workspace → α → Prop} {S : Workspace → β → Prop} {act : Build α} {f : α → Build β}
    (h : Succeeds held evaluated v R act) (hf : ∀ a v', v'.store.Books held evaluated → R v' a →
      v.store.Extends v'.store → Succeeds held evaluated v' S (f a)) : Succeeds held evaluated v S (act >>= f) := by
  refine Ends.bind h ?_
  rintro a v' ⟨hb, hx, ha⟩
  refine Ends.mono (hf a v' hb ha hx) ?_ fun _ _ => id
  rintro b v'' ⟨hb, hx', hb'⟩
  exact ⟨hb, hx.trans hx', hb'⟩

theorem Succeeds.pure {R : Workspace → α → Prop} {a : α} (hb : v.store.Books held evaluated) (ha : R v a) :
    Succeeds held evaluated v R (pure a) := ends_pure ⟨hb, .refl _, ha⟩

theorem Succeeds.construct (hb : v.store.Books held evaluated) {f : Form NodeId} {u : Tree}
    (live : ∀ n ∈ f.operands, v.store.Live n) (h : Tree.construct (f.map v.store.tree) = .ok u) :
    Succeeds held evaluated v (Stands · · u) (construct f) := by
  refine Ends.mono (construct_builds hb live) ?_ ?_
  · rintro n v' ⟨hv, hn, built⟩
    obtain ⟨books, extended⟩ := hv.store hb live
    rw [h] at built
    exact ⟨books, extended, hn, (Except.ok.inj built).symm⟩
  · rintro e v' ⟨-, -, x, refused, -⟩
    rw [h] at refused
    cases refused

/-- One operand after the other. -/
theorem Succeeds.mapM {us : List Tree} {g : Tree → Build NodeId} (h : ∀ u ∈ us, ∀ v, v.store.Books held evaluated →
    Succeeds held evaluated v (Stands · · u) (g u)) (hb : v.store.Books held evaluated) :
    Succeeds held evaluated v (StandAll · · us) (us.mapM g) := by
  induction us generalizing v with
  | nil =>
    rw [List.mapM_nil]
    exact .pure hb ⟨List.forall_mem_nil _, rfl⟩
  | cons u us ih =>
    rw [List.mapM_cons]
    refine (h u (List.mem_cons_self ..) v hb).bind fun n v hb hn _ => ?_
    refine (ih (fun u hu => h u (List.mem_cons_of_mem _ hu)) hb).bind fun ns v hb hns hx => ?_
    refine .pure hb ⟨List.forall_mem_cons.2 ⟨hx.live hn.1, hns.1⟩, ?_⟩
    rw [List.map_cons, hx.tree hn.1, hn.2, hns.2]

/-- Operands that are built again stand for the operands of the tree. -/
theorem Succeeds.sequence {s : Shape Tree} {g : Tree → Build NodeId} (h : ∀ u ∈ s.operands, ∀ v,
    v.store.Books held evaluated → Succeeds held evaluated v (Stands · · u) (g u)) (hb : v.store.Books held evaluated) :
    Succeeds held evaluated v (fun v' s' => (∀ n ∈ s'.operands, v'.store.Live n) ∧ s'.map v'.store.tree = s)
      (s.map g).sequence := by
  have one : ∀ {e : Tree} {k : NodeId → Shape NodeId}, e ∈ s.operands → (∀ n, (k n).operands = [n]) →
      (∀ (v' : Workspace) n, v'.store.tree n = e → (k n).map v'.store.tree = s) →
      Succeeds held evaluated v (fun v' s' => (∀ n ∈ s'.operands, v'.store.Live n) ∧ s'.map v'.store.tree = s)
        (do return k (← g e)) := by
    intro e k he operands map
    refine (h e he v hb).bind fun n v hb hn _ => .pure hb ⟨?_, map v n hn.2⟩
    rw [operands]
    exact List.forall_mem_singleton.2 hn.1
  have two : ∀ {l r : Tree} {k : NodeId → NodeId → Shape NodeId}, l ∈ s.operands → r ∈ s.operands →
      (∀ n m, (k n m).operands = [n, m]) →
      (∀ (v' : Workspace) n m, v'.store.tree n = l → v'.store.tree m = r → (k n m).map v'.store.tree = s) →
      Succeeds held evaluated v (fun v' s' => (∀ n ∈ s'.operands, v'.store.Live n) ∧ s'.map v'.store.tree = s)
        (do return k (← g l) (← g r)) := by
    intro l r k hl hr operands map
    refine (h l hl v hb).bind fun n v hb hn _ => (h r hr v hb).bind fun m v hb hm hx => .pure hb ⟨?_, ?_⟩
    · rw [operands]
      exact List.forall_mem_cons.2 ⟨hx.live hn.1, List.forall_mem_singleton.2 hm.1⟩
    · exact map v n m ((hx.tree hn.1).trans hn.2) hm.2
  cases s with
  | bvConst | boolConst | arrayRef | varRef => exact .pure hb ⟨List.forall_mem_nil _, rfl⟩
  | bvExtract e offset =>
    exact one (k := (.bvExtract · offset)) (List.mem_singleton_self e) (fun _ => rfl) fun _ _ he => he ▸ rfl
  | bvZExt e => exact one (k := .bvZExt) (List.mem_singleton_self e) (fun _ => rfl) fun _ _ he => he ▸ rfl
  | bvSExt e => exact one (k := .bvSExt) (List.mem_singleton_self e) (fun _ => rfl) fun _ _ he => he ▸ rfl
  | unary op e => exact one (k := .unary op) (List.mem_singleton_self e) (fun _ => rfl) fun _ _ he => he ▸ rfl
  | pointer l r =>
    exact two (k := .pointer) (List.mem_cons_self ..) (by simp [Shape.operands]) (fun _ _ => rfl)
      fun _ _ _ hl hr => hl ▸ hr ▸ rfl
  | load l r =>
    exact two (k := .load) (List.mem_cons_self ..) (by simp [Shape.operands]) (fun _ _ => rfl)
      fun _ _ _ hl hr => hl ▸ hr ▸ rfl
  | binary op l r =>
    exact two (k := .binary op) (List.mem_cons_self ..) (by simp [Shape.operands]) (fun _ _ => rfl)
      fun _ _ _ hl hr => hl ▸ hr ▸ rfl
  | call c args =>
    change Succeeds held evaluated v _ (do return Shape.call c (← (args.map g).mapM id))
    rw [List.mapM_map]
    refine (Succeeds.mapM h hb).bind fun ns v hb hns _ => .pure hb ⟨hns.1, ?_⟩
    exact congrArg (Shape.call c) hns.2

/-- **A typed normal form is built again as it is**, by induction on the tree: no constructor simplifies. -/
theorem replay_succeeds {u : Tree} (typed : u.Typed) (normal : u.Normal) (hb : v.store.Books held evaluated) :
    Succeeds held evaluated v (Stands · · u) u.replay := by
  induction typed generalizing v with
  | @mk s t node operands ih =>
    rw [Tree.replay_mk]
    refine (Succeeds.sequence (fun u hu v hb => ih u hu (normal.operand hu) hb) hb).bind fun s' v hb hs _ => ?_
    obtain ⟨live, rfl⟩ := hs
    refine .construct hb (fun n hn => live n (s'.form_operands t ▸ hn)) ?_
    rw [← Shape.form_map]
    exact normal.construct_form (.mk node operands)

end Build

namespace Workspace

/-- **What is built is the unique normal form of what is written.**  Take any script and any term that is accepted after
it.  Written out in full, with what was written for the slots that it shares in their place, the term is a typed tree
(`Term.written`), and every maximal row of steps of the seven rules from that tree ends in the tree of the node that it
is answered with.  So no rule applies anywhere in a live node's tree, and replaying that tree through the constructors,
in any workspace that a script reaches, succeeds with an equal tree. -/
theorem normal_form_unique (cs : List Command) :
    (∀ {t : Term} {n : NodeId} {w' : Workspace}, t.build (empty.run cs).2 = .ok n w' →
      ∃ r, t.written (empty.run cs).2 (empty.written .empty cs) = some r ∧ r.Typed ∧ r.EndsIn (w'.store.tree n)) ∧
    ∀ {n : NodeId}, (empty.run cs).2.store.Live n → ((empty.run cs).2.store.tree n).Normal ∧
      ∀ v : Workspace, v.Reachable → ∃ m v', ((empty.run cs).2.store.tree n).replay v = .ok m v' ∧
        v'.store.tree m = (empty.run cs).2.store.tree n := by
  have reached : (empty.run cs).2.Reachable := ⟨cs, rfl⟩
  have sound := reached.sound
  refine ⟨fun {t n w'} built => ?_, fun {n} live => ⟨reached.normal n live, fun v hv => ?_⟩⟩
  · have slots : (empty.run cs).2.Normalizes (empty.written .empty cs) :=
      Normalizes.run cs sound_empty (fun _ hn => nomatch hn) fun hn => nomatch hn
    obtain ⟨-, u, ⟨-, rfl⟩, eval⟩ := Build.Ends.ok (sound.yields t) built
    obtain ⟨r, written, typed, normal⟩ := Term.written_of_eval slots t eval
    exact ⟨r, written, typed, normal ▸ typed.endsIn_normalize⟩
  · have succeeds := Build.replay_succeeds (sound.books.tree_typed live) (reached.normal n live) hv.sound.books
    cases hr : ((empty.run cs).2.store.tree n).replay v with
    | ok m v' => exact ⟨m, v', rfl, (succeeds.ok hr).2.2.2⟩
    | error e v' => exact (succeeds.error hr).elim

/-- A pointer in a slot. -/
def storedPointer : List Command :=
  [.module "m" .spir (some "m"), .addArray "m" "a" .global (some "a"),
    .expr (.pointer (.arrayRef "a") (.bvConst 8 200)) (some "p")]

/-- The sum of two offsets: the pointer of the slot stands in both, and in one of them once more inside a pointer. -/
def sumOfOffsets : Term :=
  .binary .bvAdd (.unary .arrayOffset (.slot "p"))
    (.unary .arrayOffset (.pointer (.unary .arrayId (.slot "p")) (.bvConst 8 100)))

/-- The offsets are only constants once they are projected; then they fold. -/
theorem normal_form_unique_sumOfOffsets :
    (∃ r, sumOfOffsets.written (empty.run storedPointer).2 (empty.written .empty storedPointer) = some r ∧
      r.size = 12 ∧ r.EndsIn (.mk (.bvConst 44) (.bv 8))) ∧
    ∃ m v', ((empty.run storedPointer).2.store.tree ⟨2⟩).replay (empty.run storedPointer).2 = .ok m v' ∧ m = ⟨5⟩ ∧
      v'.store.tree m = (empty.run storedPointer).2.store.tree ⟨2⟩ := by
  constructor
  · obtain ⟨r, hr, -, ends⟩ := (normal_form_unique storedPointer).1 (t := sumOfOffsets) rfl
    exact ⟨r, hr, by cases hr; rfl, ends⟩
  · have live : (empty.run storedPointer).2.store.Live ⟨2⟩ := List.mem_cons_self ..
    obtain ⟨m, v', hr, ht⟩ := ((normal_form_unique storedPointer).2 live).2 _ ⟨storedPointer, rfl⟩
    exact ⟨m, v', hr, by cases hr; rfl, ht⟩

end Workspace
end KernelIR
