import Mathlib.Data.UInt
import KernelIR.Proofs.Conversions
import KernelIR.Proofs.Meaning
/-!
# Extraction — chains of extractions stay inside their source

An extraction is refused unless it lies inside its operand.  In a chain each operand is the result of the step before,
so an accepted chain lies inside the node it starts from (`Extraction.Fits.sum_le`): its offsets add up without
wrapping, and the chain selects what one extraction at their sum would select
(`Interpretation.Selects.meaning_extracted`).  Nothing merges; every step makes a node.

Main statement: `Workspace.Reachable.extractions_in_range`.
-/
namespace KernelIR

/-- A step of a chain: what an extraction asks for. -/
structure Extraction where
  offset : UInt64
  width : UInt64

namespace Extraction

/-- **The step lies inside a source of `n` bits**, over unbounded integers, and it is not empty. -/
def Inside (n : UInt64) (e : Extraction) : Prop := 0 < e.width ∧ e.offset.toNat + e.width.toNat ≤ n.toNat

/-- The width of what a chain gives on a source of `n` bits. -/
def widthAfter (n : UInt64) : List Extraction → UInt64
  | [] => n
  | e :: es => widthAfter e.width es

/-- **Every step of the chain lies inside what the steps before it give.** -/
def Fits (n : UInt64) (es : List Extraction) : Prop :=
  ∀ pre e post, es = pre ++ e :: post → e.Inside (widthAfter n pre)

/-- Where the chain starts, counted from the lowest bit of its source. -/
def start (es : List Extraction) : Nat := (es.map (·.offset.toNat)).sum

end Extraction

/-- `a - b`, unless it underflows. -/
def checkedSub (a b : UInt64) : Option UInt64 := if b ≤ a then some (a - b) else none

/-- The range test of an extraction with a difference that reports when it underflows.  The difference is taken only
after the tests before it. -/
def extractFits? (source offset width : UInt64) : Option Bool :=
  if 0 < width then
    if width ≤ source then return offset ≤ (← checkedSub source width) else return false
  else return false

/-- The extractions of a chain, one on top of the other. -/
def Tree.extracted : List Extraction → Tree → Tree
  | [], u => u
  | e :: es, u => extracted es (.mk (.bvExtract u e.offset) (.bv e.width))

def Build.extract : List Extraction → NodeId → Build NodeId
  | [], x => return x
  | e :: es, x => do extract es (← construct (.bvExtract x e.offset e.width))

/-- The same chain, written as a term. -/
def Term.extracted : List Extraction → Term → Term
  | [], t => t
  | e :: es, t => extracted es (.bvExtract t e.offset e.width)

/-- **The chain that was made on `x`**: one new node for every step, numbered from `i` on, over the node before. -/
inductive Workspace.Extracts (v v' : Workspace) : Nat → NodeId → List Extraction → NodeId → Prop
  | nil {i : Nat} {x : NodeId} : Extracts v v' i x [] x
  | cons {i : Nat} {x r : NodeId} {e : Extraction} {es : List Extraction}
    (makes : v.Makes v' ⟨i⟩ (.bvExtract x e.offset) (.bv e.width)) (rest : Extracts v v' (i + 1) ⟨i⟩ es r) :
    Extracts v v' i x (e :: es) r

/-- **What an accepted chain on `x`, of `n` bits, comes to**, from `v` to `v'`: the chain was made and nothing else. -/
structure Workspace.ExtractsTo (v : Workspace) (n : UInt64) (x : NodeId) (es : List Extraction) (r : NodeId)
    (v' : Workspace) : Prop where
  live : v'.store.Live r
  typ : v'.store.typ r = .bv (Extraction.widthAfter n es)
  tree : v'.store.tree r = (v.store.tree x).extracted es
  chain : v.Extracts v' v.store.next x es r
  count : v'.store.next = v.store.next + es.length
  extended : v.store.Extends v'.store
  others : v' = { v with store := v'.store }

/-- The interpretation takes an extraction to the bits of its source from the offset on. -/
def Interpretation.Selects {A B : Type} {F : UInt64 → Type} (I : Interpretation A B F) : Prop :=
  ∀ {n offset width : UInt64} {x : Nat}, x < pow2 n → Extraction.Inside n ⟨offset, width⟩ →
    I.apply (.bvExtract ⟨.bv n, .bv x⟩ offset width) = .bv ((x >>> offset.toNat) % pow2 width)

/-! ## Ranges -/

/-- A difference that is taken is the one of unbounded integers. -/
theorem checkedSub_eq_some {a b c : UInt64} : checkedSub a b = some c ↔ c.toNat + b.toNat = a.toNat := by
  unfold checkedSub
  split
  · rename_i le
    have exact_ := UInt64.toNat_sub_of_le a b le
    have le := UInt64.le_iff_toNat_le.1 le
    rw [Option.some.injEq, ← UInt64.toNat_inj]
    omega
  · rename_i less
    rw [UInt64.le_iff_toNat_le] at less
    simp only [reduceCtorEq, false_iff]
    omega

/-- **The range test never takes a difference that underflows.** -/
theorem extractFits?_eq (source offset width : UInt64) :
    extractFits? source offset width = some (extractFits source offset width) := by
  unfold extractFits? extractFits
  by_cases pos : 0 < width
  · by_cases le : width ≤ source
    · have difference : checkedSub source width = some (source - width) :=
        checkedSub_eq_some.2 (by rw [UInt64.toNat_sub_of_le _ _ le, Nat.sub_add_cancel (UInt64.le_iff_toNat_le.1 le)])
      simp [pos, le, difference]
    · simp [pos, le]
  · simp [pos]

namespace Extraction

variable {n : UInt64} {e : Extraction} {es : List Extraction}

theorem fits_nil (n : UInt64) : Fits n [] := fun pre _ _ h => by cases pre <;> cases h

theorem fits_cons : Fits n (e :: es) ↔ e.Inside n ∧ Fits e.width es := by
  constructor
  · exact fun h => ⟨h [] e es rfl, fun pre e' post split => h (e :: pre) e' post (congrArg (e :: ·) split)⟩
  · rintro ⟨inside, fits⟩ pre e' post split
    cases pre with
    | nil =>
      cases split
      exact inside
    | cons d pre =>
      obtain ⟨rfl, rest⟩ := List.cons.inj split
      exact fits pre e' post rest

/-- A chain that does not fit has a first step that does not lie inside what it is taken of. -/
theorem first_outside : ∀ (es : List Extraction) {n : UInt64}, ¬ Fits n es →
    ∃ pre e post, es = pre ++ e :: post ∧ Fits n pre ∧ ¬ e.Inside (widthAfter n pre)
  | [], n, h => absurd (fits_nil n) h
  | e :: es, n, h => by
    by_cases inside : e.Inside n
    · obtain ⟨pre, d, post, rfl, fits, outside⟩ := first_outside es fun fits => h (fits_cons.2 ⟨inside, fits⟩)
      exact ⟨e :: pre, d, post, rfl, fits_cons.2 ⟨inside, fits⟩, outside⟩
    · exact ⟨[], e, es, rfl, fits_nil n, inside⟩

/-- **A chain that fits lies inside its source**, by induction on the chain: the rest of it lies inside the first
step. -/
theorem Fits.sum_le : ∀ {es : List Extraction} {n : UInt64}, Fits n es → start es + (widthAfter n es).toNat ≤ n.toNat
  | [], n, _ => Nat.le_of_eq (Nat.zero_add n.toNat)
  | e :: es, n, h => by
    obtain ⟨inside, fits⟩ := fits_cons.1 h
    have rest := fits.sum_le
    have first := inside.2
    rw [start, List.map_cons, List.sum_cons, widthAfter, Nat.add_assoc]
    exact Nat.le_trans (Nat.add_le_add_left rest _) first

/-- Offsets whose sum has 64 bits add up without wrapping. -/
theorem toNat_sum_offset : ∀ es : List Extraction, start es < 2 ^ 64 → (es.map offset).sum.toNat = start es
  | [], _ => rfl
  | e :: es, h => by
    rw [start, List.map_cons, List.sum_cons] at h
    have rest := toNat_sum_offset es (Nat.lt_of_le_of_lt (Nat.le_add_left _ _) h)
    rw [List.map_cons, List.sum_cons, UInt64.toNat_add, rest]
    exact Nat.mod_eq_of_lt h

end Extraction

open Extraction

/-! ## Bits -/

/-- The bits of floats, with one array, where extraction selects bits. -/
def Interpretation.slices : Interpretation Unit Bool fun w => BitVec w.toNat where
  apply
    | .bvExtract ⟨_, .bv x⟩ offset width => .bv ((x >>> offset.toNat) % pow2 width)
    | f => bits.apply f
  sound {f t} row hf := by
    split
    · cases row
      exact .bv (Nat.mod_lt _ (pow2_pos _))
    · exact bits.sound row hf
  bvConst := bits.bvConst
  bvZero := bits.bvZero
  bvAdd := bits.bvAdd
  pointer := bits.pointer
  arrayId := bits.arrayId
  arrayOffset := bits.arrayOffset
  inverse := bits.inverse

theorem Interpretation.selects_slices : slices.Selects := fun _ _ => rfl

/-- Bits of bits of a number are bits of the number. -/
theorem select_select {x a b c d : Nat} (h : c + d ≤ b) :
    (((x >>> a) % 2 ^ b) >>> c) % 2 ^ d = (x >>> (a + c)) % 2 ^ d := by
  refine Nat.eq_of_testBit_eq fun i => ?_
  simp only [Nat.testBit_mod_two_pow, Nat.testBit_shiftRight]
  by_cases hi : i < d
  · have hb : c + i < b := by omega
    simp only [hi, hb, decide_true, Bool.true_and, Nat.add_assoc]
  · simp only [hi, decide_false, Bool.false_and]

namespace Interpretation

variable {A B : Type} {F : UInt64 → Type} {I : Interpretation A B F}

theorem Selects.meaning_extract (selects : I.Selects) {n : UInt64} {e : Extraction} {u : Tree} {x : Nat}
    (hx : x < pow2 n) (inside : e.Inside n) (hu : I.meaning u = ⟨.bv n, .bv x⟩) :
    I.meaning (.mk (.bvExtract u e.offset) (.bv e.width)) =
      ⟨.bv e.width, .bv ((x >>> e.offset.toNat) % pow2 e.width)⟩ := by
  rw [Reading.meaning_mk]
  change Datum.mk _ (I.apply (.bvExtract (I.meaning u) e.offset e.width)) = _
  rw [hu, selects hx inside]

/-- **A chain selects what one extraction at the sum of the offsets would select.** -/
theorem Selects.meaning_extracted (selects : I.Selects) : ∀ (es : List Extraction) {n : UInt64} {u : Tree} {x : Nat},
    x < pow2 n → Fits n es → I.meaning u = ⟨.bv n, .bv x⟩ →
    I.meaning (u.extracted es) = ⟨.bv (widthAfter n es), .bv ((x >>> start es) % pow2 (widthAfter n es))⟩
  | [], n, u, x, hx, _, hu => by
    rw [Tree.extracted, hu]
    exact congrArg (fun y => Datum.mk _ (Value.bv y)) (Nat.mod_eq_of_lt hx).symm
  | e :: es, n, u, x, hx, h, hu => by
    obtain ⟨inside, fits⟩ := fits_cons.1 h
    have rest := selects.meaning_extracted es (Nat.mod_lt _ (pow2_pos _)) fits (selects.meaning_extract hx inside hu)
    rw [Tree.extracted, rest]
    exact congrArg (fun y => Datum.mk _ (Value.bv y)) (select_select fits.sum_le)

end Interpretation

/-! ## Chains -/

theorem Term.build_extracted : ∀ (es : List Extraction) (t : Term),
    (t.extracted es).build = t.build >>= Build.extract es
  | [], t => (bind_pure t.build).symm
  | e :: es, t => by
    rw [extracted, build_extracted es, build, bind_assoc]
    rfl

namespace Build

variable {v : Workspace} {held evaluated : List NodeId} {x : NodeId} {n : UInt64} {e : Extraction}

/-- A step that lies inside its source makes a node. -/
theorem resolve_extract (typed : v.store.typ x = .bv n) (inside : e.Inside n) :
    (Form.bvExtract x e.offset e.width).resolve v.store.reader =
      .ok (.fresh (.bvExtract x e.offset) (.bv e.width)) := by
  refine Form.resolveExtract_ok_iff.2 ⟨_, rfl, ?_⟩
  have node : v.store.reader.typ x = .bv n := typed
  rw [node]
  exact .bvExtract inside.1 inside.2

/-- A step that does not is refused. -/
theorem extract_refuses (typed : v.store.typ x = .bv n) (outside : ¬ e.Inside n) :
    construct (.bvExtract x e.offset e.width) v = .error (.refused (.extractRange e.width e.offset (.bv n))) v := by
  have node : (v.store.reader.node x).typ = .bv n := typed
  have refused : (Form.bvExtract x e.offset e.width).resolve v.store.reader =
      .error (.extractRange e.width e.offset (.bv n)) := by
    rw [Form.resolve, Form.resolveExtract, node]
    exact if_neg fun fits => outside (Form.extractFits_iff.1 fits)
  rw [run_construct, refused]

theorem extract_append : ∀ (pre post : List Extraction) (x : NodeId),
    extract (pre ++ post) x = extract pre x >>= extract post
  | [], post, x => (pure_bind x (extract post)).symm
  | e :: pre, post, x => by
    rw [List.cons_append, extract, extract, bind_assoc]
    exact congrArg _ (funext fun y => extract_append pre post y)

end Build

namespace Workspace

open Build

variable {v v' v'' w : Workspace} {held evaluated : List NodeId} {x r : NodeId} {n : UInt64} {es : List Extraction}

theorem Makes.alloc {m : NodeId} {shape : Shape NodeId} {t : Ty} (h : v.Makes v' m shape t) (hs : v'.store.Ordered)
    (shape' : Shape NodeId) (t' : Ty) : v.Makes { v' with store := (v'.store.alloc shape' t').2 } m shape t := by
  have cell : (v'.store.alloc shape' t').2.cell m =
      { v'.store.cell m with holders := (v'.store.cell m).holders + shape'.operands.count (v'.store.cell m).id } := by
    rw [Store.cell_alloc_of_ne (hs.ne_next h.live), Store.retain,
      Store.cell_mapCells (Store.recounts_holders _) _ h.live]
  exact ⟨h.new, Store.live_alloc.2 (.inr h.live), by rw [cell, h.shape_eq], by rw [cell, h.typ_eq],
    by rw [cell, h.evals], by rw [cell, h.prevented]⟩

theorem Extracts.mono (grows : ∀ {m}, v.store.Live m → v'.store.Live m) {i : Nat} (h : v'.Extracts v'' i x es r) :
    v.Extracts v'' i x es r := by
  induction h with
  | nil => exact .nil
  | cons makes _ ih => exact .cons { makes with new := fun live => makes.new (grows live) } ih

/-- **A chain that fits is made**, by induction on the chain.  What was made before it stays as it was made. -/
theorem extracts_of_fits : ∀ (es : List Extraction) {v : Workspace} {x : NodeId} {n : UInt64},
    v.store.Books held evaluated → v.store.Live x → v.store.typ x = .bv n → Fits n es →
    ∃ r v', extract es x v = .ok r v' ∧ v.ExtractsTo n x es r v' ∧
      ∀ {u : Workspace} {m : NodeId} {shape : Shape NodeId} {t : Ty}, u.Makes v m shape t → u.Makes v' m shape t
  | [], v, x, n, _, live, typed, _ => ⟨x, v, rfl, ⟨live, typed, rfl, .nil, rfl, .refl _, rfl⟩, id⟩
  | e :: es, v, x, n, hb, live, typed, h => by
    obtain ⟨inside, fits⟩ := fits_cons.1 h
    have resolved := resolve_extract typed inside
    have makes := makes_alloc hb.ordered (.bvExtract x e.offset) (.bv e.width)
    have extended : v.store.Extends (v.store.alloc (.bvExtract x e.offset) (.bv e.width)).2 := hb.ordered.extends_alloc
    have books := (hb.resolve (f := .bvExtract x e.offset e.width) (List.forall_mem_singleton.2 live) resolved).2
    obtain ⟨r, v', run, rest, keeps⟩ := extracts_of_fits es books makes.live makes.typ_eq fits
    refine ⟨r, v', (run_bind (run_fresh resolved) _).trans run,
      ⟨rest.live, rest.typ, ?_, ?_, ?_, extended.trans rest.extended, ?_⟩,
      fun made => keeps (made.alloc hb.ordered _ _)⟩
    · rw [rest.tree, makes.tree books extended (List.forall_mem_singleton.2 live)]
      rfl
    · exact .cons (keeps makes) (rest.chain.mono extended.live)
    · rw [rest.count, List.length_cons]
      exact (Nat.add_assoc _ _ _).trans (congrArg _ (Nat.add_comm 1 _))
    · rw [rest.others]

/-- **A chain that does not fit** is refused at its first step that lies outside, once the steps before it were made. -/
theorem extract_outside (hb : v.store.Books held evaluated) (live : v.store.Live x) (typed : v.store.typ x = .bv n)
    (unfit : ¬ Fits n es) : ∃ pre e post, es = pre ++ e :: post ∧ Fits n pre ∧ ¬ e.Inside (widthAfter n pre) ∧
      ∃ r v', extract pre x v = .ok r v' ∧
        extract es x v = .error (.refused (.extractRange e.width e.offset (.bv (widthAfter n pre)))) v' := by
  obtain ⟨pre, e, post, rfl, fits, outside⟩ := first_outside es unfit
  obtain ⟨r, v', run, made, -⟩ := extracts_of_fits pre hb live typed fits
  refine ⟨pre, e, post, rfl, fits, outside, r, v', run, ?_⟩
  rw [extract_append, run_bind run, extract, run_bind_error (extract_refuses made.typ outside)]

theorem extract_ok (hb : v.store.Books held evaluated) (live : v.store.Live x) (typed : v.store.typ x = .bv n)
    (run : extract es x v = .ok r v') : Fits n es ∧ v.ExtractsTo n x es r v' := by
  by_cases fits : Fits n es
  · obtain ⟨_, _, run', made, -⟩ := extracts_of_fits es hb live typed fits
    cases run.symm.trans run'
    exact ⟨fits, made⟩
  · obtain ⟨_, _, _, _, _, _, _, _, _, failed⟩ := extract_outside hb live typed fits
    cases run.symm.trans failed

/-- **Chains of extractions stay in range.**

The range test asks for the range over unbounded integers, and the difference in it never underflows.

Take any live node of `n` bits in the middle of any command.  A chain of extractions from it is accepted exactly if
every step is not empty and lies inside what the steps before it give.  Then every step makes a node over the one
before; the chain lies inside the node it starts from, its offsets add up in 64 bits, and where extraction selects bits,
the chain selects the bits from the sum of the offsets on.  Otherwise the chain is refused at its first step that lies
outside, once the steps before it were made. -/
theorem Reachable.extractions_in_range (h : w.Reachable) {hand : List Owned}
    (path : Relation.ReflTransGen (Move .all) ⟨[], w⟩ ⟨hand, v⟩) :
    (∀ (n : UInt64) (e : Extraction),
      extractFits? n e.offset e.width = some (extractFits n e.offset e.width) ∧
      (extractFits n e.offset e.width = true ↔ e.Inside n)) ∧
    ∀ (x : NodeId) (n : UInt64), v.store.Live x → v.store.typ x = .bv n → ∀ es : List Extraction,
      ((∃ r v', extract es x v = .ok r v') ↔ Fits n es) ∧
      (∀ r v', extract es x v = .ok r v' →
        v.ExtractsTo n x es r v' ∧
        start es + (widthAfter n es).toNat ≤ n.toNat ∧
        (es.map offset).sum.toNat = start es ∧
        ∀ {A B : Type} {F : UInt64 → Type} (I : Interpretation A B F), I.Selects → ∃ value < pow2 n,
          I.meaning (v.store.tree x) = ⟨.bv n, .bv value⟩ ∧
          I.meaning (v'.store.tree r) = ⟨.bv (widthAfter n es), .bv ((value >>> start es) % pow2 (widthAfter n es))⟩) ∧
      (¬ Fits n es → ∃ pre e post, es = pre ++ e :: post ∧ Fits n pre ∧ ¬ e.Inside (widthAfter n pre) ∧
        ∃ r v', extract pre x v = .ok r v' ∧
          extract es x v = .error (.refused (.extractRange e.width e.offset (.bv (widthAfter n pre)))) v') := by
  have books := Config.Balanced.invariant.path (c := ⟨[], w⟩) h.sound.books path
  refine ⟨fun n e => ⟨extractFits?_eq n e.offset e.width, Form.extractFits_iff⟩, fun x n live typed es => ?_⟩
  refine ⟨⟨fun ⟨r, v', run⟩ => (extract_ok books live typed run).1, fun fits => ?_⟩, fun r v' run => ?_,
    extract_outside books live typed⟩
  · obtain ⟨r, v', run, -⟩ := extracts_of_fits es books live typed fits
    exact ⟨r, v', run⟩
  · obtain ⟨fits, made⟩ := extract_ok books live typed run
    have inside := fits.sum_le
    have small : start es < 2 ^ 64 := by
      have bound := n.toNat_lt
      omega
    refine ⟨made, inside, toNat_sum_offset es small, fun I selects => ?_⟩
    obtain ⟨value, less, means⟩ := I.meaning_bv (books.tree_typed live) ((books.typ_tree live).trans typed)
    refine ⟨value, less, means, ?_⟩
    rw [made.tree]
    exact selects.meaning_extracted es less fits means

/-- A word. -/
def wholeWord : List Command := [.expr (.bvConst 32 0xABCD1234) (some "word")]

/-- Of bits 8 to 23 the chain takes bits 4 to 11, which are bits 12 to 19 of the word; it makes two nodes.  An offset
that would wrap is refused once the first node is made. -/
theorem extractions_in_range_wholeWord :
    (∃ r v', (Term.extracted [⟨8, 16⟩, ⟨4, 8⟩] (.slot "word")).build (empty.run wholeWord).2 = .ok r v' ∧
      v'.store.next = 3 ∧ v'.store.typ r = .bv 8 ∧
      Interpretation.slices.meaning (v'.store.tree r) = ⟨.bv 8, .bv 0xD1⟩) ∧
    ∃ v', extract [⟨8, 16⟩, ⟨0xFFFFFFFFFFFFFFFF, 2⟩] ⟨0⟩ (empty.run wholeWord).2 =
      .error (.refused (.extractRange 2 0xFFFFFFFFFFFFFFFF (.bv 16))) v' := by
  obtain ⟨-, chains⟩ := Reachable.extractions_in_range ⟨wholeWord, rfl⟩ .refl
  have live : (empty.run wholeWord).2.store.Live ⟨0⟩ := by decide
  constructor
  · obtain ⟨accepted, made, -⟩ := chains ⟨0⟩ 32 live rfl [⟨8, 16⟩, ⟨4, 8⟩]
    have fits : Fits 32 [⟨8, 16⟩, ⟨4, 8⟩] :=
      fits_cons.2 ⟨⟨by decide, by decide⟩, fits_cons.2 ⟨⟨by decide, by decide⟩, fits_nil 8⟩⟩
    obtain ⟨r, v', run⟩ := accepted.2 fits
    obtain ⟨comes, -, -, selected⟩ := made r v' run
    obtain ⟨value, -, word, part⟩ := selected Interpretation.slices Interpretation.selects_slices
    cases word
    refine ⟨r, v', ?_, comes.count, comes.typ, part⟩
    rw [Term.build_extracted]
    exact run
  · obtain ⟨-, -, refused⟩ := chains ⟨0⟩ 32 live rfl [⟨8, 16⟩, ⟨0xFFFFFFFFFFFFFFFF, 2⟩]
    have unfit : ¬ Fits 32 [⟨8, 16⟩, ⟨0xFFFFFFFFFFFFFFFF, 2⟩] := fun fits =>
      absurd (fits [⟨8, 16⟩] ⟨0xFFFFFFFFFFFFFFFF, 2⟩ [] rfl).2 (by decide)
    obtain ⟨pre, e, post, split, -, outside, r, v', -, failed⟩ := refused unfit
    rcases pre with - | ⟨d, - | ⟨d', pre⟩⟩
    · cases split
      exact absurd ⟨by decide, by decide⟩ outside
    · cases split
      exact ⟨v', failed⟩
    · cases pre <;> cases split

end Workspace
end KernelIR
