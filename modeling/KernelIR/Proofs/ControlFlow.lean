import KernelIR.Proofs.Actions
import KernelIR.Proofs.Requests
/-!
# Control flow — every module is a closed world

A module takes a function over only when all its jumps stay inside it and its name is free, and never changes its blocks
afterwards.  So whatever a producer does, the names of a module's functions are distinct and indexed, its predicates are
truth values, and who walks from block to block along successors never leaves the function
(`Function.JumpsInRange.walks`).

A jump goes to a position.  It goes to the block that has its target as id where every block has its position as id
(`Function.Numbered`), which is so as long as no block gives its place to one of another id (`Workspace.KeepsIds`).
-/
namespace KernelIR

/-- The targets of a jump. -/
def Stmt.jump? (s : Stmt NodeId) : Option (List BlockId) :=
  match s.body with
  | .goto targets => some targets
  | _ => none

namespace Function

/-- Each block has its position as id. -/
def Numbered (f : Function) : Prop := ∀ (i : Nat) (b : Block), f.blocks[i]? = some b → b.id = ⟨i⟩

/-- Jumps go to positions that the function has. -/
def JumpsInRange (f : Function) : Prop :=
  ∀ b ∈ f.blocks, ∀ s ∈ b.stmts, ∀ ts, s.jump? = some ts → ∀ t ∈ ts, t.index < f.blocks.length

/-- Jumps go to blocks of the function. -/
def JumpsInside (f : Function) : Prop :=
  ∀ b ∈ f.blocks, ∀ s ∈ b.stmts, ∀ ts, s.jump? = some ts → ∀ t ∈ ts, ∃ b' ∈ f.blocks, b'.id = t

/-- The predicates of the contract are truth values. -/
def ContractTyped (typ : NodeId → Ty) (f : Function) : Prop := ∀ c ∈ f.clauses, typ c.pred = .bool

/-- A walk from block to block: each id is a successor of the block where the walk stands, and leads to the next one. -/
inductive Walks (f : Function) (b : Block) : List BlockId → Block → Prop
  | start : Walks f b [] b
  | follow {ts : List BlockId} {b' b'' : Block} {t : BlockId} (h : Walks f b ts b') (next : t ∈ b'.successors)
    (lands : f.block t.index = .ok b'') : Walks f b (ts ++ [t]) b''

end Function

/-- A live node that is a truth value. -/
def Store.Predicate (s : Store) (n : NodeId) : Prop := s.Live n ∧ s.typ n = .bool

/-- **A closed module**, over the nodes of a store. -/
structure Module.Closed (s : Store) (m : Module) : Prop where
  names : (m.functions.map (·.name)).Nodup
  index : ∀ y i, m.index.lookup y = some i ↔ ∃ f, m.functions[i]? = some f ∧ f.name = y
  axioms : ∀ n ∈ m.axioms, s.Predicate n
  requires : ∀ f ∈ m.functions, ∀ c ∈ f.requires, s.Predicate c.pred
  ensures : ∀ f ∈ m.functions, ∀ c ∈ f.ensures, s.Predicate c.pred
  jumps : ∀ f ∈ m.functions, f.JumpsInRange

/-! ## Jumps, successors and walks -/

theorem Block.successors_eq (b : Block) : b.successors = (b.stmts.filterMap (·.jump?)).flatten := by
  unfold successors
  induction b.stmts with
  | nil => rfl
  | cons s ss ih =>
    rw [List.flatMap_cons, List.filterMap_cons, ih, Stmt.jump?]
    cases s.body <;> rfl

theorem Block.mem_successors {b : Block} {t : BlockId} :
    t ∈ b.successors ↔ ∃ s ∈ b.stmts, ∃ ts, s.jump? = some ts ∧ t ∈ ts := by
  rw [successors_eq, List.mem_flatten]
  constructor
  · rintro ⟨ts, hts, ht⟩
    obtain ⟨s, hs, he⟩ := List.mem_filterMap.1 hts
    exact ⟨s, hs, ts, he, ht⟩
  · rintro ⟨s, hs, ts, he, ht⟩
    exact ⟨ts, List.mem_filterMap.2 ⟨s, hs, he⟩, ht⟩

namespace Function

variable {f : Function}

theorem block_ok {i : Nat} {b : Block} : f.block i = .ok b ↔ f.blocks[i]? = some b := by
  unfold block
  split
  · rename_i b' hb
    rw [hb, Except.ok.injEq, Option.some.injEq]
  · rename_i hb
    rw [hb]
    exact ⟨nofun, nofun⟩

theorem jumpsInRange_iff :
    f.JumpsInRange ↔ ∀ b ∈ f.blocks, ∀ t ∈ b.successors, t.index < f.blocks.length := by
  refine forall₂_congr fun b _ => ⟨fun h t ht => ?_, fun h s hs ts he t ht => ?_⟩
  · obtain ⟨s, hs, ts, he, ht⟩ := Block.mem_successors.1 ht
    exact h s hs ts he t ht
  · exact h t (Block.mem_successors.2 ⟨s, hs, ts, he, ht⟩)

theorem jumpsInside_iff :
    f.JumpsInside ↔ ∀ b ∈ f.blocks, ∀ t ∈ b.successors, ∃ b' ∈ f.blocks, b'.id = t := by
  refine forall₂_congr fun b _ => ⟨fun h t ht => ?_, fun h s hs ts he t ht => ?_⟩
  · obtain ⟨s, hs, ts, he, ht⟩ := Block.mem_successors.1 ht
    exact h s hs ts he t ht
  · exact h t (Block.mem_successors.2 ⟨s, hs, ts, he, ht⟩)

instance (f : Function) : Decidable f.JumpsInside := decidable_of_iff _ jumpsInside_iff.symm

/-- This is what a module asks of the jumps of a function. -/
theorem jumpsInRange_of_strayTarget? (closed : f.strayTarget? = none) : f.JumpsInRange :=
  jumpsInRange_iff.2 fun b hb t ht => by
    have := List.findSome?_eq_none_iff.1 closed b hb
    rw [Option.map_eq_none_iff, List.find?_eq_none] at this
    simpa using this t ht

/-- **No walk leaves the function**: wherever it stands, every successor leads to a block. -/
theorem JumpsInRange.walks (h : f.JumpsInRange) {b b' : Block} {ts : List BlockId} (hb : b ∈ f.blocks)
    (hw : f.Walks b ts b') : b' ∈ f.blocks ∧ ∀ t ∈ b'.successors, ∃ b'' ∈ f.blocks, f.block t.index = .ok b'' := by
  have inside : b' ∈ f.blocks := by
    cases hw with
    | start => exact hb
    | follow _ _ lands => exact List.mem_of_getElem? (block_ok.1 lands)
  refine ⟨inside, fun t ht => ?_⟩
  have lt := jumpsInRange_iff.1 h b' inside t ht
  exact ⟨f.blocks[t.index], List.getElem_mem lt, block_ok.2 (List.getElem?_eq_getElem lt)⟩

namespace Numbered

theorem id_eq (h : f.Numbered) {t : BlockId} {b : Block} (lands : f.block t.index = .ok b) : b.id = t :=
  h _ _ (block_ok.1 lands)

/-- **A walk lands on the block whose id it follows.** -/
theorem walks (h : f.Numbered) {b b' : Block} {ts : List BlockId} (hw : f.Walks b ts b') {t : BlockId}
    (last : ts.getLast? = some t) : b'.id = t := by
  cases hw with
  | start => cases last
  | follow _ _ lands =>
    rw [List.getLast?_concat, Option.some.injEq] at last
    rw [h.id_eq lands, last]

theorem jumpsInside (h : f.Numbered) (inRange : f.JumpsInRange) : f.JumpsInside :=
  jumpsInside_iff.2 fun b hb t ht => by
    obtain ⟨b', hb', lands⟩ := (inRange.walks hb .start).2 t ht
    exact ⟨b', hb', h.id_eq lands⟩

end Numbered

end Function

/-! ## What every change keeps -/

/-- What a module keeps of its functions: positions are indexed in order. -/
structure Module.Sane (typ : NodeId → Ty) (m : Module) : Prop where
  contracts : ∀ f ∈ m.functions, f.ContractTyped typ
  closed : ∀ f ∈ m.functions, f.strayTarget? = none
  names : (m.functions.map (·.name)).Nodup
  index : m.index = (m.functions.map (·.name)).zipIdx
  axioms : ∀ n ∈ m.axioms, typ n = .bool

/-- What holds of each object by itself. -/
def Owned.Sane (typ : NodeId → Ty) : Owned → Prop
  | .stmt _ | .block _ => True
  | .function f => f.ContractTyped typ
  | .module m => m.Sane typ

/-- In every function of the object each block has its position as id. -/
def Owned.Numbered (o : Owned) : Prop := ∀ f ∈ o.functions, f.Numbered

theorem Owned.numbered_function {f : Function} : (Owned.function f).Numbered ↔ f.Numbered :=
  List.forall_mem_singleton

/-- In a list without repetitions, an entry is found at its position. -/
theorem lookup_zipIdx {y : Symbol} {i : Nat} : ∀ {l : List Symbol} (k : Nat), l.Nodup →
    ((l.zipIdx k).lookup y = some i ↔ k ≤ i ∧ l[i - k]? = some y)
  | [], k, _ => by simp
  | z :: l, k, h => by
    obtain ⟨hz, hl⟩ := List.nodup_cons.1 h
    rw [List.zipIdx_cons, List.lookup_cons]
    by_cases hy : y = z
    · subst hy
      rw [beq_self_eq_true]
      constructor
      · rintro ⟨⟩
        simp
      · rintro ⟨hk, hi⟩
        by_cases hki : i = k
        · rw [hki]
        · rw [show i - k = (i - k - 1) + 1 by omega, List.getElem?_cons_succ] at hi
          exact absurd (List.mem_of_getElem? hi) hz
    · rw [beq_eq_false_iff_ne.2 hy]
      refine (lookup_zipIdx (k + 1) hl).trans ?_
      constructor
      · rintro ⟨hk, hi⟩
        refine ⟨by omega, ?_⟩
        rwa [show i - k = (i - (k + 1)) + 1 by omega, List.getElem?_cons_succ]
      · rintro ⟨hk, hi⟩
        by_cases hki : i = k
        · rw [hki, Nat.sub_self, List.getElem?_cons_zero, Option.some.injEq] at hi
          exact absurd hi.symm hy
        · rw [show i - k = (i - (k + 1)) + 1 by omega, List.getElem?_cons_succ] at hi
          exact ⟨by omega, hi⟩

namespace Module.Sane

variable {typ : NodeId → Ty} {m : Module}

theorem toClosed {s : Store} (h : m.Sane s.typ) (live : ∀ n ∈ m.held, s.Live n) : m.Closed s := by
  have clause : ∀ f ∈ m.functions, ∀ c ∈ f.clauses, s.Predicate c.pred := fun f hf c hc => by
    have held : c.pred ∈ f.held := List.mem_append_right _ (List.mem_map_of_mem hc)
    exact ⟨live _ (List.mem_append_left _ (List.mem_flatMap.2 ⟨f, hf, held⟩)), h.contracts f hf c hc⟩
  refine ⟨h.names, fun y i => ?_, fun n hn => ?_, fun f hf c hc => ?_, fun f hf c hc => ?_, fun f hf => ?_⟩
  · rw [h.index, lookup_zipIdx 0 h.names]
    simp
  · exact ⟨live n (List.mem_append_right _ hn), h.axioms n hn⟩
  · exact clause f hf c (List.mem_append_left _ hc)
  · exact clause f hf c (List.mem_append_right _ hc)
  · exact Function.jumpsInRange_of_strayTarget? (h.closed f hf)

/-- A function whose name is free and whose jumps stay inside. -/
theorem accept {m' : Module} {f : Function} (h : m.Sane typ) (hf : f.ContractTyped typ)
    (fits : m.accept f = .ok m') : m'.Sane typ := by
  obtain ⟨stray, free, rfl⟩ := Module.accept_ok_iff.1 fits
  have fresh : f.name ∉ m.functions.map (·.name) := by
    rw [h.index, List.lookup_eq_none_iff] at free
    intro hm
    obtain ⟨i, hi, he⟩ := List.mem_iff_getElem.1 hm
    have := free (f.name, i) (List.mem_zipIdx_iff_getElem?.2 (List.getElem?_eq_some_iff.2 ⟨hi, he⟩))
    simp at this
  refine ⟨?_, ?_, ?_, ?_, h.axioms⟩
  · exact List.forall_mem_append.2 ⟨h.contracts, List.forall_mem_singleton.2 hf⟩
  · exact List.forall_mem_append.2 ⟨h.closed, List.forall_mem_singleton.2 stray⟩
  · rw [List.map_append, List.nodup_append]
    refine ⟨h.names, List.pairwise_singleton _ _, fun y hy z hz he => fresh ?_⟩
    rw [List.map_singleton, List.mem_singleton] at hz
    rwa [← hz, ← he]
  · rw [h.index, List.map_append, List.zipIdx_append]
    simp

/-- A function that keeps its name, its blocks and its contract. -/
theorem setFunction {f f' : Function} {i : Nat} (h : m.Sane typ) (here : m.functions[i]? = some f)
    (name : f'.name = f.name) (blocks : f'.blocks = f.blocks) (clauses : f'.clauses = f.clauses) :
    (m.setFunction i f').Sane typ := by
  obtain ⟨l₁, l₂, before, after⟩ := exists_set here f'
  have hf : f ∈ m.functions := List.mem_of_getElem? here
  have names : (m.setFunction i f').functions.map (·.name) = m.functions.map (·.name) := by
    rw [Module.setFunction, after, before]
    simp [name]
  -- what holds of every function, and of the new one
  have all : ∀ {P : Function → Prop}, (∀ g ∈ m.functions, P g) → (P f → P f') →
      ∀ g ∈ (m.setFunction i f').functions, P g := by
    intro P hP hf' g hg
    rcases List.mem_or_eq_of_mem_set hg with hg | rfl
    · exact hP g hg
    · exact hf' (hP f hf)
  refine ⟨all h.contracts ?_, all h.closed ?_, names ▸ h.names, ?_, h.axioms⟩
  · rw [Function.ContractTyped, Function.ContractTyped, clauses]
    exact id
  · rw [Function.strayTarget?, Function.strayTarget?, blocks]
    exact id
  · rw [names]
    exact h.index

end Module.Sane

theorem Function.Numbered.setBlock {f : Function} (h : f.Numbered) {i : Nat} {b b' : Block}
    (here : f.blocks[i]? = some b) (id : b'.id = b.id) : (f.setBlock i b').Numbered := fun j c hc => by
  rw [Function.setBlock, List.getElem?_set] at hc
  split at hc
  · rename_i hij
    split at hc
    · cases hc
      rw [id, h i b here, hij]
    · cases hc
  · exact h j c hc

theorem Function.Numbered.addBlock {f : Function} (h : f.Numbered) (y : Symbol) : (f.addBlock y).Numbered :=
  fun i b hb => by
    rw [Function.addBlock, List.getElem?_append] at hb
    split at hb
    · exact h i b hb
    · rename_i hi
      obtain ⟨hj, rfl⟩ := List.getElem?_eq_some_iff.1 hb
      rw [List.length_singleton] at hj
      simp only [List.getElem_singleton, Block.new, BlockId.mk.injEq]
      omega

theorem sane_law : ObjectLaw .all fun read => Owned.Sane fun n => (read n).typ where
  congr {read read' o} same h := by
    have same : ∀ n ∈ o.held, (read' n).typ = (read n).typ := fun n hn => congrArg Node.typ (same n hn)
    have contract : ∀ f : Function, (∀ n ∈ f.held, (read' n).typ = (read n).typ) →
        f.ContractTyped (fun n => (read n).typ) → f.ContractTyped fun n => (read' n).typ :=
      fun f hf hc c hm => (hf _ (List.mem_append_right _ (List.mem_map_of_mem hm))).trans (hc c hm)
    cases o with
    | stmt | block => trivial
    | function f => exact contract f same h
    | module m =>
      refine { h with contracts := fun f hf => contract f (fun n hn => same n ?_) (h.contracts f hf), axioms := ?_ }
      · exact List.mem_append_left _ (List.mem_flatMap.2 ⟨f, hf, hn⟩)
      · exact fun n hn => (same n (List.mem_append_right _ hn)).trans (h.axioms n hn)
  change {w w' gone came} ch h := by
    cases ch with
    | same | drop => exact List.forall_mem_nil _
    | make | gather => exact List.forall_mem_singleton.2 trivial
    | blank hb =>
      refine List.forall_mem_singleton.2 ?_
      cases hb with
      | block => trivial
      | function y => exact List.forall_mem_nil _
      | module y model => exact ⟨nofun, nofun, .nil, rfl, nofun⟩
    | @place b s placed o o' free hb =>
      refine List.forall_mem_singleton.2 ?_
      have ho := h o (List.mem_cons_of_mem _ (List.mem_singleton_self o))
      cases hb with
      | loose => trivial
      | inFunction here => exact ho
    | @accept m m' f fits =>
      obtain ⟨hf, hm⟩ := List.forall_mem_cons.1 h
      exact List.forall_mem_singleton.2 ((List.forall_mem_singleton.1 hm).accept hf fits)
    | @edit f f' he =>
      have typed : f.ContractTyped w.store.typ := h _ (List.mem_singleton_self _)
      refine List.forall_mem_singleton.2 ?_
      cases he with
      | @addVar role v _ => cases role <;> exact typed
      | addBlock | addAttribute => exact typed
    | @addClause f n kind l meets =>
      have typed : f.ContractTyped w.store.typ := h _ (List.mem_singleton_self _)
      obtain ⟨requires, ensures⟩ := List.forall_mem_append.1 typed
      refine List.forall_mem_singleton.2 ?_
      have new : ∀ c ∈ [Clause.mk n l], w.store.typ c.pred = .bool :=
        List.forall_mem_singleton.2 (checkPredicate_iff.1 meets)
      cases kind with
      | requires => exact List.forall_mem_append.2 ⟨List.forall_mem_append.2 ⟨requires, new⟩, ensures⟩
      | ensures => exact List.forall_mem_append.2 ⟨requires, List.forall_mem_append.2 ⟨ensures, new⟩⟩
    | @freeze f o o' first _ hf =>
      have ho := List.forall_mem_singleton.1 h
      refine List.forall_mem_singleton.2 ?_
      cases hf with
      | loose => exact ho
      | inModule here => exact Module.Sane.setFunction ho here rfl rfl rfl
    | addArray r =>
      have hm := List.forall_mem_singleton.1 h
      exact List.forall_mem_singleton.2 ⟨hm.contracts, hm.closed, hm.names, hm.index, hm.axioms⟩
    | addAxiom meets =>
      have hm := List.forall_mem_singleton.1 h
      refine List.forall_mem_singleton.2 { hm with axioms := List.forall_mem_append.2 ⟨hm.axioms, ?_⟩ }
      exact List.forall_mem_singleton.2 (checkPredicate_iff.1 meets)

theorem numbered_law : ObjectLaw .all fun _ => Owned.Numbered where
  congr _ h := h
  change {w w' gone came} ch h := by
    cases ch with
    | same | drop => exact List.forall_mem_nil _
    | make | gather => exact List.forall_mem_singleton.2 nofun
    | blank hb =>
      refine List.forall_mem_singleton.2 ?_
      cases hb with
      | block | module => exact nofun
      | function => exact Owned.numbered_function.2 nofun
    | @place b s placed o o' free hb =>
      have ho := h o (List.mem_cons_of_mem _ (List.mem_singleton_self o))
      refine List.forall_mem_singleton.2 ?_
      cases hb with
      | loose => exact nofun
      | inFunction here => exact Owned.numbered_function.2 ((Owned.numbered_function.1 ho).setBlock here rfl)
    | @accept m m' f fits =>
      obtain ⟨hf, hm⟩ := List.forall_mem_cons.1 h
      obtain ⟨-, -, rfl⟩ := Module.accept_ok_iff.1 fits
      exact List.forall_mem_singleton.2 (List.forall_mem_append.2 ⟨List.forall_mem_singleton.1 hm, hf⟩)
    | @edit f f' he =>
      have numbered := Owned.numbered_function.1 (List.forall_mem_singleton.1 h)
      refine List.forall_mem_singleton.2 (Owned.numbered_function.2 ?_)
      cases he with
      | @addVar role v _ => cases role <;> exact numbered
      | addBlock y => exact numbered.addBlock y
      | addAttribute => exact numbered
    | @addClause f n kind l meets =>
      have numbered := Owned.numbered_function.1 (List.forall_mem_singleton.1 h)
      refine List.forall_mem_singleton.2 (Owned.numbered_function.2 ?_)
      cases kind <;> exact numbered
    | @freeze f o o' first _ hf =>
      have ho := List.forall_mem_singleton.1 h
      refine List.forall_mem_singleton.2 ?_
      cases hf with
      | loose =>
        have numbered := Owned.numbered_function.1 ho
        exact Owned.numbered_function.2 numbered
      | inModule here =>
        intro g hg
        rcases List.mem_or_eq_of_mem_set hg with hg | rfl
        · exact ho g hg
        · exact ho f (List.mem_of_getElem? here)
    | addArray | addAxiom =>
      have hm := List.forall_mem_singleton.1 h
      exact List.forall_mem_singleton.2 fun f hf => hm f hf

/-! ## What actions keep -/

/-- Where a block gives its place in a function to another one, that one has the position as id. -/
def Action.KeepsIds (w : Workspace) : Action → Prop
  | .exchangeBlock _ i x => ∀ b ∈ w.blocks.get? x, b.id = ⟨i⟩
  | .command _ | .copyHandle .. | .inspect .. => True

instance (w : Workspace) : (a : Action) → Decidable (a.KeepsIds w)
  | .exchangeBlock _ i x => inferInstanceAs (Decidable (∀ b ∈ w.blocks.get? x, b.id = ⟨i⟩))
  | .command _ | .copyHandle .. | .inspect .. => inferInstanceAs (Decidable True)

namespace Workspace

/-- No block gives its place to one of another id, over a list of actions. -/
def KeepsIds : Workspace → List Action → Prop
  | _, [] => True
  | w, a :: as => a.KeepsIds w ∧ (w.act a).2.KeepsIds as

instance : (w : Workspace) → (as : List Action) → Decidable (w.KeepsIds as)
  | _, [] => inferInstanceAs (Decidable True)
  | w, a :: as =>
    have := instDecidableKeepsIds (w.act a).2 as
    inferInstanceAs (Decidable (a.KeepsIds w ∧ (w.act a).2.KeepsIds as))

variable {w : Workspace}

theorem acts_sane (as : List Action) :
    ∀ o ∈ (empty.acts as).owned, o.Sane fun n => ((empty.acts as).store.reader.node n).typ :=
  sane_law.acts (fun _ function _ => ⟨function, trivial⟩) as sound_empty nofun

theorem acts_closed (as : List Action) {m : Module} (hm : m ∈ (empty.acts as).modules.values) :
    m.Closed (empty.acts as).store := by
  have sane : m.Sane _ := acts_sane as _ (module_mem_owned hm)
  refine sane.toClosed fun _ hn => (sound_empty.acts as).books.live_of_held ?_
  exact List.mem_append_right _ (List.mem_flatMap.2 ⟨_, module_mem_owned hm, hn⟩)

theorem Reachable.closed (h : w.Reachable) {m : Module} (hm : m ∈ w.modules.values) : m.Closed w.store := by
  obtain ⟨cs, rfl⟩ := h
  rw [← acts_commands] at hm ⊢
  exact acts_closed _ hm

/-- **Ids stay positions** as long as no block gives its place to one of another id. -/
theorem Sound.acts_numbered : ∀ (as : List Action) {w : Workspace}, w.Sound → (∀ o ∈ w.owned, o.Numbered) →
    w.KeepsIds as → ∀ o ∈ (w.acts as).owned, o.Numbered
  | [], _, _, hq, _ => hq
  | a :: as, w, hw, hq, ⟨kept, rest⟩ => by
    refine acts_numbered as (hw.act a) (numbered_law.act hw hq ?_) rest
    rintro f i x fn b b' rfl hb hx numbered -
    have numbered := Owned.numbered_function.1 numbered
    exact ⟨Owned.numbered_function.2 (numbered.setBlock hb ((kept b' hx).trans (numbered i b hb).symm)), nofun⟩

/-- **Every module is a closed control-flow world**, whatever a producer does and is refused: its functions have
distinct names and the index has their positions; axioms and contracts are truth values; jumps go to positions of the
same function; the successors of a block are the targets of its jumps, one after the other; and a walk along successors,
of any length, never looks for a block that is not there.

In a function where each block has its position as id, jumps go to blocks of the function and a walk always finds the
block whose id it follows.  Every function of every module is such a one when no block gave its place to one of another
id. -/
theorem acts_control_closed (as : List Action) : ∀ m ∈ (empty.acts as).modules.values,
    m.Closed (empty.acts as).store ∧ (empty.KeepsIds as → ∀ f ∈ m.functions, f.Numbered) ∧
      ∀ f ∈ m.functions, (f.Numbered → f.JumpsInside) ∧ ∀ b ∈ f.blocks,
        b.successors = (b.stmts.filterMap (·.jump?)).flatten ∧ ∀ ts b', f.Walks b ts b' → b' ∈ f.blocks ∧
          (f.Numbered → ∀ t, ts.getLast? = some t → b'.id = t) ∧
            ∀ t ∈ b'.successors, ∃ b'' ∈ f.blocks, f.block t.index = .ok b'' ∧ (f.Numbered → b''.id = t) := by
  intro m hm
  have closed := acts_closed as hm
  refine ⟨closed, fun kept f hf => ?_, fun f hf => ⟨fun h => h.jumpsInside (closed.jumps f hf), fun b hb => ?_⟩⟩
  · exact sound_empty.acts_numbered as nofun kept _ (module_mem_owned hm) f hf
  refine ⟨b.successors_eq, fun ts b' hw => ?_⟩
  obtain ⟨inside, next⟩ := (closed.jumps f hf).walks hb hw
  refine ⟨inside, fun h t last => h.walks hw last, fun t ht => ?_⟩
  obtain ⟨b'', hb'', lands⟩ := next t ht
  exact ⟨b'', hb'', lands, fun h => h.id_eq lands⟩

/-- A function with a loop, in a module.  Its first block came from outside, with the id of the place that it takes; the
module refuses a second function of the name. -/
def loopInModule : List Action :=
  [.command (.function "f" (some "f")), .command (.addBlock "f" "head"), .command (.addBlock "f" "body"),
    .command (.addStmt (.inFunction "f" 1) (.goto [⟨0⟩])), .command (.block ⟨0⟩ "other" (some "b")),
    .command (.addStmt (.loose "b") (.goto [⟨1⟩, ⟨1⟩])), .exchangeBlock "f" 0 "b",
    .command (.module "m" .spir (some "m")), .command (.addFunction "m" "f"), .command (.function "f" (some "g")),
    .command (.addFunction "m" "g")]

theorem control_closed_loopInModule :
    (((empty.acts loopInModule).modules.values.flatMap (·.functions)).flatMap (·.blocks)).map (·.successors) =
      [[⟨1⟩, ⟨1⟩], [⟨0⟩]] ∧
    ∀ m ∈ (empty.acts loopInModule).modules.values, m.Closed (empty.acts loopInModule).store ∧
      ∀ f ∈ m.functions, f.JumpsInside := by
  refine ⟨by decide, fun m hm => ?_⟩
  obtain ⟨closed, numbered, inside⟩ := acts_control_closed loopInModule m hm
  exact ⟨closed, fun f hf => (inside f hf).1 (numbered (by decide) f hf)⟩

/-- The first block of a function gives its place to one of another id, and the module takes the function. -/
def strangerInModule : List Action :=
  [.command (.function "f" (some "f")), .command (.addBlock "f" "entry"), .command (.addBlock "f" "exit"),
    .command (.addStmt (.inFunction "f" 1) (.goto [⟨0⟩])), .command (.block ⟨5⟩ "stranger" (some "b")),
    .exchangeBlock "f" 0 "b", .command (.module "m" .spir (some "m")), .command (.addFunction "m" "f")]

/-- The target of the jump is the id of no block, and who follows it comes to a block of another id. -/
theorem stray_walk_strangerInModule : ∃ m ∈ (empty.acts strangerInModule).modules.values, ∃ f ∈ m.functions,
    ¬ f.JumpsInside ∧ ∃ b ∈ f.blocks, ∃ b', f.Walks b [⟨0⟩] b' ∧ b'.id = ⟨5⟩ := by
  have built : ∃ m ∈ (empty.acts strangerInModule).modules.values, ∃ f ∈ m.functions, ¬ f.JumpsInside ∧
      ∃ b ∈ f.blocks, ⟨0⟩ ∈ b.successors ∧ ∃ b' ∈ f.blocks[0]?, b'.id = ⟨5⟩ := by decide
  obtain ⟨m, hm, f, hf, stray, b, hb, next, b', first, id⟩ := built
  exact ⟨m, hm, f, hf, stray, b, hb, b', .follow .start next (Function.block_ok.2 first), id⟩

end Workspace
end KernelIR
