import Mathlib.Data.List.Flatten
import KernelIR.Proofs.ControlFlow
import KernelIR.Proofs.Immutability
import KernelIR.Proofs.Statements
import KernelIR.Proofs.Tame
/-!
# Ownership — every live statement has one owner, and its parent says which

A statement is owned by a slot, by a block, or by the indirect call that lists it.  The numbers tell owners apart: a
number is given out once and follows its statement from owner to owner, into the list of an indirect call as well, so no
two owners ever have a statement of the same number (`Config.Single`).  What is in hand or in a slot has no parent; a
statement gets its parent, the block, in the move that places it, and nothing takes a statement out of a block
(`settled_law`, `Move.heritage`).  So what joins a block is in none.

Main statement: `Workspace.Reachable.statements_owned_once`.
-/
namespace KernelIR

/-- Where a block is kept. -/
inductive BlockPlace where
  | loose (x : String)
  | inFunction (site : FunctionSite) (position : Nat)
  deriving DecidableEq

/-- Who owns a statement: a slot of the producer's, a block, or the indirect call with this number, which lists it. -/
inductive StmtOwner where
  | slot (x : String)
  | block (place : BlockPlace)
  | indirectCall (id : Nat)
  deriving DecidableEq

/-- The statement and the calls that it lists. -/
def Stmt.family (s : Stmt NodeId) : List (Stmt NodeId) := s :: s.nested

namespace Workspace

variable (w : Workspace)

/-- The live functions, with their places. -/
def functionsAt : List (FunctionSite × Function) :=
  w.functions.entries.map (fun e => (.loose e.1, e.2)) ++
    w.modules.entries.flatMap fun e => e.2.functions.zipIdx.map fun p => (.inModule e.1 p.2, p.1)

/-- The live blocks, with their places. -/
def blocksAt : List (BlockPlace × Block) :=
  w.blocks.entries.map (fun e => (.loose e.1, e.2)) ++
    w.functionsAt.flatMap fun e => e.2.blocks.zipIdx.map fun p => (.inFunction e.1 p.2, p.1)

/-- The statements in slots and in blocks, with their owners. -/
def stmtsAt : List (StmtOwner × Stmt NodeId) :=
  w.stmts.entries.map (fun e => (.slot e.1, e.2)) ++ w.blocksAt.flatMap fun e => e.2.stmts.map (.block e.1, ·)

/-- **All live statements, with their owners.** -/
def custody : List (StmtOwner × Stmt NodeId) :=
  w.stmtsAt ++ w.liveStmts.flatMap fun s => s.nested.map (.indirectCall s.id, ·)

end Workspace

/-! ## Parents -/

/-- The statements of a block have the block as parent; the calls that they list have none. -/
def Block.Settled (b : Block) : Prop := ∀ s ∈ b.stmts, s.parent = some b.id ∧ ∀ t ∈ s.nested, t.parent = none

/-- What is in no block has no parent, and what is in a block has the block. -/
def Owned.Settled : Owned → Prop
  | .stmt s => ∀ t ∈ s.family, t.parent = none
  | .block b => b.Settled
  | .function f => ∀ b ∈ f.blocks, b.Settled
  | .module m => ∀ f ∈ m.functions, ∀ b ∈ f.blocks, b.Settled

namespace Stmt

variable {s : Stmt NodeId} {r : Reader NodeId}

theorem mem_family_self (s : Stmt NodeId) : s ∈ s.family := List.mem_cons_self ..

/-- Only an indirect call lists calls. -/
theorem family_of_kind (h : s.kind ≠ .callMemberOf) : s.family = [s] := by
  unfold family nested
  split
  · rename_i hs
    exact absurd (congrArg StmtBody.kind hs) h
  · rfl

theorem family_newStmt {w : Workspace} {read : NodeId → Node NodeId} {body : StmtBody NodeId} {locs : Locs}
    (direct : body.Direct read) : (w.newStmt body locs).family = [w.newStmt body locs] :=
  family_of_kind (s := w.newStmt body locs) direct.plain

/-- The calls that are listed are the statements that went in. -/
theorem toStmt_filterMap_call? : ∀ {stmts : List (Stmt NodeId)}, (∀ s ∈ stmts, s.kind = .call) →
    (stmts.filterMap (·.call?)).map (·.toStmt) = stmts
  | [], _ => rfl
  | s :: stmts, all => by
    obtain ⟨hs, all⟩ := List.forall_mem_cons.1 all
    obtain ⟨c, hc⟩ := kind_eq_call_iff.1 hs
    rw [List.filterMap_cons_some hc, List.map_cons, toStmt_filterMap_call? all, ← call?_eq_some.1 hc]

theorem nested_newStmt {w : Workspace} {func : NodeId} {stmts : List (Stmt NodeId)} {calls : List (CallStmt NodeId)}
    {locs : Locs} (listed : stmts.mapM (asCall r) = .ok calls) :
    (w.newStmt (.callMemberOf func calls) locs).nested = stmts := by
  obtain ⟨all, rfl⟩ := mapM_asCall_iff.1 listed
  exact toStmt_filterMap_call? all

/-- A call lists nothing. -/
theorem families_of_asCall {stmts : List (Stmt NodeId)} {calls : List (CallStmt NodeId)}
    (listed : stmts.mapM (asCall r) = .ok calls) : stmts.flatMap (·.family) = stmts := by
  have all := (mapM_asCall_iff.1 listed).1
  have alone : ∀ s ∈ stmts, s.family = [s] := fun s hs => family_of_kind (by rw [all s hs]; nofun)
  rw [List.flatMap_congr alone, List.flatMap_singleton']

end Stmt

theorem Block.Settled.push {b : Block} {s placed : Stmt NodeId} (h : b.Settled) (free : s.place b.id = .ok placed)
    (hs : ∀ t ∈ s.family, t.parent = none) : (b.push placed).Settled := by
  obtain ⟨-, rfl⟩ := Stmt.place_ok free
  refine List.forall_mem_append.2 ⟨h, List.forall_mem_singleton.2 ⟨rfl, fun t ht => ?_⟩⟩
  exact hs t (List.mem_cons_of_mem _ ht)

/-- **Parents are settled, one change at a time.** -/
theorem settled_law : ObjectLaw .all fun _ => Owned.Settled where
  congr _ := id
  change {w w' gone came} ch h := by
    cases ch with
    | same | drop => exact List.forall_mem_nil _
    | make locs _ direct =>
      refine List.forall_mem_singleton.2 ?_
      rw [Owned.Settled, Stmt.family_newStmt direct]
      exact List.forall_mem_singleton.2 rfl
    | @gather func stmts calls locs _ listed =>
      refine List.forall_mem_singleton.2 (List.forall_mem_cons.2 ⟨rfl, ?_⟩)
      rw [Stmt.nested_newStmt listed]
      exact fun t ht => h _ (List.mem_map_of_mem ht) t t.mem_family_self
    | blank hb =>
      refine List.forall_mem_singleton.2 ?_
      cases hb with
      | block | function | module => exact List.forall_mem_nil _
    | place free hb =>
      obtain ⟨hs, ho⟩ := List.forall_mem_cons.1 h
      have ho := List.forall_mem_singleton.1 ho
      refine List.forall_mem_singleton.2 ?_
      cases hb with
      | loose => exact Block.Settled.push ho free hs
      | inFunction here =>
        intro b hb
        rcases List.mem_or_eq_of_mem_set hb with hb | rfl
        · exact ho b hb
        · exact (ho _ (List.mem_of_getElem? here)).push free hs
    | accept fits =>
      obtain ⟨hf, hm⟩ := List.forall_mem_cons.1 h
      obtain ⟨-, -, rfl⟩ := Module.accept_ok_iff.1 fits
      refine List.forall_mem_singleton.2 (List.forall_mem_append.2 ⟨List.forall_mem_singleton.1 hm, ?_⟩)
      exact List.forall_mem_singleton.2 hf
    | edit he =>
      have hf := List.forall_mem_singleton.1 h
      refine List.forall_mem_singleton.2 ?_
      cases he with
      | @addVar role v _ => cases role <;> exact hf
      | addBlock y => exact List.forall_mem_append.2 ⟨hf, List.forall_mem_singleton.2 (List.forall_mem_nil _)⟩
      | addAttribute y => exact hf
    | addClause kind =>
      have hf := List.forall_mem_singleton.1 h
      refine List.forall_mem_singleton.2 ?_
      cases kind <;> exact hf
    | @freeze f o o' _ _ hf =>
      have ho := List.forall_mem_singleton.1 h
      refine List.forall_mem_singleton.2 ?_
      cases hf with
      | loose => exact ho
      | inModule here =>
        intro g hg
        rcases List.mem_or_eq_of_mem_set hg with hg | rfl
        · exact ho g hg
        · exact ho f (List.mem_of_getElem? here)
    | addArray | addAxiom =>
      have hm := List.forall_mem_singleton.1 h
      exact List.forall_mem_singleton.2 hm

/-! ## Numbers -/

/-- All statements of a configuration, those that indirect calls list included. -/
def Config.families (c : Config) : List (Stmt NodeId) := (c.objects.flatMap (·.stmts)).flatMap (·.family)

/-- **A statement has one owner**: the numbers were given out, and none stands twice. -/
structure Config.Single (c : Config) : Prop where
  old : ∀ s ∈ c.families, s.id < c.ws.supply
  once : (c.families.map (·.id)).Nodup

/-- A row of moves from the statements `ss` on led here: what is as old as they are is one of them, with its parent if
it had one. -/
structure Config.Heritage (ss : List (Stmt NodeId)) (supply : Nat) (c : Config) : Prop where
  later : supply ≤ c.ws.supply
  same : ∀ s ∈ c.families, s.id < supply → ∃ t ∈ ss, t.id = s.id ∧ ∀ b, t.parent = some b → s.parent = some b

/-- What arises has a number of its own, unless its number is that of what is lost for it. -/
theorem Arises.ids {a : Scope} {w w' : Workspace} {lost : List (Stmt NodeId)} {s : Stmt NodeId}
    (h : Arises a w w' lost s) : ∃ new : List Nat, (new = [] ∨ new = [w.supply] ∧ w'.supply = w.supply + 1) ∧
      (s.family.map (·.id)).Subperm (new ++ (lost.flatMap (·.family)).map (·.id)) := by
  cases h with
  | made locs _ direct _ _ counted =>
    refine ⟨[w.supply], .inr ⟨rfl, counted⟩, ?_⟩
    rw [Stmt.family_newStmt direct]
    exact (List.sublist_append_left [w.supply] _).subperm
  | @gathered func calls locs _ listed counted =>
    refine ⟨[w.supply], .inr ⟨rfl, counted⟩, ?_⟩
    rw [Stmt.families_of_asCall listed, Stmt.family, Stmt.nested_newStmt listed]
    exact .refl _
  | @placed s _ b mem free =>
    obtain ⟨-, rfl⟩ := Stmt.place_ok free
    refine ⟨[], .inl rfl, ?_⟩
    have within := (List.singleton_sublist.2 mem).flatMap (·.family)
    rw [List.flatMap_singleton] at within
    exact (within.map (·.id)).subperm

/-- What arises is new, or is what is lost for it, with its parent if it had one. -/
theorem Arises.origin {a : Scope} {w w' : Workspace} {lost : List (Stmt NodeId)} {p : Stmt NodeId}
    (h : Arises a w w' lost p) : ∀ s ∈ p.family, s.id = w.supply ∨
      ∃ t ∈ lost.flatMap (·.family), t.id = s.id ∧ ∀ b, t.parent = some b → s.parent = some b := by
  cases h with
  | made locs _ direct =>
    rw [Stmt.family_newStmt direct]
    exact List.forall_mem_singleton.2 (.inl rfl)
  | @gathered func calls locs _ listed =>
    refine List.forall_mem_cons.2 ⟨.inl rfl, ?_⟩
    rw [Stmt.nested_newStmt listed, Stmt.families_of_asCall listed]
    exact fun s hs => .inr ⟨s, hs, rfl, fun _ => id⟩
  | @placed s _ b mem free =>
    obtain ⟨none, rfl⟩ := Stmt.place_ok free
    refine List.forall_mem_cons.2 ⟨.inr ⟨s, ?_, rfl, ?_⟩, fun t ht => .inr ⟨t, ?_, rfl, fun _ => id⟩⟩
    · exact List.mem_flatMap.2 ⟨s, mem, s.mem_family_self⟩
    · rw [none]
      nofun
    · exact List.mem_flatMap.2 ⟨s, mem, List.mem_cons_of_mem _ ht⟩

/-- The statements after a move, with what they list, are those before it but for one that arises. -/
theorem Move.families {a : Scope} {c c' : Config} (m : Move a c c') : ∃ (kept lost : List (Stmt NodeId))
    (new : Option (Stmt NodeId)), c.families.Perm (kept ++ lost.flatMap (·.family)) ∧
      c'.families.Perm (kept ++ new.toList.flatMap (·.family)) ∧ ∀ s ∈ new, Arises a c.ws c'.ws lost s := by
  obtain ⟨kept, lost, new, before, after, arise⟩ := m.stmts
  have before := before.flatMap_right (·.family)
  have after := after.flatMap_right (·.family)
  rw [List.flatMap_append] at before after
  exact ⟨_, lost, new, before, after, arise⟩

/-- **No number comes but the next one, and none comes twice.** -/
theorem Move.ids {a : Scope} {c c' : Config} (m : Move a c c') :
    ∃ new : List Nat, (new = [] ∨ new = [c.ws.supply] ∧ c'.ws.supply = c.ws.supply + 1) ∧
      (c'.families.map (·.id)).Subperm (new ++ c.families.map (·.id)) := by
  obtain ⟨kept, lost, p, before, after, arise⟩ := m.families
  have before := before.map (·.id)
  have after := after.map (·.id)
  rw [List.map_append] at before after
  cases p with
  | none =>
    rw [Option.toList_none, List.flatMap_nil, List.map_nil, List.append_nil] at after
    refine ⟨[], .inl rfl, after.subperm.trans ?_⟩
    exact (List.sublist_append_left _ _).subperm.trans before.symm.subperm
  | some p =>
    obtain ⟨new, fresh, within⟩ := (arise p rfl).ids
    rw [Option.toList_some, List.flatMap_singleton] at after
    refine ⟨new, fresh, after.subperm.trans (((List.subperm_append_left _).2 within).trans (List.Perm.subperm ?_))⟩
    calc (kept.map (·.id) ++ (new ++ (lost.flatMap (·.family)).map (·.id))).Perm
          (new ++ (kept.map (·.id) ++ (lost.flatMap (·.family)).map (·.id))) := List.perm_append_comm_assoc ..
      List.Perm _ (new ++ c.families.map (·.id)) := before.symm.append_left new

/-- **One move keeps every statement with one owner.** -/
theorem Config.Single.move {a : Scope} {c c' : Config} (h : c.Single) (m : Move a c c') : c'.Single := by
  obtain ⟨new, fresh, ids, perm, sub⟩ := m.ids
  have old : ∀ i ∈ c.families.map (·.id), i < c.ws.supply := List.forall_mem_map.2 h.old
  have later := m.supply
  have numbers : (new ++ c.families.map (·.id)).Nodup ∧ ∀ i ∈ new ++ c.families.map (·.id), i < c'.ws.supply := by
    rcases fresh with rfl | ⟨rfl, counted⟩
    · exact ⟨h.once, fun i hi => Nat.lt_of_lt_of_le (old i hi) later⟩
    · refine ⟨List.nodup_cons.2 ⟨fun hi => Nat.lt_irrefl _ (old _ hi), h.once⟩, List.forall_mem_cons.2 ⟨by omega, ?_⟩⟩
      exact fun i hi => Nat.lt_of_lt_of_le (old i hi) later
  refine ⟨fun s hs => ?_, perm.nodup_iff.1 (numbers.1.sublist sub)⟩
  exact numbers.2 _ (sub.subset (perm.mem_iff.2 (List.mem_map_of_mem hs)))

/-- **One move keeps parents**, once they are set. -/
theorem Config.Heritage.move {ss : List (Stmt NodeId)} {supply : Nat} {a : Scope} {c c' : Config}
    (h : c.Heritage ss supply) (m : Move a c c') : c'.Heritage ss supply := by
  obtain ⟨kept, lost, p, before, after, arise⟩ := m.families
  refine ⟨Nat.le_trans h.later m.supply, fun s hs old => ?_⟩
  rcases List.mem_append.1 (after.mem_iff.1 hs) with hk | hp
  · exact h.same s (before.mem_iff.2 (List.mem_append_left _ hk)) old
  · obtain ⟨p, mem, hs⟩ := List.mem_flatMap.1 hp
    rcases (arise p (Option.mem_toList.1 mem)).origin s hs with new | ⟨t, ht, id, parent⟩
    · have := h.later
      omega
    · obtain ⟨u, hu, id', parent'⟩ := h.same t (before.mem_iff.2 (List.mem_append_right _ ht)) (id ▸ old)
      exact ⟨u, hu, id'.trans id, fun b hb => parent b (parent' b hb)⟩

namespace Workspace

variable {w : Workspace}

theorem families_perm (w : Workspace) : (Config.families ⟨[], w⟩).Perm w.everyStmt := by
  rw [Config.families, stmts_objects, everyStmt]
  have := List.map_append_flatMap_perm w.liveStmts id (·.nested)
  rw [List.map_id] at this
  exact this.symm

theorem single_invariant : Invariant .all fun c => c.Balanced ∧ c.Single :=
  ⟨And.left, fun h m => ⟨m.balanced h.1, h.2.move m⟩⟩

theorem heritage_invariant (ss : List (Stmt NodeId)) (supply : Nat) :
    Invariant .all fun c => c.Balanced ∧ c.Heritage ss supply :=
  ⟨And.left, fun h m => ⟨m.balanced h.1, h.2.move m⟩⟩

/-- **No two owners have a statement of the same number.** -/
theorem Reachable.single (h : w.Reachable) : Config.Single ⟨[], w⟩ := by
  refine (h.induct (I := fun w => w.Sound ∧ Config.Single ⟨[], w⟩) ?_ fun w c hw => ?_).2
  · exact ⟨sound_empty, fun _ hs => (nomatch hs), .nil⟩
  · obtain ⟨v, ⟨-, single⟩, he⟩ := step_tidy single_invariant ⟨hw.1.books, hw.2⟩ c
    refine ⟨hw.1.step c, ?_⟩
    rw [he]
    exact ⟨single.old, single.once⟩

theorem Sound.heritage_run {ss : List (Stmt NodeId)} {supply : Nat} : ∀ (cs : List Command) {w : Workspace}, w.Sound →
    Config.Heritage ss supply ⟨[], w⟩ → Config.Heritage ss supply ⟨[], (w.run cs).2⟩
  | [], _, _, h => h
  | c :: cs, w, hw, h => by
    refine heritage_run cs (hw.step c) ?_
    obtain ⟨v, ⟨-, after⟩, he⟩ := step_tidy (heritage_invariant ss supply) ⟨hw.books, h⟩ c
    rw [he]
    exact ⟨after.later, after.same⟩

/-- **A parent, once set, is kept over any script.** -/
theorem Reachable.parent_run (h : w.Reachable) (cs : List Command) {s s' : Stmt NodeId} {b : BlockId}
    (hs : s ∈ w.everyStmt) (parent : s.parent = some b) (hs' : s' ∈ (w.run cs).2.everyStmt) (same : s'.id = s.id) :
    s'.parent = some b := by
  have single := h.single
  have start : Config.Heritage w.everyStmt w.supply ⟨[], w⟩ :=
    ⟨Nat.le_refl _, fun s hs _ => ⟨s, w.families_perm.mem_iff.1 hs, rfl, fun _ => id⟩⟩
  have old : s'.id < w.supply := same ▸ single.old s (w.families_perm.mem_iff.2 hs)
  obtain ⟨t, ht, id, kept⟩ :=
    (h.sound.heritage_run cs start).same s' ((families_perm _).mem_iff.2 hs') old
  have once : (w.everyStmt.map (·.id)).Nodup := (w.families_perm.map _).nodup_iff.1 single.once
  obtain rfl : t = s := List.inj_on_of_nodup_map once ht hs (id.trans same)
  exact kept b parent

/-! ## Owners -/

theorem snd_functionsAt (w : Workspace) : w.functionsAt.map (·.2) = w.liveFunctions := by
  simp [functionsAt, liveFunctions, Table.values, Function.comp_def, List.map_flatMap, List.flatMap_map]

theorem snd_blocksAt (w : Workspace) : w.blocksAt.map (·.2) = w.liveBlocks := by
  rw [blocksAt, liveBlocks, ← snd_functionsAt]
  simp [Table.values, Function.comp_def, List.map_flatMap, List.flatMap_map]

theorem snd_stmtsAt (w : Workspace) : w.stmtsAt.map (·.2) = w.liveStmts := by
  rw [stmtsAt, liveStmts, ← snd_blocksAt]
  simp [Table.values, Function.comp_def, List.map_flatMap, List.flatMap_map]

/-- Every live statement is owned, and nothing else is. -/
theorem snd_custody (w : Workspace) : w.custody.map (·.2) = w.everyStmt := by
  rw [custody, List.map_append, snd_stmtsAt, everyStmt]
  simp [Function.comp_def, List.map_flatMap]

theorem Reachable.settled_block (h : w.Reachable) {b : Block} (hb : b ∈ w.liveBlocks) : b.Settled := by
  have settled := settled_law.reachable h
  rcases List.mem_append.1 hb with hb | hb
  · refine settled (.block b) ?_
    exact List.mem_append_left _ (List.mem_append_left _ (List.mem_append_right _ (List.mem_map_of_mem hb)))
  · obtain ⟨f, hf, hb⟩ := List.mem_flatMap.1 hb
    rw [← functions_owned] at hf
    obtain ⟨o, ho, hf⟩ := List.mem_flatMap.1 hf
    cases o with
    | function g =>
      cases List.mem_singleton.1 hf
      exact settled _ ho b hb
    | module m => exact settled _ ho f hf b hb
    | stmt | block => cases hf

/-- **What a statement's parent is, its owner says.** -/
theorem Reachable.parent_of_owner (h : w.Reachable) {o : StmtOwner} {s : Stmt NodeId} (hs : (o, s) ∈ w.custody) :
    (∃ place b, o = .block place ∧ (place, b) ∈ w.blocksAt ∧ s ∈ b.stmts ∧ s.parent = some b.id) ∨
      (∀ place, o ≠ .block place) ∧ s.parent = none := by
  have nested : ∀ s ∈ w.liveStmts, ∀ t ∈ s.nested, t.parent = none := by
    intro s hs t ht
    rcases List.mem_append.1 hs with hs | hs
    · have settled := settled_law.reachable h (.stmt s)
        (List.mem_append_left _ (List.mem_append_left _ (List.mem_append_left _ (List.mem_map_of_mem hs))))
      exact settled t (List.mem_cons_of_mem _ ht)
    · obtain ⟨b, hb, hs⟩ := List.mem_flatMap.1 hs
      exact (h.settled_block hb s hs).2 t ht
  rcases List.mem_append.1 hs with hs | hs
  · rcases List.mem_append.1 hs with hs | hs
    · obtain ⟨e, he, heq⟩ := List.mem_map.1 hs
      cases heq
      have settled := settled_law.reachable h (.stmt e.2)
        (List.mem_append_left _ (List.mem_append_left _ (List.mem_append_left _ (List.mem_map_of_mem
          (List.mem_map_of_mem he)))))
      exact .inr ⟨nofun, settled e.2 e.2.mem_family_self⟩
    · obtain ⟨e, he, hs⟩ := List.mem_flatMap.1 hs
      obtain ⟨t, ht, heq⟩ := List.mem_map.1 hs
      cases heq
      have live : e.2 ∈ w.liveBlocks := snd_blocksAt w ▸ List.mem_map_of_mem he
      exact .inl ⟨e.1, e.2, rfl, he, ht, (h.settled_block live _ ht).1⟩
  · obtain ⟨t, ht, hs⟩ := List.mem_flatMap.1 hs
    obtain ⟨u, hu, heq⟩ := List.mem_map.1 hs
    cases heq
    exact .inr ⟨nofun, nested t ht _ hu⟩

/-- No command finds a statement in a block already that it is to place. -/
theorem Reachable.step_unplaced (h : w.Reachable) (c : Command) {e : Failure} (he : (w.step c).1 = .error e) :
    e.Unplaced := by
  have rules : Rules (fun _ => True) Failure.Unplaced := ⟨fun _ _ => trivial, fun _ he => he⟩
  have all : ∀ v : Workspace, v.Uses fun _ => True := fun _ => .of_all fun _ => trivial
  suffices ends : c.perform.Ends w (fun _ v => v.Uses (fun _ => True) ∧ True)
      (fun e v => v.Uses (fun _ => True) ∧ e.Unplaced) by
    obtain ⟨v, ⟨-, unplaced⟩, -⟩ := step_error_of_ends ends he
    exact unplaced
  by_cases moves : ∃ site s, c = .addStmt site s
  · obtain ⟨site, s, rfl⟩ := moves
    have found := Build.Ends.discard (Build.blockAt_finds (w := w) site)
    refine ((Build.Tame.block rules site).discard w (all w)).bind_run (fun _ _ he _ => he) fun _ v _ run => ?_
    obtain ⟨_, rfl, -⟩ := found.ok run
    -- what the statement term comes to is in hand, so it has no parent
    have start : Config.Balanced ⟨[], v⟩ ∧ ∀ o ∈ Config.objects ⟨[], v⟩, o.Settled :=
      ⟨h.sound.books, settled_law.reachable h⟩
    have hand := Build.stmtTerm_ends s settled_law.invariant.assembles ⟨fun _ _ => trivial, fun _ _ => trivial⟩
      (k := []) start
    refine (s.tame rules v (all v)).bind_run (fun _ _ he _ => he) fun st v' _ run => ?_
    have settled := (hand.ok run).2 (.stmt st) (List.mem_cons_self ..)
    have free := settled st st.mem_family_self
    exact ((Build.Tame.appendStmt rules site (.inl free)).bind fun _ _ => .pure trivial) v' (all v')
  · exact c.tame rules (fun _ _ => trivial) (.inl fun site s hc => moves ⟨site, s, hc⟩) w (all w)

/-- **Every live statement has one owner.**

In every reachable workspace each block of a function has its position as id.  Every live statement, in a slot, in a
block or listed by an indirect call, has exactly one owner, and its number stands nowhere else.  A statement of a block
has the id of the block as parent; one of a slot or of an indirect call has none, wherever the indirect call is.  A
parent that is set stays the same over any script, as long as the statement lives.  So no command ever finds a statement
in a block already that it is to place. -/
theorem Reachable.statements_owned_once (h : w.Reachable) :
    (∀ f ∈ w.liveFunctions, ∀ (i : Nat) (b : Block), f.blocks[i]? = some b → b.id = ⟨i⟩) ∧
    (∀ s ∈ w.everyStmt, ∃! o, (o, s) ∈ w.custody) ∧ (w.custody.map (·.2.id)).Nodup ∧
    (∀ o s, (o, s) ∈ w.custody → s ∈ w.everyStmt ∧
      match o with
      | .block place => ∃ b, (place, b) ∈ w.blocksAt ∧ s ∈ b.stmts ∧ s.parent = some b.id
      | .slot _ | .indirectCall _ => s.parent = none) ∧
    (∀ (cs : List Command), ∀ s ∈ w.everyStmt, ∀ b, s.parent = some b →
      ∀ s' ∈ (w.run cs).2.everyStmt, s'.id = s.id → s'.parent = some b) ∧
    ∀ (c : Command) (kind : StmtKind) (owner target : BlockId),
      (w.step c).1 ≠ .error (.refused (.placed kind owner target)) := by
  have once : (w.custody.map (·.2.id)).Nodup := by
    have ids : w.custody.map (·.2.id) = w.everyStmt.map (·.id) := by rw [← snd_custody, List.map_map]; rfl
    rw [ids]
    exact (w.families_perm.map _).nodup_iff.1 h.single.once
  refine ⟨fun f hf => ?_, fun s hs => ?_, once, fun o s hs => ⟨?_, ?_⟩,
    fun cs s hs b hb s' hs' => h.parent_run cs hs hb hs', fun c kind owner target he => h.step_unplaced c he _ _ _ rfl⟩
  · rw [← functions_owned] at hf
    obtain ⟨o, ho, hf⟩ := List.mem_flatMap.1 hf
    exact numbered_law.reachable h o ho f hf
  · rw [← snd_custody] at hs
    obtain ⟨p, hp, rfl⟩ := List.mem_map.1 hs
    refine ⟨p.1, hp, fun o ho => ?_⟩
    exact congrArg Prod.fst (List.inj_on_of_nodup_map once ho hp rfl)
  · rw [← snd_custody]
    exact List.mem_map_of_mem hs
  · rcases h.parent_of_owner hs with ⟨place, b, rfl, here⟩ | ⟨free, none⟩
    · exact ⟨b, here⟩
    · cases o with
      | block place => exact absurd rfl (free place)
      | slot | indirectCall => exact none

/-- A jump and an indirect call in the second block of a function; a stand-alone block with an evaluation. -/
def filledBlocks : List Command :=
  [.function "f" (some "f"), .addBlock "f" "entry", .addBlock "f" "exit", .callee (.loose "f") (some "c"),
    .stmt (.callMemberOf (.unary .bvToPtr (.bvZero 8)) (.list []) [.call "c" [] (.list [])]) (some "t"),
    .addStmt (.inFunction "f" 1) (.goto [⟨0⟩]), .addStmt (.inFunction "f" 1) (.slot "t"),
    .block ⟨7⟩ "b" (some "b"), .addEval (.loose "b") (.boolConst true) (.list []), .stmt .ret (some "r")]

/-- The call that the indirect call lists has no parent, although the indirect call has one. -/
theorem statements_owned_once_filledBlocks :
    (empty.run filledBlocks).2.custody.map (fun p => (p.1, p.2.parent)) =
      [(.slot "r", none), (.block (.loose "b"), some ⟨7⟩), (.block (.inFunction (.loose "f") 1), some ⟨1⟩),
        (.block (.inFunction (.loose "f") 1), some ⟨1⟩), (.indirectCall 4, none)] ∧
    ((empty.run filledBlocks).2.custody.map (·.2.id)).Nodup ∧
    ∀ s ∈ (empty.run filledBlocks).2.everyStmt, ∃! o, (o, s) ∈ (empty.run filledBlocks).2.custody := by
  obtain ⟨-, owner, once, -⟩ := Reachable.statements_owned_once ⟨filledBlocks, rfl⟩
  exact ⟨by decide, once, owner⟩

end Workspace
end KernelIR
