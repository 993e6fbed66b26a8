import KernelIR.Proofs.Deduplication
import KernelIR.Proofs.Ledger
/-!
# Refinement — what the consumer reads is what the producer wrote

After any script, every slot owns what its log in the ledger describes, and is empty where there is no log
(`Ledger.Exact`).  A command that succeeds writes one slot at most, and there the object and the log change alike
(`Exact.written`); the content of all other slots is a matter of `Sound.content_of_ok` and `Sound.content_of_error`.
One step and the induction on the script follow.

Main statement: `Ledger.read_as_written`.
-/
namespace KernelIR

/-- What the slot owns is what the log describes; without a log, it owns nothing. -/
structure Describes (l : Option Log) (w : Workspace) (k : OwnedSlot) : Prop where
  content : w.content? k = l.map Log.object
  inside : ∀ m, l = some m → m.Inside

namespace Describes

variable {l : Option Log} {w v : Workspace} {k : OwnedSlot} {x : String}

theorem none (h : w.content? k = .none) : Describes .none w k := ⟨h, nofun⟩

theorem some {m : Log} (inside : m.Inside) (h : w.content? k = .some m.object) : Describes (.some m) w k :=
  ⟨h, fun _ hm => by
    cases hm
    exact inside⟩

theorem congr (h : Describes l w k) (same : v.content? k = w.content? k) : Describes l v k :=
  ⟨same.trans h.content, h.inside⟩

theorem of_block {b : Block} (h : Describes l w (.block, x)) (here : w.blocks.get? x = .some b) :
    ∃ m, l = .some (.block m) ∧ m.block = b := by
  obtain ⟨m, hm, same⟩ := Option.map_eq_some_iff.1 (h.content.symm.trans (Workspace.content?_block here))
  cases m with
  | block m => exact ⟨m, hm, Owned.block.inj same⟩
  | stmt | function | module => cases same

theorem of_function {f : Function} (h : Describes l w (.function, x)) (here : w.functions.get? x = .some f) :
    ∃ m, l = .some (.function m) ∧ m.Inside ∧ m.function = f.content := by
  obtain ⟨m, hm, same⟩ := Option.map_eq_some_iff.1 (h.content.symm.trans (Workspace.content?_function here))
  cases m with
  | function m => exact ⟨m, hm, h.inside _ hm, Owned.function.inj same⟩
  | stmt | block | module => cases same

theorem of_module {md : Module} (h : Describes l w (.module, x)) (here : w.modules.get? x = .some md) :
    ∃ m, l = .some (.module m) ∧ m.module = md.content := by
  obtain ⟨m, hm, same⟩ := Option.map_eq_some_iff.1 (h.content.symm.trans (Workspace.content?_module here))
  cases m with
  | module m => exact ⟨m, hm, Owned.module.inj same⟩
  | stmt | block | function => cases same

/-- Where a block is, there is a log. -/
theorem of_block? {site : BlockSite} {b : Block} (h : Describes l w site.owner) (here : w.block? site = .some b) :
    ∃ m, l = .some m := by
  cases site with
  | loose x =>
    obtain ⟨m, hm, -⟩ := h.of_block here
    exact ⟨_, hm⟩
  | inFunction x i =>
    obtain ⟨f, hf, -⟩ := Option.bind_eq_some_iff.1 here
    obtain ⟨m, hm, -⟩ := h.of_function hf
    exact ⟨_, hm⟩

end Describes

/-- A log that has grown, and describes what the slot owns by then. -/
structure Continues (l l' : Option Log) (v : Workspace) (k : OwnedSlot) : Prop where
  describes : Describes l' v k
  appended : ∃ m m', l = some m ∧ l' = some m' ∧ m.Extends m'

namespace Ledger

variable {L : Ledger} {w v : Workspace} {x : String}

/-- **Every slot owns what its log describes**, and nothing where there is none. -/
def Exact (L : Ledger) (w : Workspace) : Prop := ∀ k, Describes (L k) w k

theorem block?_eq {l : BlockLog} (h : L (.block, x) = some (.block l)) : L.block? x = some l := by
  unfold block?
  rw [h]

theorem function?_eq {l : FunctionLog} (h : L (.function, x) = some (.function l)) : L.function? x = some l := by
  unfold function?
  rw [h]

theorem module?_eq {l : ModuleLog} (h : L (.module, x) = some (.module l)) : L.module? x = some l := by
  unfold module?
  rw [h]

/-! ## One entry more -/

/-- A function is changed as its log is. -/
theorem continues_function {f f' : Function} {e : FunctionEntry} (d : Describes (L (.function, x)) w (.function, x))
    (here : w.functions.get? x = some f) (there : v.functions.get? x = some f')
    (inside : ∀ l : FunctionLog, l.function = f.content → ∀ i s, e = .stmt i s → i < l.blocks.length)
    (alike : ∀ l : FunctionLog, l.Inside → l.function = f.content → (l.add e).function = f'.content) :
    Continues (L (.function, x)) (L.addToFunction x e) v (.function, x) := by
  obtain ⟨l, hl, within, same⟩ := d.of_function here
  rw [addToFunction, function?_eq hl]
  refine ⟨.some (within.add (inside l same)) ((Workspace.content?_function there).trans ?_), _, _, hl, rfl, [e], rfl⟩
  exact congrArg (some ∘ Owned.function) (alike l within same).symm

/-- A module is changed as its log is. -/
theorem continues_module {m m' : Module} {e : ModuleEntry} (d : Describes (L (.module, x)) w (.module, x))
    (here : w.modules.get? x = some m) (there : v.modules.get? x = some m')
    (alike : ∀ l : ModuleLog, l.module = m.content → (l.add e).module = m'.content) :
    Continues (L (.module, x)) (L.addToModule x e) v (.module, x) := by
  obtain ⟨l, hl, same⟩ := d.of_module here
  rw [addToModule, module?_eq hl]
  refine ⟨.some trivial ((Workspace.content?_module there).trans ?_), _, _, hl, rfl, [e], rfl⟩
  exact congrArg (some ∘ Owned.module) (alike l same).symm

/-- A block gets a statement as its log does. -/
theorem continues_block {site : BlockSite} {b : Block} (d : Describes (L site.owner) w site.owner)
    (here : w.block? site = some b) (s : Stmt NodeId) :
    Continues (L site.owner) (L.addStmt s site) (w.putBlock site (b.push { s with parent := some b.id }))
      site.owner := by
  cases site with
  | loose x =>
    obtain ⟨l, hl, rfl⟩ := d.of_block here
    rw [addStmt, block?_eq hl]
    refine ⟨.some trivial ((Workspace.content?_block (Table.get?_put ..)).trans ?_), _, _, hl, rfl, [s], rfl⟩
    exact congrArg (some ∘ Owned.block) (l.block_add s).symm
  | inFunction x i =>
    obtain ⟨f, hf, hb⟩ := Option.bind_eq_some_iff.1 here
    have there : (w.putBlock (.inFunction x i) (b.push { s with parent := some b.id })).functions.get? x =
        some (f.setBlock i (b.push { s with parent := some b.id })) := by
      rw [Workspace.putBlock, hf]
      exact Table.get?_put ..
    have at_position : ∀ l : FunctionLog, l.function = f.content → l.blocks[i]? = some b := fun l same =>
      (congrArg (fun f : Function => f.blocks[i]?) same).trans hb
    refine continues_function d hf there (fun l same j t he => ?_) fun l _ same => ?_
    · cases he
      exact (List.getElem?_eq_some_iff.1 (at_position l same)).1
    · rw [FunctionLog.function_addStmt (at_position l same), same]
      rfl

/-! ## What a command writes -/

theorem asked_of_built {s : StmtTerm} {st : Stmt NodeId} (built : s.build w = .ok st v) : s.asked w = some st := by
  obtain ⟨r, u, asked, -, rfl, -⟩ := StmtTerm.build_eq_ok_iff.1 built
  unfold StmtTerm.asked Build.answer?
  rw [Build.run_bind asked]
  rfl

theorem leavesOut_iff {s : Stmt NodeId} {n : NodeId} (hs : s.body = .eval n) :
    w.leavesOut s = true ↔ w.Evaluates n ∨ (w.store.cell n).prevented = true := by
  have evaluated : s.evaluated = [n] := congrArg StmtBody.evaluated hs
  unfold Workspace.leavesOut Workspace.Evaluates
  rw [evaluated, List.any_cons, List.any_nil, Bool.or_false, Bool.or_eq_true_iff, List.any_eq_true]
  exact or_congr_left (exists_congr fun _ => and_congr_right fun _ => Stmt.evaluates_iff)

/-- Filling a slot puts the object there. -/
theorem content_of_setOwned {o : Owned} {u : Unit} (run : Build.setOwned x o w = .ok u v) :
    v.content? (o.kind, x) = some o.content := by
  obtain ⟨_, _, -, rest⟩ := Build.run_bind_iff.1 run
  obtain ⟨_, _, -, rest⟩ := Build.run_bind_iff.1 rest
  obtain ⟨_, _, -, rest⟩ := Build.run_bind_iff.1 rest
  cases rest
  exact Workspace.content?_put.trans (if_pos rfl)

section

variable {r : Reply} (d : L.Exact w)

theorem written_stmt {s : StmtTerm} (run : Command.perform (.stmt s (some x)) w = .ok r v) :
    Describes (L.written w (.stmt s (some x))) v (.stmt, x) := by
  obtain ⟨st, u, built, kept⟩ := Workspace.stmt_runs run
  rw [written, asked_of_built built]
  exact .some trivial (content_of_setOwned kept)

theorem written_block {id : BlockId} {name : String}
    (run : Command.perform (.block id name (some x)) w = .ok r v) :
    Describes (L.written w (.block id name (some x))) v (.block, x) := by
  obtain ⟨_, _, interned, rest⟩ := Build.run_bind_iff.1 run
  obtain ⟨-, rfl, rfl⟩ := Build.run_intern_iff.1 interned
  obtain ⟨_, _, kept, rest⟩ := Build.run_bind_iff.1 rest
  cases rest
  exact .some trivial (content_of_setOwned kept)

theorem written_function {name : String} (run : Command.perform (.function name (some x)) w = .ok r v) :
    Describes (L.written w (.function name (some x))) v (.function, x) := by
  obtain ⟨_, _, interned, rest⟩ := Build.run_bind_iff.1 run
  obtain ⟨-, rfl, rfl⟩ := Build.run_intern_iff.1 interned
  obtain ⟨_, _, kept, rest⟩ := Build.run_bind_iff.1 rest
  cases rest
  exact .some (fun _ _ hs => nomatch hs) (content_of_setOwned kept)

theorem written_module {name : String} {model : ModelTerm}
    (run : Command.perform (.module name model (some x)) w = .ok r v) :
    Describes (L.written w (.module name model (some x))) v (.module, x) := by
  obtain ⟨t, _, ran, rest⟩ := Build.run_bind_iff.1 run
  obtain ⟨decoded, rfl⟩ := Build.run_ofResult_iff.1 ran
  obtain ⟨_, _, interned, rest⟩ := Build.run_bind_iff.1 rest
  obtain ⟨-, rfl, rfl⟩ := Build.run_intern_iff.1 interned
  obtain ⟨_, _, kept, rest⟩ := Build.run_bind_iff.1 rest
  cases rest
  rw [written, decoded]
  exact .some trivial (content_of_setOwned kept)

include d

theorem written_addStmt (h : w.Sound) {site : BlockSite} {s : StmtTerm}
    (run : Command.perform (.addStmt site s) w = .ok r v) :
    Continues (L site.owner) (L.written w (.addStmt site s)) v site.owner := by
  obtain ⟨st, u, b, built, here, rfl⟩ := h.addStmt_runs run
  -- the arguments come out of slots of statements, never out of the one that owns the block
  have elsewhere : site.owner ∉ StmtTerm.slots s.takes := fun hs => by
    obtain ⟨_, -, he⟩ := List.mem_map.1 hs
    cases site <;> cases he
  have same : u.content? site.owner = w.content? site.owner :=
    ((h.build_remains built).content? _).trans (if_neg elsewhere)
  rw [written, asked_of_built built]
  exact continues_block ((d site.owner).congr same) here st

theorem written_addEval (h : w.Sound) {site : BlockSite} {e : Term} {t : LocsTerm}
    (run : Command.perform (.addEval site e t) w = .ok r v) :
    Continues (L site.owner) (L.written w (.addEval site e t)) v site.owner := by
  obtain ⟨b, n, l, u, args, grows, -, ended⟩ := (h.addEval_ends site e t).ok run
  obtain ⟨here, w₁, node, locs⟩ := args
  have asked : (StmtTerm.eval e t).asked w = some ⟨u.supply, .eval n, none, l⟩ := by
    unfold StmtTerm.asked Build.answer? StmtTerm.ask
    simp only [bind_assoc]
    rw [Build.run_bind node, Build.run_bind locs]
    rfl
  have guard := leavesOut_iff (w := w) (s := ⟨u.supply, .eval n, none, l⟩) rfl
  rw [written, asked, Option.bind_eq_bind, Option.bind_some]
  rcases ended with ⟨out, -, rfl⟩ | ⟨free, -, rfl⟩
  · rw [if_pos (guard.2 out)]
    obtain ⟨m, hm⟩ := (d site.owner).of_block? here
    exact ⟨(d site.owner).congr (grows.sameSlots.content? _), m, m, hm, hm, .refl m⟩
  · rw [if_neg (mt guard.1 free)]
    have slots : w.SameSlots (u.withStmt (.eval n)) := grows.sameSlots.trans (.withStmt u _)
    exact continues_block ((d site.owner).congr (slots.content? _)) ((slots.block? site).trans here) _

theorem written_addVar {role : VarRole} {f name : String} {typ : TyTerm} {into : Option String}
    (run : Command.perform (.addVar role f name typ into) w = .ok r v) :
    Continues (L (.function, f)) (L.written w (.addVar role f name typ into)) v (.function, f) := by
  obtain ⟨fn, _, found, rest⟩ := Build.run_bind_iff.1 run
  obtain ⟨here, rfl⟩ := Build.run_slot_iff.1 found
  obtain ⟨t, _, ran, rest⟩ := Build.run_bind_iff.1 rest
  obtain ⟨typed, rfl⟩ := Build.run_ofResult_iff.1 ran
  obtain ⟨_, _, free, rest⟩ := Build.run_bind_iff.1 rest
  obtain ⟨-, rfl⟩ := Build.run_ofExcept_iff.1 free
  obtain ⟨_, _, new, rest⟩ := Build.run_bind_iff.1 rest
  obtain ⟨_, _, interned, numbered⟩ := Build.run_bind_iff.1 new
  obtain ⟨-, rfl, rfl⟩ := Build.run_intern_iff.1 interned
  cases numbered
  obtain ⟨_, _, edited, rest⟩ := Build.run_bind_iff.1 rest
  cases edited
  have there : v.functions.get? f = some (fn.addVar role ⟨w.supply, (w.names.intern name).1, t⟩) := by
    cases into <;> cases rest <;> exact Table.get?_put ..
  rw [written, typed]
  refine continues_function (d _) here there (fun _ _ _ _ he => nomatch he) fun l _ same => ?_
  rw [FunctionLog.function_addVar, same]
  cases role <;> rfl

theorem written_addBlock {f name : String} (run : Command.perform (.addBlock f name) w = .ok r v) :
    Continues (L (.function, f)) (L.written w (.addBlock f name)) v (.function, f) := by
  obtain ⟨fn, _, found, rest⟩ := Build.run_bind_iff.1 run
  obtain ⟨here, rfl⟩ := Build.run_slot_iff.1 found
  obtain ⟨_, _, interned, rest⟩ := Build.run_bind_iff.1 rest
  obtain ⟨-, rfl, rfl⟩ := Build.run_intern_iff.1 interned
  cases rest
  refine continues_function (d _) here (Table.get?_put f (fn.addBlock _) _) (fun _ _ _ _ he => nomatch he)
    fun l inside same => ?_
  rw [FunctionLog.function_addBlock inside, same]
  rfl

theorem written_addClause {kind : ClauseKind} {f : String} {e : Term} {t : LocsTerm}
    (run : Command.perform (.addClause kind f e t) w = .ok r v) :
    Continues (L (.function, f)) (L.written w (.addClause kind f e t)) v (.function, f) := by
  obtain ⟨fn, _, found, rest⟩ := Build.run_bind_iff.1 run
  obtain ⟨here, rfl⟩ := Build.run_slot_iff.1 found
  obtain ⟨n, _, node, rest⟩ := Build.run_bind_iff.1 rest
  obtain ⟨l, _, locs, rest⟩ := Build.run_bind_iff.1 rest
  obtain ⟨_, _, read, rest⟩ := Build.run_bind_iff.1 rest
  cases read
  obtain ⟨_, _, meets, rest⟩ := Build.run_bind_iff.1 rest
  obtain ⟨-, rfl⟩ := Build.run_ofExcept_iff.1 meets
  cases rest
  have asked : Build.answer? (do let n ← e.build; return (⟨n, ← t.build⟩ : Clause)) w = some ⟨n, l⟩ := by
    unfold Build.answer?
    rw [Build.run_bind node, Build.run_bind locs]
    rfl
  rw [written, asked]
  refine continues_function (d _) here (Table.get?_put f (fn.addClause kind _) _) (fun _ _ _ _ he => nomatch he)
    fun l' _ same => ?_
  rw [FunctionLog.function_addClause, same]
  cases kind <;> rfl

theorem written_addAttribute {f name : String} (run : Command.perform (.addAttribute f name) w = .ok r v) :
    Continues (L (.function, f)) (L.written w (.addAttribute f name)) v (.function, f) := by
  obtain ⟨fn, _, found, rest⟩ := Build.run_bind_iff.1 run
  obtain ⟨here, rfl⟩ := Build.run_slot_iff.1 found
  obtain ⟨_, _, interned, rest⟩ := Build.run_bind_iff.1 rest
  obtain ⟨-, rfl, rfl⟩ := Build.run_intern_iff.1 interned
  cases rest
  refine continues_function (d _) here (Table.get?_put f (fn.addAttribute _) _) (fun _ _ _ _ he => nomatch he)
    fun l _ same => ?_
  rw [FunctionLog.function_addAttribute, same]
  rfl

theorem written_addArray {m name : String} {space : MemorySpace} {into : Option String}
    (run : Command.perform (.addArray m name space into) w = .ok r v) :
    Continues (L (.module, m)) (L.written w (.addArray m name space into)) v (.module, m) := by
  obtain ⟨md, _, found, rest⟩ := Build.run_bind_iff.1 run
  obtain ⟨here, rfl⟩ := Build.run_slot_iff.1 found
  obtain ⟨_, _, new, rest⟩ := Build.run_bind_iff.1 rest
  obtain ⟨_, _, interned, numbered⟩ := Build.run_bind_iff.1 new
  obtain ⟨-, rfl, rfl⟩ := Build.run_intern_iff.1 interned
  cases numbered
  obtain ⟨_, _, edited, rest⟩ := Build.run_bind_iff.1 rest
  cases edited
  have there : v.modules.get? m = some (md.addArray ⟨w.supply, (w.names.intern name).1, space⟩) := by
    cases into <;> cases rest <;> exact Table.get?_put ..
  refine continues_module (d _) here there fun l same => ?_
  rw [ModuleLog.module_addArray, same]
  rfl

theorem written_addFunction {m f : String} (run : Command.perform (.addFunction m f) w = .ok r v) :
    Continues (L (.module, m)) (L.written w (.addFunction m f)) v (.module, m) := by
  obtain ⟨md, fn, md', here, owns, fits, -, rfl⟩ := Workspace.addFunction_runs run
  obtain ⟨-, -, rfl⟩ := Module.accept_ok_iff.1 fits
  obtain ⟨lf, hf, -, same⟩ := (d (.function, f)).of_function owns
  rw [written, function?_eq hf]
  refine continues_module (d _) here (Table.get?_put ..) fun l like => ?_
  rw [ModuleLog.module_addFunction, like, same]
  unfold Module.content
  rw [List.map_append]
  rfl

theorem written_addAxiom {m : String} {e : Term} (run : Command.perform (.addAxiom m e) w = .ok r v) :
    Continues (L (.module, m)) (L.written w (.addAxiom m e)) v (.module, m) := by
  obtain ⟨md, _, found, rest⟩ := Build.run_bind_iff.1 run
  obtain ⟨here, rfl⟩ := Build.run_slot_iff.1 found
  obtain ⟨n, _, node, rest⟩ := Build.run_bind_iff.1 rest
  obtain ⟨_, _, read, rest⟩ := Build.run_bind_iff.1 rest
  cases read
  obtain ⟨_, _, meets, rest⟩ := Build.run_bind_iff.1 rest
  obtain ⟨-, rfl⟩ := Build.run_ofExcept_iff.1 meets
  cases rest
  have asked : Build.answer? e.build w = some n := by
    unfold Build.answer?
    rw [node]
  rw [written, asked]
  refine continues_module (d _) here (Table.get?_put m (md.addAxiom n) _) fun l same => ?_
  rw [ModuleLog.module_addPredicate, same]
  rfl

end

/-- **A command changes the object that it writes as the ledger changes its log**, and the log grows unless the slot is
filled anew. -/
theorem Exact.written {r : Reply} {c : Command} {k : OwnedSlot} (d : L.Exact w) (h : w.Sound)
    (run : c.perform w = .ok r v) (hk : k ∈ c.writes) : Describes (L.written w c) v k ∧
      (k ∉ c.takes → ∃ l l', L k = some l ∧ L.written w c = some l' ∧ l.Extends l') := by
  have filled {kind : OwnedKind} {into : Option String} (hk : k ∈ into.toList.map (kind, ·)) (taken : k ∈ c.takes)
      (new : ∀ x, into = some x → Describes (L.written w c) v (kind, x)) : Describes (L.written w c) v k ∧
        (k ∉ c.takes → ∃ l l', L k = some l ∧ L.written w c = some l' ∧ l.Extends l') := by
    obtain ⟨x, hx, rfl⟩ := List.mem_map.1 hk
    exact ⟨new x (Option.mem_toList.1 hx), fun kept => absurd taken kept⟩
  have grown {site : OwnedSlot} (hk : k ∈ [site]) (g : Continues (L site) (L.written w c) v site) :
      Describes (L.written w c) v k ∧
        (k ∉ c.takes → ∃ l l', L k = some l ∧ L.written w c = some l' ∧ l.Extends l') := by
    cases List.mem_singleton.1 hk
    exact ⟨g.describes, fun _ => g.appended⟩
  cases c with
  | stmt s into => exact filled hk (List.mem_append_right _ hk) fun x hx => by subst hx; exact written_stmt run
  | block id name into => exact filled hk hk fun x hx => by subst hx; exact written_block run
  | function name into => exact filled hk hk fun x hx => by subst hx; exact written_function run
  | module name model into => exact filled hk hk fun x hx => by subst hx; exact written_module run
  | addStmt => exact grown hk (written_addStmt d h run)
  | addEval => exact grown hk (written_addEval d h run)
  | addVar => exact grown hk (written_addVar d run)
  | addBlock => exact grown hk (written_addBlock d run)
  | addClause => exact grown hk (written_addClause d run)
  | addAttribute => exact grown hk (written_addAttribute d run)
  | addArray => exact grown hk (written_addArray d run)
  | addFunction => exact grown hk (written_addFunction d run)
  | addAxiom => exact grown hk (written_addAxiom d run)
  | _ => cases hk

/-! ## Steps and runs -/

theorem record_of_ok {r : Reply} {c : Command} (ok : (w.step c).1 = .ok r) (k : OwnedSlot) :
    L.record w c k = if k ∈ c.writes then L.written w c else if k ∈ c.takes then none else L k := by
  unfold record
  rw [ok]

theorem record_of_error {e : Failure} {c : Command} (failed : (w.step c).1 = .error e) (k : OwnedSlot) :
    L.record w c k = if k ∈ c.spent w then none else L k := by
  unfold record
  rw [failed]

/-- **One step**: the ledger records what the command does. -/
theorem Exact.step (d : L.Exact w) (h : w.Sound) (c : Command) : (L.record w c).Exact (w.step c).2 := by
  intro k
  have tidied : ∀ v : Workspace, v.tidy.content? k = v.content? k := fun v =>
    (Workspace.SameSlots.mapStore v _).content? k
  cases run : c.perform w with
  | ok r v =>
    have step := Workspace.step_of_run run
    rw [record_of_ok (congrArg Prod.fst step), step]
    split
    · rename_i hk
      exact (d.written h run hk).1.congr (tidied v)
    · rename_i hk
      have content := (tidied v).trans (h.content_of_ok run hk)
      split at content <;> rename_i ht
      · rw [if_pos ht]
        exact .none content
      · rw [if_neg ht]
        exact (d k).congr content
  | error e v =>
    have step := Workspace.step_of_error run
    rw [record_of_error (congrArg Prod.fst step), step]
    have content := (tidied v).trans (h.content_of_error run k)
    split at content <;> rename_i hk
    · rw [if_pos hk]
      exact .none content
    · rw [if_neg hk]
      exact (d k).congr content

/-- A log stays, and is only appended to, until its object moves out of the slot or is replaced. -/
theorem Exact.record_extends (d : L.Exact w) (h : w.Sound) {c : Command} {k : OwnedSlot} {l : Log} (hl : L k = some l)
    (kept : k ∉ c.takes) : ∃ l', L.record w c k = some l' ∧ l.Extends l' := by
  cases run : c.perform w with
  | ok r v =>
    rw [record_of_ok (congrArg Prod.fst (Workspace.step_of_run run)), if_neg kept]
    split
    · rename_i hk
      obtain ⟨l₀, l', hl₀, hl', appended⟩ := (d.written h run hk).2 kept
      cases hl.symm.trans hl₀
      exact ⟨l', hl', appended⟩
    · exact ⟨l, hl, .refl l⟩
  | error e v =>
    have unspent : k ∉ c.spent w := fun hs => kept (c.arguments_subset ((c.spent_prefix w).subset hs))
    rw [record_of_error (congrArg Prod.fst (Workspace.step_of_error run)), if_neg unspent]
    exact ⟨l, hl, .refl l⟩

/-- **A run**, by induction on the script. -/
theorem Exact.along : ∀ (cs : List Command) {L : Ledger} {w : Workspace}, L.Exact w → w.Sound →
    (L.along w cs).Exact (w.run cs).2
  | [], _, _, d, _ => d
  | c :: cs, _, _, d, h => Exact.along cs (d.step h c) (h.step c)

theorem along_concat (c : Command) : ∀ (cs : List Command) (L : Ledger) (w : Workspace),
    L.along w (cs ++ [c]) = (L.along w cs).record (w.run cs).2 c
  | [], _, _ => rfl
  | d :: cs, L, w => along_concat c cs (L.record w d) (w.step d).2

theorem exact_ofScript (cs : List Command) : (ofScript cs).Exact (Workspace.empty.run cs).2 := by
  refine Exact.along cs (fun k => .none ?_) Workspace.sound_empty
  obtain ⟨kind, x⟩ := k
  cases kind <;> rfl

/-- A function that moves takes its log along. -/
theorem Exact.record_moved (d : L.Exact w) {m f : String} {r : Reply} (ok : (w.step (.addFunction m f)).1 = .ok r) :
    ∃ lm lf, L (.module, m) = some (.module lm) ∧ L (.function, f) = some (.function lf) ∧
      L.record w (.addFunction m f) (.module, m) = some (.module (lm.add (.function lf))) ∧
      L.record w (.addFunction m f) (.function, f) = none := by
  obtain ⟨_, run, -⟩ := Workspace.run_of_ok ok
  obtain ⟨md, fn, -, hm, hf, -⟩ := Workspace.addFunction_runs run
  obtain ⟨lm, hlm, -⟩ := (d _).of_module hm
  obtain ⟨lf, hlf, -⟩ := (d _).of_function hf
  have writes : (OwnedKind.module, m) ∈ (Command.addFunction m f).writes := List.mem_singleton_self _
  have takes : (OwnedKind.function, f) ∈ (Command.addFunction m f).takes := List.mem_singleton_self _
  have other : (OwnedKind.function, f) ∉ (Command.addFunction m f).writes := fun h => by
    cases List.mem_singleton.1 h
  refine ⟨lm, lf, hlm, hlf, ?_, ?_⟩
  · rw [record_of_ok ok, if_pos writes, Ledger.written, function?_eq hlf, Option.bind_eq_bind, Option.bind_some,
      addToModule, module?_eq hlm]
    rfl
  · rw [record_of_ok ok, if_neg other, if_pos takes]

/-- **What the consumer reads is what the producer wrote.**

After any script, in which commands may fail, evaluations may be left out and objects may be dropped or replaced, every
slot owns the object that its log describes, and nothing where there is no log: a module has the arrays, functions and
axioms that were added to it, a function its variables, blocks, clauses and attributes, and a block its statements, in
the order in which they were added, each made of the very nodes, marks and location list that were asked for.

A command only appends to the log of an object that stays in its slot.  A function that a module accepts is appended to
the log of the module with the log that it has. -/
theorem read_as_written (cs : List Command) :
    (∀ kind x, ((Workspace.empty.run cs).2.owned? kind x).map Owned.content =
      (ofScript cs (kind, x)).map Log.object) ∧
    (∀ c k l, ofScript cs k = some l → k ∉ c.takes → ∃ l', ofScript (cs ++ [c]) k = some l' ∧ l.Extends l') ∧
    ∀ m f reply, ((Workspace.empty.run cs).2.step (.addFunction m f)).1 = .ok reply →
      ∃ lm lf, ofScript cs (.module, m) = some (.module lm) ∧ ofScript cs (.function, f) = some (.function lf) ∧
        ofScript (cs ++ [.addFunction m f]) (.module, m) = some (.module (lm.add (.function lf))) ∧
        ofScript (cs ++ [.addFunction m f]) (.function, f) = none := by
  have sound : (Workspace.empty.run cs).2.Sound := Workspace.Reachable.sound ⟨cs, rfl⟩
  have exact := exact_ofScript cs
  refine ⟨fun kind x => (exact (kind, x)).content, fun c k l hl kept => ?_, fun m f reply ok => ?_⟩
  · unfold ofScript
    rw [along_concat]
    exact exact.record_extends sound hl kept
  · unfold ofScript
    rw [along_concat]
    exact exact.record_moved ok

/-- A function with two statements moves into a module; between them, one call failed and one evaluation was left
out. -/
def movedKernel : List Command :=
  [.expr (.boolConst true) (some "e"), .module "m" .spir (some "m"), .function "f" (some "f"), .addBlock "f" "entry",
    .addEval (.inFunction "f" 0) (.slot "e") (.list []), .addStmt (.inFunction "f" 1) .ret,
    .addEval (.inFunction "f" 0) (.slot "e") (.list []), .stmt (.assume (.slot "e") false) (some "s"),
    .addStmt (.inFunction "f" 0) (.slot "s"), .addFunction "m" "f", .drop .expr "e"]

theorem read_as_written_movedKernel :
    ((Workspace.empty.run movedKernel).2.owned? .module "m").map (fun o => o.content.stmts.map (·.kind)) =
      some [.eval, .assume] ∧
    (Workspace.empty.run movedKernel).2.owned? .function "f" = none := by
  obtain ⟨objects, -⟩ := read_as_written movedKernel
  refine ⟨?_, ?_⟩
  · have module := congrArg (Option.map fun o : Owned => o.stmts.map (·.kind)) (objects .module "m")
    rw [Option.map_map] at module
    refine Eq.trans module ?_
    decide
  · exact Option.map_eq_none_iff.1 ((objects .function "f").trans (by decide))

end Ledger
end KernelIR
