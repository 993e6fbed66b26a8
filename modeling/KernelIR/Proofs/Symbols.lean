import KernelIR.Proofs.Separation.Interleaving
/-!
# Symbols — the names that objects hold

Every object is listed with the symbols in it, and a workspace with those of all that it holds: what slots hold, own and
share, and the nodes of the store.  Linked objects hold linked symbols, one by one, and a link is about interned names.
So where one producer has a workspace alone (`Workspace.Named`), every symbol in sight was interned (`Named.interned`);
and each command leaves it so (`Named.step`).
-/
namespace KernelIR

variable {α β : Type}

/-! ## The symbols of an object -/

def Locs.symbols (l : Locs) : List Symbol := l.list.flatMap fun x => [x.file, x.path]

def Shape.symbols : Shape α → List Symbol
  | .arrayRef a => [a.name]
  | .varRef v => [v.name]
  | .call c _ => [c.name]
  | .bvConst _ | .boolConst _ | .pointer _ _ | .load _ _ | .bvExtract _ _ | .bvZExt _ | .bvSExt _ | .unary _ _
  | .binary _ _ _ => []

/-- The symbols of a statement apart from its own locations, those of listed calls included. -/
def StmtBody.symbols : StmtBody α → List Symbol
  | .varAssign vars _ => vars.map (·.name)
  | .call c _ => [c.name]
  | .callMemberOf _ calls => calls.flatMap fun c => c.callee.name :: c.locs.symbols
  | .eval _ | .store _ _ _ | .goto _ | .ret | .assume _ _ | .assert _ _ | .waitGroupEvent _ => []

def Stmt.symbols (s : Stmt α) : List Symbol := s.body.symbols ++ s.locs.symbols

def Block.symbols (b : Block) : List Symbol := b.name :: b.stmts.flatMap (·.symbols)

def Function.symbols (f : Function) : List Symbol :=
  f.name :: ((f.args ++ f.returns ++ f.locals).map (·.name) ++ f.blocks.flatMap (·.symbols) ++
    f.clauses.flatMap (·.locs.symbols) ++ f.attributes ++ f.callee.toList.map (·.name))

def Module.symbols (m : Module) : List Symbol :=
  m.name :: (m.arrays.map (·.name) ++ m.functions.flatMap (·.symbols) ++ m.index.map (·.1))

def Owned.symbols : Owned → List Symbol
  | .stmt s => s.symbols
  | .block b => b.symbols
  | .function f => f.symbols
  | .module m => m.symbols

/-- The symbols of everything in the workspace. -/
def Workspace.symbols (w : Workspace) : List Symbol :=
  w.vars.values.map (·.name) ++ w.arrays.values.map (·.name) ++ w.callees.values.map (·.name) ++
    w.locs.values.flatMap (·.symbols) ++ w.owned.flatMap (·.symbols) ++ w.store.cells.flatMap (·.shape.symbols)

/-! ## The symbols of linked objects -/

section

variable {L : Link} {R : α → β → Prop}

theorem Locs.Linked.symbols {l l' : Locs} (h : l.Linked L l') : List.Forall₂ L.sym l.symbols l'.symbols :=
  List.rel_flatMap h.list fun _ _ h => .cons h.file (.cons h.path .nil)

theorem Shape.Linked.symbols {s : Shape α} {s' : Shape β} (h : s.Linked L R s') :
    List.Forall₂ L.sym s.symbols s'.symbols := by
  cases h with
  | arrayRef h | varRef h | call h => exact .cons h.name .nil
  | bvConst | boolConst | pointer | load | bvExtract | bvZExt | bvSExt | unary | binary => exact .nil

theorem StmtBody.Linked.symbols {s : StmtBody α} {s' : StmtBody β} (h : s.Linked L R s') :
    List.Forall₂ L.sym s.symbols s'.symbols := by
  cases h with
  | varAssign hv => exact List.rel_map (fun _ _ h => h.name) hv
  | call hc => exact .cons hc.name .nil
  | callMemberOf _ hc => exact List.rel_flatMap hc fun _ _ h => .cons h.callee.name h.locs.symbols
  | eval | store | goto | ret | assume | assert | waitGroupEvent => exact .nil

theorem Stmt.Linked.symbols {s : Stmt α} {s' : Stmt β} (h : s.Linked L R s') :
    List.Forall₂ L.sym s.symbols s'.symbols := List.rel_append h.body.symbols h.locs.symbols

theorem Block.Linked.symbols {b b' : Block} (h : b.Linked L b') : List.Forall₂ L.sym b.symbols b'.symbols :=
  .cons h.name (List.rel_flatMap h.stmts fun _ _ h => h.symbols)

theorem Function.Linked.symbols {f f' : Function} (h : f.Linked L f') :
    List.Forall₂ L.sym f.symbols f'.symbols := by
  have vars := List.rel_map (fun _ _ h => Var.Linked.name h)
    (List.rel_append (List.rel_append h.args h.returns) h.locals)
  have blocks := List.rel_flatMap h.blocks fun _ _ h => h.symbols
  have clauses := List.rel_flatMap (List.rel_append h.requires h.ensures) fun _ _ h => (Clause.Linked.locs h).symbols
  have callee := List.rel_map (fun _ _ h => Callee.Linked.name h) (toList_linked h.callee)
  exact .cons h.name (List.rel_append (List.rel_append (List.rel_append (List.rel_append vars blocks) clauses)
    h.attributes) callee)

theorem Module.Linked.symbols {m m' : Module} (h : m.Linked L m') : List.Forall₂ L.sym m.symbols m'.symbols := by
  have arrays := List.rel_map (fun _ _ h => GlobalArray.Linked.name h) h.arrays
  have functions := List.rel_flatMap h.functions fun _ _ h => h.symbols
  exact .cons h.name (List.rel_append (List.rel_append arrays functions) (List.rel_map (fun _ _ h => h.1) h.index))

theorem Owned.Linked.symbols {o o' : Owned} (h : o.Linked L o') : List.Forall₂ L.sym o.symbols o'.symbols := by
  cases h with
  | stmt h => exact h.symbols
  | block h => exact h.symbols
  | function h => exact h.symbols
  | module h => exact h.symbols

end

/-! ## A workspace that one producer has alone -/

section

variable {L R : Link} {a w : Workspace}

/-- What stands in a slot of the first producer is linked to something. -/
theorem TableSplit.exists_linked {Q S : α → α → Prop} {ta tb t : Table α}
    (h : TableSplit (fun _ => True) Q S ta tb t) {o' : α} (here : o' ∈ t.values) : ∃ o, Q o o' := by
  obtain ⟨p, hp, rfl⟩ := List.mem_map.1 here
  have rel := h.left p.1 trivial
  rw [Table.get?_of_mem hp] at rel
  generalize ta.get? p.1 = o at rel
  cases rel with
  | some ho => exact ⟨_, ho⟩

theorem CellsSplit.exists_linked {as cs : List Cell} (h : CellsSplit L R as [] cs) {c' : Cell} (here : c' ∈ cs) :
    ∃ c : Cell, c.Linked L c' := by
  generalize none : ([] : List Cell) = bs at h
  induction h with
  | nil => cases here
  | left head _ ih =>
    rcases List.mem_cons.1 here with rfl | here
    · exact ⟨_, head⟩
    · exact ih here none
  | right => cases none

theorem TablesSplit.exists_linked_owned (h : TablesSplit (fun _ _ => True) L R a .empty w) {o' : Owned}
    (here : o' ∈ w.owned) : ∃ o : Owned, o.Linked L o' := by
  simp only [Workspace.owned, List.mem_append, List.mem_map] at here
  obtain ((⟨s, hs, rfl⟩ | ⟨b, hb, rfl⟩) | ⟨f, hf, rfl⟩) | ⟨m, hm, rfl⟩ := here
  · obtain ⟨_, linked⟩ := h.stmts.exists_linked hs
    exact ⟨_, .stmt linked⟩
  · obtain ⟨_, linked⟩ := h.blocks.exists_linked hb
    exact ⟨_, .block linked⟩
  · obtain ⟨_, linked⟩ := h.functions.exists_linked hf
    exact ⟨_, .function linked⟩
  · obtain ⟨_, linked⟩ := h.modules.exists_linked hm
    exact ⟨_, .module linked⟩

/-- **Every symbol in the workspace stands for some symbol**, when one producer has it alone. -/
theorem Split.exists_sym (h : Split (fun _ _ => True) L R a .empty w) {y' : Symbol} (here : y' ∈ w.symbols) :
    ∃ y, L.sym y y' := by
  have among : ∀ {ys ys' : List Symbol}, List.Forall₂ L.sym ys ys' → y' ∈ ys' → ∃ y, L.sym y y' := fun rel hy =>
    (exists_of_forall₂ rel hy).imp fun _ => And.right
  simp only [Workspace.symbols, List.mem_append, List.mem_map, List.mem_flatMap] at here
  obtain ((((⟨v, hv, rfl⟩ | ⟨g, hg, rfl⟩) | ⟨c, hc, rfl⟩) | ⟨l, hl, hy⟩) | ⟨o, ho, hy⟩) | ⟨c, hc, hy⟩ := here
  · exact (h.tables.vars.exists_linked hv).imp' _ fun _ linked => linked.name
  · exact (h.tables.arrays.exists_linked hg).imp' _ fun _ linked => linked.name
  · exact (h.tables.callees.exists_linked hc).imp' _ fun _ linked => linked.name
  · obtain ⟨_, linked⟩ := h.tables.locs.exists_linked hl
    exact among linked.symbols hy
  · obtain ⟨_, linked⟩ := h.tables.exists_linked_owned ho
    exact among linked.symbols hy
  · obtain ⟨_, linked⟩ := h.cells.exists_linked hc
    exact among linked.shape.symbols hy

end

namespace Workspace

variable {w : Workspace} {y : Symbol}

/-- The workspace is that of one producer, beside one who has nothing. -/
def Named (w : Workspace) : Prop := ∃ L R, Split (fun _ _ => True) L R w empty w

theorem named_empty : empty.Named := ⟨_, _, Split.empty _ Names.empty⟩

/-- **Every symbol in the workspace was interned.** -/
theorem Named.interned (h : w.Named) (here : y ∈ w.symbols) : ∃ s, w.names.texts[y.index]? = some s := by
  obtain ⟨L, R, split⟩ := h
  obtain ⟨_, linked⟩ := split.exists_sym here
  obtain ⟨s, -, hs⟩ := split.fits.sym linked
  exact ⟨s, hs⟩

/-- The other producer, who has nothing, has poisoned no names. -/
theorem Named.free (h : w.Named) : w.poisoned = false := by
  obtain ⟨L, R, split⟩ := h
  exact split.poisonedRight.symm

theorem Named.step (h : w.Named) (c : Command) : (w.step c).2.Named := by
  obtain ⟨L, R, split⟩ := h
  obtain ⟨⟨L', after⟩, -⟩ := split.after (List.forall_mem_nil _) (x := .command c) (c.lockstep fun _ _ => trivial)
  exact ⟨L', R, after⟩

theorem Named.intern (h : w.Named) (s : String) : Named { w with names := (w.names.intern s).2 } := by
  obtain ⟨L, R, split⟩ := h
  exact ⟨_, R, split.intern s⟩

theorem Reachable.named (h : w.Reachable) : w.Named := h.induct named_empty fun _ c hw => hw.step c

theorem mem_symbols_of_owned {o : Owned} (ho : o ∈ w.owned) (hy : y ∈ o.symbols) : y ∈ w.symbols :=
  List.mem_append_left _ (List.mem_append_right _ (List.mem_flatMap.2 ⟨o, ho, hy⟩))

/-- The name of a function is among the symbols. -/
theorem name_mem_symbols {site : FunctionSite} {f : Function} (here : w.function? site = some f) :
    f.name ∈ w.symbols := by
  have first : f.name ∈ f.symbols := List.mem_cons_self ..
  cases site with
  | loose x => exact mem_symbols_of_owned (o := .function f) (List.mem_append_left _ (List.mem_append_right _
      (List.mem_map_of_mem (Table.mem_values_of_get? here)))) first
  | inModule x i =>
    obtain ⟨m, hm, hf⟩ := Option.bind_eq_some_iff.1 here
    have among : f.name ∈ m.symbols := List.mem_cons_of_mem _ (List.mem_append_left _ (List.mem_append_right _
      (List.mem_flatMap.2 ⟨f, List.mem_of_getElem? hf, first⟩)))
    exact mem_symbols_of_owned (o := .module m) (List.mem_append_right _
      (List.mem_map_of_mem (Table.mem_values_of_get? hm))) among

end Workspace

end KernelIR
