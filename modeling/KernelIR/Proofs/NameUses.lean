import KernelIR.Proofs.Spelling
import KernelIR.Proofs.Symbols
/-!
# NameUses — names over whole runs

A producer uses names through commands and directly: it converts a text to a symbol, looks a text up, and compares a
symbol with a text.  A run is any list of such uses (`NameUse`); a use that fails does not end it.  Along a run, symbols
are handed out as answers and in the objects that the workspace holds (`Workspace.handedOut`), and texts are converted
(`Workspace.converted`): those that are converted directly, and those that commands intern.

What one use does to the names is exact (`Workspace.interned_use`), and what it hands out was interned (`Named.use`);
so the names after a run are those converted in it.

Main statement: `Workspace.names_over_runs`.
-/
namespace KernelIR

/-- One use of names. -/
inductive NameUse where
  | command (c : Command)
  | convert (text : String)
  | lookup (text : String)
  /-- Whether a symbol reads as a text. -/
  | compare (y : Symbol) (text : String)

inductive NameAnswer where
  | reply (r : Except Failure Reply)
  | symbol (y : Symbol)
  | found (y : Option Symbol)
  | same (b : Bool)

def NameAnswer.symbols : NameAnswer → List Symbol
  | .symbol y => [y]
  | .found y => y.toList
  | .reply _ | .same _ => []

/-- The texts that a use converts to symbols. -/
def NameUse.converts (w : Workspace) : NameUse → List String
  | .command c => c.interns w
  | .convert text => [text]
  | .lookup _ | .compare _ _ => []

namespace Workspace

def use (w : Workspace) : NameUse → NameAnswer × Workspace
  | .command c => let p := w.step c; (.reply p.1, p.2)
  | .convert text => let p := w.names.intern text; (.symbol p.1, { w with names := p.2 })
  | .lookup text => (.found (w.names.lookup? text), w)
  | .compare y text => (.same (w.names.text y == text), w)

/-- The workspace after a run. -/
def useAll (w : Workspace) (us : List NameUse) : Workspace := us.foldl (fun w u => (w.use u).2) w

/-- The symbols that a run hands out: those in its answers, and those of the objects in every workspace on the way. -/
def handedOut (w : Workspace) : List NameUse → List Symbol
  | [] => w.symbols
  | u :: us => w.symbols ++ (w.use u).1.symbols ++ (w.use u).2.handedOut us

/-- The texts that a run converts. -/
def converted (w : Workspace) : List NameUse → List String
  | [] => []
  | u :: us => u.converts w ++ (w.use u).2.converted us

variable {w : Workspace} {y z : Symbol}

/-! ## The names after a run -/

/-- **The names after one use.** -/
theorem interned_use (free : w.poisoned = false) (u : NameUse) : w.Interned (u.converts w) (w.use u).2 := by
  cases u with
  | command c => exact step_names free c
  | convert | lookup | compare => exact ⟨rfl, free⟩

theorem useAll_cons (w : Workspace) (u : NameUse) (us : List NameUse) :
    w.useAll (u :: us) = (w.use u).2.useAll us := rfl

theorem interned_useAll : ∀ (us : List NameUse) {w : Workspace}, w.poisoned = false →
    w.Interned (w.converted us) (w.useAll us)
  | [], _, free => ⟨rfl, free⟩
  | u :: us, w, free => by
    have first := interned_use free u
    have later := interned_useAll us first.free
    refine ⟨?_, later.free⟩
    rw [useAll_cons, later.names, first.names, converted, Names.internAll_append]

theorem names_later (us : List NameUse) (free : w.poisoned = false) :
    w.names.texts <+: (w.useAll us).names.texts := by
  rw [(interned_useAll us free).names]
  exact Names.prefix_internAll _ _

/-! ## The symbols that are handed out -/

theorem Named.use (h : w.Named) (u : NameUse) : (w.use u).2.Named := by
  cases u with
  | command c => exact h.step c
  | convert text => exact h.intern text
  | lookup | compare => exact h

/-- A symbol in an answer is interned then. -/
theorem answer_interned (w : Workspace) (u : NameUse) (here : y ∈ (w.use u).1.symbols) :
    ∃ s, (w.use u).2.names.texts[y.index]? = some s := by
  cases u with
  | command | compare => cases here
  | convert text =>
    obtain rfl := List.mem_singleton.1 here
    exact ⟨text, w.names.texts_intern_get text⟩
  | lookup text => exact ⟨text, Names.texts_get_of_lookup? (Option.mem_toList.1 here)⟩

/-- **Every symbol that a run hands out is interned at the end.** -/
theorem Named.handedOut_interned : ∀ (us : List NameUse) {w : Workspace}, w.Named → y ∈ w.handedOut us →
    ∃ s, (w.useAll us).names.texts[y.index]? = some s
  | [], _, h, here => h.interned here
  | u :: us, w, h, here => by
    rw [useAll_cons]
    rcases List.mem_append.1 here with now | later
    · rcases List.mem_append.1 now with held | answered
      · exact (h.interned held).imp fun _ hs => getElem?_mono (names_later (u :: us) h.free) hs
      · exact (w.answer_interned u answered).imp fun _ hs => getElem?_mono (names_later us (h.use u).free) hs
    · exact handedOut_interned us (h.use u) later

/-! ## The main statement -/

/-- The uses that only read names: a lookup, a comparison, a command that spells no name, such as the search for a
function by its name or for an attribute, and a parameter or return value that comes too late. -/
inductive Reads (w : Workspace) : NameUse → Prop
  | lookup (text : String) : Reads w (.lookup text)
  | compare (y : Symbol) (text : String) : Reads w (.compare y text)
  | command {c : Command} (none : c.spells = []) : Reads w (.command c)
  | refused {role : VarRole} {f : String} {fn : Function} (here : w.functions.get? f = some fn)
    (frozen : fn.callee ≠ none) (part : role ≠ .localVar) (name : String) (typ : TyTerm) (into : Option String) :
    Reads w (.command (.addVar role f name typ into))

theorem Reads.converts {u : NameUse} (h : Reads w u) : u.converts w = [] := by
  cases h with
  | lookup | compare => rfl
  | command none => exact List.prefix_nil.1 (none ▸ Command.interns_prefix _ w)
  | @refused role f fn here frozen part name typ into =>
    have read : Build.functionSlot f w = .ok fn w := Build.run_slot here
    rw [NameUse.converts, Command.interns, Build.onAnswer_of_ok read, if_neg (not_or.2 ⟨part, frozen⟩)]
    exact Build.onAnswer_nil _ w

/-- **Names over whole runs.**

After any run of commands, conversions, lookups and comparisons, failed ones among them:

* symbols that were handed out on the way are equal exactly when their texts are; none of them ever reads otherwise,
  whatever the run goes on with; and a lookup of a text finds such a symbol exactly when the symbol reads as the text;
* a lookup finds exactly the texts that were converted, and a conversion answers with a symbol that reads as its text;
* every use adds exactly the texts that it converts.  A command that succeeds converts all that it spells; one that
  fails converts the first part of that, and a location that is refused is part of it;
* a lookup, a comparison, a search for a function by name or for an attribute, and a parameter or return value that is
  refused because its signature is in use, add no name. -/
theorem names_over_runs {us : List NameUse} (ran : empty.useAll us = w) :
    ((∀ y ∈ empty.handedOut us, ∀ z ∈ empty.handedOut us, y = z ↔ w.names.text y = w.names.text z) ∧
      (∀ y ∈ empty.handedOut us, ∀ vs, (w.useAll vs).names.text y = w.names.text y) ∧
      ∀ y ∈ empty.handedOut us, ∀ text, w.names.lookup? text = some y ↔ w.names.text y = text) ∧
    ((∀ text, (w.names.lookup? text).isSome = true ↔ text ∈ empty.converted us) ∧
      ∀ text, ∃ y, (w.use (.convert text)).1 = .symbol y ∧ (w.use (.convert text)).2.names.text y = text) ∧
    ((∀ u, (w.use u).2.names = w.names.internAll (u.converts w)) ∧
      (∀ (c : Command) r, (w.step c).1 = .ok r → c.interns w = c.spells) ∧
      (∀ c : Command, c.interns w <+: c.spells) ∧
      ∀ pre l post into, (∀ l' ∈ pre, l'.InRange) → ¬l.InRange →
        (Command.locs (.list (pre ++ l :: post)) into).interns w = (pre ++ [l]).flatMap (·.spells)) ∧
    ∀ u, Reads w u → (w.use u).2.names = w.names := by
  subst ran
  have named := named_empty
  have all := interned_useAll us (w := empty) rfl
  refine ⟨⟨fun y hy z hz => ?_, fun y hy vs => ?_, fun y hy text => ?_⟩, ⟨fun text => ?_, fun text => ?_⟩,
    ⟨fun u => (interned_use all.free u).names, fun c r ok => interns_of_step_ok ok, fun c => c.interns_prefix _,
      fun pre l post into h out => LocTerm.internsList_stops out post h⟩, fun u reads => ?_⟩
  · obtain ⟨s, hs⟩ := named.handedOut_interned us hy
    obtain ⟨t, ht⟩ := named.handedOut_interned us hz
    rw [Names.symbol_eq_iff hs ht, Names.text_eq hs, Names.text_eq ht]
  · obtain ⟨s, hs⟩ := named.handedOut_interned us hy
    rw [Names.text_eq hs, Names.text_eq (getElem?_mono (names_later vs all.free) hs)]
  · obtain ⟨s, hs⟩ := named.handedOut_interned us hy
    rw [Names.lookup?_eq_some_iff hs, Names.text_eq hs, eq_comm]
  · rw [Names.isSome_lookup?_iff, all.names, Names.mem_texts_internAll]
    exact or_iff_right List.not_mem_nil
  · exact ⟨_, rfl, Names.text_eq (Names.texts_intern_get _ text)⟩
  · rw [(interned_use all.free u).names, reads.converts, Names.internAll_nil]

/-- A function with an attribute whose signature is in use when a parameter is declared; a local variable; a list of
locations whose first has a negative column; and texts that are only looked for. -/
def namesInUse : List NameUse :=
  [.lookup "gone", .command (.function "f" (some "f")), .command (.addAttribute "f" "kernel"),
    .command (.callee (.loose "f") none), .command (.addVar .parameter "f" "late" .bool none),
    .command (.addVar .localVar "f" "tmp" .bool (some "v")),
    .command (.locs (.list [⟨"k.cl", "/src", 7, -1⟩, ⟨"l.cl", "/src", 1, 1⟩]) none),
    .command (.hasAttribute (.loose "f") "cold"), .convert "f"]

theorem names_over_runs_namesInUse :
    empty.converted namesInUse = ["f", "kernel", "tmp", "k.cl", "/src", "f"] ∧
    ((empty.useAll namesInUse).names.lookup? "/src").isSome = true ∧
    ¬((empty.useAll namesInUse).names.lookup? "late").isSome = true ∧
    ∃ f v, (empty.useAll namesInUse).functions.get? "f" = some f ∧ (empty.useAll namesInUse).vars.get? "v" = some v ∧
      f.name ≠ v.name ∧ (empty.useAll namesInUse).names.lookup? "f" = some f.name := by
  have ran : empty.useAll namesInUse = empty.useAll namesInUse := rfl
  obtain ⟨⟨equal, -, found⟩, ⟨known, -⟩, -⟩ := names_over_runs ran
  have converted : empty.converted namesInUse = ["f", "kernel", "tmp", "k.cl", "/src", "f"] := by decide
  refine ⟨converted, (known "/src").2 ?_, mt (known "late").1 ?_, _, _, rfl, rfl, ?_, ?_⟩
  · rw [converted]
    decide
  · rw [converted]
    decide
  · exact fun same => absurd ((equal ⟨0⟩ (by decide) ⟨2⟩ (by decide)).1 same) (by decide)
  · exact (found ⟨0⟩ (by decide) "f").2 (by decide)

end Workspace
end KernelIR
