import KernelIR.Proofs.ControlFlow
import KernelIR.Proofs.Interning
import KernelIR.Proofs.Refinement
import KernelIR.Proofs.Symbols
/-!
# Lookup — a function is found by the text of its name

A lookup by name goes through two tables: the text is looked up among the interned names, and its symbol in the index of
the module.  The names of functions are interned (`Reachable.interned`), and symbols are equal when their texts are, so
the detour comes to a search by text (`Module.Indexed.functionNamed?_eq_some_iff`).

An accepted function stays at its position while the module stays in its slot (`Reachable.stays`), and its name reads as
before, since names are only added.

Main statement: `Workspace.Reachable.named_by_text`.
-/
namespace KernelIR

/-- **The index of a module is in step with its functions**, under names that are interned. -/
structure Module.Indexed (N : Names) (m : Module) : Prop where
  names : (m.functions.map (·.name)).Nodup
  index : ∀ y i, m.index.lookup y = some i ↔ ∃ f, m.functions[i]? = some f ∧ f.name = y
  interned : ∀ f ∈ m.functions, ∃ s, N.texts[f.name.index]? = some s

namespace Module.Indexed

variable {N N' : Names} {m : Module} {f g : Function} {s : String}

theorem later (h : m.Indexed N) (grows : N.texts <+: N'.texts) : m.Indexed N' :=
  { h with interned := fun f hf => (h.interned f hf).imp fun _ hs => getElem?_mono grows hs }

/-- A name reads as before when names are added. -/
theorem text_later (h : m.Indexed N) (grows : N.texts <+: N'.texts) (hf : f ∈ m.functions) :
    N'.text f.name = N.text f.name := by
  obtain ⟨t, ht⟩ := h.interned f hf
  rw [Names.text_eq ht, Names.text_eq (getElem?_mono grows ht)]

theorem lookup?_iff (h : m.Indexed N) (hf : f ∈ m.functions) (s : String) :
    N.lookup? s = some f.name ↔ N.text f.name = s := by
  obtain ⟨t, ht⟩ := h.interned f hf
  rw [Names.lookup?_eq_some_iff ht, Names.text_eq ht, eq_comm]

/-- **No two functions of the module have names of one text.** -/
theorem unique (h : m.Indexed N) (hf : f ∈ m.functions) (hg : g ∈ m.functions)
    (same : N.text f.name = N.text g.name) : f = g := by
  obtain ⟨s, hs⟩ := h.interned f hf
  obtain ⟨t, ht⟩ := h.interned g hg
  rw [Names.text_eq hs, Names.text_eq ht] at same
  exact List.inj_on_of_nodup_map h.names hf hg ((Names.symbol_eq_iff hs ht).2 same)

theorem positionOf?_eq_some_iff (h : m.Indexed N) {i : Nat} :
    m.positionOf? N s = some i ↔ ∃ f, m.functions[i]? = some f ∧ N.text f.name = s := by
  rw [positionOf?, Option.bind_eq_bind, Option.bind_eq_some_iff]
  constructor
  · rintro ⟨y, found, here⟩
    obtain ⟨f, hf, rfl⟩ := (h.index y i).1 here
    exact ⟨f, hf, (h.lookup?_iff (List.mem_of_getElem? hf) s).1 found⟩
  · rintro ⟨f, hf, text⟩
    exact ⟨f.name, (h.lookup?_iff (List.mem_of_getElem? hf) s).2 text, (h.index f.name i).2 ⟨f, hf, rfl⟩⟩

/-- **A lookup finds the function whose name has the text**, and nothing else. -/
theorem functionNamed?_eq_some_iff (h : m.Indexed N) :
    m.functionNamed? N s = some f ↔ f ∈ m.functions ∧ N.text f.name = s := by
  rw [functionNamed?, Option.bind_eq_bind, Option.bind_eq_some_iff]
  constructor
  · rintro ⟨i, position, hf⟩
    obtain ⟨g, hg, text⟩ := h.positionOf?_eq_some_iff.1 position
    cases hf.symm.trans hg
    exact ⟨List.mem_of_getElem? hf, text⟩
  · rintro ⟨hf, text⟩
    obtain ⟨i, hi⟩ := List.mem_iff_getElem?.1 hf
    exact ⟨i, h.positionOf?_eq_some_iff.2 ⟨f, hi, text⟩, hi⟩

/-- **It is the linear search** through the functions. -/
theorem functionNamed?_eq_find? (h : m.Indexed N) (s : String) :
    m.functionNamed? N s = m.functions.find? fun f => N.text f.name == s := by
  have reads : ∀ {f : Function}, m.functions.find? (fun f => N.text f.name == s) = some f →
      f ∈ m.functions ∧ N.text f.name = s := fun found =>
    ⟨List.mem_of_find?_eq_some found, by simpa using List.find?_some found⟩
  refine Option.ext fun f => h.functionNamed?_eq_some_iff.trans ⟨?_, reads⟩
  rintro ⟨hf, text⟩
  cases found : m.functions.find? fun f => N.text f.name == s with
  | none => exact absurd (beq_iff_eq.2 text) (List.find?_eq_none.1 found f hf)
  | some g => rw [h.unique hf (reads found).1 (text.trans (reads found).2.symm)]

theorem functionNamed?_later (h : m.Indexed N) (grows : N.texts <+: N'.texts) (s : String) :
    m.functionNamed? N' s = m.functionNamed? N s := by
  refine Option.ext fun f => ?_
  rw [(h.later grows).functionNamed?_eq_some_iff, h.functionNamed?_eq_some_iff]
  exact and_congr_right fun hf => by rw [h.text_later grows hf]

end Module.Indexed

namespace Workspace

variable {w v : Workspace} {x : String} {m : Module} {f : Function}

/-! ## The names of functions are interned -/

theorem Reachable.interned (h : w.Reachable) {site : FunctionSite} (here : w.function? site = some f) :
    ∃ s, w.names.texts[f.name.index]? = some s := h.named.interned (name_mem_symbols here)

theorem Reachable.interned_loose {y : String} (h : w.Reachable) (owns : w.functions.get? y = some f) :
    ∃ s, w.names.texts[f.name.index]? = some s := by
  have stands : w.function? (.loose y) = some f := owns
  exact h.interned stands

theorem Reachable.indexed (h : w.Reachable) (here : w.modules.get? x = some m) : m.Indexed w.names := by
  have closed := h.closed (Table.mem_values_of_get? here)
  refine ⟨closed.names, closed.index, fun f hf => ?_⟩
  obtain ⟨i, hi⟩ := List.mem_iff_getElem?.1 hf
  have stands : w.function? (.inModule x i) = some f := Option.bind_eq_some_iff.2 ⟨m, here, hi⟩
  exact h.interned stands

end Workspace

/-! ## An accepted function stays where it is -/

/-- The log of a module is appended to as long as the module stays in its slot. -/
theorem Ledger.Exact.along_module {x : String} : ∀ (cs : List Command) {L : Ledger} {w : Workspace} {l : ModuleLog},
    L.Exact w → w.Sound → L (.module, x) = some (.module l) → (∀ c ∈ cs, (.module, x) ∉ c.takes) →
    ∃ more, L.along w cs (.module, x) = some (.module { l with entries := l.entries ++ more })
  | [], _, _, l, _, _, hl, _ => ⟨[], by rw [List.append_nil]; exact hl⟩
  | c :: cs, L, w, l, d, h, hl, kept => by
    obtain ⟨first, rest⟩ := List.forall_mem_cons.1 kept
    obtain ⟨l', hl', grown⟩ := d.record_extends h hl first
    cases l' with
    | module l' =>
      obtain ⟨more, rfl⟩ := grown
      obtain ⟨later, final⟩ := Exact.along_module cs (d.step h c) (h.step c) hl' rest
      refine ⟨more ++ later, ?_⟩
      rw [← List.append_assoc]
      exact final
    | stmt | block | function => cases grown

namespace Workspace

variable {w v : Workspace} {x y : String} {m : Module} {f : Function}

/-- **A function that a module accepts stays at its position**, under its name and with its content, whatever is done
while the module stays in its slot. -/
theorem Reachable.stays (h : w.Reachable) (here : w.modules.get? x = some m) (owns : w.functions.get? y = some f)
    {r : Reply} (ok : (w.step (.addFunction x y)).1 = .ok r) {cs : List Command}
    (kept : ∀ c ∈ cs, (.module, x) ∉ c.takes) : ∃ m' f', (w.run (.addFunction x y :: cs)).2.modules.get? x = some m' ∧
      m'.functions[m.functions.length]? = some f' ∧ f'.content = f.content ∧
      (w.run (.addFunction x y :: cs)).2.names.text f'.name = w.names.text f.name := by
  have sound := h.sound
  have grows := h.run_names (.addFunction x y :: cs)
  obtain ⟨s, hs⟩ := h.interned_loose owns
  obtain ⟨cs₀, rfl⟩ := h
  have exact_ := Ledger.exact_ofScript cs₀
  obtain ⟨lm, lf, hlm, hlf, moved, -⟩ := exact_.record_moved ok
  -- what the two logs describe before the function moves
  obtain ⟨lm', hlm', before⟩ := (exact_ (.module, x)).of_module here
  cases hlm.symm.trans hlm'
  obtain ⟨lf', hlf', -, content⟩ := (exact_ (.function, y)).of_function owns
  cases hlf.symm.trans hlf'
  -- and what the log of the module describes in the end
  have first := exact_.step sound (.addFunction x y)
  obtain ⟨more, final⟩ := first.along_module cs (sound.step _) moved kept
  have last := (Ledger.Exact.along cs first (sound.step _) (.module, x)).content
  rw [final] at last
  obtain ⟨o, owned, same⟩ := Option.map_eq_some_iff.1 last
  obtain ⟨m', there, rfl⟩ := Option.map_eq_some_iff.1 owned
  have length : lm.module.functions.length = m.functions.length := by
    rw [before, Module.content, List.length_map]
  have position := lm.module_function lf more
  rw [length, content, ← Owned.module.inj same, Module.content, List.getElem?_map] at position
  obtain ⟨f', hf', same'⟩ := Option.map_eq_some_iff.1 position
  have name : f'.content.name = f.content.name := congrArg Function.name same'
  have name : f'.name = f.name := name
  refine ⟨m', f', there, hf', same', ?_⟩
  rw [name, Names.text_eq hs, Names.text_eq (getElem?_mono grows hs)]

/-! ## Reading changes nothing -/

/-- Where everything is held, there is nothing to tidy. -/
theorem Sound.tidy_eq (h : w.Sound) (same : v.store = w.store) : v.tidy = v := by
  have cells : w.store.sweep.cells = w.store.cells := h.cells_of_remains (.refl h.books)
  have store : w.store.sweep = w.store := congrArg (Store.mk w.store.next) cells
  unfold tidy mapStore
  rw [same, store, ← same]

/-- A lookup that finds a function reads it, and nothing changes. -/
theorem Reachable.step_found (h : w.Reachable) (here : w.modules.get? x = some m) {s : String}
    (found : m.functionNamed? w.names s = some f) :
    w.step (.showFunction (.named x s)) = (.ok (.function (w.reportFunction f)), w) := by
  obtain ⟨i, position, hf⟩ := Option.bind_eq_some_iff.1 found
  have site : (FunctionRef.named x s).site? w = some (.inModule x i) := by
    rw [FunctionRef.site?, if_neg (ne_true_of_eq_false h.free), here, Option.bind_eq_bind, Option.bind_some, position]
    rfl
  have stands : w.function? (.inModule x i) = some f := Option.bind_eq_some_iff.2 ⟨m, here, hf⟩
  have run : Command.perform (.showFunction (.named x s)) w = .ok (.function (w.reportFunction f)) w :=
    Build.run_bind (Build.run_findFunction site stands) _
  rw [step_of_run run, h.sound.tidy_eq rfl]

/-- A lookup that finds none is refused, and nothing changes. -/
theorem Reachable.step_missed (h : w.Reachable) (here : w.modules.get? x = some m) {s : String}
    (missed : m.functionNamed? w.names s = none) :
    w.step (.showFunction (.named x s)) = (.error (.missing .functionOfModule), w) := by
  have position : m.positionOf? w.names s = none := by
    refine Option.eq_none_iff_forall_ne_some.2 fun i position => ?_
    obtain ⟨f, hf, text⟩ := (h.indexed here).positionOf?_eq_some_iff.1 position
    cases missed.symm.trans ((h.indexed here).functionNamed?_eq_some_iff.2 ⟨List.mem_of_getElem? hf, text⟩)
  have run : Build.findFunction (.named x s) w = .error (.missing .functionOfModule) w := by
    have read : (get : Build Workspace) w = .ok w w := rfl
    refine (Build.run_bind (Build.run_slot_iff.2 ⟨here, rfl⟩) _).trans ((Build.run_bind
      (Build.run_checkNames h.free) _).trans ((Build.run_bind read _).trans ?_))
    rw [position]
    rfl
  rw [step_of_error (Build.run_bind_error run _), h.sound.tidy_eq rfl]

/-- **Lookup by name is lookup by text.**

A module finds exactly the function of its own whose name has the text, as a search through its functions would: there
is one such function at most, at the position that the index has.  It finds the same whatever names are interned in
addition, and neither what is found nor what is not changes anything in the workspace.

A function that the module accepts is found at the position where it was accepted, as long as the module stays in its
slot. -/
theorem Reachable.named_by_text (h : w.Reachable) (here : w.modules.get? x = some m) :
    (∀ s : String,
      (∀ f, m.functionNamed? w.names s = some f ↔ f ∈ m.functions ∧ w.names.text f.name = s) ∧
      (∀ i, m.positionOf? w.names s = some i ↔ ∃ f, m.functions[i]? = some f ∧ w.names.text f.name = s) ∧
      (m.functionNamed? w.names s = m.functions.find? fun f => w.names.text f.name == s) ∧
      (∀ N : Names, w.names.texts <+: N.texts → m.functionNamed? N s = m.functionNamed? w.names s) ∧
      (∀ f, m.functionNamed? w.names s = some f →
        w.step (.showFunction (.named x s)) = (.ok (.function (w.reportFunction f)), w)) ∧
      (m.functionNamed? w.names s = none →
        w.step (.showFunction (.named x s)) = (.error (.missing .functionOfModule), w))) ∧
    (∀ f ∈ m.functions, ∀ g ∈ m.functions, w.names.text f.name = w.names.text g.name → f = g) ∧
    ∀ y f, w.functions.get? y = some f → ∀ r, (w.step (.addFunction x y)).1 = .ok r →
      ∀ cs : List Command, (∀ c ∈ cs, (.module, x) ∉ c.takes) →
        ∃ m' f', (w.run (.addFunction x y :: cs)).2.modules.get? x = some m' ∧ f'.content = f.content ∧
          m'.positionOf? (w.run (.addFunction x y :: cs)).2.names (w.names.text f.name) = some m.functions.length ∧
          m'.functionNamed? (w.run (.addFunction x y :: cs)).2.names (w.names.text f.name) = some f' := by
  have indexed := h.indexed here
  refine ⟨fun s => ⟨fun f => indexed.functionNamed?_eq_some_iff, fun i => indexed.positionOf?_eq_some_iff,
    indexed.functionNamed?_eq_find? s, fun N grows => indexed.functionNamed?_later grows s,
    fun f => h.step_found here, h.step_missed here⟩, fun f hf g hg => indexed.unique hf hg,
    fun y f owns r ok cs kept => ?_⟩
  obtain ⟨m', f', there, position, content, text⟩ := h.stays here owns ok kept
  have later := (h.run (.addFunction x y :: cs)).indexed there
  exact ⟨m', f', there, content, later.positionOf?_eq_some_iff.2 ⟨f', position, text⟩,
    later.functionNamed?_eq_some_iff.2 ⟨List.mem_of_getElem? position, text⟩⟩

/-- Two modules with a function each, and a third function. -/
def namedApart : List Command :=
  [.module "m" .spir (some "m"), .module "n" .spir (some "n"), .function "f" (some "f"), .addFunction "m" "f",
    .function "g" (some "g"), .addFunction "n" "g", .function "h" (some "h")]

/-- The first module finds its function, and no other one of a name that was interned.  The third function is found at
position `1`, also after an attempt to add another of its name. -/
theorem named_by_text_namedApart :
    (∃ m f, (empty.run namedApart).2.modules.get? "m" = some m ∧
      m.functionNamed? (empty.run namedApart).2.names "f" = some f ∧ (empty.run namedApart).2.names.text f.name = "f") ∧
    (empty.run namedApart).2.step (.showFunction (.named "m" "g")) =
      (.error (.missing .functionOfModule), (empty.run namedApart).2) ∧
    ∃ m, ((empty.run namedApart).2.run [.addFunction "m" "h", .function "h" (some "h"),
        .addFunction "m" "h"]).2.modules.get? "m" = some m ∧
      m.positionOf? ((empty.run namedApart).2.run [.addFunction "m" "h", .function "h" (some "h"),
        .addFunction "m" "h"]).2.names "h" = some 1 := by
  obtain ⟨m, here, one⟩ : ∃ m, (empty.run namedApart).2.modules.get? "m" = some m ∧ m.functions.length = 1 :=
    ⟨_, rfl, rfl⟩
  obtain ⟨texts, -, accepted⟩ := Reachable.named_by_text ⟨namedApart, rfl⟩ here
  refine ⟨?_, ?_, ?_⟩
  · obtain ⟨f, hf⟩ : ∃ f, m.functionNamed? (empty.run namedApart).2.names "f" = some f := by
      cases here
      exact ⟨_, rfl⟩
    exact ⟨m, f, here, hf, (((texts "f").1 f).1 hf).2⟩
  · refine (texts "g").2.2.2.2.2 ?_
    cases here
    rfl
  · obtain ⟨m', f', there, -, position, -⟩ := accepted "h" _ rfl (.count 2) rfl
      [.function "h" (some "h"), .addFunction "m" "h"] (by decide)
    rw [one] at position
    exact ⟨m', there, position⟩

end Workspace
end KernelIR
