import FrameMachine.Proofs.Compiler.Separate
import Mathlib.Data.Finset.Card

/-!
# The registered functions

Registering functions one after the other keeps two things in step, the functions in the order of
their names' first registration and the table of the places of the names: a name has a place if and
only if the function at this place has the name (`Code.InStep`). So each name is listed once, and
stands for the function registered last under it.

A program that compiles registers its functions in this way. A name stands for the code of its last
declaration, with as many parameters as calls of this name are compiled for (`Code.registry_law`).
-/

set_option autoImplicit false

namespace FrameMachine

namespace Code

/-- The names of the registered functions in the order in which the functions are listed. -/
def names (code : Code) : List String := code.templates.toList.map Template.name

/-- The place of a name is the place of the function of this name. -/
def InStep (code : Code) : Prop :=
  ∀ name place, code.places[name]? = some place ↔
    (code.templates[place]?).map Template.name = some name

section Step

variable {code : Code} {t : Template}

/-- A name has a place if it is listed. -/
theorem InStep.mem_names (h : code.InStep) {name : String} :
    name ∈ code.names ↔ code.places[name]? ≠ none := by
  rw [Option.ne_none_iff_exists']
  simp only [h name, names, List.mem_iff_getElem?, List.getElem?_map, Array.getElem?_toList]

theorem empty_inStep : empty.InStep := by
  intro name place
  simp [empty]

/-- If the name has a place, the new function takes it. -/
theorem InStep.add_of_place (h : code.InStep) {place : Nat}
    (hplace : code.places[t.name]? = some place) :
    (code.add t).names = code.names ∧ (code.add t).InStep := by
  have hadd : code.add t = { code with templates := code.templates.setIfInBounds place t } := by
    rw [add, hplace]
  have hown := (h t.name place).1 hplace
  have hkept (other : Nat) :
      ((code.add t).templates[other]?).map Template.name =
          (code.templates[other]?).map Template.name := by
    rw [hadd, Array.getElem?_setIfInBounds]
    by_cases heq : place = other
    · subst heq
      obtain ⟨u, hu, -⟩ := Option.map_eq_some_iff.1 hown
      rw [if_pos rfl, if_pos (Array.getElem?_eq_some_iff.1 hu).1, hown]
      rfl
    · rw [if_neg heq]
  constructor
  · apply List.ext_getElem?
    intro other
    simpa [names] using hkept other
  · intro name other
    rw [hkept other, hadd]
    exact h name other

/-- If the name has no place, the function is listed at the end. -/
theorem InStep.add_of_no_place (h : code.InStep) (hplace : code.places[t.name]? = none) :
    (code.add t).names = code.names ++ [t.name] ∧ (code.add t).InStep := by
  have hadd : code.add t = ⟨code.templates.push t,
      code.places.insert t.name code.templates.size⟩ := by
    rw [add, hplace]
  rw [hadd]
  constructor
  · simp [names]
  · intro name place
    simp only [places_insert, Array.getElem?_push]
    by_cases hend : place = code.templates.size
    · -- nothing was at this place, so no other name leads there
      have hnone : code.places[name]? ≠ some place := by
        rw [Ne, h, hend, Array.getElem?_size]
        exact Option.some_ne_none name ∘ Eq.symm
      rw [if_pos hend]
      by_cases hname : t.name = name
      · simp [hname, hend]
      · simp [hname, hnone]
    · rw [if_neg hend]
      by_cases hname : t.name = name
      · -- the name was not listed, so no other place belongs to it
        have hnone := (h name place).not.1 (by simp [← hname, hplace])
        rw [if_pos hname]
        exact iff_of_false (fun heq => hend (Option.some.inj heq).symm) hnone
      · rw [if_neg hname]
        exact h name place

theorem InStep.add (h : code.InStep) (t : Template) : (code.add t).InStep := by
  cases hplace : code.places[t.name]? with
  | some place => exact (h.add_of_place hplace).2
  | none => exact (h.add_of_no_place hplace).2

/-- A name is listed when it is registered for the first time. -/
theorem InStep.names_add (h : code.InStep) (t : Template) :
    (code.add t).names = if t.name ∈ code.names then code.names else code.names ++ [t.name] := by
  cases hplace : code.places[t.name]? with
  | some place =>
    rw [if_pos (h.mem_names.2 (by simp [hplace]))]
    exact (h.add_of_place hplace).1
  | none =>
    rw [if_neg (fun hmem => h.mem_names.1 hmem hplace)]
    exact (h.add_of_no_place hplace).1

/-- The functions that are listed are those for which the names stand. -/
theorem InStep.get?_name (h : code.InStep) (ht : t ∈ code.templates) :
    code.get? t.name = some t := by
  obtain ⟨place, hlt, hplace⟩ := Array.mem_iff_getElem.1 ht
  have hget : code.templates[place]? = some t := by rw [Array.getElem?_eq_getElem hlt, hplace]
  have hown : code.places[t.name]? = some place :=
    (h t.name place).2 (by rw [hget, Option.map_some])
  rw [get?, hown, Option.bind_some, hget]

theorem InStep.places_eq_some (h : code.InStep) {name : String} {place : Nat} :
    code.places[name]? = some place ↔ ∃ hlt : place < code.templates.size,
      code.templates[place].name = name := by
  rw [h, Option.map_eq_some_iff]
  constructor
  · rintro ⟨t, ht, hname⟩
    obtain ⟨hlt, rfl⟩ := Array.getElem?_eq_some_iff.1 ht
    exact ⟨hlt, hname⟩
  · rintro ⟨hlt, hname⟩
    exact ⟨code.templates[place], Array.getElem?_eq_getElem hlt, hname⟩

end Step

/-! ## Functions registered one after the other -/

section Sequence

theorem ofTemplates_concat (ts : List Template) (t : Template) :
    ofTemplates (ts ++ [t]) = (ofTemplates ts).add t := by
  rw [ofTemplates, List.foldl_append]
  rfl

theorem ofTemplates_inStep (ts : List Template) : (ofTemplates ts).InStep := by
  induction ts using List.reverseRecOn with
  | nil => exact empty_inStep
  | append_singleton ts t ih =>
    rw [ofTemplates_concat]
    exact ih.add t

/-- The names are listed in the order in which they were first registered, each once. -/
theorem names_ofTemplates (ts : List Template) :
    (ofTemplates ts).names = (ts.map Template.name).eraseDups := by
  induction ts using List.reverseRecOn with
  | nil => rfl
  | append_singleton ts t ih =>
    rw [ofTemplates_concat, (ofTemplates_inStep ts).names_add, ih, List.map_append,
      List.map_singleton, List.eraseDups_append]
    generalize ts.map Template.name = earlier
    by_cases hmem : t.name ∈ earlier
    · simp [hmem, List.removeAll]
    · simp [hmem, List.removeAll, List.eraseDups_cons]

theorem nodup_names (ts : List Template) : (ofTemplates ts).names.Nodup := by
  induction ts using List.reverseRecOn with
  | nil => exact List.nodup_nil
  | append_singleton ts t ih =>
    rw [ofTemplates_concat, (ofTemplates_inStep ts).names_add]
    by_cases hmem : t.name ∈ (ofTemplates ts).names
    · rwa [if_pos hmem]
    · rw [if_neg hmem]
      exact List.nodup_append.2 ⟨ih, List.nodup_singleton _, by grind⟩

/-- A name stands for the function that was registered last under it. -/
theorem get?_ofTemplates (ts : List Template) (name : String) :
    (ofTemplates ts).get? name = ts.reverse.find? fun t => t.name = name := by
  induction ts using List.reverseRecOn with
  | nil => rfl
  | append_singleton ts t ih =>
    rw [ofTemplates_concat, get?_add (ofTemplates_wellFormed ts), ih, List.reverse_append]
    by_cases hname : t.name = name
    · simp [hname]
    · simp [hname]

/-- There are as many functions as different names. -/
theorem size_ofTemplates (ts : List Template) :
    (ofTemplates ts).size = (ts.map Template.name).toFinset.card := by
  have hsize : (ofTemplates ts).size = (ofTemplates ts).names.length := by simp [size, names]
  have hnames : (ofTemplates ts).names.toFinset = (ts.map Template.name).toFinset := by
    ext name
    rw [List.mem_toFinset, List.mem_toFinset, names_ofTemplates, List.mem_eraseDups]
  rw [hsize, ← hnames, List.toFinset_card_of_nodup (nodup_names ts)]

end Sequence

end Code

/-! ## The functions of a program -/

section Programs

variable {p : Program} {code : Code}

/-- The code of a function does not depend on what has been compiled before. -/
theorem FunDecl.CompilesTo.exists_compileFunction {f : FunDecl} {t : Template}
    (h : f.CompilesTo p.context t) :
    ∃ c, p.compileFunction f = .ok c ∧ c.template = t := by
  obtain ⟨c, s, last, hcompile, htemplate⟩ := h
  rw [f.compile_restarts s {}] at hcompile
  exact ⟨c, FunDecl.outcome_eq_ok.2 ⟨last, hcompile⟩, htemplate⟩

theorem Program.get?_of_function? (h : p.compile = .ok code) {name : String} {f : FunDecl}
    (hf : p.function? name = some f) :
    ∃ c, p.compileFunction f = .ok c ∧ code.get? name = some c.template := by
  rcases Program.get?_compile h name with ⟨g, t, hg, hgt, hget⟩ | ⟨hnone, -⟩
  · rw [hf, Option.some.injEq] at hg
    subst hg
    obtain ⟨c, hc, rfl⟩ := hgt.exists_compileFunction
    exact ⟨c, hc, hget⟩
  · rw [hf] at hnone
    cases hnone

theorem Program.get?_of_no_function (h : p.compile = .ok code) {name : String}
    (hnone : p.function? name = none) :
    code.get? name = none := by
  rcases Program.get?_compile h name with ⟨f, t, hf, -⟩ | ⟨-, hget⟩
  · rw [hnone] at hf
    cases hf
  · exact hget

/-- Calls are compiled for the number of parameters that the function has. -/
theorem Program.arity_get?_compile (h : p.compile = .ok code) (name : String) :
    (code.get? name).map Template.arity = p.context.arity? name := by
  have harity : p.context.arity? name = (p.function? name).map FunDecl.arity := rfl
  rcases Program.get?_compile h name with ⟨f, t, hf, hft, hget⟩ | ⟨hnone, hget⟩
  · obtain ⟨slots, last, hmade⟩ := hft.made
    rw [harity, hf, hget, Option.map_some, Option.map_some]
    exact congrArg some hmade.arity
  · rw [harity, hnone, hget]
    rfl

end Programs

/-- Functions may be registered in any order, and several under the same name. The names are listed
in the order in which they were first registered, each once, and a name stands for the function that
was registered last under it; it is this function that is listed. The table of places has no place
but those of the functions that are listed, each under the name of its function, so that a lookup
never leads out of the list. There are as many functions as different names.

In a program that compiles, a name stands for the code of its last declaration, and for nothing if
it is not declared. The function has as many parameters as calls of this name are compiled for. -/
theorem Code.registry_law :
    (∀ ts : List Template,
      (ofTemplates ts).templates.toList.map Template.name = (ts.map Template.name).eraseDups ∧
      (∀ t ∈ (ofTemplates ts).templates, (ofTemplates ts).get? t.name = some t) ∧
      (∀ name, (ofTemplates ts).get? name = ts.reverse.find? fun t => t.name = name) ∧
      (∀ name, (ofTemplates ts).get? name = none ↔ ∀ t ∈ ts, t.name ≠ name) ∧
      (∀ (name : String) (place : Nat), (ofTemplates ts).places[name]? = some place ↔
        ∃ h : place < (ofTemplates ts).templates.size,
          (ofTemplates ts).templates[place].name = name) ∧
      (ofTemplates ts).size = (ts.map Template.name).toFinset.card) ∧
    ∀ (p : Program) (code : Code), p.compile = .ok code → ∀ name,
      (∀ f, p.function? name = some f → ∃ c, p.compileFunction f = .ok c ∧
        code.get? name = some c.template) ∧
      (p.function? name = none → code.get? name = none) ∧
      (code.get? name).map Template.arity = p.context.arity? name := by
  constructor
  · intro ts
    have hstep := ofTemplates_inStep ts
    refine ⟨names_ofTemplates ts, fun t => hstep.get?_name, get?_ofTemplates ts, fun name => ?_,
      fun name place => hstep.places_eq_some, size_ofTemplates ts⟩
    rw [get?_ofTemplates, List.find?_eq_none]
    simp
  · intro p code h name
    exact ⟨fun f => Program.get?_of_function? h, Program.get?_of_no_function h,
      Program.arity_get?_compile h name⟩

/-- A program in which the second function of a name has another number of parameters. Its calls
pass one argument. -/
def redeclared : Program where
  types := []
  functions := [
    ⟨"scale", "int", [⟨"a", "int"⟩, ⟨"b", "int"⟩], [.ret (some (.path "b" []))]⟩,
    ⟨"main", "int", [], [.ret (some (.call "scale" [.literal (.int 3)]))]⟩,
    ⟨"scale", "int", [⟨"a", "int"⟩], [.ret (some (.path "a" []))]⟩]

/-- In `redeclared`, the name `scale` stands for the code of the last function, and calls of it are
compiled for one argument, as many as this function has parameters. -/
theorem redeclared_registry_law :
    ∃ code f c, redeclared.compile = .ok code ∧ redeclared.functions.getLast? = some f ∧
      redeclared.compileFunction f = .ok c ∧ code.get? "scale" = some c.template ∧
      c.template.arity = 1 ∧ redeclared.context.arity? "scale" = some 1 := by
  obtain ⟨code, hcode⟩ := Program.exists_compile (p := redeclared) (by decide +kernel)
  obtain ⟨hlast, -, harity⟩ := Code.registry_law.2 redeclared code hcode "scale"
  obtain ⟨c, hc, hget⟩ := hlast _ rfl
  have htable : redeclared.context.arity? "scale" = some 1 := rfl
  rw [hget, htable, Option.map_some, Option.some.injEq] at harity
  exact ⟨code, _, c, hcode, rfl, hc, hget, harity, htable⟩

end FrameMachine
