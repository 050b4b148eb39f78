import FrameMachine.Compiler.Emit
import Mathlib.Tactic.Simproc.ExistsAndEq

/-!
# The height of the stack along code

The height of the operand stack is followed along a piece of code in the order of its instructions,
whatever its jumps do. `climb` gives the height behind the code, or nothing if an instruction would
find too few values. `growth` is the difference between the height behind the code and the height in
front of it, and does not depend on the latter (`climb_eq_growth`).
-/

set_option autoImplicit false

namespace FrameMachine

/-- How many values an instruction takes from the stack and how many it leaves there, if the
functions have the given numbers of parameters. -/
def Instr.effect? (arity? : String → Option Nat) : Instr → Option (Nat × Nat)
  | .call function => (arity? function).map fun arity => (arity, 1)
  | i => i.stackEffect?

/-- The difference that an instruction makes to the height of the stack. -/
def Instr.growth (arity? : String → Option Nat) (i : Instr) : Int :=
  match i.effect? arity? with
  | some (pops, pushes) => (pushes : Int) - pops
  | none => 0

/-- The difference that a piece of code makes to the height of the stack. -/
def growth (arity? : String → Option Nat) : List Instr → Int
  | [] => 0
  | i :: code => i.growth arity? + growth arity? code

/-- The height of the stack behind a piece of code, unless an instruction finds too few values. -/
def climb (arity? : String → Option Nat) : Nat → List Instr → Option Nat
  | height, [] => some height
  | height, i :: code =>
    match i.effect? arity? with
    | some (pops, pushes) =>
      if pops ≤ height then climb arity? (height - pops + pushes) code else none
    | none => none

section Height

variable {arity? : String → Option Nat}

/-- The effect of an instruction that is not a call does not depend on the functions. -/
theorem Instr.effect?_of_stackEffect? {i : Instr} {effect : Nat × Nat}
    (h : i.stackEffect? = some effect) :
    i.effect? arity? = some effect := by
  cases i with
  | call function => cases h
  | _ => exact h

theorem Instr.effect?_call (function : String) :
    (Instr.call function).effect? arity? = (arity? function).map fun arity => (arity, 1) := rfl

@[simp] theorem growth_nil : growth arity? [] = 0 := rfl

@[simp] theorem growth_cons (i : Instr) (code : List Instr) :
    growth arity? (i :: code) = i.growth arity? + growth arity? code := rfl

@[simp] theorem growth_append (a b : List Instr) :
    growth arity? (a ++ b) = growth arity? a + growth arity? b := by
  induction a with
  | nil => rw [List.nil_append, growth_nil, Int.zero_add]
  | cons i code ih => rw [List.cons_append, growth_cons, growth_cons, ih, Int.add_assoc]

theorem Instr.growth_of_effect? {i : Instr} {pops pushes : Nat}
    (h : i.effect? arity? = some (pops, pushes)) :
    i.growth arity? = (pushes : Int) - pops := by
  simp [Instr.growth, h]

@[simp] theorem climb_nil (height : Nat) : climb arity? height [] = some height := rfl

/-- One instruction is passed if there are enough values for it. -/
theorem climb_cons_eq_some {height top : Nat} {i : Instr} {code : List Instr} :
    climb arity? height (i :: code) = some top ↔
      ∃ pops pushes, i.effect? arity? = some (pops, pushes) ∧ pops ≤ height ∧
        climb arity? (height - pops + pushes) code = some top := by
  rw [climb]
  cases he : i.effect? arity? with
  | none => simp
  | some effect =>
    obtain ⟨pops, pushes⟩ := effect
    by_cases hp : pops ≤ height
    · simp [hp]
    · simp [hp]

/-- Two pieces of code are passed one after the other. -/
theorem climb_append (height : Nat) (a b : List Instr) :
    climb arity? height (a ++ b) = (climb arity? height a).bind fun middle =>
      climb arity? middle b := by
  induction a generalizing height with
  | nil => rfl
  | cons i a ih =>
    rw [List.cons_append, climb, climb]
    cases i.effect? arity? with
    | none => rfl
    | some effect =>
      obtain ⟨pops, pushes⟩ := effect
      by_cases hp : pops ≤ height
      · simp only [if_pos hp]
        exact ih _
      · simp [if_neg hp]

theorem climb_append_eq_some {height top : Nat} {a b : List Instr} :
    climb arity? height (a ++ b) = some top ↔
      ∃ middle, climb arity? height a = some middle ∧ climb arity? middle b = some top := by
  rw [climb_append, Option.bind_eq_some_iff]

/-- The heights in front of and behind an instruction inside a piece of code. -/
theorem climb_at {height top place : Nat} {code : List Instr} {i : Instr}
    (h : climb arity? height code = some top) (hi : code[place]? = some i) :
    ∃ middle pops pushes, climb arity? height (code.take place) = some middle ∧
      i.effect? arity? = some (pops, pushes) ∧ pops ≤ middle ∧
      climb arity? height (code.take (place + 1)) = some (middle - pops + pushes) := by
  obtain ⟨hlt, rfl⟩ := List.getElem?_eq_some_iff.1 hi
  rw [← List.take_append_drop place code, List.drop_eq_getElem_cons hlt] at h
  obtain ⟨middle, hmiddle, hrest⟩ := climb_append_eq_some.1 h
  obtain ⟨pops, pushes, heffect, hpops, -⟩ := climb_cons_eq_some.1 hrest
  refine ⟨middle, pops, pushes, hmiddle, heffect, hpops, ?_⟩
  rw [List.take_add_one, hi, Option.toList_some, climb_append, hmiddle]
  exact climb_cons_eq_some.2 ⟨pops, pushes, heffect, hpops, climb_nil _⟩

/-- The height behind a piece of code is the height in front of it and the growth. -/
theorem climb_eq_growth {height top : Nat} {code : List Instr}
    (h : climb arity? height code = some top) :
    (top : Int) = height + growth arity? code := by
  induction code generalizing height with
  | nil =>
    cases h
    simp
  | cons i code ih =>
    obtain ⟨pops, pushes, he, hp, hrest⟩ := climb_cons_eq_some.1 h
    have hgrow := Instr.growth_of_effect? he
    have hnext := ih hrest
    rw [growth_cons, hgrow]
    omega

/-- Values below the ones that a piece of code works on do not matter to it. -/
theorem climb_add {height top : Nat} {code : List Instr} (below : Nat)
    (h : climb arity? height code = some top) :
    climb arity? (height + below) code = some (top + below) := by
  induction code generalizing height with
  | nil =>
    cases h
    rfl
  | cons i code ih =>
    obtain ⟨pops, pushes, he, hp, hrest⟩ := climb_cons_eq_some.1 h
    refine climb_cons_eq_some.2 ⟨pops, pushes, he, by omega, ?_⟩
    have e : height + below - pops + pushes = height - pops + pushes + below := by omega
    rw [e]
    exact ih hrest

/-- Only the effects of the instructions count. -/
theorem climb_congr {a b : List Instr}
    (h : a.map (Instr.effect? arity?) = b.map (Instr.effect? arity?)) (height : Nat) :
    climb arity? height a = climb arity? height b := by
  induction a generalizing b height with
  | nil =>
    cases b with
    | nil => rfl
    | cons j b => simp at h
  | cons i a ih =>
    cases b with
    | nil => simp at h
    | cons j b =>
      simp only [List.map_cons, List.cons.injEq] at h
      obtain ⟨hij, hab⟩ := h
      rw [climb, climb, hij]
      cases j.effect? arity? with
      | none => rfl
      | some effect =>
        obtain ⟨pops, pushes⟩ := effect
        simp only [ih hab]

end Height

end FrameMachine
