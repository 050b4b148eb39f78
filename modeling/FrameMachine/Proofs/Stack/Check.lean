import FrameMachine.Proofs.Stack.Activations
import FrameMachine.Proofs.Compiler.Calls

/-!
# What the check of the stack is worth

The emitter follows the height of the stack in the order of the instructions, and accepts a function
if no instruction finds too few values on this way. A run also jumps. Where the stack is tracked
lower at a jump than at the place to which it goes, a run may find less than was tracked there, and
the check does not save it (`overdrawn_fails`). A function without such a jump never finds too few
values on the stack (`Program.not_endsWith_of_joints`), even if some calls in it pass too many
arguments and others too few.
-/

set_option autoImplicit false

namespace FrameMachine

/-- The fault says that there are too few values on the stack. -/
def Fault.ofStack : Fault → Bool
  | .invalidOperand .emptyStack => true
  | .invalidOperand .swapNeedsTwo => true
  | .invalidOperand (.tooFewArguments _ _ _) => true
  | _ => false

theorem Fault.ofShape_of_ofStack {e : Fault} (h : e.ofStack = true) : e.ofShape = true := by
  unfold ofStack at h
  split at h
  · rfl
  · rfl
  · rfl
  · cases h

section Check

variable {p : Program} {code : Code}

/-- An activation whose stack is at least as high as tracked does not find too few values on it. -/
theorem Frame.AtLevel.not_acts {S : String → AddSubmonoid Int} {f : Frame} {i : Instr}
    {fault : Fault} {w w' : World} (hp : p.compile = .ok code) (h : f.AtLevel p.context S code 0)
    (hS : ∀ surplus ∈ S f.template.name, 0 ≤ surplus) (hi : f.fetch? = some i)
    (hfault : fault.ofStack = true) : ¬ i.Acts code f.advance w (.fail fault w') := by
  obtain ⟨name, ht⟩ := h.registered
  obtain ⟨d, slots, last, -, -, hemitted⟩ := Program.exists_emittedAs hp ht
  obtain ⟨pops, pushes, heffect, hpops⟩ := hemitted.made.effect?_eq_some hi
  have hlevel := hS _ h.level
  have henough : pops ≤ f.stack.length := by omega
  intro hacts
  cases hacts with
  | @lacks pops' pushes' e heffect' hlt _ =>
    rw [Instr.effect?_of_stackEffect? heffect', Option.some.injEq, Prod.mk.injEq] at heffect
    have hlt' : f.stack.length < pops' := hlt
    omega
  | unset hload hnone => cases hfault
  | unknown hcall hnone => cases hfault
  | @tooFew callee t hcall hget hlt =>
    rw [hcall, Instr.effect?_call, Program.arity?_of_get? hp hget, Option.map_some,
      Option.some.injEq, Prod.mk.injEq] at heffect
    have hlt' : f.stack.length < t.arity := hlt
    omega
  | fault hshape =>
    rw [Fault.ofShape_of_ofStack hfault] at hshape
    cases hshape

/-- No run fails for want of values on the stack in a function in which, at every jump, the stack is
tracked at least as high as at the place to which the jump goes. -/
theorem Program.not_endsWith_of_joints (hp : p.compile = .ok code) {name : String}
    (hjoints : ∀ f, p.function? name = some f → ∀ joint ∈ jointsStmts p.context f.body, 0 ≤ joint)
    {fault : Fault} (hfault : fault.ofStack = true) (maxDepth : Option Nat) (w w' : World) :
    ¬ code.EndsWith maxDepth w (.fault fault name w') := by
  -- nothing is asked of the other functions, so they get all integers
  have hin : p.JointsIn fun other => if other = name then AddSubmonoid.nonneg Int else ⊤ := by
    intro other f hf joint hjoint
    change joint ∈ if other = name then AddSubmonoid.nonneg Int else ⊤
    by_cases hother : other = name
    · rw [if_pos hother]
      exact AddSubmonoid.mem_nonneg.2 (hjoints f (hother ▸ hf) joint hjoint)
    · rw [if_neg hother]
      exact AddSubmonoid.mem_top joint
  refine (levels_invariant hp hin).not_endsWith fun f i w hlevel hname hi =>
    hlevel.not_acts hp ?_ hi hfault
  intro surplus hsurplus
  change surplus ∈ if f.template.name = name then AddSubmonoid.nonneg Int else ⊤ at hsurplus
  rw [if_pos hname] at hsurplus
  exact AddSubmonoid.mem_nonneg.1 hsurplus

end Check

/-- A program with a loop whose first bound calls a function with an argument too many, which is
left on the stack. Its second bound calls a function with an argument too few, which finds it there
in the first round only. -/
def overdrawn : Program where
  types := []
  functions := [
    ⟨"first", "int", [⟨"a", "int"⟩], [.ret (some (.path "a" []))]⟩,
    ⟨"second", "int", [⟨"a", "int"⟩, ⟨"b", "int"⟩], [.ret (some (.literal (.int 5)))]⟩,
    ⟨"main", "void", [], [
      .forLoop "i" (.call "first" [.literal (.int 1), .literal (.int 1)]) .upto
        (.call "second" [.literal (.int 1)]) []]⟩]

/-- The run has failed for want of values on the stack. -/
def State.drained : State → Bool
  | .halted (.error (.fault e)) _ => e.fault.ofStack
  | _ => false

/-- The program `overdrawn` passes the check of the stack, and yet its run fails for want of values
on the stack. -/
theorem overdrawn_fails :
    ∃ code fault function w', overdrawn.compile = .ok code ∧ fault.ofStack = true ∧
      code.EndsWith none {} (.fault fault function w') := by
  have hdrained : (overdrawn.after none {} 29).any State.drained = true := by decide +kernel
  obtain ⟨s, hs, hfault⟩ := (Option.any_eq_true _ _).1 hdrained
  obtain ⟨code, start, hcode, hstart, hrun⟩ := Program.after_eq_some hs
  unfold State.drained at hfault
  split at hfault
  · rename_i e w'
    refine ⟨code, e.fault, e.function, w', hcode, hfault, ?_⟩
    rw [Code.EndsWith, hstart]
    exact ⟨29, by rw [hrun, State.outcome?]⟩
  · cases hfault

/-- A program with a condition that leaves a value too many on the stack, which the next
condition takes. -/
def compensated : Program where
  types := []
  functions := [
    ⟨"first", "bool", [⟨"a", "bool"⟩], [.ret (some (.path "a" []))]⟩,
    ⟨"second", "bool", [⟨"a", "bool"⟩, ⟨"b", "bool"⟩], [.ret (some (.path "b" []))]⟩,
    ⟨"main", "void", [], [
      .branch (.call "first" [.literal (.bool true), .literal (.bool false)])
        [.call "print" [.literal (.int 1)]]
        (.elif (.call "second" [.literal (.bool true)])
          [.call "print" [.literal (.int 2)]] .none)]⟩]

/-- The calls of `compensated` do not fit, and yet no run of it fails for want of values
on the stack. -/
theorem compensated_not_endsWith :
    ∃ code, compensated.compile = .ok code ∧ compensated.callsFit = false ∧
      ∀ fault, Fault.ofStack fault = true →
        ∀ maxDepth w w', ¬ code.EndsWith maxDepth w (.fault fault "main" w') := by
  have hmain : (compensated.function? "main").all
      (fun f => (jointsStmts compensated.context f.body).all fun joint => 0 ≤ joint) =
        true := by decide +kernel
  have hjoints (f : FunDecl) (hf : compensated.function? "main" = some f) :
      ∀ joint ∈ jointsStmts compensated.context f.body, 0 ≤ joint := by
    rw [hf, Option.all_some, List.all_eq_true] at hmain
    exact fun joint hjoint => of_decide_eq_true (hmain joint hjoint)
  obtain ⟨code, hcode⟩ := Program.exists_compile (p := compensated) (by decide +kernel)
  exact ⟨code, hcode, by decide +kernel, fun fault hfault =>
    Program.not_endsWith_of_joints hcode hjoints hfault⟩

end FrameMachine
