import FrameMachine.Proofs.Compiler.Registry
import FrameMachine.Proofs.Machine.Frames

/-!
# Where a fault is located

A fault names a function, a place in it and the instruction that stands there. All three are right
(`Code.fault_located`): the instruction is found again by looking up the function in the code, and
the activation at work was about to execute it.

The reason is that every activation belongs to the function that is registered under its name. An
activation comes about by looking up a name and keeps its function from then on, and the code does
not change during a run (`Code.WellFormed.registered_invariant`). A function that has been replaced
by another of the same name is never active.
-/

set_option autoImplicit false

namespace FrameMachine

/-- The function of the activation is the one that is registered under its name. -/
def Frame.Registered (code : Code) (f : Frame) : Prop := code.get? f.template.name = some f.template

theorem Code.WellFormed.registered_invariant {code : Code} (h : code.WellFormed) :
    code.Invariant (Frame.Registered code) (Frame.Registered code) where
  enter := by
    intro name t arguments ht _
    have hname : t.name = name := h.name_of_get? ht
    change code.get? t.name = some t
    rw [hname]
    exact ht
  next := by
    intro f g i hf _ hturns
    rw [Frame.Registered, hturns.template]
    exact hf
  call := fun hf _ _ _ => hf
  resume := fun _ hf => hf

/-- The functions may have been registered in any order, and several under the same name. If a run
ends with a fault, the function that the fault names is registered and has the instruction at the
place that the fault names.

Right before, the activation at work was one of this function and was about to execute this
instruction, and the instruction fails there with this fault. All activations were then activations
of functions as they are registered. -/
theorem Code.fault_located {ts : List Template} {maxDepth : Option Nat} {w w' : World} {n : Nat}
    {e : LocatedFault}
    (h : (Code.ofTemplates ts).after maxDepth w n = some (.halted (.error (.fault e)) w')) :
    ∃ t k m, (Code.ofTemplates ts).get? e.function = some t ∧ t.code[e.pc]? = some e.instruction ∧
      k < n ∧ (Code.ofTemplates ts).after maxDepth w k = some (.running m) ∧
      (Code.ofTemplates ts).after maxDepth w (k + 1) = some (.halted (.error (.fault e)) w') ∧
      m.top.template = t ∧ m.top.pc = e.pc ∧
      e.instruction.execute (.ofTemplates ts) { m.top with pc := e.pc + 1 } m.world =
        .fail e.fault w' ∧
      ∀ f, f = m.top ∨ f ∈ m.callers →
          (Code.ofTemplates ts).get? f.template.name = some f.template := by
  obtain ⟨start, hstart, hrun⟩ := Code.after_eq_some.1 h
  obtain ⟨k, m, hk, hstep⟩ := State.exists_last_step hrun
  obtain ⟨hname, hpc, hfetch, hexecute⟩ := Machine.step_eq_fault hstep
  have hinvariant := (Code.ofTemplates_wellFormed ts).registered_invariant
  obtain ⟨htop, hcallers⟩ := hinvariant.reaches ⟨start, k, hstart, hk⟩
  refine ⟨m.top.template, k, m, ?_, ?_, State.lt_of_run_running hk hrun, ?_, ?_, rfl, hpc, ?_, ?_⟩
  · rw [← hname]
    exact htop
  · rw [← hpc]
    exact hfetch
  · exact Code.after_eq_some.2 ⟨start, hstart, hk⟩
  · refine Code.after_eq_some.2 ⟨start, hstart, ?_⟩
    rw [State.run_add, hk]
    exact hstep
  · rw [← hpc]
    exact hexecute
  · rintro f (rfl | hf)
    · exact htop
    · exact hcallers f hf

/-- Functions of which the last replaces the first. The replacement divides its arguments. -/
def replaced : List Template := [
  { name := "ratio", arity := 2, code := #[.ret] },
  { name := "main", arity := 0, code := #[.push (.int 4), .push (.int 0), .call "ratio", .ret] },
  { name := "ratio", arity := 2,
    code := #[.store 0, .store 1, .load 0, .load 1, .binary .div, .ret] }]

/-- The division by zero is located at place 4 of the function `ratio` that is registered in the
end, and not in the one that it has replaced. -/
theorem replaced_fault_located :
    ∃ e w', (Code.ofTemplates replaced).after none {} 8 = some (.halted (.error (.fault e)) w') ∧
      e = ⟨.divisionByZero, "ratio", 4, .binary .div⟩ ∧
      ∃ t k m, (Code.ofTemplates replaced).get? "ratio" = some t ∧
        t.code[4]? = some (.binary .div) ∧
        (Code.ofTemplates replaced).after none {} k = some (.running m) ∧ m.top.template = t ∧
        m.top.pc = 4 ∧
        (Instr.binary .div).execute (.ofTemplates replaced) { m.top with pc := 5 } m.world =
          .fail .divisionByZero w' := by
  have hends : ((Code.ofTemplates replaced).after none {} 8).any
      (fun s => s.located? = some ⟨.divisionByZero, "ratio", 4, .binary .div⟩) =
        true := by decide +kernel
  obtain ⟨s, hs, htest⟩ := (Option.any_eq_true _ _).1 hends
  obtain ⟨w', rfl⟩ := State.located?_eq_some (of_decide_eq_true htest)
  obtain ⟨t, k, m, hget, hcode, -, hk, -, htop, hpc, hexecute, -⟩ := Code.fault_located hs
  exact ⟨_, w', hs, rfl, t, k, m, hget, hcode, hk, htop, hpc, hexecute⟩

end FrameMachine
