import FrameMachine.Proofs.Simulation.Variables
import FrameMachine.Proofs.Stack.Expressions
import FrameMachine.Proofs.Variables.Kept

/-!
# Runs inside a piece of code

An activation that works on a piece of code calls functions in it and waits for them. If the jumps
of the piece go to places in it or to its end, and nothing in it returns, the end is the only way
out (`Machine.stays_of_inside`). A slot that is not stored to in the piece is then as it was
(`Machine.exists_first_exit`).
-/

set_option autoImplicit false

namespace FrameMachine

/-- The activation is between two places of its function or at one of them, with the same in the
slot as before. -/
structure Frame.Stays (start stop slot : Nat) (f g : Frame) : Prop where
  template : g.template = f.template
  ge : start ≤ g.pc
  le : g.pc ≤ stop
  kept : g.locals.get? slot = f.locals.get? slot

/-- A piece of code of a function out of which only its end leads, and which keeps a slot. -/
structure Template.Encloses (t : Template) (start : Nat) (piece : List Instr) (slot : Nat) :
    Prop where
  has : t.Has start piece
  confined : t.Confined start (start + piece.length)
  keeps : Keeps slot piece

section Stays

variable {code : Code} {maxDepth : Option Nat} {m m' m'' : Machine} {f g h : Frame} {i : Instr}
  {piece : List Instr}
  {start stop slot n : Nat}

/-- An instruction of the piece goes on in the piece or at its end. -/
theorem Frame.Stays.next (hg : f.Stays start (start + piece.length) slot g)
    (ht : f.template.Encloses start piece slot) (hlt : g.pc < start + piece.length)
    (hi : g.fetch? = some i) (hturns : i.Turns g.advance h) :
    f.Stays start (start + piece.length) slot h := by
  obtain ⟨i', hi', hmem⟩ := ht.has.exists_fetch? hg.template hg.ge hlt
  obtain rfl : i = i' := Option.some.inj (hi.symm.trans hi')
  have hfetch : f.template.code[g.pc]? = some i := hg.template ▸ hi
  have hplace : start ≤ h.pc ∧ h.pc ≤ start + piece.length := by
    have hge := hg.ge
    rcases Instr.mem_successors hturns.pc with hnext | htarget
    · have hadvance : g.advance.pc = g.pc + 1 := rfl
      omega
    · exact ht.confined g.pc i hge hlt hfetch h.pc htarget
  refine ⟨hturns.template.trans hg.template, hplace.1, hplace.2, ?_⟩
  rw [← hg.kept]
  cases hstored : i.stored? with
  | none => rw [hturns.kept hstored, Frame.advance]
  | some other =>
    obtain ⟨v, hlocals⟩ := hturns.stored other hstored
    have hne : slot ≠ other := by
      rintro rfl
      exact (ht.keeps i hmem).2 hstored
    rw [hlocals, Locals.get?_set, if_neg hne, Frame.advance]

/-- As long as a run stays inside the piece, the activation does, and the slot is kept. -/
theorem Machine.stays_of_inside (ht : m.top.template.Encloses m.top.pc piece slot)
    (hinside : ∀ k < n, ∃ x, (State.running m).run code maxDepth k = .running x ∧
      m.Inside (m.top.pc + piece.length) x)
    (hrun : (State.running m).run code maxDepth n = .running m') :
    m.Amid (m.top.Stays m.top.pc (m.top.pc + piece.length) slot)
      (m.top.Stays m.top.pc (m.top.pc + piece.length) slot) m' := by
  induction n generalizing m' with
  | zero =>
    cases hrun
    exact .own rfl ⟨rfl, Nat.le_refl _, Nat.le_add_right _ _, rfl⟩
  | succ n ih =>
    obtain ⟨middle, hn, hin⟩ := hinside n (Nat.lt_succ_self n)
    rw [State.run_add, hn] at hrun
    apply (ih (fun k hk => hinside k (Nat.lt_succ_of_lt hk)) hn).step (Machine.step_moves hrun)
    · intro i g hcallers hstays hi hturns
      exact hstays.next ht (hin.lt hcallers) hi hturns
    · intro name t hcallers hstays _ _
      exact ⟨hstays.template, Nat.le_succ_of_le hstays.ge, hin.lt hcallers, hstays.kept⟩
    · intro f v hstays
      exact ⟨hstays.template, hstays.ge, hstays.le, hstays.kept⟩
    · intro hcallers hstays
      obtain ⟨i, hi, hmem⟩ := ht.has.exists_fetch? hstays.template hstays.ge (hin.lt hcallers)
      exact ⟨i, hi, (ht.keeps i hmem).1⟩

/-- A run that is outside at some point was outside for the first time at some point. -/
theorem Machine.exists_first_outside (hrun : (State.running m).run code maxDepth n = .running m')
    (hout : ¬ m.Inside stop m') :
    ∃ k x, (State.running m).run code maxDepth k = .running x ∧ ¬ m.Inside stop x ∧
      ∀ j < k, ∃ y, (State.running m).run code maxDepth j = .running y ∧ m.Inside stop y := by
  induction n using Nat.strongRecOn generalizing m' with
  | ind n ih =>
    by_cases hall : ∀ j < n, ∃ y, (State.running m).run code maxDepth j = .running y ∧
      m.Inside stop y
    · exact ⟨n, m', hrun, hout, hall⟩
    · simp only [not_forall] at hall
      obtain ⟨j, hj, hnone⟩ := hall
      have hwork : ((State.running m).run code maxDepth j).isHalted = false := by
        apply State.not_isHalted_run_of_le (Nat.le_of_lt hj)
        rw [hrun]
        rfl
      obtain ⟨y, hy⟩ := State.eq_running_of_not_isHalted hwork
      exact ih j hj hy fun hin => hnone ⟨y, hy, hin⟩

/-- A run gets out of the piece at its end, with the slot as it was. -/
theorem Machine.exists_first_exit (ht : m.top.template.Encloses m.top.pc piece slot)
    (hrun : (State.running m).run code maxDepth n = .running m')
    (hout : ¬ m.Inside (m.top.pc + piece.length) m') :
    ∃ k x, (State.running m).run code maxDepth k = .running x ∧ x.callers = m.callers ∧
      x.top.template = m.top.template ∧ x.top.pc = m.top.pc + piece.length ∧
      x.top.locals.get? slot = m.top.locals.get? slot ∧
      ∀ j < k, ∃ y, (State.running m).run code maxDepth j = .running y ∧
        m.Inside (m.top.pc + piece.length) y := by
  obtain ⟨k, x, hk, hx, hbefore⟩ := Machine.exists_first_outside hrun hout
  have hamid := Machine.stays_of_inside ht hbefore hk
  have hsize : x.callers.size ≤ m.callers.size := Nat.le_of_not_lt fun hlt => hx (Or.inl hlt)
  obtain ⟨hcallers, hstays⟩ := hamid.own_of_size hsize
  have hpc : x.top.pc = m.top.pc + piece.length := by
    rcases Nat.lt_or_ge x.top.pc (m.top.pc + piece.length) with hlt | hge
    · exact absurd (Or.inr ⟨hcallers, hstays.ge, hlt⟩) hx
    · exact Nat.le_antisymm hstays.le hge
  exact ⟨k, x, hk, hcallers, hstays.template, hpc, hstays.kept, hbefore⟩

end Stays

end FrameMachine
