import FrameMachine.Proofs.Stack.Activations
import FrameMachine.Proofs.Compiler.Parts

/-!
# What the code of an expression leaves on the stack

An activation that comes to the code of an expression works on it, or waits for a function that was
called in it. As long as it does so, the values that were on its stack before stay there, below
those of the expression (`Machine.During`). It gets out of this code at its end only, with exactly
one value more (`Machine.During.leave`).
-/

set_option autoImplicit false

namespace FrameMachine

/-- The run is in the code between two places that the activation at work of an earlier state has
come to: it is at an instruction between them, or at work on a call. -/
def Machine.Inside (m : Machine) (stop : Nat) (m' : Machine) : Prop :=
  m.callers.size < m'.callers.size ∨ m'.callers = m.callers ∧ m.top.pc ≤ m'.top.pc ∧
    m'.top.pc < stop

theorem Machine.Inside.lt {m m' : Machine} {stop : Nat} (h : m.Inside stop m')
    (hcallers : m'.callers = m.callers) :
    m'.top.pc < stop := by
  rcases h with hsize | ⟨-, -, hlt⟩
  · rw [hcallers] at hsize
    exact absurd hsize (Nat.lt_irrefl _)
  · exact hlt

/-- The activation has done a part of the code, with its values above those that were on the stack
before. The given number of values is still to come. -/
structure Frame.Along (arity? : String → Option Nat) (piece : List Instr) (coming : Nat)
    (f g : Frame) : Prop where
  template : g.template = f.template
  locals : g.locals = f.locals
  progress : ∃ done top, done ≤ piece.length ∧ g.pc = f.pc + done ∧
    climb arity? 0 (piece.take done) = some (top.length + coming) ∧ g.stack = top ++ f.stack

/-- The run is at work on a piece of code, or on a call in it. -/
def Machine.During (arity? : String → Option Nat) (piece : List Instr) (m m' : Machine) : Prop :=
  m.Amid (m.top.Along arity? piece 0) (m.top.Along arity? piece 1) m'

section Expressions

variable {arity? : String → Option Nat} {code : Code} {σ : Slots} {piece : List Instr}
  {m m' m'' : Machine}

theorem Machine.During.refl (arity? : String → Option Nat) (piece : List Instr) (m : Machine) :
    m.During arity? piece m :=
  Amid.own rfl ⟨rfl, rfl, 0, [], Nat.zero_le _, rfl, rfl, rfl⟩

/-- An activation inside a piece of code has a next instruction, and it belongs to the piece. -/
theorem Template.Has.exists_fetch? {t : Template} {start : Nat} {g : Frame} (ht : t.Has start piece)
    (htemplate : g.template = t) (hge : start ≤ g.pc) (hlt : g.pc < start + piece.length) :
    ∃ i, g.fetch? = some i ∧ i ∈ piece := by
  obtain ⟨done, hpc⟩ := Nat.exists_eq_add_of_le hge
  have hdone : done < piece.length := by omega
  refine ⟨piece[done], ?_, List.getElem_mem hdone⟩
  rw [Frame.fetch?, htemplate, hpc, ht.getElem? hdone]
  exact List.getElem?_eq_getElem hdone

/-- The next instruction of the code, and what it does to the height of the stack. -/
theorem Frame.Along.instr {f g : Frame} {i : Instr} {height : Nat} (hg : f.Along arity? piece 0 g)
    (hc : f.template.Has f.pc piece) (hclimb : climb arity? 0 piece = some height)
    (hlt : g.pc < f.pc + piece.length) (hi : g.fetch? = some i) :
    i ∈ piece ∧ ∃ done top pops pushes, done < piece.length ∧ g.pc = f.pc + done ∧
      g.stack = top ++ f.stack ∧ i.effect? arity? = some (pops, pushes) ∧ pops ≤ top.length ∧
      climb arity? 0 (piece.take (done + 1)) = some (top.length - pops + pushes) := by
  obtain ⟨done, top, -, hpc, hdone, hstack⟩ := hg.progress
  have hdoneLt : done < piece.length := by omega
  have hget : piece[done]? = some i := by
    rw [← hc.getElem? hdoneLt, ← hpc, ← hg.template]
    exact hi
  obtain ⟨middle, pops, pushes, hmiddle, heffect, hpops, hnext⟩ := climb_at hclimb hget
  rw [hdone, Option.some.injEq] at hmiddle
  subst hmiddle
  exact ⟨List.mem_of_getElem? hget, done, top, pops, pushes, hdoneLt, hpc, hstack, heffect, hpops,
    hnext⟩

theorem Instr.IsPlain.successors {σ : Slots} {i : Instr} (h : i.IsPlain σ) (next : Nat) :
    i.successors next = [next] := by
  cases i with
  | jump | jumpUnless | ret => cases h
  | _ => rfl

theorem Instr.IsPlain.stored? {σ : Slots} {i : Instr} (h : i.IsPlain σ) : i.stored? = none := by
  cases i with
  | store => cases h
  | _ => rfl

/-- One instruction of the code that is not a call. -/
theorem Frame.Along.next {f g h : Frame} {i : Instr} {height : Nat} (hg : f.Along arity? piece 0 g)
    (hc : f.template.Has f.pc piece) (hplain : Plain σ piece)
    (hclimb : climb arity? 0 piece = some height) (hlt : g.pc < f.pc + piece.length)
    (hi : g.fetch? = some i) (hturns : i.Turns g.advance h) :
    f.Along arity? piece 0 h := by
  obtain ⟨hmem, done, top, pops, pushes, hdone, hpc, hstack, heffect, hpops, hnext⟩ :=
    hg.instr hc hclimb hlt hi
  have hi' := hplain i hmem
  obtain ⟨pops', pushes', pushed, heffect', -, hpushed, hstack'⟩ := hturns.stack
  rw [Instr.effect?_of_stackEffect? heffect', Option.some.injEq, Prod.mk.injEq] at heffect
  obtain ⟨rfl, rfl⟩ := heffect
  refine ⟨hturns.template.trans hg.template, ?_, done + 1, pushed ++ top.drop pops', hdone, ?_, ?_,
    ?_⟩
  · exact (hturns.kept (hi'.stored?)).trans hg.locals
  · have hplace := hturns.pc
    rw [hi'.successors, List.mem_singleton] at hplace
    exact hplace.trans (congrArg (· + 1) hpc)
  · rw [hnext, List.length_append, List.length_drop, hpushed, Nat.add_comm, Nat.add_zero]
  · have hdrop : h.stack = pushed ++ (top ++ f.stack).drop pops' := by
      rw [hstack', ← hstack]
      rfl
    rw [hdrop, List.drop_append_of_le_length hpops, List.append_assoc]

/-- A call in the code. -/
theorem Frame.Along.call {f g : Frame} {name : String} {t : Template} {height : Nat}
    (hg : f.Along arity? piece 0 g) (hc : f.template.Has f.pc piece)
    (hclimb : climb arity? 0 piece = some height) (hlt : g.pc < f.pc + piece.length)
    (hi : g.fetch? = some (.call name)) (ht : arity? name = some t.arity) :
    f.Along arity? piece 1 { g.advance with stack := g.stack.drop t.arity } := by
  obtain ⟨-, done, top, pops, pushes, hdone, hpc, hstack, heffect, hpops, hnext⟩ :=
    hg.instr hc hclimb hlt hi
  rw [Instr.effect?_call, ht, Option.map_some, Option.some.injEq, Prod.mk.injEq] at heffect
  obtain ⟨rfl, rfl⟩ := heffect
  refine ⟨hg.template, hg.locals, done + 1, top.drop t.arity, hdone, congrArg (· + 1) hpc, ?_, ?_⟩
  · rw [hnext, List.length_drop]
  · change g.stack.drop t.arity = _
    rw [hstack, List.drop_append_of_le_length hpops]

/-- The value of a call comes back. -/
theorem Frame.Along.resume {f g : Frame} (hg : f.Along arity? piece 1 g) (v : Value) :
    f.Along arity? piece 0 (g.push v) := by
  obtain ⟨done, top, hdone, hpc, hclimb, hstack⟩ := hg.progress
  refine ⟨hg.template, hg.locals, done, v :: top, hdone, hpc, hclimb, ?_⟩
  exact congrArg (v :: ·) hstack

/-- A step inside the code. -/
theorem Machine.During.step (h : m.During arity? piece m') (hc : m.top.template.Has m.top.pc piece)
    (hplain : Plain σ piece) {height : Nat} (hclimb : climb arity? 0 piece = some height)
    (hcode : ∀ name t, code.get? name = some t → arity? name = some t.arity)
    (hinside : m.Inside (m.top.pc + piece.length) m') (hmoves : m'.Moves code m'') :
    m.During arity? piece m'' := by
  apply Amid.step h hmoves
  · intro i g hcallers halong hi hturns
    exact halong.next hc hplain hclimb (hinside.lt hcallers) hi hturns
  · intro name t hcallers halong hi ht
    exact halong.call hc hclimb (hinside.lt hcallers) hi (hcode name t ht)
  · intro f v halong
    exact halong.resume v
  · -- there is no return in the code of an expression
    intro hcallers halong
    obtain ⟨done, top, -, hpc, -, -⟩ := halong.progress
    obtain ⟨i, hi, hmem⟩ := hc.exists_fetch? halong.template (by omega) (hinside.lt hcallers)
    refine ⟨i, hi, ?_⟩
    rintro rfl
    cases hplain _ hmem

/-- Where the run gets out of the code, it has done all of it. -/
theorem Machine.During.leave (h : m.During arity? piece m') (hclimb : climb arity? 0 piece = some 1)
    (hout : ¬ m.Inside (m.top.pc + piece.length) m') :
    ∃ v, m' = ⟨{ m.top with pc := m.top.pc + piece.length, stack := v :: m.top.stack }, m.callers,
      m'.world⟩ := by
  have hsize : m'.callers.size ≤ m.callers.size := Nat.le_of_not_lt fun hlt => hout (Or.inl hlt)
  obtain ⟨hcallers, halong⟩ := Amid.own_of_size h hsize
  obtain ⟨done, top, hle, hpc, hdone, hstack⟩ := halong.progress
  have hall : done = piece.length := by
    by_contra hne
    exact hout (Or.inr ⟨hcallers, by omega, by omega⟩)
  subst hall
  rw [List.take_length, hclimb, Option.some.injEq] at hdone
  obtain ⟨v, rfl⟩ := List.length_eq_one_iff.1 hdone.symm
  refine ⟨v, ?_⟩
  obtain ⟨⟨template, pc, locals, stack⟩, callers, world⟩ := m'
  obtain ⟨htemplate, hlocals, -⟩ := halong
  simp only at hcallers htemplate hlocals hpc hstack
  subst hcallers htemplate hlocals hpc hstack
  rfl

/-- As long as a run stays inside the code, it is at work on it. -/
theorem Machine.during_of_inside {maxDepth : Option Nat} {n height : Nat}
    (hc : m.top.template.Has m.top.pc piece) (hplain : Plain σ piece)
    (hclimb : climb arity? 0 piece = some height)
    (hcode : ∀ name t, code.get? name = some t → arity? name = some t.arity)
    (hinside : ∀ k < n, ∀ m'', (State.running m).run code maxDepth k = .running m'' →
      m.Inside (m.top.pc + piece.length) m'')
    (hrun : (State.running m).run code maxDepth n = .running m') : m.During arity? piece m' := by
  induction n generalizing m' with
  | zero =>
    cases hrun
    exact .refl arity? piece m
  | succ n ih =>
    rw [State.run_add] at hrun
    cases hn : (State.running m).run code maxDepth n with
    | halted result w =>
      rw [hn, State.run_halted] at hrun
      cases hrun
    | running middle =>
      rw [hn] at hrun
      have hduring := ih (fun k hk => hinside k (Nat.lt_succ_of_lt hk)) hn
      exact hduring.step hc hplain hclimb hcode (hinside n (Nat.lt_succ_self n) middle hn)
        (step_moves hrun)

end Expressions

end FrameMachine
