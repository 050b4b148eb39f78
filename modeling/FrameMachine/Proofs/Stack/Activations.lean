import FrameMachine.Proofs.Stack.Levels
import FrameMachine.Proofs.Machine.Frames

/-!
# The stack of an activation and the level at its place

The height of the stack of an activation differs from the level at its place by something that only
jumps change, and each jump changes it by one of the joints of the function. If all joints of a
function lie in a submonoid of the integers, the difference does so in every activation of the
function (`Program.levels_invariant`). With the trivial submonoid the stack is exactly as high as
tracked, and with that of the nonnegative integers it is at least as high.
-/

set_option autoImplicit false

namespace FrameMachine

/-- The height of the stack of an activation, with the given number of values to come, differs from
the level at its place by a member of the submonoid for its function. -/
structure Frame.AtLevel (ctx : Context) (S : String → AddSubmonoid Int) (code : Code) (coming : Nat)
    (f : Frame) : Prop where
  registered : ∃ name, code.get? name = some f.template
  level : (f.stack.length : Int) + coming - f.template.level ctx f.pc ∈ S f.template.name

namespace Program

variable {p : Program} {code : Code} {S : String → AddSubmonoid Int}

/-- The joints of each function of the program lie in the submonoid for it. -/
def JointsIn (p : Program) (S : String → AddSubmonoid Int) : Prop :=
  ∀ name f, p.function? name = some f → ∀ joint ∈ jointsStmts p.context f.body, joint ∈ S name

/-- The number of parameters that a call is compiled with is that of the function it reaches. -/
theorem arity?_of_get? (hp : p.compile = .ok code) {name : String} {t : Template}
    (ht : code.get? name = some t) :
    p.context.arity? name = some t.arity := by
  obtain ⟨f, slots, last, hf, -, hemitted⟩ := Program.exists_emittedAs hp ht
  have harity : p.arity? name = some f.arity := by rw [Program.arity?, hf, Option.map_some]
  exact harity.trans (congrArg some hemitted.made.arity.symm)

/-- What a step does to the height of the stack it does to the level as well, up to a joint. -/
theorem levels_invariant (hp : p.compile = .ok code) (hjoints : p.JointsIn S) :
    code.Invariant (Frame.AtLevel p.context S code 0) (Frame.AtLevel p.context S code 1) where
  enter := by
    intro name t arguments ht harguments
    refine ⟨⟨name, ht⟩, ?_⟩
    have hzero : (arguments.length : Int) + (0 : Nat) - t.level p.context 0 = 0 := by
      rw [harguments, Template.level, List.take_zero, growth_nil]
      omega
    rw [Frame.enter, hzero]
    exact (S t.name).zero_mem
  next := by
    rintro f g i ⟨⟨name, ht⟩, hlevel⟩ hi hturns
    obtain ⟨pops, pushes, top, heffect, hpops, htop, hstack⟩ := hturns.stack
    have htemplate : g.template = f.template := hturns.template
    refine ⟨⟨name, htemplate ▸ ht⟩, ?_⟩
    have hsucc := Template.level_succ p.context hi
    rw [Instr.growth_of_effect? (Instr.effect?_of_stackEffect? heffect)] at hsucc
    have hlength : g.stack.length = top.length + (f.stack.length - pops) := by
      rw [hstack, List.length_append, List.length_drop]
      rfl
    have hpops' : pops ≤ f.stack.length := hpops
    rw [htemplate]
    rcases Instr.mem_successors hturns.pc with hnext | htarget
    · have hsame : (g.stack.length : Int) + (0 : Nat) - f.template.level p.context g.pc =
          f.stack.length + (0 : Nat) - f.template.level p.context f.pc := by
        rw [hnext]
        change _ - f.template.level p.context (f.pc + 1) = _
        omega
      rw [hsame]
      exact hlevel
    · -- a jump has no effect on the stack, but the level may be another where it goes
      obtain ⟨d, slots, last, hd, hname, hemitted⟩ := Program.exists_emittedAs hp ht
      have hlt : f.pc < f.template.code.size := (Array.getElem?_eq_some_iff.1 hi).1
      have hjoint :=
        hemitted.made.jumps (hjoints name d hd) f.pc i (Nat.zero_le _) hlt hi g.pc htarget
      rw [← hname] at hjoint
      have hsum : (g.stack.length : Int) + (0 : Nat) - f.template.level p.context g.pc =
          (f.stack.length + (0 : Nat) - f.template.level p.context f.pc) +
            (f.template.level p.context (f.pc + 1) - f.template.level p.context g.pc) := by omega
      rw [hsum]
      exact (S f.template.name).add_mem hlevel hjoint
  call := by
    rintro f name t ⟨hregistered, hlevel⟩ hi ht hle
    refine ⟨hregistered, ?_⟩
    have heffect : (Instr.call name).effect? p.context.arity? = some (t.arity, 1) := by
      rw [Instr.effect?_call, arity?_of_get? hp ht, Option.map_some]
    have hsucc := Template.level_succ p.context hi
    rw [Instr.growth_of_effect? heffect] at hsucc
    have hsame : ((f.stack.drop t.arity).length : Int) + (1 : Nat) -
          f.template.level p.context (f.pc + 1) =
        f.stack.length + (0 : Nat) - f.template.level p.context f.pc := by
      rw [List.length_drop]
      omega
    exact hsame ▸ hlevel
  resume := by
    rintro f v ⟨hregistered, hlevel⟩
    refine ⟨hregistered, ?_⟩
    have hsame : ((v :: f.stack).length : Int) + (0 : Nat) - f.template.level p.context f.pc =
        f.stack.length + (1 : Nat) - f.template.level p.context f.pc := by
      rw [List.length_cons]
      omega
    exact hsame ▸ hlevel

/-- The state that a program has come to after a number of steps, if it compiles and
starts at all. -/
def after (p : Program) (maxDepth : Option Nat) (w : World) (steps : Nat) : Option State :=
  p.compile.toOption.bind (Code.after · maxDepth w steps)

theorem after_eq_some {maxDepth : Option Nat} {w : World} {steps : Nat} {s : State}
    (h : p.after maxDepth w steps = some s) :
    ∃ code start, p.compile = .ok code ∧ code.start w = .ok start ∧
      (State.running start).run code maxDepth steps = s := by
  obtain ⟨code, hcode, hs⟩ := Option.bind_eq_some_iff.1 h
  obtain ⟨start, hstart, hrun⟩ := Code.after_eq_some.1 hs
  cases hp : p.compile with
  | error e =>
    rw [hp] at hcode
    cases hcode
  | ok code' =>
    rw [hp] at hcode
    cases hcode
    exact ⟨code, start, rfl, hstart, hrun⟩

/-- A program comes to a state that passes a test. -/
theorem exists_reaches {maxDepth : Option Nat} {w : World} {steps : Nat} {test : Machine → Bool}
    (h : (p.after maxDepth w steps).any (State.atWork test) = true) :
    ∃ code m, p.compile = .ok code ∧ code.Reaches maxDepth w m ∧ test m = true := by
  obtain ⟨s, hs, htest⟩ := (Option.any_eq_true _ _).1 h
  obtain ⟨code, start, hcode, hstart, hrun⟩ := after_eq_some hs
  obtain ⟨m, rfl, hm⟩ := State.atWork_eq_true htest
  exact ⟨code, m, hcode, ⟨start, steps, hstart, hrun⟩, hm⟩

end Program

end FrameMachine
