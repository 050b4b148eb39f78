import FrameMachine.Proofs.Stack.Expressions

/-!
# The discipline of the stack

In a program in which all calls fit, the stack of every activation is exactly as high as the emitter
tracked it (`Program.stack_discipline`).
-/

set_option autoImplicit false

namespace FrameMachine

/-- The stack of an activation of a function is empty in front of each statement and behind it, and
is never higher than the template allows for. -/
structure FunDecl.KeepsStack (ctx : Context) (f : FunDecl) (frame : Frame) : Prop where
  statements : ∀ {pc : Nat} {σ : Slots} {s : Stmt} {ss : List Stmt},
    f.HasPart ctx pc σ (.block (s :: ss)) →
    ∃ c τ, s.code ctx pc σ = some (c, τ) ∧ frame.template.Has pc c ∧
      (frame.pc = pc ∨ frame.pc = pc + c.length → frame.stack = [])
  bounded : frame.stack.length ≤ frame.template.maxStack

/-- The activation at work has a stack as high as the emitter tracked it at the same instruction. If
it is about to evaluate an expression, it gets out of the code of the expression, if ever, with one
value put on its stack and nothing else changed. -/
structure FunDecl.TracksStack (ctx : Context) (code : Code) (maxDepth : Option Nat) (f : FunDecl)
    (last : Emitter) (m : Machine) : Prop where
  emitted : ∀ i, m.top.fetch? = some i → ∃ e e', Emitter.Emits ctx.arity? f.arity last m.top.pc e e'
  tracked : ∀ e e', Emitter.Emits ctx.arity? f.arity last m.top.pc e e' →
    m.top.stack.length = e.depth
  expressions : ∀ {σ : Slots} {nesting : Nat} {e : Expr},
    f.HasPart ctx m.top.pc σ (.expr nesting e) →
    ∃ c, e.codeWith ctx σ (newCode ctx σ nesting) = some c ∧ m.top.template.Has m.top.pc c ∧
      ∀ n m', (State.running m).run code maxDepth n = .running m' →
        (∀ k < n, ∀ m'', (State.running m).run code maxDepth k = .running m'' →
          m.Inside (m.top.pc + c.length) m'') →
        ¬ m.Inside (m.top.pc + c.length) m' →
        ∃ v, m' = ⟨{ m.top with pc := m.top.pc + c.length, stack := v :: m.top.stack }, m.callers,
          m'.world⟩

section Discipline

variable {ctx : Context} {code : Code} {f : FunDecl} {t : Template} {slots : Nat} {last : Emitter}

/-- The level at each instruction is what the emitter tracked there. -/
theorem Compiled.Made.level_eq_depth (h : Compiled.Made ctx f ⟨t, slots⟩ last) {pc : Nat}
    {e e' : Emitter} (he : Emitter.Emits ctx.arity? f.arity last pc e e') :
    t.level ctx pc = e.depth := by
  have hbegun : Emitter.Trail ctx.arity? (.begin t.arity) e := by
    rw [h.arity]
    exact he.begun
  have hheight := hbegun.height?_eq (he.rest.head he.step) h.lastCode
  rw [he.place] at hheight
  exact Template.level_of_height? hheight

/-- No level is higher than the template allows for. -/
theorem Compiled.Made.level_le (h : Compiled.Made ctx f ⟨t, slots⟩ last) (pc : Nat) :
    t.level ctx pc ≤ t.maxStack := by
  have hpeak : last.peak = t.maxStack := h.lastPeak
  by_cases hlt : pc < t.code.size
  · obtain ⟨e, e', he⟩ := h.exists_emits hlt
    have hdepth := he.begun.depth_le
    have hle := Emitter.Trail.peak_le (he.rest.head he.step)
    rw [h.level_eq_depth he]
    omega
  · have hall : t.code.toList.take pc = t.code.toList := List.take_of_length_le (by simpa using hlt)
    have hclimb := h.trail.climb_eq
    rw [h.lastCode, ← h.arity, ← hall] at hclimb
    have hdepth := h.trail.depth_le
    rw [Template.level_of_height? hclimb]
    omega

theorem Frame.AtLevel.length_eq {coming : Nat} {frame : Frame}
    (h : frame.AtLevel ctx (fun _ => ⊥) code coming) :
    (frame.stack.length : Int) + coming = frame.template.level ctx frame.pc := by
  have hzero := AddSubmonoid.mem_bot.1 h.level
  omega

/-- An activation whose stack is as high as the level at its place keeps to the discipline. -/
theorem Frame.AtLevel.keepsStack {coming : Nat} {frame : Frame} (hctx : ctx.TypesFit)
    (hmade : Compiled.Made ctx f ⟨frame.template, slots⟩ last)
    (hfit : callsFitStmts ctx f.body = true) (h : frame.AtLevel ctx (fun _ => ⊥) code coming) :
    f.KeepsStack ctx frame where
  statements := by
    intro pc σ s ss hpart
    have hstands := hpart.stands hctx hmade hfit
    obtain ⟨-, -, hlevel, c, τ, hs, hhas⟩ := hstands.head
    obtain ⟨-, -, hlevel', -⟩ := hstands.rest hs
    refine ⟨c, τ, hs, hhas, fun hpc => ?_⟩
    have hzero : frame.template.level ctx frame.pc = 0 := by
      rcases hpc with hpc | hpc
      · rw [hpc, hlevel]
      · rw [hpc, hlevel']
    have hlength := h.length_eq
    exact List.eq_nil_of_length_eq_zero (by omega)
  bounded := by
    have hlength := h.length_eq
    have hle := hmade.level_le frame.pc
    omega

/-- The activation at work keeps to the discipline as well. -/
theorem Frame.AtLevel.tracksStack {m : Machine} (hctx : ctx.TypesFit)
    (hcode : ∀ name t, code.get? name = some t → ctx.arity? name = some t.arity)
    (hmade : Compiled.Made ctx f ⟨m.top.template, slots⟩ last)
    (hfit : callsFitStmts ctx f.body = true) (h : m.top.AtLevel ctx (fun _ => ⊥) code 0)
    (maxDepth : Option Nat) : f.TracksStack ctx code maxDepth last m where
  emitted := fun i hi => hmade.exists_emits (Array.getElem?_eq_some_iff.1 hi).1
  tracked := by
    intro e e' he
    have hlength := h.length_eq
    have hdepth := hmade.level_eq_depth he
    omega
  expressions := by
    intro σ nesting e hpart
    obtain ⟨hcalls, c, hc, hhas⟩ := hpart.stands hctx hmade hfit
    have hplain : Plain σ c := Expr.plain_codeWith (plain_newCode nesting) e hc
    have hclimb := Expr.climb_codeWith (climb_newCode hctx σ nesting) e hc hcalls
    refine ⟨c, hc, hhas, fun n m' hrun hinside hout => ?_⟩
    exact (Machine.during_of_inside hhas hplain hclimb hcode hinside hrun).leave hclimb hout

end Discipline

theorem Program.jointsIn_bot {p : Program} (h : p.callsFit = true) : p.JointsIn fun _ => ⊥ := by
  intro name f hf joint hjoint
  exact AddSubmonoid.mem_bot.2
    (joints_stmts_of_callsFit (typesFit h) f.body (bodyFits h hf) joint hjoint)

/-- In a program in which all calls fit, each function reaches the height of the stack that its
template allows for as the emitter tracks it. In every state of every run, the stack of each
activation is empty between statements and no higher than its template allows for, and that of the
activation at work is as high as the emitter tracked it. -/
theorem Program.stack_discipline {p : Program} {code : Code} (hp : p.compile = .ok code)
    (hfit : p.callsFit = true) :
    (∀ name t, code.get? name = some t → ∃ f slots last e, p.function? name = some f ∧
      f.EmittedAs p.context t slots last ∧ Emitter.Trail p.context.arity? (.begin f.arity) e ∧
      Emitter.Trail p.context.arity? e last ∧ e.depth = t.maxStack) ∧
    ∀ maxDepth w m, code.Reaches maxDepth w m →
      (∀ frame, frame = m.top ∨ frame ∈ m.callers →
        ∃ f slots last, p.function? frame.template.name = some f ∧
        f.EmittedAs p.context frame.template slots last ∧ f.KeepsStack p.context frame) ∧
      ∃ f slots last, p.function? m.top.template.name = some f ∧
        f.EmittedAs p.context m.top.template slots last ∧
          f.TracksStack p.context code maxDepth last m := by
  have hctx := typesFit hfit
  constructor
  · intro name t ht
    obtain ⟨f, slots, last, hf, -, hemitted⟩ := exists_emittedAs hp ht
    have hmade := hemitted.made
    obtain ⟨e, hbegun, hrest, hpeak⟩ := hmade.trail.exists_peak
    exact ⟨f, slots, last, e, hf, hemitted, hbegun, hrest, hpeak.trans hmade.lastPeak⟩
  · intro maxDepth w m hm
    obtain ⟨htop, hcallers⟩ := (levels_invariant hp (jointsIn_bot hfit)).reaches hm
    constructor
    · intro frame hframe
      -- an activation that waits has one value to come, that of its call
      have hlevel : ∃ coming, frame.AtLevel p.context (fun _ => ⊥) code coming := by
        rcases hframe with rfl | hframe
        · exact ⟨0, htop⟩
        · exact ⟨1, hcallers frame hframe⟩
      obtain ⟨coming, hlevel⟩ := hlevel
      obtain ⟨name, ht⟩ := hlevel.registered
      obtain ⟨f, slots, last, hf, hname, hemitted⟩ := exists_emittedAs hp ht
      exact ⟨f, slots, last, hname ▸ hf, hemitted,
        hlevel.keepsStack hctx hemitted.made (bodyFits hfit hf)⟩
    · obtain ⟨name, ht⟩ := htop.registered
      obtain ⟨f, slots, last, hf, hname, hemitted⟩ := exists_emittedAs hp ht
      have harity (name : String) (t : Template) (ht : code.get? name = some t) :=
        arity?_of_get? hp ht
      refine ⟨f, slots, last, hname ▸ hf, hemitted, ?_⟩
      exact htop.tracksStack hctx harity hemitted.made (bodyFits hfit hf) maxDepth

/-- The number of activations that wait. -/
def State.waiting : State → Nat
  | .running m => m.callers.size
  | .halted _ _ => 0

/-- The program `factorials` keeps to the discipline when it has called itself for the first
time. -/
theorem factorials_stack_discipline :
    ∃ code m, factorials.compile = .ok code ∧ factorials.callsFit = true ∧ code.Reaches none {} m ∧
      m.callers.size = 2 ∧
      (∀ frame, frame = m.top ∨ frame ∈ m.callers → ∃ f slots last,
        factorials.function? frame.template.name = some f ∧
        f.EmittedAs factorials.context frame.template slots last ∧
          f.KeepsStack factorials.context frame) ∧
      ∃ f slots last, factorials.function? m.top.template.name = some f ∧
        f.EmittedAs factorials.context m.top.template slots last ∧
        f.TracksStack factorials.context code none last m := by
  have hwaiting : (factorials.after none {} 50).map State.waiting = some 2 := by decide +kernel
  obtain ⟨s, hs, hsize⟩ := Option.map_eq_some_iff.1 hwaiting
  obtain ⟨code, start, hcode, hstart, hrun⟩ := Program.after_eq_some hs
  cases s with
  | halted result w => cases hsize
  | running m =>
    have hm : code.Reaches none {} m := ⟨start, 50, hstart, hrun⟩
    obtain ⟨hkeeps, htracks⟩ := (Program.stack_discipline hcode factorials_callsFit).2 none {} m hm
    exact ⟨code, m, hcode, factorials_callsFit, hm, hsize, hkeeps, htracks⟩

end FrameMachine
