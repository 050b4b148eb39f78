import FrameMachine.Proofs.Compiler.Registry
import FrameMachine.Proofs.Simulation.Statement

/-!
# Compiled programs behave like their trees

The run of a compiled program and the evaluation of its tree come to the same end, or both come to
none (`Program.endsWith_compile_iff`). The end of a program (`Outcome`) is a value or an error,
together with the heap, what is left of the input and what has been printed.

The proof is by induction on the bound of the evaluation. An evaluation that uses up its bound is
matched by a run that is still at work after as many steps, so a run that ends after `n` steps is
that of an evaluation whose bound is greater than `n`.
-/

set_option autoImplicit false

namespace FrameMachine

section Functions

variable {code : Code} {maxDepth : Option Nat} {t : Template} {callers : Array Frame}

/-- The arguments are moved to the slots of the parameters, one step each. -/
theorem params_run (params : List Param) {σ : Slots} {vars : Bindings} {L : Locals}
    {arguments : List Value} {pc : Nat} {w : World} (hσ : σ.Distinct)
    (hvars : Agree L vars σ.visible) (hlen : arguments.length = params.length)
    (hc : t.Has pc ((List.range' σ.used params.length).map Instr.store)) :
    ∃ L', (t.point callers pc L arguments w).run code maxDepth params.length =
        t.point callers (pc + params.length) L' [] w ∧
      Agree L' (((params.map Param.name).zip arguments).reverse ++ vars)
        (params.foldl (fun slots param => slots.declare param.name) σ).visible := by
  induction params generalizing σ vars L arguments pc with
  | nil =>
    obtain rfl := List.length_eq_zero_iff.1 hlen
    exact ⟨L, rfl, hvars⟩
  | cons param params ih =>
    obtain ⟨v, arguments, rfl⟩ := List.exists_cons_of_length_eq_add_one hlen
    rw [List.length_cons, List.range'_succ, List.map_cons] at hc
    obtain ⟨L', hrun, hagree⟩ :=
      ih ((σ.declare_extends param.name).distinct hσ) (hvars.declare hσ param.name v)
      (Nat.succ.inj hlen) hc.tail
    refine ⟨L', ?_, ?_⟩
    · rw [List.length_cons, State.run, Template.step_next hc.head rfl, Nat.add_comm params.length,
        ← Nat.add_assoc]
      exact hrun
    · rw [List.map_cons, List.zip_cons_cons, List.reverse_cons, List.append_assoc]
      exact hagree

theorem enter_run {f : FunDecl} {arguments : List Value} (callers : Array Frame) (w : World)
    (hlen : arguments.length = f.arity) (hc : t.Has 0 ((List.range f.arity).map Instr.store)) :
    ∃ L, (State.running ⟨.enter t arguments, callers, w⟩).run code maxDepth f.arity =
        t.point callers f.arity L [] w ∧
          Agree L (f.bindings arguments) (paramSlots f.params).visible := by
  rw [List.range_eq_range'] at hc
  have hnone : Agree {} [] (paramSlots []).visible := .nil
  obtain ⟨L, hrun, hvars⟩ := params_run f.params (paramSlots_distinct []) hnone hlen hc
  rw [Nat.zero_add] at hrun
  rw [List.append_nil] at hvars
  exact ⟨L, hrun, hvars⟩

/-- Behind the body of a function nil is returned, with or without instructions that do it. -/
theorem Template.Went.finish {pc : Nat} {σ : Slots} {flow : Flow} {w : World} {s : State}
    (h : t.Went callers pc σ flow w s)
    (hend : t.code.size = pc ∨ t.Has pc [.push .nil, .ret] ∧ t.code.size = pc + 2) :
    ∃ k, s.run code maxDepth k = Machine.finish callers w flow.result := by
  cases flow with
  | ret v => exact ⟨0, h⟩
  | next vars =>
    obtain ⟨L, rfl, -⟩ := h
    rcases hend with hsize | ⟨hc, -⟩
    · have hfetch : Frame.fetch? ⟨t, pc, L, []⟩ = none :=
        Array.getElem?_eq_none (Nat.le_of_eq hsize)
      refine ⟨1, ?_⟩
      rw [State.run, State.run, Template.point, State.step, Machine.step, hfetch]
      rfl
    · refine ⟨2, ?_⟩
      rw [State.run, Template.step_next hc.head rfl]
      exact Template.step_point hc.tail.head

end Functions

section Invoke

variable {p : Program} {code : Code} {maxDepth : Option Nat}

/-- The activation of a function that is called with as many arguments as it has parameters. -/
theorem Program.call_step (hp : p.compile = .ok code) {t : Template} {callers : Array Frame}
    {name : String} {arguments : List Value} {pc : Nat} (L : Locals) (S : List Value) (w : World)
    (hi : t.code[pc]? = some (.call name)) (harity : p.arity? name = some arguments.length) :
    ∃ f u, p.function? name = some f ∧ f.arity = arguments.length ∧ f.CompilesTo p.context u ∧
      (t.point callers pc L (arguments.reverse ++ S) w).step code maxDepth =
        Machine.perform maxDepth t.name pc (.call name) callers
          (.call u arguments ⟨t, pc + 1, L, S⟩ w) := by
  obtain ⟨f, hf, hlen⟩ := Option.map_eq_some_iff.1 harity
  rcases Program.get?_compile hp name with ⟨g, u, hg, hgu, hget⟩ | ⟨hnone, -⟩
  · rw [hf, Option.some.injEq] at hg
    subst hg
    refine ⟨f, u, hf, hlen, hgu, ?_⟩
    obtain ⟨slots, last, hmade⟩ := hgu.made
    have hu : u.arity = arguments.length := hmade.arity.trans hlen
    have htake : (arguments.reverse ++ S).take arguments.length = arguments.reverse :=
      List.take_left' (List.length_reverse)
    have hdrop : (arguments.reverse ++ S).drop arguments.length = S :=
      List.drop_left' (List.length_reverse)
    rw [Template.step_point hi, Instr.execute, Frame.call, hget]
    simp only [hu, htake, hdrop, List.reverse_reverse, List.length_append, List.length_reverse,
      Nat.le_add_right, if_true]
  · rw [hf] at hnone
    cases hnone

/-- The activations of a program realise its functions for a bound. -/
def Program.Realised (p : Program) (code : Code) (maxDepth : Option Nat) (bound : Nat) : Prop :=
  ∀ {name : String} {f : FunDecl} {t : Template} {arguments : List Value} (callers : Array Frame)
    (w : World), p.function? name = some f → f.CompilesTo p.context t → arguments.length = f.arity →
    Realises code maxDepth bound (fun v w' s => s = Machine.finish callers w' v)
      (.running ⟨.enter t arguments, callers, w⟩)
        (p.invoke maxDepth bound (callers.size + 1) f arguments w)

/-- A call from a function at the given depth of nested calls. -/
def Program.callFrom (p : Program) (maxDepth : Option Nat) (bound depth : Nat) (name : String)
    (values : List Value) : EvalM Value :=
  match p.function? name with
  | none => throw (.unresolved (.undefinedFunction name))
  | some g =>
    if values.length = g.arity then
      match exceeded? maxDepth (depth + 1) with
      | some limit => throw (.stackOverflow (depth + 1) limit)
      | none => p.invoke maxDepth bound (depth + 1) g values
    else throw .wrongCount

theorem Program.invoke_succ (p : Program) (bound depth : Nat) (f : FunDecl)
    (arguments : List Value) :
    p.invoke maxDepth (bound + 1) depth f arguments =
      (do
        let flow ← execStmts ⟨p.context, f.name, p.callFrom maxDepth bound depth⟩ (bound + 1)
          (f.bindings arguments) f.body
        pure flow.result) := rfl

/-- A call takes one step, which makes up for the smaller bound of the function called. -/
theorem Program.callFrom_realises (hp : p.compile = .ok code) {bound : Nat}
    (hb : p.Realised code maxDepth bound) {t : Template} {callers : Array Frame} {name : String}
    {arguments : List Value} {pc : Nat} (L : Locals) (S : List Value) (w : World)
    (hi : t.code[pc]? = some (.call name)) (harity : p.arity? name = some arguments.length) :
    Realises code maxDepth (bound + 1) (t.Pushed callers (pc + 1) L S)
      (t.point callers pc L (arguments.reverse ++ S) w)
      (p.callFrom maxDepth bound (callers.size + 1) name arguments w) := by
  obtain ⟨f, u, hf, hlen, hfu, hstep⟩ := Program.call_step hp L S w hi harity
  rw [Program.callFrom, hf]
  simp only [hlen, if_true]
  cases hx : exceeded? maxDepth (callers.size + 1 + 1) with
  | some limit =>
    refine ⟨1, ?_⟩
    rw [State.run, State.run, hstep, Machine.perform]
    simp only [hx]
  | none =>
    have hrun : (t.point callers pc L (arguments.reverse ++ S) w).step code maxDepth =
        .running ⟨.enter u arguments, callers.push ⟨t, pc + 1, L, S⟩, w⟩ := by
      rw [hstep, Machine.perform]
      simp only [hx]
    refine .after_step hrun ?_
    have hcallee := hb (callers.push ⟨t, pc + 1, L, S⟩) w hf hfu hlen.symm
    rw [Array.size_push] at hcallee
    refine hcallee.andRun fun v w' s hs => ⟨0, ?_⟩
    rw [State.run, hs, Machine.finish, Array.back?_push, Array.pop_push]
    rfl

/-- The code of a function realises the function. -/
theorem Program.realised (hp : p.compile = .ok code) (hfit : p.callsFit = true) (bound : Nat) :
    p.Realised code maxDepth bound := by
  induction bound with
  | zero =>
    intro name f t arguments callers w _ _ _
    exact rfl
  | succ bound ih =>
    intro name f t arguments callers w hf hft hlen
    obtain ⟨slots, last, hmade⟩ := hft.made
    obtain ⟨body, inner, hplaced⟩ := hmade.placed
    have hset : Setting.Realised ⟨p.context, f.name, p.callFrom maxDepth bound (callers.size + 1)⟩
        code maxDepth
        (bound + 1) t callers :=
      { function := hmade.name.symm
        types := Program.typesFit hfit
        call := fun L S w' hi harity => Program.callFrom_realises hp ih L S w' hi harity }
    obtain ⟨L, hrun, hvars⟩ := enter_run callers w hlen hplaced.entry
    have hbody := execStmts_realises hset f.body w hplaced.code (Program.bodyFits hfit hf)
      (paramSlots_distinct f.params) hvars hplaced.body
    rw [← hrun] at hbody
    rw [Program.invoke_succ]
    refine (hbody.after_run.mono (Nat.le_add_left _ _)).bind ?_
    intro flow w' s' hs'
    exact hs'.finish hplaced.ending

end Invoke

/-! ## Programs -/

/-- The end to which an evaluation has come, unless its bound is used up. -/
def Outcome.ofResult? : EStateM.Result Stop World Value → Option Outcome
  | .ok v w => some (.value v w)
  | .error (.fault cause function) w => some (.fault cause function w)
  | .error (.stackOverflow depth limit) w => some (.stackOverflow depth limit w)
  | .error (.unresolved _) w => some (.stuck w)
  | .error .wrongCount w => some (.stuck w)
  | .error .outOfFuel _ => none

/-- The end to which the evaluation of a tree comes within a bound, if it does. -/
def Program.outcome? (p : Program) (maxDepth : Option Nat) (bound : Nat) (w : World) :
    Option Outcome :=
  match p.eval maxDepth bound w with
  | .error e => some (.refused e)
  | .ok result => Outcome.ofResult? result

/-- The evaluation of a tree comes to an end. -/
def Program.EndsWith (p : Program) (maxDepth : Option Nat) (w : World) (o : Outcome) : Prop :=
  ∃ bound, p.outcome? maxDepth bound w = some o

section Programs

variable {p : Program} {code : Code} {maxDepth : Option Nat} {w : World}

/-- A run that realises the result of an evaluation comes to the same end. -/
theorem Realises.outcome_eq_some {bound : Nat} {s : State} {r : EStateM.Result Stop World Value}
    {o : Outcome} (h : Realises code maxDepth bound (fun v w s => s = Machine.finish #[] w v) s r)
    (ho : Outcome.ofResult? r = some o) : ∃ n, (s.run code maxDepth n).outcome? = some o := by
  cases r with
  | ok v w =>
    obtain ⟨n, hn⟩ := h
    exact ⟨n, by rw [hn, ← ho]; rfl⟩
  | error stop w =>
    cases stop with
    | fault fault function =>
      obtain ⟨n, pc, i, hn⟩ := h
      exact ⟨n, by rw [hn, ← ho]; rfl⟩
    | stackOverflow depth limit =>
      obtain ⟨n, hn⟩ := h
      exact ⟨n, by rw [hn, ← ho]; rfl⟩
    | unresolved name => exact h.elim
    | wrongCount => exact h.elim
    | outOfFuel => cases ho

/-- A run that realises an evaluation whose bound is used up is still at work after as many
steps. -/
theorem Realises.outcome_eq_none {bound : Nat} {s : State} {r : EStateM.Result Stop World Value}
    {fits : Value → World → State → Prop} (h : Realises code maxDepth bound fits s r)
    (ho : Outcome.ofResult? r = none) : (s.run code maxDepth bound).outcome? = none := by
  cases r with
  | ok v w => cases ho
  | error stop w =>
    cases stop with
    | outOfFuel =>
      obtain ⟨m, hm⟩ := State.eq_running_of_not_isHalted h
      rw [hm, State.outcome?]
    | fault fault function => cases ho
    | stackOverflow depth limit => cases ho
    | unresolved name => cases ho
    | wrongCount => cases ho

/-- The start of a program: `main` is sought among the compiled functions and in the tree. -/
theorem Program.start_compile (hp : p.compile = .ok code) (w : World) :
    (∃ e, code.start w = .error e ∧ ∀ maxDepth bound, p.eval maxDepth bound w = .error e) ∨
    ∃ f t, p.function? "main" = some f ∧ f.CompilesTo p.context t ∧ f.arity = 0 ∧
      code.start w = .ok ⟨.enter t [], #[], { w with heap := .empty }⟩ ∧
      ∀ maxDepth bound, p.eval maxDepth bound w =
          .ok (p.invoke maxDepth bound 1 f [] { w with heap := .empty }) := by
  rcases Program.get?_compile hp "main" with ⟨f, t, hf, hft, hget⟩ | ⟨hf, hget⟩
  · obtain ⟨slots, last, hmade⟩ := hft.made
    have hta : t.arity = f.arity := hmade.arity
    by_cases harity : f.arity = 0
    · refine Or.inr ⟨f, t, hf, hft, harity, ?_, ?_⟩
      · simp [Code.start, hget, hta, harity]
      · intro maxDepth bound
        simp [Program.eval, hf, harity]
    · refine Or.inl ⟨.mainArity f.arity, ?_, ?_⟩
      · simp [Code.start, hget, hta, harity]
      · intro maxDepth bound
        simp [Program.eval, hf, harity]
  · refine Or.inl ⟨.missingMain, ?_, ?_⟩
    · simp [Code.start, hget]
    · intro maxDepth bound
      simp [Program.eval, hf]

/-- The run of a compiled program comes to an end exactly if the evaluation of its tree does, and
then to the same end: the same value, or the same error in the same function, with the same heap,
input and output. Every call in the program is to pass as many arguments as its function takes. In
particular the evaluation never gets stuck. -/
theorem Program.endsWith_compile_iff {p : Program} {code : Code} (hp : p.compile = .ok code)
    (hfit : p.callsFit = true) (maxDepth : Option Nat) (w : World) (o : Outcome) :
    code.EndsWith maxDepth w o ↔ p.EndsWith maxDepth w o := by
  rcases Program.start_compile hp w with ⟨e, hstart, heval⟩ | ⟨f, t, hf, hft, harity, hstart, heval⟩
  · simp only [Code.EndsWith, hstart, Program.EndsWith, Program.outcome?, heval, Option.some.injEq,
      exists_const]
    exact eq_comm
  · have hreal (bound : Nat) : Realises code maxDepth bound
        (fun v w s => s = Machine.finish #[] w v)
        (.running ⟨.enter t [], #[], { w with heap := .empty }⟩)
        (p.invoke maxDepth bound 1 f [] { w with heap := .empty }) :=
      Program.realised hp hfit bound #[] _ hf hft harity.symm
    simp only [Code.EndsWith, hstart, Program.EndsWith, Program.outcome?, heval]
    constructor
    · rintro ⟨n, hn⟩
      refine ⟨n, ?_⟩
      -- a run that has ended after `n` steps leaves no room for a bound of `n` that is used up
      cases ho : Outcome.ofResult? (p.invoke maxDepth n 1 f [] { w with heap := .empty }) with
      | none =>
        rw [(hreal n).outcome_eq_none ho] at hn
        cases hn
      | some o' =>
        obtain ⟨m, hm⟩ := (hreal n).outcome_eq_some ho
        rw [State.outcome_unique hm hn]
    · rintro ⟨bound, hbound⟩
      exact (hreal bound).outcome_eq_some hbound

/-- The program `factorials` behaves like its tree. -/
theorem factorials_endsWith_iff :
    ∃ code, factorials.compile = .ok code ∧ factorials.callsFit = true ∧
      ∀ maxDepth w o, code.EndsWith maxDepth w o ↔ factorials.EndsWith maxDepth w o := by
  obtain ⟨code, hcode⟩ := factorials_compile
  exact ⟨code, hcode, factorials_callsFit, Program.endsWith_compile_iff hcode factorials_callsFit⟩

end Programs

end FrameMachine
