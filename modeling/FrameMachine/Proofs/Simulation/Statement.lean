import FrameMachine.Evaluation.Statement
import FrameMachine.Proofs.Simulation.Expression

/-!
# The code of statements realises their execution

Between statements the stack is empty and the slots agree with the variables (`Template.Between`).
The run of the code of a statement comes to the end of this code, with slots that agree with the new
variables, or it ends the activation with the value that the statement returns
(`Stmt.exec_realises`).
-/

set_option autoImplicit false

namespace FrameMachine

/-- The activation has come to a place between statements: its stack is empty, and its slots agree
with the variables. -/
def Template.Between (t : Template) (callers : Array Frame) (pc : Nat) (σ : Slots) (vars : Bindings)
    (w : World) (s : State) : Prop := ∃ L, s = t.point callers pc L [] w ∧ Agree L vars σ.visible

/-- The activation has gone where a statement lets it go: to a place behind the statement, or out of
the function. -/
def Template.Went (t : Template) (callers : Array Frame) (pc : Nat) (σ : Slots) : Flow → World →
    State → Prop
  | .next vars, w, s => t.Between callers pc σ vars w s
  | .ret v, w, s => s = Machine.finish callers w v

section Statements

variable {code : Code} {maxDepth : Option Nat} {n : Nat} {t : Template} {callers : Array Frame}
  {σ τ : Slots}
  {vars : Bindings}

/-- At the end of a block the activation goes on with the variables from before the block. -/
theorem Template.Went.leave {L : Locals} {pc : Nat} {flow : Flow} {w : World} {s : State}
    (h : t.Went callers pc τ flow w s) (hvars : Agree L vars σ.visible) (hσ : σ.Extends τ)
    (υ : Slots) :
    t.Went callers pc (σ.leave υ) (flow.leave vars) w s := by
  cases flow with
  | ret v => exact h
  | next inner =>
    obtain ⟨L', rfl, hinner⟩ := h
    exact ⟨L', rfl, hvars.leave hinner hσ.visible⟩

/-- What is done next is realised if it is behind the statement. -/
theorem Template.Went.andThen {pc pc' : Nat} {flow : Flow} {f : Bindings → EvalM Flow} {w : World}
    {s : State}
    (h : t.Went callers pc σ flow w s)
    (hf : ∀ vars w' s', t.Between callers pc σ vars w' s' →
      Realises code maxDepth n (t.Went callers pc' τ) s' (f vars w')) :
    Realises code maxDepth n (t.Went callers pc' τ) s (flow.andThen f w) := by
  cases flow with
  | next vars => exact hf vars w s h
  | ret v => exact .ok h

/-- An instruction that only goes somewhere else is executed on the way out of a statement. -/
theorem Template.Went.go {pc target : Nat} {i : Instr} {flow : Flow} {w : World} {s : State}
    (hi : t.code[pc]? = some i)
    (he : ∀ L w, i.execute code ⟨t, pc + 1, L, []⟩ w = .next ⟨t, target, L, []⟩ w)
    (h : t.Went callers pc σ flow w s) :
    ∃ k, t.Went callers target σ flow w (s.run code maxDepth k) := by
  cases flow with
  | ret v => exact ⟨0, h⟩
  | next vars =>
    obtain ⟨L, rfl, hvars⟩ := h
    refine ⟨1, L, ?_, hvars⟩
    rw [State.run, State.run, Template.step_next hi (he L w)]
    rfl

namespace Realises

/-- The run goes on behind the state that fits the value. -/
theorem andRun {α : Type} {fits fits' : α → World → State → Prop} {s : State}
    {r : EStateM.Result Stop World α} (h : Realises code maxDepth n fits s r)
    (hfits : ∀ a w s', fits a w s' → ∃ k, fits' a w (s'.run code maxDepth k)) :
    Realises code maxDepth n fits' s r := by
  cases r with
  | ok a w =>
    obtain ⟨m, hm⟩ := h
    obtain ⟨k, hk⟩ := hfits a w _ hm
    exact ⟨m + k, by rwa [State.run_add]⟩
  | error stop w =>
    cases stop with
    | fault fault function => exact h
    | stackOverflow depth limit => exact h
    | outOfFuel => exact h
    | unresolved name => exact h
    | wrongCount => exact h

/-- What is done next is realised behind the statement, unless the statement has left
the function. -/
theorem andThen {pc pc' : Nat} {s : State} {x : EvalM Flow} {f : Bindings → EvalM Flow} {w : World}
    (hx : Realises code maxDepth n (t.Went callers pc σ) s (x w))
    (hf : ∀ vars w' s', t.Between callers pc σ vars w' s' →
      Realises code maxDepth n (t.Went callers pc' τ) s' (f vars w')) :
    Realises code maxDepth n (t.Went callers pc' τ) s ((do let flow ← x; flow.andThen f) w) :=
  hx.bind fun _ _ _ h => h.andThen hf

/-- A return ends the activation. -/
theorem ret {pc pc' : Nat} {L : Locals} {S : List Value} {v : Value} {w : World}
    (hi : t.code[pc]? = some .ret) :
    Realises code maxDepth n (t.Went callers pc' τ) (t.point callers pc L (v :: S) w)
      (.ok (.ret v) w) := by
  refine ⟨1, ?_⟩
  rw [State.run, State.run, Template.step_point hi]
  rfl

end Realises

/-- A loop is realised if its test and its rounds are. The jump back to the test is one step, so
that a run is at work for as many steps as there are rounds. -/
theorem repeatWhile_realises {test : Bindings → EvalM Bool} {round : Bindings → EvalM Flow}
    {head back : Nat} (body leave : Nat) (hback : t.code[back]? = some (.jump head))
    (htest : ∀ vars w s, t.Between callers head σ vars w s →
      Realises code maxDepth n
      (fun b w' s' => t.Between callers (if b then body else leave) σ vars w' s') s
        (test vars w))
    (hround : ∀ vars w s, t.Between callers body σ vars w s →
      Realises code maxDepth n (t.Went callers back σ) s (round vars w)) :
    ∀ (k : Nat), k ≤ n → ∀ (vars : Bindings) (w : World) (s : State),
    t.Between callers head σ vars w s →
      Realises code maxDepth k (t.Went callers leave σ) s (repeatWhile test round k vars w) := by
  intro k
  -- on the number of rounds that the bound leaves
  induction k with
  | zero =>
    rintro - vars w s ⟨L, rfl, -⟩
    exact rfl
  | succ k ih =>
    intro hk vars w s hs
    rw [repeatWhile]
    refine ((htest vars w s hs).mono hk).bind ?_
    intro b w' s' hs'
    cases b with
    | false => exact .ok hs'
    | true =>
      refine ((hround vars w' s' hs').mono hk).andThen ?_
      rintro vars' w'' _ ⟨L, rfl, hvars⟩
      exact .after_step (Template.step_next hback rfl)
        (ih (Nat.le_of_succ_le hk) vars' w'' _ ⟨L, rfl, hvars⟩)

variable {s : Setting}

/-- The value on top of the stack is assigned to a variable or a field. -/
theorem assignTo_realises (hs : s.Realised code maxDepth n t callers) {L : Locals}
    (hvars : Agree L vars σ.visible) (hσ : σ.Distinct) {base : String} {fields : List String}
    {c : List Instr} {pc : Nat} {v : Value} {w : World} (h : assignmentCode σ base fields = some c)
    (hc : t.Has pc c) :
    Realises code maxDepth n (fun vars' w' => t.Between callers (pc + c.length) σ vars' w')
      (t.point callers pc L [v] w) (assignTo s vars base fields v w) := by
  obtain ⟨slot, hslot, ⟨rfl, rfl⟩ | ⟨field, hfield, rfl⟩⟩ := assignmentCode_eq_some.1 h
  · exact .next hc.head rfl ⟨_, rfl, hvars.assign hσ.nodup hslot v⟩
  · rw [List.cons_append] at hc
    have hend : pc + (Instr.load slot :: fields.dropLast.map Instr.getField ++
        [Instr.swap, Instr.setField field]).length = pc + 1 + fields.dropLast.length + 1 + 1 := by
      simp only [List.cons_append, List.length_cons, List.length_append, List.length_map,
        List.length_nil]
      omega
    have hrest := hc.tail.right
    rw [List.length_map] at hrest
    rw [assignTo, hfield, hend, hs.function]
    refine (Realises.lookup hvars hslot hc.head).bind ?_
    rintro start w' _ rfl
    refine (Realises.followPath hc.tail.left).bind ?_
    rintro object w'' _ rfl
    refine (Realises.after_step (Template.step_next hrest.head rfl) ?_).mono (Nat.le_succ n)
    refine (Realises.setField hrest.tail.head).map ?_
    rintro - w₃ _ rfl
    exact ⟨L, rfl, hvars⟩

/-- A condition is realised together with the block that is done if it holds and what is
done otherwise. -/
theorem case_realises (hs : s.Realised code maxDepth n t callers) {L : Locals}
    (hvars : Agree L vars σ.visible)
    {condition : Expr} {test block others : List Instr} {pc : Nat} {x y : EvalM Flow}
    {inner : Slots} (w : World)
    (htest : condition.code s.context σ = some test) (hfit : condition.callsFit s.context = true)
    (hc : t.HasCase pc test block others) (hinner : σ.Extends inner) (hτ : σ.leave τ = τ)
    (hx : ∀ w, Realises code maxDepth n (t.Went callers (pc + test.length + 1 + block.length) inner)
      (t.point callers (pc + test.length + 1) L [] w) (x w))
    (hy : ∀ w, Realises code maxDepth n
      (t.Went callers (pc + test.length + block.length + 2 + others.length) τ)
      (t.point callers (pc + test.length + block.length + 2) L [] w) (y w)) :
    Realises code maxDepth n (t.Went callers (pc + (caseCode pc test block others).length) τ)
      (t.point callers pc L [] w)
      ((do
        let v ← condition.eval s vars
        if ← EvalM.truth s.function v then
          let flow ← x
          pure (flow.leave vars)
        else y) w) := by
  have hend : pc + (caseCode pc test block others).length =
      pc + test.length + block.length + 2 + others.length := by
    rw [length_caseCode]
    omega
  rw [hs.function, hend]
  refine (Expr.eval_realises hs hvars [] w htest hfit hc.hasTest).bind ?_
  rintro v w' _ rfl
  refine (Realises.truth hc.skip).bind ?_
  rintro b w'' _ rfl
  cases b with
  | false => exact hy w''
  | true =>
    have hblock : Realises code maxDepth n (t.Went callers (pc + test.length + 1 + block.length) τ)
        (t.point callers (pc + test.length + 1) L [] w'')
            ((do let flow ← x; pure (flow.leave vars)) w'') := by
      refine (hx w'').map fun flow w s h => ?_
      rw [← hτ]
      exact h.leave hvars hinner τ
    exact hblock.andRun fun flow w s h => h.go hc.leave fun _ _ => rfl

section ForLoop

variable {counter : String} {start slot : Nat} {direction : Direction}
  {first limit block : List Instr}

/-- The test of a `for` loop. -/
theorem forTest_realises (hs : s.Realised code maxDepth n t callers)
    (hc : t.HasFor start slot direction first limit block) {last : Expr}
    (hlimit : last.code s.context σ = some limit) (hfit : last.callsFit s.context = true)
    (hslot : σ.slot? counter = some slot) {state : State} {w : World}
    (h : t.Between callers (start + first.length + 1) σ vars w state) :
    Realises code maxDepth n
      (fun b w' s' => t.Between callers
        (if b then forBody start first limit else forBody start first limit + block.length + 5)
        σ vars w' s')
      state (forTest s counter direction last vars w) := by
  obtain ⟨L, rfl, hvars⟩ := h
  have hbody : start + first.length + 2 + limit.length + 1 + 1 = forBody start first limit := by
    rw [forBody]
    omega
  rw [forTest, hs.function]
  refine (Realises.lookup hvars hslot hc.load).bind ?_
  rintro v w' _ rfl
  refine (Expr.eval_realises hs hvars [v] w' hlimit hfit hc.hasLast).bind ?_
  rintro last w'' _ rfl
  refine (Realises.pushing hc.compare rfl).bind ?_
  rintro result w₃ _ rfl
  refine (Realises.truth hc.leave).andRun fun b w₄ _ hb => ⟨0, L, ?_, hvars⟩
  rw [hb, hbody]
  rfl

/-- The step of a `for` loop to its next value. -/
theorem forStep_realises (hs : s.Realised code maxDepth n t callers)
    (hc : t.HasFor start slot direction first limit block) (hσ : σ.Distinct)
    (hslot : σ.slot? counter = some slot) {state : State} {w : World}
    (h : t.Between callers (forBody start first limit + block.length) σ vars w state) :
    Realises code maxDepth n (t.Went callers (forBody start first limit + block.length + 4) σ) state
      (forStep s counter direction vars w) := by
  obtain ⟨L, rfl, hvars⟩ := h
  rw [forStep, hs.function]
  refine (Realises.lookup hvars hslot hc.step.head).bind ?_
  rintro v w' _ rfl
  refine (Realises.after_step (Template.step_next hc.step.tail.head rfl) ?_).mono (Nat.le_succ n)
  refine (Realises.pushing hc.step.tail.tail.head rfl).bind ?_
  rintro next w'' _ rfl
  exact .next hc.step.tail.tail.tail.head rfl ⟨_, rfl, hvars.assign hσ.nodup hslot next⟩

end ForLoop

mutual

theorem Stmt.exec_realises (hs : s.Realised code maxDepth n t callers) :
    ∀ (stmt : Stmt) {c : List Instr} {pc : Nat} {σ τ : Slots} {vars : Bindings} {L : Locals}
      (w : World),
      stmt.code s.context pc σ = some (c, τ) → stmt.callsFit s.context = true → σ.Distinct →
      Agree L vars σ.visible → t.Has pc c →
      Realises code maxDepth n (t.Went callers (pc + c.length) τ) (t.point callers pc L [] w)
        (stmt.exec s n vars w)
  | .var name init, c, pc, σ, τ, vars, L, w, h, hfit, hσ, hvars, hc => by
    obtain ⟨value, hvalue, rfl, rfl⟩ := Stmt.code_var.1 h
    rw [Stmt.callsFit] at hfit
    rw [Stmt.exec, List.length_append, ← Nat.add_assoc]
    refine (Expr.eval_realises hs hvars [] w hvalue hfit hc.left).bind ?_
    rintro v w' _ rfl
    exact .next hc.right.head rfl ⟨_, rfl, hvars.declare hσ name v⟩
  | .assign base fields value, c, pc, σ, τ, vars, L, w, h, hfit, hσ, hvars, hc => by
    obtain ⟨before, hbefore, assignment, hassignment, rfl, rfl⟩ := Stmt.code_assign.1 h
    rw [Stmt.callsFit] at hfit
    rw [Stmt.exec, List.length_append, ← Nat.add_assoc]
    refine (Expr.eval_realises hs hvars [] w hbefore hfit hc.left).bind ?_
    rintro v w' _ rfl
    exact (assignTo_realises hs hvars hσ hassignment hc.right).map fun vars' w'' s' hs' => hs'
  | .branch condition body rest, c, pc, σ, τ, vars, L, w, h, hfit, hσ, hvars, hc => by
    obtain ⟨test, htest, block, inner, hblock, others, inner', hothers, rfl, rfl⟩ :=
      Stmt.code_branch.1 h
    rw [Stmt.callsFit, Bool.and_eq_true, Bool.and_eq_true] at hfit
    have hcase := Template.has_caseCode hc.left
    have hinner := stmtsCode_extends body hblock
    have hafter := (Slots.leave_extends hinner.used).distinct hσ
    have hleave := (σ.leave_leave inner inner').symm.trans (Alternatives.code_leave hothers)
    rw [Stmt.exec, List.length_append, ← Nat.add_assoc, hleave]
    have hwhole := case_realises hs hvars w htest hfit.1.1 hcase hinner hleave
      (fun w' => execStmts_realises hs body w' hblock hfit.1.2 hσ hvars hcase.hasBlock)
      (fun w' => Alternatives.exec_realises hs rest w' hothers hfit.2 hafter hvars hcase.hasOthers)
    exact hwhole.andRun fun flow w' s' h' => h'.go hc.right.head fun _ _ => rfl
  | .whileLoop condition body, c, pc, σ, τ, vars, L, w, h, hfit, hσ, hvars, hc => by
    obtain ⟨test, htest, block, inner, hblock, rfl, rfl⟩ := Stmt.code_whileLoop.1 h
    rw [Stmt.callsFit, Bool.and_eq_true] at hfit
    have hloop := Template.has_whileCode hc
    have hinner := stmtsCode_extends body hblock
    have hend : pc + (whileCode pc test block).length = pc + test.length + block.length + 2 := by
      rw [length_whileCode]
      omega
    rw [Stmt.exec, hend]
    refine repeatWhile_realises (pc + test.length + 1) _ hloop.back ?_ ?_ n (Nat.le_refl n) vars w _
      ⟨L, rfl, hvars⟩
    · rintro vars' w' _ ⟨L', rfl, (hvars' : Agree L' vars' σ.visible)⟩
      rw [hs.function]
      refine (Expr.eval_realises hs hvars' [] w' htest hfit.1 hloop.hasTest).bind ?_
      rintro v w'' _ rfl
      exact (Realises.truth hloop.leave).andRun fun b w₃ _ hb => ⟨0, L', hb, hvars'⟩
    · rintro vars' w' _ ⟨L', rfl, (hvars' : Agree L' vars' σ.visible)⟩
      refine (execStmts_realises hs body w' hblock hfit.2 hσ hvars' hloop.hasBlock).map ?_
      exact fun flow w'' s' h' => h'.leave hvars' hinner inner
  | .forLoop counter first direction last body, c, pc, σ, τ, vars, L, w, h, hfit, hσ, hvars,
      hc => by
    obtain ⟨begin, hbegin, limit, hlimit, block, inner, hblock, rfl, rfl⟩ := Stmt.code_forLoop.1 h
    rw [Stmt.callsFit, Bool.and_eq_true, Bool.and_eq_true] at hfit
    have hloop := Template.has_forCode hc
    have hinner := stmtsCode_extends body hblock
    have hscope := (σ.declare_extends counter).distinct hσ
    have hslot := σ.slot?_declare counter
    have hend : pc + (forCode pc σ.used direction begin limit block).length =
        forBody pc begin limit + block.length + 5 := by
      rw [length_forCode, forBody]
      omega
    rw [Stmt.exec, hend]
    refine (Expr.eval_realises hs hvars [] w hbegin hfit.1.1 hloop.hasFirst).bind ?_
    rintro v w' _ rfl
    refine (Realises.after_step (Template.step_next hloop.store rfl) ?_).mono (Nat.le_succ n)
    refine (repeatWhile_realises (forBody pc begin limit)
      (forBody pc begin limit + block.length + 5)
      hloop.step.tail.tail.tail.tail.head ?_ ?_ n (Nat.le_refl n) _ w' _
        ⟨_, rfl, hvars.declare hσ counter v⟩).map ?_
    · exact fun vars' w'' s' h' => forTest_realises hs hloop hlimit hfit.1.2 hslot h'
    · rintro vars' w'' _ ⟨L', rfl, hvars'⟩
      refine (execStmts_realises hs body w'' hblock hfit.2 hscope hvars' hloop.hasBlock).bind ?_
      intro flow w₃ s' h'
      refine (h'.leave hvars' hinner (σ.declare counter)).andThen ?_
      exact fun vars'' w₄ s'' h'' => forStep_realises hs hloop hscope hslot h''
    · exact fun flow w'' s' h' => h'.leave hvars (σ.declare_extends counter) inner
  | .ret none, c, pc, σ, τ, vars, L, w, h, _, _, _, hc => by
    obtain ⟨rfl, rfl⟩ := Stmt.code_ret_none.1 h
    rw [Stmt.exec]
    exact (Realises.after_step (Template.step_next hc.head rfl) (.ret hc.tail.head)).mono
      (Nat.le_succ n)
  | .ret (some value), c, pc, σ, τ, vars, L, w, h, hfit, _, hvars, hc => by
    obtain ⟨before, hbefore, rfl, rfl⟩ := Stmt.code_ret_some.1 h
    rw [Stmt.callsFit] at hfit
    rw [Stmt.exec]
    refine (Expr.eval_realises hs hvars [] w hbefore hfit hc.left).bind ?_
    rintro v w' _ rfl
    exact .ret hc.right.head
  | .delete name, c, pc, σ, τ, vars, L, w, h, _, _, hvars, hc => by
    obtain ⟨slot, hslot, rfl, rfl⟩ := Stmt.code_delete.1 h
    rw [Stmt.exec, hs.function]
    refine (Realises.lookup hvars hslot hc.head).bind ?_
    rintro v w' _ rfl
    refine (Realises.free hc.tail.head).map ?_
    rintro - w'' _ rfl
    exact ⟨L, rfl, hvars⟩
  | .call function arguments, c, pc, σ, τ, vars, L, w, h, hfit, _, hvars, hc => by
    obtain ⟨before, hbefore, rfl, rfl⟩ := Stmt.code_call.1 h
    rw [Stmt.callsFit] at hfit
    rw [Stmt.exec, List.length_append, ← Nat.add_assoc]
    refine (Expr.eval_realises hs hvars [] w hbefore hfit hc.left).bind ?_
    rintro v w' _ rfl
    exact .next hc.right.head rfl ⟨L, rfl, hvars⟩

theorem execStmts_realises (hs : s.Realised code maxDepth n t callers) :
    ∀ (stmts : List Stmt) {c : List Instr} {pc : Nat} {σ τ : Slots} {vars : Bindings} {L : Locals}
      (w : World),
      stmtsCode s.context pc σ stmts = some (c, τ) → callsFitStmts s.context stmts = true →
      σ.Distinct → Agree L vars σ.visible → t.Has pc c →
      Realises code maxDepth n (t.Went callers (pc + c.length) τ) (t.point callers pc L [] w)
        (execStmts s n vars stmts w)
  | [], c, pc, σ, τ, vars, L, w, h, _, _, hvars, _ => by
    obtain ⟨rfl, rfl⟩ := stmtsCode_nil.1 h
    rw [execStmts]
    exact .ok ⟨L, rfl, hvars⟩
  | stmt :: stmts, c, pc, σ, τ, vars, L, w, h, hfit, hσ, hvars, hc => by
    obtain ⟨first, middle, hfirst, rest, hrest, rfl⟩ := stmtsCode_cons.1 h
    rw [callsFitStmts, Bool.and_eq_true] at hfit
    rw [execStmts, List.length_append, ← Nat.add_assoc]
    refine (Stmt.exec_realises hs stmt w hfirst hfit.1 hσ hvars hc.left).andThen ?_
    rintro vars' w' _ ⟨L', rfl, hvars'⟩
    have hmiddle := (Stmt.code_extends stmt hfirst).distinct hσ
    exact execStmts_realises hs stmts w' hrest hfit.2 hmiddle hvars' hc.right

theorem Alternatives.exec_realises (hs : s.Realised code maxDepth n t callers) :
    ∀ (alts : Alternatives) {c : List Instr} {pc : Nat} {σ τ : Slots} {vars : Bindings} {L : Locals}
      (w : World),
      alts.code s.context pc σ = some (c, τ) → alts.callsFit s.context = true → σ.Distinct →
      Agree L vars σ.visible → t.Has pc c →
      Realises code maxDepth n (t.Went callers (pc + c.length) τ) (t.point callers pc L [] w)
        (alts.exec s n vars w)
  | .none, c, pc, σ, τ, vars, L, w, h, _, _, hvars, _ => by
    obtain ⟨rfl, rfl⟩ := Alternatives.code_none.1 h
    rw [Alternatives.exec]
    exact .ok ⟨L, rfl, hvars⟩
  | .otherwise body, c, pc, σ, τ, vars, L, w, h, hfit, hσ, hvars, hc => by
    obtain ⟨inner, hblock, rfl⟩ := Alternatives.code_otherwise.1 h
    rw [Alternatives.callsFit] at hfit
    rw [Alternatives.exec]
    refine (execStmts_realises hs body w hblock hfit hσ hvars hc).map ?_
    exact fun flow w' s' h' => h'.leave hvars (stmtsCode_extends body hblock) inner
  | .elif condition body rest, c, pc, σ, τ, vars, L, w, h, hfit, hσ, hvars, hc => by
    obtain ⟨test, htest, block, inner, hblock, others, inner', hothers, rfl, rfl⟩ :=
      Alternatives.code_elif.1 h
    rw [Alternatives.callsFit, Bool.and_eq_true, Bool.and_eq_true] at hfit
    have hcase := Template.has_caseCode hc
    have hinner := stmtsCode_extends body hblock
    have hafter := (Slots.leave_extends hinner.used).distinct hσ
    have hleave := (σ.leave_leave inner inner').symm.trans (Alternatives.code_leave hothers)
    rw [Alternatives.exec, hleave]
    exact case_realises hs hvars w htest hfit.1.1 hcase hinner hleave
      (fun w' => execStmts_realises hs body w' hblock hfit.1.2 hσ hvars hcase.hasBlock)
      (fun w' => Alternatives.exec_realises hs rest w' hothers hfit.2 hafter hvars hcase.hasOthers)

end

end Statements

end FrameMachine
