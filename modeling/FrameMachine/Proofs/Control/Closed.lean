import FrameMachine.Proofs.Compiler.Calls
import FrameMachine.Proofs.Stack.Activations

/-!
# Control stays inside the code

A function is closed if its jumps go to instructions of its own and its last instruction returns. A
loop that has come to its end jumps behind itself, so there has to be something behind each loop.
There is: the code of the next statement, or the return at the end of the function, which is left
out only if the last statement is a return itself (`Compiled.Made.closed`).

An activation of a closed function is always at one of its instructions (`Code.inCode_invariant`).
So no run of a program comes to the end of a function without a return
(`Program.control_stays_in_code`).
-/

set_option autoImplicit false

namespace FrameMachine

/-- The jumps of the function go to its own instructions, and its last instruction returns. -/
structure Template.Closed (t : Template) : Prop where
  targets : ∀ {pc target : Nat} {i : Instr}, t.code[pc]? = some i → i.target? = some target →
    target < t.code.size
  ending : t.code.back? = some .ret

/-! ## Functions -/

section Functions

variable {ctx : Context} {t : Template}

/-- Jumps between two places do not go behind the second one. -/
theorem Template.Confined.targets_lt {a b bound : Nat} (h : t.Confined a b) (hb : b < bound) :
    t.Jumps (fun _ target => target < bound) a b := by
  refine Template.Each.mono h ?_
  intro pc i _ _ hjump target htarget
  exact Nat.lt_of_le_of_lt (hjump target htarget).2 hb

/-- The code of a return has no jumps and ends with an instruction that returns. -/
theorem Stmt.code_of_isReturn {s : Stmt} {c : List Instr} {pc : Nat} {σ τ : Slots}
    (hs : s.isReturn = true) (h : s.code ctx pc σ = some (c, τ)) :
    (∀ i ∈ c, i.target? = none) ∧ c.getLast? = some .ret := by
  cases s with
  | ret value =>
    refine ⟨fun i hi => (Stmt.isStraight_of_isSimple h rfl i hi).target?, ?_⟩
    cases value with
    | none =>
      obtain ⟨rfl, -⟩ := Stmt.code_ret_none.1 h
      rfl
    | some value =>
      obtain ⟨before, -, rfl, -⟩ := Stmt.code_ret_some.1 h
      exact List.getLast?_concat
  | var | assign | branch | whileLoop | forLoop | delete | call => cases hs

/-- Statements of which the last one is a return end with an instruction that returns, and no jump
goes behind it. -/
theorem stmts_closed {ss : List Stmt} {c : List Instr} {pc : Nat} {σ τ : Slots}
    (hlast : ss.getLast?.any Stmt.isReturn = true) (h : stmtsCode ctx pc σ ss = some (c, τ))
    (hc : t.Has pc c) :
    t.Jumps (fun _ target => target < pc + c.length) pc (pc + c.length) ∧
      c.getLast? = some .ret := by
  obtain ⟨s, hs, hreturn⟩ := (Option.any_eq_true _ _).1 hlast
  obtain ⟨before, rfl⟩ := List.getLast?_eq_some_iff.1 hs
  obtain ⟨first, middle, hfirst, rest, hrest, rfl⟩ := stmtsCode_append.1 h
  obtain ⟨last, _, hcode, _, hnil, rfl⟩ := stmtsCode_cons.1 hrest
  obtain ⟨rfl, rfl⟩ := stmtsCode_nil.1 hnil
  obtain ⟨hstraight, hret⟩ := Stmt.code_of_isReturn hreturn hcode
  rw [List.append_nil] at hc ⊢
  have hnonempty : 0 < last.length := by
    rw [List.length_pos_iff]
    rintro rfl
    cases hret
  constructor
  · -- the statements before may end with a loop, but its jump stays in front of the return
    have hbefore := (stmts_confined before hfirst hc.left).targets_lt
      (Nat.lt_add_of_pos_right (n := pc + first.length) hnonempty)
    rw [List.length_append, ← Nat.add_assoc]
    exact hbefore.append (.of_straight hc.right hstraight)
  · rw [List.getLast?_append, hret]
    rfl

/-- A function that compiles is closed. -/
theorem Compiled.Made.closed {f : FunDecl} {slots : Nat} {last : Emitter}
    (h : Compiled.Made ctx f ⟨t, slots⟩ last) :
    t.Closed := by
  obtain ⟨block, inner, hplaced⟩ := h.placed
  obtain ⟨block', inner', hblock, hcode, -⟩ := FunDecl.code_eq_some.1 h.code
  rw [hplaced.code, Option.some.injEq, Prod.mk.injEq] at hblock
  obtain ⟨rfl, rfl⟩ := hblock
  have hsize := congrArg List.length hcode
  simp only [Array.length_toList, List.length_append, List.length_map, List.length_range] at hsize
  have hbody : t.Jumps (fun _ target => target < t.code.size) f.arity (f.arity + block.length) ∧
      t.code.back? = some .ret := by
    rw [← Array.getLast?_toList, hcode, List.append_assoc, List.getLast?_append]
    by_cases hreturn : f.endsInReturn = true
    · obtain ⟨hjumps, hlast⟩ := stmts_closed hreturn hplaced.code hplaced.body
      simp only [hreturn, if_true, List.length_nil, Nat.add_zero] at hsize
      rw [hsize]
      exact ⟨hjumps, by simp [hreturn, hlast]⟩
    · simp only [hreturn] at hsize
      have hjumps := stmts_confined f.body hplaced.code hplaced.body
      refine ⟨hjumps.targets_lt ?_, by simp [hreturn]⟩
      rw [hsize]
      exact Nat.lt_add_of_pos_right Nat.zero_lt_two
  refine ⟨?_, hbody.2⟩
  intro pc target i hi htarget
  have hall :=
    hplaced.each (P := fun _ i => ∀ target, i.target? = some target → target < t.code.size)
    (fun _ _ _ => nofun) hbody.1 fun _ _ => ⟨nofun, nofun⟩
  exact hall pc i (Nat.zero_le _) (Array.getElem?_eq_some_iff.1 hi).1 hi target htarget

end Functions

/-! ## Runs -/

/-- The activation is at an instruction of its function, and the function is closed. -/
structure Frame.InCode (f : Frame) : Prop where
  closed : f.template.Closed
  pc : f.pc < f.template.code.size

/-- All registered functions are closed. -/
def Code.Closed (code : Code) : Prop := ∀ name t, code.get? name = some t → t.Closed

section Runs

variable {code : Code} {t : Template}

theorem Template.Closed.size_pos (h : t.Closed) : 0 < t.code.size := by
  rw [Array.size_pos_iff]
  intro hempty
  have hending := h.ending
  rw [hempty] at hending
  cases hending

/-- Behind an instruction that does not return there is another one. -/
theorem Template.Closed.succ_lt (h : t.Closed) {pc : Nat} {i : Instr} (hi : t.code[pc]? = some i)
    (hne : i ≠ .ret) :
    pc + 1 < t.code.size := by
  obtain ⟨hlt, -⟩ := Array.getElem?_eq_some_iff.1 hi
  by_contra hend
  have hpc : pc = t.code.size - 1 := by omega
  have hlast : t.code.back? = some i := by rw [Array.back?_eq_getElem?, ← hpc, hi]
  rw [h.ending, Option.some.injEq] at hlast
  exact hne hlast.symm

/-- An activation of a closed function stays at its instructions, whatever it calls meanwhile. -/
theorem Code.inCode_invariant (h : code.Closed) : code.Invariant Frame.InCode Frame.InCode where
  enter := by
    intro name t arguments ht _
    exact ⟨h name t ht, (h name t ht).size_pos⟩
  next := by
    rintro f g i ⟨hclosed, hpc⟩ hi hturns
    have htemplate : g.template = f.template := hturns.template
    refine ⟨htemplate ▸ hclosed, ?_⟩
    rw [htemplate]
    rcases Instr.mem_successors hturns.pc with hnext | htarget
    · have hne : i ≠ .ret := by
        rintro rfl
        cases hturns.pc
      rw [hnext]
      exact hclosed.succ_lt hi hne
    · exact hclosed.targets hi htarget
  call := by
    -- the activation waits with its counter behind the call, where it will go on
    rintro f name t ⟨hclosed, hpc⟩ hi _ _
    exact ⟨hclosed, hclosed.succ_lt hi nofun⟩
  resume := fun _ h => ⟨h.closed, h.pc⟩

theorem Program.closed_compile {p : Program} (hp : p.compile = .ok code) : code.Closed := by
  intro name t ht
  obtain ⟨f, slots, last, -, -, hemitted⟩ := Program.exists_emittedAs hp ht
  exact hemitted.made.closed

end Runs

/-- The jumps of a function that compiles go to its own instructions, none of them has kept its
provisional target, and the last instruction returns. In every state of every run of a program that
compiles, all activations are at instructions of their functions, so that there is an instruction to
be executed next.

Places are counted without a bound here, so a function long enough has an instruction at the place
that serves as the provisional target. Shorter ones have no jump there. -/
theorem Program.control_stays_in_code (p : Program) :
    (∀ (f : FunDecl) t slots last, f.EmittedAs p.context t slots last → t.code.back? = some .ret ∧
      ∀ (pc : Nat) (i : Instr) (target : Nat), t.code[pc]? = some i → i.target? = some target →
        target < t.code.size ∧ (t.code.size ≤ EmitM.pendingTarget → target ≠ EmitM.pendingTarget)) ∧
    ∀ code, p.compile = .ok code → ∀ maxDepth w m, code.Reaches maxDepth w m →
      (∀ frame, frame = m.top ∨ frame ∈ m.callers → frame.pc < frame.template.code.size) ∧
      ∃ i, m.top.fetch? = some i := by
  constructor
  · intro f t slots last h
    have hclosed := h.made.closed
    refine ⟨hclosed.ending, fun pc i target hi htarget => ?_⟩
    have hlt := hclosed.targets hi htarget
    refine ⟨hlt, fun hsize hpending => ?_⟩
    omega
  · intro code hp maxDepth w m hm
    obtain ⟨htop, hcallers⟩ := (Code.inCode_invariant (closed_compile hp)).reaches hm
    refine ⟨?_, _, Array.getElem?_eq_getElem htop.pc⟩
    rintro frame (rfl | hframe)
    · exact htop.pc
    · exact (hcallers frame hframe).pc

/-- A program with loops at the end of a block, at the end of a function and right
before a return. -/
def loops : Program where
  types := []
  functions := [
    ⟨"countdown", "int", [⟨"n", "int"⟩], [
      .whileLoop (.binary .gt (.path "n" []) (.literal (.int 0))) [
        .assign "n" [] (.binary .sub (.path "n" []) (.literal (.int 1)))],
      .ret (some (.path "n" []))]⟩,
    ⟨"main", "void", [], [
      .forLoop "i" (.literal (.int 1)) .upto (.literal (.int 2)) [
        .branch (.binary .lt (.path "i" []) (.literal (.int 2)))
          [.whileLoop (.binary .gt (.call "countdown" [.path "i" []]) (.literal (.int 0))) []]
          (.otherwise [.whileLoop (.literal (.bool false)) []])]]⟩]

/-- The functions of `loops` are closed, and when its loops have brought it to a call, both
activations are at instructions of their functions. -/
theorem loops_control_stays :
    ∃ code m, loops.compile = .ok code ∧ code.Reaches none {} m ∧ m.callers.size = 1 ∧
      (∀ frame, frame = m.top ∨ frame ∈ m.callers → frame.pc < frame.template.code.size) ∧
      (∃ i, m.top.fetch? = some i) ∧
      ∀ f ∈ loops.functions, ∃ t slots last, f.EmittedAs loops.context t slots last ∧
        t.code.back? = some .ret ∧
        ∀ (pc : Nat) (i : Instr) (target : Nat), t.code[pc]? = some i → i.target? = some target →
          target < t.code.size := by
  obtain ⟨hfunctions, hruns⟩ := Program.control_stays_in_code loops
  have hreaches : (loops.after none {} 18).any (State.atWork fun m => m.callers.size = 1) =
      true := by decide +kernel
  obtain ⟨code, m, hcode, hm, hsize⟩ := Program.exists_reaches hreaches
  obtain ⟨hframes, hnext⟩ := hruns code hcode none {} m hm
  refine ⟨code, m, hcode, hm, of_decide_eq_true hsize, hframes, hnext, fun f hf => ?_⟩
  obtain ⟨s, t, slots, last, hcompile⟩ := Context.compile_of_compileInto hcode hf
  obtain ⟨hending, htargets⟩ := hfunctions f t slots last ⟨s, hcompile⟩
  exact ⟨t, slots, last, ⟨s, hcompile⟩, hending, fun pc i target hi ht =>
    (htargets pc i target hi ht).1⟩

end FrameMachine
