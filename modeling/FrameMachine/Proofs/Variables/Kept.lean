import FrameMachine.Proofs.Compiler.Slots
import FrameMachine.Proofs.Machine.Effects

/-!
# Code that keeps a variable

Statements in which a variable is not assigned have no instruction that stores something in its
slot, and statements without a return have no instruction that returns (`stmts_keeps`). A variable
of the same name that is declared further inside is another one: it has a slot of its own, so
assignments to it do not count (`Stmt.assigns`).
-/

set_option autoImplicit false

namespace FrameMachine

mutual

/-- Whether there is a return in the statement. -/
def Stmt.returns : Stmt → Bool
  | .ret _ => true
  | .branch _ body rest => returnsStmts body || rest.returns
  | .whileLoop _ body | .forLoop _ _ _ _ body => returnsStmts body
  | .var _ _ | .assign _ _ _ | .delete _ | .call _ _ => false

/-- Whether there is a return in the statements. -/
def returnsStmts : List Stmt → Bool
  | [] => false
  | s :: ss => s.returns || returnsStmts ss

/-- Whether there is a return in the alternatives. -/
def Alternatives.returns : Alternatives → Bool
  | .none => false
  | .otherwise body => returnsStmts body
  | .elif _ body rest => returnsStmts body || rest.returns

end

/-- Whether the statement declares a variable of the given name for those that follow it. -/
def Stmt.hides (name : String) : Stmt → Bool
  | .var other _ => other == name
  | _ => false

mutual

/-- Whether the statement assigns the variable that the given name stands for in front of it. An
assignment to a field of its object leaves the variable as it is. -/
def Stmt.assigns (name : String) : Stmt → Bool
  | .assign base fields _ => base == name && fields.isEmpty
  | .branch _ body rest => assignsStmts name body || rest.assigns name
  | .whileLoop _ body => assignsStmts name body
  | .forLoop counter _ _ _ body => counter != name && assignsStmts name body
  | .var _ _ | .ret _ | .delete _ | .call _ _ => false

/-- Whether the statements assign the variable that the given name stands for in front of them. -/
def assignsStmts (name : String) : List Stmt → Bool
  | [] => false
  | s :: ss => s.assigns name || (!s.hides name && assignsStmts name ss)

/-- Whether the alternatives assign the variable that the given name stands for in front of them. -/
def Alternatives.assigns (name : String) : Alternatives → Bool
  | .none => false
  | .otherwise body => assignsStmts name body
  | .elif _ body rest => assignsStmts name body || rest.assigns name

end

/-! ## Instructions -/

/-- The instruction neither returns nor stores something in the slot. -/
def Instr.Keeps (slot : Nat) (i : Instr) : Prop := i ≠ .ret ∧ i.stored? ≠ some slot

/-- No instruction of the code returns or stores something in the slot. -/
def Keeps (slot : Nat) (code : List Instr) : Prop := ∀ i ∈ code, i.Keeps slot

section Instructions

variable {slot : Nat} {a b : List Instr} {i : Instr} {σ : Slots}

theorem keeps_nil : Keeps slot [] := by simp [Keeps]

theorem keeps_cons : Keeps slot (i :: a) ↔ i.Keeps slot ∧ Keeps slot a := by simp [Keeps]

theorem keeps_append : Keeps slot (a ++ b) ↔ Keeps slot a ∧ Keeps slot b := by
  simp only [Keeps, List.mem_append, or_imp, forall_and]

theorem Instr.IsPlain.keeps (h : i.IsPlain σ) (slot : Nat) : i.Keeps slot := by
  cases i with
  | store | ret => cases h
  | _ => simp [Instr.Keeps, Instr.stored?]

theorem Plain.keeps (h : Plain σ a) (slot : Nat) : Keeps slot a := fun i hi => (h i hi).keeps slot

theorem keeps_caseCode {start : Nat} {test block others : List Instr} (htest : Keeps slot test)
    (hblock : Keeps slot block) (hothers : Keeps slot others) :
    Keeps slot (caseCode start test block others) := by
  simp only [caseCode, List.append_assoc, List.cons_append]
  refine keeps_append.2 ⟨htest, keeps_cons.2 ⟨by simp [Instr.Keeps, Instr.stored?], ?_⟩⟩
  exact keeps_append.2 ⟨hblock, keeps_cons.2 ⟨by simp [Instr.Keeps, Instr.stored?], hothers⟩⟩

theorem keeps_forCode {start own : Nat} {direction : Direction} {first last block : List Instr}
    (hown : own ≠ slot) (hfirst : Keeps slot first) (hlast : Keeps slot last)
    (hblock : Keeps slot block) :
    Keeps slot (forCode start own direction first last block) := by
  have hothers (i : Instr) (hi : i ∈ [.store own, .load own, .binary direction.test,
      .jumpUnless (forBody start first last + block.length + 5), .push (.int 1),
      .binary direction.advance, .jump (start + first.length + 1)]) : i.Keeps slot := by
    simp only [List.mem_cons, List.not_mem_nil, or_false] at hi
    rcases hi with rfl | rfl | rfl | rfl | rfl | rfl | rfl <;>
      simp [Instr.Keeps, Instr.stored?, hown]
  intro i hi
  simp only [forCode, List.mem_append, List.mem_cons, List.not_mem_nil, or_false] at hi
  rcases hi with (((((hi | rfl | rfl) | hi) | rfl | rfl) | hi) | rfl | rfl | rfl | rfl | rfl)
  all_goals first
    | exact hfirst i hi
    | exact hlast i hi
    | exact hblock i hi
    | exact hothers _ (by simp)

end Instructions

/-! ## Statements -/

/-- The slot has been given out, and no variable that has it is assigned, as far as the test
says. -/
structure Slots.Spares (σ : Slots) (slot : Nat) (assigned : String → Bool) : Prop where
  given : slot < σ.used
  assigned : ∀ name, σ.slot? name = some slot → assigned name = false

namespace Slots.Spares

variable {σ τ : Slots} {slot : Nat} {assigned assigned' : String → Bool}

/-- A new variable has another slot, so a test that says more about its name does no harm. -/
theorem declare {name : String} (h : σ.Spares slot assigned)
    (hassigned : ∀ other, other ≠ name → assigned other = false → assigned' other = false) :
    (σ.declare name).Spares slot assigned' := by
  refine ⟨Nat.lt_succ_of_lt h.given, ?_⟩
  intro other hother
  rw [slot?, Slots.declare, List.lookup_cons] at hother
  by_cases heq : other = name
  · subst heq
    rw [beq_self_eq_true, Option.some.injEq] at hother
    exact absurd h.given (by omega)
  · rw [beq_false_of_ne heq] at hother
    exact hassigned other heq (h.assigned other hother)

theorem mono (h : σ.Spares slot assigned)
    (hassigned : ∀ name, assigned name = false → assigned' name = false) :
    σ.Spares slot assigned' :=
  ⟨h.given, fun name hname => hassigned name (h.assigned name hname)⟩

/-- At the end of a block the variables are those from before it. -/
theorem leave (h : σ.Spares slot assigned) (hle : σ.used ≤ τ.used) :
    (σ.leave τ).Spares slot assigned :=
  ⟨Nat.lt_of_lt_of_le h.given hle, h.assigned⟩

end Slots.Spares

section Statements

variable {ctx : Context} {slot : Nat}

/-- A declaration adds its variable to those in scope, and no other statement adds one. -/
theorem Stmt.code_scope {s : Stmt} {c : List Instr} {start : Nat} {σ τ : Slots}
    (h : s.code ctx start σ = some (c, τ)) :
    (∃ name init, s = .var name init ∧ τ = σ.declare name) ∨ (∀ name, s.hides name = false) ∧
      τ = σ.leave τ := by
  cases s with
  | var name init =>
    obtain ⟨-, -, -, rfl⟩ := Stmt.code_var.1 h
    exact Or.inl ⟨name, init, rfl, rfl⟩
  | assign base fields value =>
    obtain ⟨-, -, -, -, -, rfl⟩ := Stmt.code_assign.1 h
    exact Or.inr ⟨fun _ => rfl, rfl⟩
  | branch condition body rest =>
    obtain ⟨-, -, -, -, -, -, -, -, -, rfl⟩ := Stmt.code_branch.1 h
    exact Or.inr ⟨fun _ => rfl, rfl⟩
  | whileLoop condition body =>
    obtain ⟨-, -, -, -, -, -, rfl⟩ := Stmt.code_whileLoop.1 h
    exact Or.inr ⟨fun _ => rfl, rfl⟩
  | forLoop counter first direction last body =>
    obtain ⟨-, -, -, -, -, -, -, -, rfl⟩ := Stmt.code_forLoop.1 h
    exact Or.inr ⟨fun _ => rfl, rfl⟩
  | ret value =>
    cases value with
    | none =>
      obtain ⟨-, rfl⟩ := Stmt.code_ret_none.1 h
      exact Or.inr ⟨fun _ => rfl, rfl⟩
    | some value =>
      obtain ⟨-, -, -, rfl⟩ := Stmt.code_ret_some.1 h
      exact Or.inr ⟨fun _ => rfl, rfl⟩
  | delete name =>
    obtain ⟨-, -, -, rfl⟩ := Stmt.code_delete.1 h
    exact Or.inr ⟨fun _ => rfl, rfl⟩
  | call function arguments =>
    obtain ⟨-, -, -, rfl⟩ := Stmt.code_call.1 h
    exact Or.inr ⟨fun _ => rfl, rfl⟩

/-- What is not assigned in statements is not assigned behind the first of them. -/
theorem Slots.Spares.behind {s : Stmt} {ss : List Stmt} {c : List Instr} {start : Nat} {σ τ : Slots}
    (h : σ.Spares slot (assignsStmts · (s :: ss))) (hs : s.code ctx start σ = some (c, τ)) :
    τ.Spares slot (assignsStmts · ss) := by
  have hrest (name : String) (hhides : s.hides name = false)
      (hname : assignsStmts name (s :: ss) = false) :
      assignsStmts name ss = false := by
    rw [assignsStmts, hhides, Bool.or_eq_false_iff] at hname
    exact hname.2
  rcases Stmt.code_scope hs with ⟨name, init, rfl, rfl⟩ | ⟨hhides, hleave⟩
  · apply h.declare
    intro other hne
    exact hrest other (beq_false_of_ne (Ne.symm hne))
  · rw [hleave]
    apply (h.leave (Stmt.code_extends s hs).used).mono
    intro name
    exact hrest name (hhides name)

mutual

/-- A statement without a return in which the variable of a slot is not assigned keeps the slot. -/
theorem Stmt.keeps : ∀ (s : Stmt) {c : List Instr} {start : Nat} {σ τ : Slots},
    s.code ctx start σ = some (c, τ) →
    s.returns = false → σ.Spares slot (Stmt.assigns · s) → Keeps slot c
  | .var name init, c, start, σ, τ, h, _, hspares => by
    obtain ⟨value, hvalue, rfl, -⟩ := Stmt.code_var.1 h
    have hne : σ.used ≠ slot := Nat.ne_of_gt hspares.given
    refine keeps_append.2 ⟨(Expr.plain_code hvalue).keeps slot, keeps_cons.2 ⟨?_, keeps_nil⟩⟩
    simp [Instr.Keeps, Instr.stored?, hne]
  | .assign base fields value, c, start, σ, τ, h, _, hspares => by
    obtain ⟨before, hbefore, assignment, hassignment, rfl, -⟩ := Stmt.code_assign.1 h
    refine keeps_append.2 ⟨(Expr.plain_code hbefore).keeps slot, ?_⟩
    obtain ⟨own, hown, ⟨rfl, rfl⟩ | ⟨field, -, rfl⟩⟩ := assignmentCode_eq_some.1 hassignment
    · have hne : own ≠ slot := by
        rintro rfl
        have hassigned := hspares.assigned base hown
        simp [Stmt.assigns] at hassigned
      exact keeps_cons.2 ⟨by simp [Instr.Keeps, Instr.stored?, hne], keeps_nil⟩
    · intro i hi
      simp only [List.cons_append, List.mem_cons, List.mem_append, List.mem_map, List.not_mem_nil,
        or_false] at hi
      rcases hi with rfl | ⟨name, -, rfl⟩ | rfl | rfl <;> simp [Instr.Keeps, Instr.stored?]
  | .branch condition body rest, c, start, σ, τ, h, hreturns, hspares => by
    obtain ⟨test, htest, block, inner, hblock, others, inner', hothers, rfl, -⟩ :=
      Stmt.code_branch.1 h
    rw [Stmt.returns, Bool.or_eq_false_iff] at hreturns
    have hbody := stmts_keeps body hblock hreturns.1 (hspares.mono fun name hname => by
      rw [Stmt.assigns, Bool.or_eq_false_iff] at hname
      exact hname.1)
    have hrest := rest.keeps hothers hreturns.2
      ((hspares.leave (stmtsCode_extends body hblock).used).mono fun name hname => by
        rw [Stmt.assigns, Bool.or_eq_false_iff] at hname
        exact hname.2)
    refine keeps_append.2 ⟨keeps_caseCode ((Expr.plain_code htest).keeps slot) hbody hrest, ?_⟩
    exact keeps_cons.2 ⟨by simp [Instr.Keeps, Instr.stored?], keeps_nil⟩
  | .whileLoop condition body, c, start, σ, τ, h, hreturns, hspares => by
    obtain ⟨test, htest, block, inner, hblock, rfl, -⟩ := Stmt.code_whileLoop.1 h
    rw [Stmt.returns] at hreturns
    have hbody :=
      stmts_keeps body hblock hreturns
        (hspares.mono fun name hname => by rwa [Stmt.assigns] at hname)
    -- a loop is a condition with its block whose jump goes back
    refine keeps_append.2
      ⟨keeps_append.2 ⟨(Expr.plain_code htest).keeps slot, keeps_cons.2 ⟨?_, hbody⟩⟩,
      keeps_cons.2 ⟨?_, keeps_nil⟩⟩
    · simp [Instr.Keeps, Instr.stored?]
    · simp [Instr.Keeps, Instr.stored?]
  | .forLoop counter first direction last body, c, start, σ, τ, h, hreturns, hspares => by
    obtain ⟨begin, hbegin, limit, hlimit, block, inner, hblock, rfl, -⟩ := Stmt.code_forLoop.1 h
    rw [Stmt.returns] at hreturns
    have hbody := stmts_keeps body hblock hreturns (hspares.declare fun name hname hassigned => by
      rw [Stmt.assigns, bne_iff_ne.2 (Ne.symm hname), Bool.true_and] at hassigned
      exact hassigned)
    exact keeps_forCode (Nat.ne_of_gt hspares.given) ((Expr.plain_code hbegin).keeps slot)
      ((Expr.plain_code hlimit).keeps slot) hbody
  | .ret _, _, _, _, _, _, hreturns, _ => by
    rw [Stmt.returns] at hreturns
    cases hreturns
  | .delete name, c, start, σ, τ, h, _, _ => by
    obtain ⟨own, -, rfl, -⟩ := Stmt.code_delete.1 h
    intro i hi
    simp only [List.mem_cons, List.not_mem_nil, or_false] at hi
    rcases hi with rfl | rfl <;> simp [Instr.Keeps, Instr.stored?]
  | .call function arguments, c, start, σ, τ, h, _, _ => by
    obtain ⟨before, hbefore, rfl, -⟩ := Stmt.code_call.1 h
    refine keeps_append.2 ⟨(Expr.plain_code hbefore).keeps slot, keeps_cons.2 ⟨?_, keeps_nil⟩⟩
    simp [Instr.Keeps, Instr.stored?]

theorem stmts_keeps : ∀ (ss : List Stmt) {c : List Instr} {start : Nat} {σ τ : Slots},
    stmtsCode ctx start σ ss = some (c, τ) → returnsStmts ss = false →
    σ.Spares slot (assignsStmts · ss) → Keeps slot c
  | [], c, start, σ, τ, h, _, _ => by
    obtain ⟨rfl, -⟩ := stmtsCode_nil.1 h
    exact keeps_nil
  | s :: ss, c, start, σ, τ, h, hreturns, hspares => by
    obtain ⟨first, middle, hs, rest, hss, rfl⟩ := stmtsCode_cons.1 h
    rw [returnsStmts, Bool.or_eq_false_iff] at hreturns
    have hfirst := s.keeps hs hreturns.1 (hspares.mono fun name hname => by
      rw [assignsStmts, Bool.or_eq_false_iff] at hname
      exact hname.1)
    exact keeps_append.2 ⟨hfirst, stmts_keeps ss hss hreturns.2 (hspares.behind hs)⟩

theorem Alternatives.keeps : ∀ (alts : Alternatives) {c : List Instr} {start : Nat} {σ τ : Slots},
    alts.code ctx start σ = some (c, τ) → alts.returns = false →
    σ.Spares slot (Alternatives.assigns · alts) → Keeps slot c
  | .none, c, start, σ, τ, h, _, _ => by
    obtain ⟨rfl, -⟩ := Alternatives.code_none.1 h
    exact keeps_nil
  | .otherwise body, c, start, σ, τ, h, hreturns, hspares => by
    obtain ⟨inner, hblock, -⟩ := Alternatives.code_otherwise.1 h
    rw [Alternatives.returns] at hreturns
    exact stmts_keeps body hblock hreturns
      (hspares.mono fun name hname => by rwa [Alternatives.assigns] at hname)
  | .elif condition body rest, c, start, σ, τ, h, hreturns, hspares => by
    obtain ⟨test, htest, block, inner, hblock, others, inner', hothers, rfl, -⟩ :=
      Alternatives.code_elif.1 h
    rw [Alternatives.returns, Bool.or_eq_false_iff] at hreturns
    have hbody := stmts_keeps body hblock hreturns.1 (hspares.mono fun name hname => by
      rw [Alternatives.assigns, Bool.or_eq_false_iff] at hname
      exact hname.1)
    have hrest := rest.keeps hothers hreturns.2
      ((hspares.leave (stmtsCode_extends body hblock).used).mono fun name hname => by
        rw [Alternatives.assigns, Bool.or_eq_false_iff] at hname
        exact hname.2)
    exact keeps_caseCode ((Expr.plain_code htest).keeps slot) hbody hrest

end

end Statements

end FrameMachine
