import FrameMachine.Proofs.Compiler.Pieces

/-!
# Slots of the variables in scope

The variables in scope have different slots, all of which have been given out (`Slots.Distinct`).
The code of statements only adds variables in front of those that were in scope before, and never
takes a slot back (`Slots.Extends`).
-/

set_option autoImplicit false

namespace FrameMachine

theorem mem_of_lookup {scope : Scope} {name : String} {slot : Nat}
    (h : scope.lookup name = some slot) :
    (name, slot) ∈ scope := by
  obtain ⟨before, after, rfl, -⟩ := List.lookup_eq_some_iff.1 h
  exact List.mem_append_right before List.mem_cons_self

namespace Slots

/-- The slots of the variables in scope are different and have been given out. -/
structure Distinct (σ : Slots) : Prop where
  lt : ∀ b ∈ σ.visible, b.2 < σ.used
  nodup : (σ.visible.map Prod.snd).Nodup

/-- Further variables have come into scope, and further slots have been given out. -/
structure Extends (σ τ : Slots) : Prop where
  visible : σ.visible <:+ τ.visible
  used : σ.used ≤ τ.used
  distinct : σ.Distinct → τ.Distinct

namespace Extends

theorem refl (σ : Slots) : σ.Extends σ := ⟨List.suffix_refl _, Nat.le_refl _, id⟩

theorem trans {σ τ υ : Slots} (h : σ.Extends τ) (h' : τ.Extends υ) : σ.Extends υ :=
  ⟨h.visible.trans h'.visible, Nat.le_trans h.used h'.used, fun hσ => h'.distinct (h.distinct hσ)⟩

end Extends

theorem declare_extends (σ : Slots) (name : String) : σ.Extends (σ.declare name) where
  visible := List.suffix_cons _ _
  used := Nat.le_succ _
  distinct := by
    intro hσ
    constructor
    · intro b hb
      rcases List.mem_cons.1 hb with rfl | hb
      · exact Nat.lt_succ_self _
      · exact Nat.lt_succ_of_lt (hσ.lt b hb)
    · refine List.nodup_cons.2 ⟨?_, hσ.nodup⟩
      intro hmem
      obtain ⟨b, hb, heq⟩ := List.mem_map.1 hmem
      exact absurd heq (Nat.ne_of_lt (hσ.lt b hb))

theorem slot?_declare (σ : Slots) (name : String) : (σ.declare name).slot? name = some σ.used := by
  rw [slot?, declare, List.lookup_cons_self]

theorem leave_leave (σ τ υ : Slots) : (σ.leave τ).leave υ = σ.leave υ := rfl

/-- At the end of a block the variables are those from before it. -/
theorem leave_extends {σ τ : Slots} (h : σ.used ≤ τ.used) : σ.Extends (σ.leave τ) where
  visible := List.suffix_refl _
  used := h
  distinct := fun hσ => ⟨fun b hb => Nat.lt_of_lt_of_le (hσ.lt b hb) h, hσ.nodup⟩

end Slots

section Code

variable {ctx : Context}

mutual

theorem Stmt.code_extends : ∀ (s : Stmt) {start : Nat} {σ τ : Slots} {code : List Instr},
    s.code ctx start σ = some (code, τ) → σ.Extends τ
  | .var name init, start, σ, τ, code, h => by
    obtain ⟨-, -, -, rfl⟩ := Stmt.code_var.1 h
    exact σ.declare_extends name
  | .assign base fields value, start, σ, τ, code, h => by
    obtain ⟨-, -, -, -, -, rfl⟩ := Stmt.code_assign.1 h
    exact .refl _
  | .branch condition body rest, start, σ, τ, code, h => by
    obtain ⟨test, -, block, inner, hblock, others, inner', hothers, -, rfl⟩ := Stmt.code_branch.1 h
    have hbody := stmtsCode_extends body hblock
    have hrest := Alternatives.code_extends rest hothers
    exact Slots.leave_extends (Nat.le_trans hbody.used hrest.used)
  | .whileLoop condition body, start, σ, τ, code, h => by
    obtain ⟨test, -, block, inner, hblock, -, rfl⟩ := Stmt.code_whileLoop.1 h
    exact Slots.leave_extends (stmtsCode_extends body hblock).used
  | .forLoop counter first direction last body, start, σ, τ, code, h => by
    obtain ⟨begin, -, limit, -, block, inner, hblock, -, rfl⟩ := Stmt.code_forLoop.1 h
    have hbody := (σ.declare_extends counter).trans (stmtsCode_extends body hblock)
    exact Slots.leave_extends hbody.used
  | .ret none, start, σ, τ, code, h => by
    obtain ⟨-, rfl⟩ := Stmt.code_ret_none.1 h
    exact .refl _
  | .ret (some value), start, σ, τ, code, h => by
    obtain ⟨-, -, -, rfl⟩ := Stmt.code_ret_some.1 h
    exact .refl _
  | .delete name, start, σ, τ, code, h => by
    obtain ⟨-, -, -, rfl⟩ := Stmt.code_delete.1 h
    exact .refl _
  | .call function arguments, start, σ, τ, code, h => by
    obtain ⟨-, -, -, rfl⟩ := Stmt.code_call.1 h
    exact .refl _

theorem stmtsCode_extends : ∀ (ss : List Stmt) {start : Nat} {σ τ : Slots} {code : List Instr},
    stmtsCode ctx start σ ss = some (code, τ) → σ.Extends τ
  | [], start, σ, τ, code, h => by
    obtain ⟨-, rfl⟩ := stmtsCode_nil.1 h
    exact .refl _
  | s :: ss, start, σ, τ, code, h => by
    obtain ⟨first, middle, hs, rest, hss, -⟩ := stmtsCode_cons.1 h
    exact (Stmt.code_extends s hs).trans (stmtsCode_extends ss hss)

theorem Alternatives.code_extends :
    ∀ (alts : Alternatives) {start : Nat} {σ τ : Slots} {code : List Instr},
    alts.code ctx start σ = some (code, τ) → σ.Extends τ
  | .none, start, σ, τ, code, h => by
    obtain ⟨-, rfl⟩ := Alternatives.code_none.1 h
    exact .refl _
  | .otherwise body, start, σ, τ, code, h => by
    obtain ⟨inner, hblock, rfl⟩ := Alternatives.code_otherwise.1 h
    exact Slots.leave_extends (stmtsCode_extends body hblock).used
  | .elif condition body rest, start, σ, τ, code, h => by
    obtain ⟨test, -, block, inner, hblock, others, inner', hothers, -, rfl⟩ :=
      Alternatives.code_elif.1 h
    have hbody := stmtsCode_extends body hblock
    have hrest := Alternatives.code_extends rest hothers
    exact Slots.leave_extends (Nat.le_trans hbody.used hrest.used)

end

/-- The variables of the alternatives go out of scope. -/
theorem Alternatives.code_leave {alts : Alternatives} {start : Nat} {σ τ : Slots}
    {code : List Instr} (h : alts.code ctx start σ = some (code, τ)) : σ.leave τ = τ := by
  cases alts with
  | none =>
    obtain ⟨-, rfl⟩ := Alternatives.code_none.1 h
    rfl
  | otherwise body =>
    obtain ⟨inner, -, rfl⟩ := Alternatives.code_otherwise.1 h
    rfl
  | elif condition body rest =>
    obtain ⟨-, -, -, -, -, -, inner', -, -, rfl⟩ := Alternatives.code_elif.1 h
    rfl

/-- The parameters have different slots. -/
theorem paramSlots_distinct (params : List Param) : (paramSlots params).Distinct := by
  suffices h : ∀ (params : List Param) (σ : Slots), σ.Extends
      (params.foldl (fun slots param => slots.declare param.name) σ) from
    (h params {}).distinct ⟨by simp, List.nodup_nil⟩
  intro params
  induction params with
  | nil => exact fun σ => .refl σ
  | cons param params ih => exact fun σ => (σ.declare_extends param.name).trans (ih _)

end Code

end FrameMachine
