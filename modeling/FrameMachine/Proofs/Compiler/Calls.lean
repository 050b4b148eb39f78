import FrameMachine.Proofs.Compiler.Balance

/-!
# Calls that fit their functions

A call fits if it passes as many arguments as the function of its name takes, be it a built-in
function or the last one declared. The code of an expression in which all calls fit leaves exactly
one value and never takes a value that was on the stack before (`Expr.climb_codeWith`). So the
levels at both ends of each jump agree (`Stmt.joints_of_callsFit`).
-/

set_option autoImplicit false

namespace FrameMachine

mutual

/-- Every call in the expression passes as many arguments as its function takes. -/
def Expr.callsFit (ctx : Context) : Expr → Bool
  | .literal _ => true
  | .path _ _ => true
  | .new _ => true
  | .call function arguments =>
    ctx.parameters? function = some arguments.length && callsFitAll ctx arguments
  | .neg operand => operand.callsFit ctx
  | .not operand => operand.callsFit ctx
  | .binary _ left right => left.callsFit ctx && right.callsFit ctx

/-- Every call in the expressions passes as many arguments as its function takes. -/
def callsFitAll (ctx : Context) : List Expr → Bool
  | [] => true
  | e :: es => e.callsFit ctx && callsFitAll ctx es

end

mutual

/-- Every call in the statement passes as many arguments as its function takes. -/
def Stmt.callsFit (ctx : Context) : Stmt → Bool
  | .var _ init => init.callsFit ctx
  | .assign _ _ value => value.callsFit ctx
  | .branch condition body rest =>
    condition.callsFit ctx && callsFitStmts ctx body && rest.callsFit ctx
  | .whileLoop condition body => condition.callsFit ctx && callsFitStmts ctx body
  | .forLoop _ first _ last body =>
    first.callsFit ctx && last.callsFit ctx && callsFitStmts ctx body
  | .ret none => true
  | .ret (some value) => value.callsFit ctx
  | .delete _ => true
  | .call function arguments => Expr.callsFit ctx (.call function arguments)

/-- Every call in the statements passes as many arguments as its function takes. -/
def callsFitStmts (ctx : Context) : List Stmt → Bool
  | [] => true
  | s :: ss => s.callsFit ctx && callsFitStmts ctx ss

/-- Every call in the alternatives passes as many arguments as its function takes. -/
def Alternatives.callsFit (ctx : Context) : Alternatives → Bool
  | .none => true
  | .otherwise body => callsFitStmts ctx body
  | .elif condition body rest =>
    condition.callsFit ctx && callsFitStmts ctx body && rest.callsFit ctx

end

/-- Every call in the first contents of the fields passes as many arguments as its
function takes. -/
def TypeDecl.callsFit (ctx : Context) (decl : TypeDecl) : Bool :=
  decl.fields.all fun field => field.init.callsFit ctx

/-- Every call in the program passes as many arguments as its function takes. -/
def Program.callsFit (p : Program) : Bool :=
  p.types.all (TypeDecl.callsFit p.context) && p.functions.all fun f =>
    callsFitStmts p.context f.body

/-- The calls in the record types of a context fit. -/
def Context.TypesFit (ctx : Context) : Prop :=
  ∀ type decl, ctx.type? type = some decl → decl.callsFit ctx = true

theorem callsFitAll_eq_all (ctx : Context) (es : List Expr) :
    callsFitAll ctx es = es.all (Expr.callsFit ctx) := by
  induction es with
  | nil => rfl
  | cons e es ih => rw [callsFitAll, List.all_cons, ih]

/-! ## Calls that fit leave one value -/

section Nets

variable {ctx : Context}

mutual

theorem Expr.netWith_of_callsFit {net : String → Int} (hnew : ∀ type, net type = 1) :
    ∀ e : Expr, e.callsFit ctx = true → e.netWith ctx net = 1
  | .literal _, _ => rfl
  | .path _ _, _ => rfl
  | .new type, _ => hnew type
  | .call function arguments, h => by
    rw [Expr.callsFit, Bool.and_eq_true, decide_eq_true_eq] at h
    rw [Expr.netWith, netArguments_of_callsFit hnew arguments h.2, h.1, Option.getD_some]
    omega
  | .neg operand, h => by
    rw [Expr.callsFit] at h
    rw [Expr.netWith, Expr.netWith_of_callsFit hnew operand h]
  | .not operand, h => by
    rw [Expr.callsFit] at h
    rw [Expr.netWith, Expr.netWith_of_callsFit hnew operand h]
  | .binary op left right, h => by
    rw [Expr.callsFit, Bool.and_eq_true] at h
    rw [Expr.netWith, Expr.netWith_of_callsFit hnew left h.1,
      Expr.netWith_of_callsFit hnew right h.2]
    rfl

theorem netArguments_of_callsFit {net : String → Int} (hnew : ∀ type, net type = 1) :
    ∀ es : List Expr, callsFitAll ctx es = true → netArguments ctx net es = es.length
  | [], _ => rfl
  | e :: es, h => by
    rw [callsFitAll, Bool.and_eq_true] at h
    rw [netArguments, Expr.netWith_of_callsFit hnew e h.1, netArguments_of_callsFit hnew es h.2,
      List.length_cons]
    omega

end

theorem netFields_eq_zero {net : Expr → Int} {fields : List Field}
    (h : ∀ field ∈ fields, net field.init = 1) :
    netFields net fields = 0 := by
  induction fields with
  | nil => rfl
  | cons field fields ih =>
    rw [netFields, h field (List.mem_cons_self ..), ih fun other hother =>
      h other (List.mem_cons_of_mem _ hother)]
    rfl

theorem netNew_of_typesFit (hctx : ctx.TypesFit) (depth : Nat) (type : String) :
    netNew ctx depth type = 1 := by
  induction depth generalizing type with
  | zero => rfl
  | succ depth ih =>
    rw [netNew]
    cases hdecl : ctx.type? type with
    | none => rfl
    | some decl =>
      have hfields := hctx type decl hdecl
      rw [TypeDecl.callsFit, List.all_eq_true] at hfields
      simp only
      rw [netFields_eq_zero fun field hfield =>
        Expr.netWith_of_callsFit ih _ (hfields field hfield), Int.add_zero]

theorem Expr.net_of_callsFit (hctx : ctx.TypesFit) {e : Expr} (h : e.callsFit ctx = true) :
    e.net ctx = 1 :=
  Expr.netWith_of_callsFit (netNew_of_typesFit hctx ctx.nesting) e h

mutual

/-- At every jump of a statement the stack is tracked as at the place to which it goes. -/
theorem Stmt.joints_of_callsFit (hctx : ctx.TypesFit) :
    ∀ s : Stmt, s.callsFit ctx = true → ∀ joint ∈ s.joints ctx, joint = 0
  | .branch condition body rest, h => by
    rw [Stmt.callsFit, Bool.and_eq_true, Bool.and_eq_true] at h
    obtain ⟨⟨hcondition, hbody⟩, hrest⟩ := h
    rw [Stmt.joints, Expr.net_of_callsFit hctx hcondition]
    simp only [List.cons_append, List.mem_cons, List.mem_append]
    rintro joint (rfl | hjoint | hjoint)
    · rfl
    · exact joints_stmts_of_callsFit hctx body hbody joint hjoint
    · exact Alternatives.joints_of_callsFit hctx rest hrest joint hjoint
  | .whileLoop condition body, h => by
    rw [Stmt.callsFit, Bool.and_eq_true] at h
    rw [Stmt.joints]
    exact joints_stmts_of_callsFit hctx body h.2
  | .forLoop counter first direction last body, h => by
    rw [Stmt.callsFit, Bool.and_eq_true, Bool.and_eq_true] at h
    obtain ⟨⟨hfirst, -⟩, hbody⟩ := h
    rw [Stmt.joints, Expr.net_of_callsFit hctx hfirst]
    rintro joint (_ | ⟨_, hjoint⟩)
    · rfl
    · exact joints_stmts_of_callsFit hctx body hbody joint hjoint
  | .var _ _, _ | .assign _ _ _, _ | .ret _, _ | .delete _, _ | .call _ _, _ => by
    intro joint hjoint
    rw [Stmt.joints] at hjoint
    all_goals cases hjoint

theorem joints_stmts_of_callsFit (hctx : ctx.TypesFit) :
    ∀ ss : List Stmt, callsFitStmts ctx ss = true → ∀ joint ∈ jointsStmts ctx ss, joint = 0
  | [], _ => by
    intro joint hjoint
    cases hjoint
  | s :: ss, h => by
    rw [callsFitStmts, Bool.and_eq_true] at h
    rw [jointsStmts]
    intro joint hjoint
    rcases List.mem_append.1 hjoint with hjoint | hjoint
    · exact Stmt.joints_of_callsFit hctx s h.1 joint hjoint
    · exact joints_stmts_of_callsFit hctx ss h.2 joint hjoint

theorem Alternatives.joints_of_callsFit (hctx : ctx.TypesFit) :
    ∀ alts : Alternatives, alts.callsFit ctx = true → ∀ joint ∈ alts.joints ctx 0, joint = 0
  | .none, _ => by
    intro joint hjoint
    cases hjoint
  | .otherwise body, h => by
    rw [Alternatives.callsFit] at h
    rw [Alternatives.joints]
    exact joints_stmts_of_callsFit hctx body h
  | .elif condition body rest, h => by
    rw [Alternatives.callsFit, Bool.and_eq_true, Bool.and_eq_true] at h
    obtain ⟨⟨hcondition, hbody⟩, hrest⟩ := h
    rw [Alternatives.joints, Expr.net_of_callsFit hctx hcondition]
    simp only [List.cons_append, List.mem_cons, List.mem_append]
    rintro joint (rfl | hjoint | hjoint)
    · rfl
    · exact joints_stmts_of_callsFit hctx body hbody joint hjoint
    · exact Alternatives.joints_of_callsFit hctx rest hrest joint hjoint

end

/-- The code of a call takes as many values as the function has parameters and leaves one. -/
theorem climb_callCode {function : String} {code : List Instr} {parameters : Nat}
    (h : callCode ctx function = some code)
    (hparameters : ctx.parameters? function = some parameters) :
    climb ctx.arity? parameters code = some 1 := by
  rw [callCode] at h
  rw [Context.parameters?] at hparameters
  cases hb : Builtin.ofName? function with
  | some builtin =>
    simp only [hb, Option.some.injEq] at h hparameters
    subst h hparameters
    cases builtin <;> rfl
  | none =>
    simp only [hb, Option.map_eq_some_iff] at h hparameters
    obtain ⟨arity, -, rfl⟩ := h
    refine climb_cons_eq_some.2 ⟨parameters, 1, ?_, Nat.le_refl _, ?_⟩
    · rw [Instr.effect?_call, hparameters, Option.map_some]
    · rw [Nat.sub_self, climb_nil]

theorem climb_map_getField {arity? : String → Option Nat} (height : Nat) (fields : List String) :
    climb arity? (height + 1) (fields.map .getField) = some (height + 1) := by
  induction fields with
  | nil => rfl
  | cons field fields ih =>
    rw [List.map_cons]
    exact climb_cons_eq_some.2 ⟨1, 1, rfl, Nat.le_add_left _ _, ih⟩

mutual

theorem Expr.climb_codeWith {σ : Slots} {new : String → Option (List Instr)}
    (hnew : ∀ type code, new type = some code → climb ctx.arity? 0 code = some 1) :
    ∀ (e : Expr) {code : List Instr}, e.codeWith ctx σ new = some code → e.callsFit ctx = true →
      climb ctx.arity? 0 code = some 1
  | .literal value, code, h, _ => by
    obtain rfl := Expr.codeWith_literal.1 h
    rfl
  | .path base fields, code, h, _ => by
    obtain ⟨slot, -, rfl⟩ := Expr.codeWith_path.1 h
    exact climb_cons_eq_some.2 ⟨0, 1, rfl, Nat.le_refl _, climb_map_getField 0 fields⟩
  | .new type, code, h, _ => by
    rw [Expr.codeWith] at h
    exact hnew type code h
  | .call function arguments, code, h, hfit => by
    obtain ⟨before, hbefore, call, hcall, rfl⟩ := Expr.codeWith_call.1 h
    rw [Expr.callsFit, Bool.and_eq_true, decide_eq_true_eq] at hfit
    have harguments := climb_argumentsCode hnew arguments hbefore hfit.2
    exact climb_append_eq_some.2 ⟨arguments.length, harguments, climb_callCode hcall hfit.1⟩
  | .neg operand, code, h, hfit => by
    obtain ⟨before, hbefore, rfl⟩ := Expr.codeWith_neg.1 h
    rw [Expr.callsFit] at hfit
    exact climb_append_eq_some.2 ⟨1, Expr.climb_codeWith hnew operand hbefore hfit, rfl⟩
  | .not operand, code, h, hfit => by
    obtain ⟨before, hbefore, rfl⟩ := Expr.codeWith_not.1 h
    rw [Expr.callsFit] at hfit
    exact climb_append_eq_some.2 ⟨1, Expr.climb_codeWith hnew operand hbefore hfit, rfl⟩
  | .binary op left right, code, h, hfit => by
    obtain ⟨leftCode, hleft, rightCode, hright, rfl⟩ := Expr.codeWith_binary.1 h
    rw [Expr.callsFit, Bool.and_eq_true] at hfit
    have hleftClimb := Expr.climb_codeWith hnew left hleft hfit.1
    have hrightClimb := climb_add 1 (Expr.climb_codeWith hnew right hright hfit.2)
    exact climb_append_eq_some.2 ⟨2, climb_append_eq_some.2 ⟨1, hleftClimb, hrightClimb⟩, rfl⟩

theorem climb_argumentsCode {σ : Slots} {new : String → Option (List Instr)}
    (hnew : ∀ type code, new type = some code → climb ctx.arity? 0 code = some 1) :
    ∀ (es : List Expr) {code : List Instr}, argumentsCode ctx σ new es = some code →
      callsFitAll ctx es = true → climb ctx.arity? 0 code = some es.length
  | [], code, h, _ => by
    obtain rfl := argumentsCode_nil.1 h
    rfl
  | e :: es, code, h, hfit => by
    obtain ⟨first, hfirst, rest, hrest, rfl⟩ := argumentsCode_cons.1 h
    rw [callsFitAll, Bool.and_eq_true] at hfit
    have hfirstClimb := Expr.climb_codeWith hnew e hfirst hfit.1
    have hrestClimb := climb_add 1 (climb_argumentsCode hnew es hrest hfit.2)
    exact climb_append_eq_some.2 ⟨1, hfirstClimb, by simpa using hrestClimb⟩

end

/-- Filling the fields of the object on top of the stack leaves it there. -/
theorem climb_fieldsCode {exprCode : Expr → Option (List Instr)} {fields : List Field}
    (hexpr : ∀ field ∈ fields, ∀ code, exprCode field.init = some code →
      climb ctx.arity? 0 code = some 1)
    {code : List Instr} (h : fieldsCode exprCode fields = some code) :
    climb ctx.arity? 1 code = some 1 := by
  induction fields generalizing code with
  | nil =>
    cases h
    rfl
  | cons field fields ih =>
    obtain ⟨init, hinit, rest, hrest, rfl⟩ := fieldsCode_cons.1 h
    have hinitClimb := climb_add 2 (hexpr field (List.mem_cons_self ..) init hinit)
    have hrestClimb := ih (fun other hother => hexpr other (List.mem_cons_of_mem _ hother)) hrest
    refine climb_cons_eq_some.2 ⟨1, 2, rfl, Nat.le_refl _, ?_⟩
    refine climb_append_eq_some.2 ⟨3, hinitClimb, ?_⟩
    exact climb_cons_eq_some.2 ⟨2, 0, rfl, by decide, hrestClimb⟩

theorem climb_newCode (hctx : ctx.TypesFit) (σ : Slots) :
    ∀ (depth : Nat) (type : String) (code : List Instr),
    newCode ctx σ depth type = some code → climb ctx.arity? 0 code = some 1
  | 0, type, code, h => absurd h newCode_zero
  | depth + 1, type, code, h => by
    obtain ⟨decl, hdecl, fill, hfill, rfl⟩ := newCode_succ.1 h
    have hfields := hctx type decl hdecl
    rw [TypeDecl.callsFit, List.all_eq_true] at hfields
    refine climb_cons_eq_some.2 ⟨0, 1, rfl, Nat.le_refl _, climb_fieldsCode ?_ hfill⟩
    intro field hfield init hinit
    exact Expr.climb_codeWith (climb_newCode hctx σ depth) field.init hinit (hfields field hfield)

end Nets

namespace Program

variable {p : Program}

theorem typesFit (h : p.callsFit = true) : p.context.TypesFit := by
  intro type decl hdecl
  rw [callsFit, Bool.and_eq_true, List.all_eq_true] at h
  have hmem : decl ∈ p.types := List.mem_reverse.1 (List.mem_of_find?_eq_some hdecl)
  exact h.1 decl hmem

theorem bodyFits (h : p.callsFit = true) {name : String} {f : FunDecl}
    (hf : p.function? name = some f) :
    callsFitStmts p.context f.body = true := by
  rw [callsFit, Bool.and_eq_true, List.all_eq_true, List.all_eq_true] at h
  have hmem : f ∈ p.functions := List.mem_reverse.1 (List.mem_of_find?_eq_some hf)
  exact h.2 f hmem

theorem exists_compile (h : p.compile.isOk = true) : ∃ code, p.compile = .ok code := by
  cases hc : p.compile with
  | ok code => exact ⟨code, rfl⟩
  | error e =>
    rw [hc] at h
    cases h

end Program

/-- A program that adds up factorials in an object. It has a function that calls itself, a loop, an
object and a call of a built-in function, and all calls in it fit. -/
def factorials : Program where
  types := [⟨"Cell", [⟨"sum", .literal (.int 0)⟩]⟩]
  functions := [
    ⟨"factorial", "int", [⟨"n", "int"⟩], [
      .branch (.binary .le (.path "n" []) (.literal (.int 1)))
        [.ret (some (.literal (.int 1)))] .none,
      .ret (some (.binary .mul (.path "n" [])
        (.call "factorial" [.binary .sub (.path "n" []) (.literal (.int 1))])))]⟩,
    ⟨"main", "void", [], [
      .var "cell" (.new "Cell"),
      .forLoop "i" (.literal (.int 1)) .upto (.literal (.int 3)) [
        .assign "cell" ["sum"]
          (.binary .add (.path "cell" ["sum"]) (.call "factorial" [.path "i" []]))],
      .call "print" [.path "cell" ["sum"]],
      .ret (some (.path "cell" ["sum"]))]⟩]

theorem factorials_callsFit : factorials.callsFit = true := by decide +kernel

theorem factorials_compile : ∃ code, factorials.compile = .ok code :=
  Program.exists_compile (by decide +kernel)

end FrameMachine
