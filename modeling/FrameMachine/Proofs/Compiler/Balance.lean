import FrameMachine.Proofs.Compiler.Height
import FrameMachine.Proofs.Compiler.Pieces

/-!
# How many values the parts of a tree leave on the stack

An expression leaves one value if each call in it passes as many arguments as its function takes. A
call that passes too many or too few leaves more or fewer, and another part of the same statement
may make up for it. `Expr.net` counts the values that an expression leaves. It is the growth of the
code of the expression (`Expr.growth_code`).

A statement is balanced (`Stmt.Balanced`) if the values that its expressions leave and the values
that its own instructions take add up, in the order in which they stand. This is all that the
emitter checks. The joints of a statement (`Stmt.joints`) are its jumps. At each of them the stack
may be tracked higher or lower than at the place to which the jump goes.
-/

set_option autoImplicit false

namespace FrameMachine

/-- The number of arguments that a call of this name works on. -/
def Context.parameters? (ctx : Context) (function : String) : Option Nat :=
  match Builtin.ofName? function with
  | some builtin => some builtin.arity
  | none => ctx.arity? function

/-! ## Expressions -/

mutual

/-- The number of values that an expression leaves on the stack, given that of new objects. -/
def Expr.netWith (ctx : Context) (new : String → Int) : Expr → Int
  | .literal _ => 1
  | .path _ _ => 1
  | .new type => new type
  | .call function arguments =>
    netArguments ctx new arguments + 1 - ((ctx.parameters? function).getD 0 : Nat)
  | .neg operand => operand.netWith ctx new
  | .not operand => operand.netWith ctx new
  | .binary _ left right => left.netWith ctx new + right.netWith ctx new - 1

/-- The number of values that several expressions leave on the stack. -/
def netArguments (ctx : Context) (new : String → Int) : List Expr → Int
  | [] => 0
  | e :: es => e.netWith ctx new + netArguments ctx new es

end

/-- The surplus of the values for the fields of an object, each of which takes one. -/
def netFields (expression : Expr → Int) : List Field → Int
  | [] => 0
  | field :: fields => expression field.init - 1 + netFields expression fields

/-- The number of values that a new object leaves on the stack, with new objects nested up to
the given depth. -/
def netNew (ctx : Context) : Nat → String → Int
  | 0, _ => 1
  | depth + 1, type =>
    match ctx.type? type with
    | some decl => 1 + netFields (Expr.netWith ctx (netNew ctx depth)) decl.fields
    | none => 1

/-- The number of values that an expression leaves on the stack. -/
def Expr.net (ctx : Context) (e : Expr) : Int := e.netWith ctx (netNew ctx ctx.nesting)

section Growth

variable {ctx : Context}

/-- The code of a call takes the arguments and leaves one value. -/
theorem growth_callCode {function : String} {code : List Instr}
    (h : callCode ctx function = some code) :
    growth ctx.arity? code = 1 - ((ctx.parameters? function).getD 0 : Nat) := by
  rw [callCode] at h
  rw [Context.parameters?]
  cases hb : Builtin.ofName? function with
  | some builtin =>
    simp only [hb, Option.some.injEq] at h
    subst h
    cases builtin <;> rfl
  | none =>
    simp only [hb, Option.map_eq_some_iff] at h
    obtain ⟨arity, ha, rfl⟩ := h
    have he : (Instr.call function).effect? ctx.arity? = some (arity, 1) := by
      rw [Instr.effect?_call, ha]
      rfl
    rw [growth_cons, growth_nil, Instr.growth_of_effect? he]
    simp [ha]

theorem growth_map_getField {arity? : String → Option Nat} (fields : List String) :
    growth arity? (fields.map .getField) = 0 := by
  induction fields with
  | nil => rfl
  | cons field fields ih =>
    have hone : (Instr.getField field).growth arity? = 0 := rfl
    rw [List.map_cons, growth_cons, hone, ih, Int.add_zero]

mutual

theorem Expr.growth_codeWith {slots : Slots} {new : String → Option (List Instr)}
    {net : String → Int}
    (hnew : ∀ type code, new type = some code → growth ctx.arity? code = net type) :
    ∀ (e : Expr) {code : List Instr}, e.codeWith ctx slots new = some code →
      growth ctx.arity? code = e.netWith ctx net
  | .literal value, code, h => by
    obtain rfl := Expr.codeWith_literal.1 h
    rfl
  | .path base fields, code, h => by
    obtain ⟨slot, -, rfl⟩ := Expr.codeWith_path.1 h
    rw [growth_cons, growth_map_getField, Expr.netWith]
    rfl
  | .new type, code, h => by
    rw [Expr.codeWith] at h
    rw [Expr.netWith]
    exact hnew type code h
  | .call function arguments, code, h => by
    obtain ⟨before, hbefore, call, hcall, rfl⟩ := Expr.codeWith_call.1 h
    rw [growth_append, growth_argumentsCode hnew arguments hbefore, growth_callCode hcall,
      Expr.netWith]
    omega
  | .neg operand, code, h => by
    obtain ⟨before, hbefore, rfl⟩ := Expr.codeWith_neg.1 h
    rw [growth_append, Expr.growth_codeWith hnew operand hbefore, Expr.netWith]
    exact Int.add_zero _
  | .not operand, code, h => by
    obtain ⟨before, hbefore, rfl⟩ := Expr.codeWith_not.1 h
    rw [growth_append, Expr.growth_codeWith hnew operand hbefore, Expr.netWith]
    exact Int.add_zero _
  | .binary op left right, code, h => by
    obtain ⟨leftCode, hleft, rightCode, hright, rfl⟩ := Expr.codeWith_binary.1 h
    rw [growth_append, growth_append, Expr.growth_codeWith hnew left hleft,
      Expr.growth_codeWith hnew right hright, Expr.netWith]
    rfl

theorem growth_argumentsCode {slots : Slots} {new : String → Option (List Instr)}
    {net : String → Int}
    (hnew : ∀ type code, new type = some code → growth ctx.arity? code = net type) :
    ∀ (es : List Expr) {code : List Instr}, argumentsCode ctx slots new es = some code →
      growth ctx.arity? code = netArguments ctx net es
  | [], code, h => by
    obtain rfl := argumentsCode_nil.1 h
    rw [netArguments, growth_nil]
  | e :: es, code, h => by
    obtain ⟨first, hfirst, rest, hrest, rfl⟩ := argumentsCode_cons.1 h
    rw [growth_append, Expr.growth_codeWith hnew e hfirst, growth_argumentsCode hnew es hrest,
      netArguments]

end

theorem growth_fieldsCode {exprCode : Expr → Option (List Instr)} {net : Expr → Int}
    (hexpr : ∀ e code, exprCode e = some code → growth ctx.arity? code = net e) :
    ∀ (fields : List Field) {code : List Instr}, fieldsCode exprCode fields = some code →
      growth ctx.arity? code = netFields net fields := by
  intro fields
  induction fields with
  | nil =>
    intro code h
    cases h
    rfl
  | cons field fields ih =>
    intro code h
    obtain ⟨init, hinit, rest, hrest, rfl⟩ := fieldsCode_cons.1 h
    have hdup : Instr.dup.growth ctx.arity? = 1 := rfl
    have hset : (Instr.setField field.name).growth ctx.arity? = -2 := rfl
    rw [List.cons_append, growth_cons, growth_append, growth_cons, hexpr _ _ hinit, ih hrest,
      netFields, hdup, hset]
    omega

theorem growth_newCode (slots : Slots) : ∀ (depth : Nat) (type : String) (code : List Instr),
    newCode ctx slots depth type = some code → growth ctx.arity? code = netNew ctx depth type
  | 0, type, code, h => absurd h newCode_zero
  | depth + 1, type, code, h => by
    obtain ⟨decl, hdecl, fill, hfill, rfl⟩ := newCode_succ.1 h
    have halloc : (Instr.alloc (decl.fields.map Field.name)).growth ctx.arity? = 1 := rfl
    rw [netNew, hdecl, growth_cons, halloc]
    simp only
    rw [growth_fieldsCode (fun e c hc => Expr.growth_codeWith (growth_newCode slots depth) e hc) _
      hfill]

/-- The code of an expression grows the stack by the number of values that the expression leaves. -/
theorem Expr.growth_code {e : Expr} {slots : Slots} {code : List Instr}
    (h : e.code ctx slots = some code) :
    growth ctx.arity? code = e.net ctx :=
  Expr.growth_codeWith (growth_newCode slots ctx.nesting) e h

end Growth

/-! ## Statements -/

/-- The surplus that the conditions of the alternatives leave, each of which is to
leave one value. -/
def Alternatives.surplus (ctx : Context) : Alternatives → Int
  | .none => 0
  | .otherwise _ => 0
  | .elif condition _ rest => condition.net ctx - 1 + rest.surplus ctx

mutual

/-- What a statement takes from the stack and what it leaves there add up, also in the
statements inside. -/
def Stmt.Balanced (ctx : Context) : Stmt → Prop
  | .var _ init => init.net ctx = 1
  | .assign _ _ value => value.net ctx = 1
  | .branch condition body rest =>
    condition.net ctx - 1 + rest.surplus ctx = 0 ∧ BalancedStmts ctx body ∧ rest.Balanced ctx
  | .whileLoop condition body => condition.net ctx = 1 ∧ BalancedStmts ctx body
  | .forLoop _ first _ last body => first.net ctx + last.net ctx = 2 ∧ BalancedStmts ctx body
  | .ret none => True
  | .ret (some value) => value.net ctx = 1
  | .delete _ => True
  | .call function arguments => Expr.net ctx (.call function arguments) = 1

/-- The statements are balanced. -/
def BalancedStmts (ctx : Context) : List Stmt → Prop
  | [] => True
  | s :: ss => s.Balanced ctx ∧ BalancedStmts ctx ss

/-- The statements in the alternatives are balanced. -/
def Alternatives.Balanced (ctx : Context) : Alternatives → Prop
  | .none => True
  | .otherwise body => BalancedStmts ctx body
  | .elif _ body rest => BalancedStmts ctx body ∧ rest.Balanced ctx

end

mutual

/-- The joints of a statement: for each of its jumps, by how much the stack is tracked higher at the
jump than at the place to which it goes. Only the jumps behind the blocks of a branching statement
and the jump back in a `for` loop can have a joint other than zero. -/
def Stmt.joints (ctx : Context) : Stmt → List Int
  | .branch condition body rest =>
    let surplus := condition.net ctx - 1
    surplus :: jointsStmts ctx body ++ rest.joints ctx surplus
  | .whileLoop _ body => jointsStmts ctx body
  | .forLoop _ first _ _ body => (1 - first.net ctx) :: jointsStmts ctx body
  | _ => []

/-- The joints of several statements. -/
def jointsStmts (ctx : Context) : List Stmt → List Int
  | [] => []
  | s :: ss => s.joints ctx ++ jointsStmts ctx ss

/-- The joints of the alternatives, when the conditions before them leave a surplus. -/
def Alternatives.joints (ctx : Context) (surplus : Int) : Alternatives → List Int
  | .none => []
  | .otherwise body => jointsStmts ctx body
  | .elif condition body rest =>
    let surplus := surplus + (condition.net ctx - 1)
    surplus :: jointsStmts ctx body ++ rest.joints ctx surplus

end

end FrameMachine
