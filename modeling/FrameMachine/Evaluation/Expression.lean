import FrameMachine.Compiler.Emit
import FrameMachine.Evaluation.Basic

/-!
# The values of expressions

Operands and arguments are evaluated from left to right, and both operands of `and` and `or` always
are. A new object is made before the first contents of its fields are computed, and these are
computed with the variables that are in scope where the object is made.
-/

set_option autoImplicit false

namespace FrameMachine

open EvalM

/-- What evaluation in a function depends on beside the variables. -/
structure Setting where
  context : Context
  /-- The function that is running. -/
  function : String
  /-- Calls a declared function. -/
  call : String → List Value → EvalM Value

/-- Calls a built-in function. -/
def Builtin.apply (function : String) (builtin : Builtin) (arguments : List Value) : EvalM Value :=
  match builtin, arguments with
  | .print, [v] => do
    write function v
    pure .nil
  | .read, [] => readLine function
  | .length, [v] => lift function (UnaryOp.length.apply v)
  | .get, [index, string] => lift function (charAt string index)
  | .stoi, [v] | .dtoi, [v] => lift function (UnaryOp.toInt.apply v)
  | .stod, [v] | .itod, [v] => lift function (UnaryOp.toDouble.apply v)
  | .itos, [v] | .dtos, [v] => lift function (UnaryOp.toText.apply v)
  | _, _ => throw .wrongCount

/-- Calls a function. -/
def Setting.callNamed (s : Setting) (name : String) (arguments : List Value) : EvalM Value :=
  match Builtin.ofName? name with
  | some builtin => builtin.apply s.function arguments
  | none => s.call name arguments

mutual

/-- The value of an expression, given the making of new objects. -/
def Expr.evalWith (s : Setting) (vars : Bindings) (new : String → EvalM Value) : Expr → EvalM Value
  | .literal value => pure value.toValue
  | .path base fields => do
    let v ← lookup vars base
    followPath s.function fields v
  | .new type => new type
  | .call function arguments => do
    let values ← evalArguments s vars new arguments
    s.callNamed function values
  | .neg operand => do
    let v ← operand.evalWith s vars new
    lift s.function (UnaryOp.neg.apply v)
  | .not operand => do
    let v ← operand.evalWith s vars new
    lift s.function (UnaryOp.not.apply v)
  | .binary op left right => do
    let l ← left.evalWith s vars new
    let r ← right.evalWith s vars new
    lift s.function (op.apply l r)

/-- The values of several expressions, from left to right. -/
def evalArguments (s : Setting) (vars : Bindings) (new : String → EvalM Value) :
    List Expr → EvalM (List Value)
  | [] => pure []
  | e :: es => do
    let v ← e.evalWith s vars new
    let vs ← evalArguments s vars new es
    pure (v :: vs)

end

/-- Fills the fields of an object one after the other. -/
def fillFields (s : Setting) (object : Value) (expression : Expr → EvalM Value) :
    List Field → EvalM Unit
  | [] => pure ()
  | field :: fields => do
    let v ← expression field.init
    setField s.function object field.name v
    fillFields s object expression fields

/-- A new object: it is made first, and then its fields are filled. New objects may be nested in
these up to the given depth. -/
def evalNew (s : Setting) (vars : Bindings) : Nat → String → EvalM Value
  | 0, _ => throw .outOfFuel
  | depth + 1, type =>
    match s.context.type? type with
    | none => throw (.unresolved (.undefinedType type))
    | some decl => do
      let object ← EvalM.alloc (decl.fields.map Field.name)
      fillFields s object (Expr.evalWith s vars (evalNew s vars depth)) decl.fields
      pure object

/-- The value of an expression. -/
def Expr.eval (s : Setting) (vars : Bindings) (e : Expr) : EvalM Value :=
  e.evalWith s vars (evalNew s vars s.context.nesting)

end FrameMachine
