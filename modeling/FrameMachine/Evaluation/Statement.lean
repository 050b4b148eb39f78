import FrameMachine.Compiler.Program
import FrameMachine.Evaluation.Expression
import FrameMachine.Machine.Run

/-!
# The execution of statements and programs

A statement changes variables and the world, or ends the function with a result. Of the alternatives
of a branching statement the first one whose condition holds is executed. A value is computed before
the place that it is assigned to, and the last value of a `for` loop before each round.

A call is counted against the limit on the nesting of calls once its arguments are evaluated.
-/

set_option autoImplicit false

namespace FrameMachine

open EvalM

/-- Where execution goes on after a statement. -/
inductive Flow where
  /-- Behind it, with these variables. -/
  | next (vars : Bindings)
  /-- In the function that called this one, with a result. -/
  | ret (value : Value)

/-- What is done next happens only if the function has not returned. -/
def Flow.andThen (flow : Flow) (rest : Bindings → EvalM Flow) : EvalM Flow :=
  match flow with
  | .next vars => rest vars
  | .ret v => pure (.ret v)

/-- The end of a block: its variables are forgotten. -/
def Flow.leave (outer : Bindings) : Flow → Flow
  | .next vars => .next (outer.leave vars)
  | .ret v => .ret v

/-- Repeats a round as long as its test holds, for a bounded number of rounds. -/
def repeatWhile (test : Bindings → EvalM Bool) (round : Bindings → EvalM Flow) :
    Nat → Bindings → EvalM Flow
  | 0, _ => throw .outOfFuel
  | bound + 1, vars => do
    if ← test vars then
      let flow ← round vars
      flow.andThen (repeatWhile test round bound)
    else pure (.next vars)

/-- Assigns a value to a variable, or to the last of some fields. -/
def assignTo (s : Setting) (vars : Bindings) (base : String) (fields : List String)
    (value : Value) :
    EvalM Bindings := do
  match fields.getLast? with
  | none => pure (vars.assign base value)
  | some field =>
    let start ← lookup vars base
    let object ← followPath s.function fields.dropLast start
    setField s.function object field value
    pure vars

/-- The test of a `for` loop: the last value is computed anew each time. -/
def forTest (s : Setting) (counter : String) (direction : Direction) (last : Expr)
    (vars : Bindings) :
    EvalM Bool := do
  let v ← lookup vars counter
  let limit ← last.eval s vars
  let result ← lift s.function (direction.test.apply v limit)
  truth s.function result

/-- The step of a `for` loop to its next value. -/
def forStep (s : Setting) (counter : String) (direction : Direction)
    (vars : Bindings) : EvalM Flow := do
  let v ← lookup vars counter
  let next ← lift s.function (direction.advance.apply v (.int 1))
  pure (.next (vars.assign counter next))

mutual

/-- Executes a statement; a loop in it has a bounded number of rounds. -/
def Stmt.exec (s : Setting) (bound : Nat) (vars : Bindings) : Stmt → EvalM Flow
  | .var name init => do
    let v ← init.eval s vars
    pure (.next ((name, v) :: vars))
  | .assign base fields value => do
    let v ← value.eval s vars
    let vars ← assignTo s vars base fields v
    pure (.next vars)
  | .branch condition body rest => do
    let v ← condition.eval s vars
    if ← truth s.function v then
      let flow ← execStmts s bound vars body
      pure (flow.leave vars)
    else rest.exec s bound vars
  | .whileLoop condition body =>
    repeatWhile
      (fun vars => do truth s.function (← condition.eval s vars))
      (fun vars => do
        let flow ← execStmts s bound vars body
        pure (flow.leave vars))
      bound vars
  | .forLoop counter first direction last body => do
    let v ← first.eval s vars
    let flow ← repeatWhile
      (forTest s counter direction last)
      (fun vars => do
        let flow ← execStmts s bound vars body
        (flow.leave vars).andThen (forStep s counter direction))
      bound ((counter, v) :: vars)
    pure (flow.leave vars)
  | .ret none => pure (.ret .nil)
  | .ret (some value) => do
    let v ← value.eval s vars
    pure (.ret v)
  | .delete name => do
    let v ← lookup vars name
    free s.function v
    pure (.next vars)
  | .call function arguments => do
    let _ ← Expr.eval s vars (.call function arguments)
    pure (.next vars)

/-- Executes statements one after the other, until one returns. -/
def execStmts (s : Setting) (bound : Nat) (vars : Bindings) : List Stmt → EvalM Flow
  | [] => pure (.next vars)
  | stmt :: stmts => do
    let flow ← stmt.exec s bound vars
    flow.andThen fun vars => execStmts s bound vars stmts

/-- Executes what is to be done if no condition so far holds. -/
def Alternatives.exec (s : Setting) (bound : Nat) (vars : Bindings) : Alternatives → EvalM Flow
  | .none => pure (.next vars)
  | .otherwise body => do
    let flow ← execStmts s bound vars body
    pure (flow.leave vars)
  | .elif condition body rest => do
    let v ← condition.eval s vars
    if ← truth s.function v then
      let flow ← execStmts s bound vars body
      pure (flow.leave vars)
    else rest.exec s bound vars

end

/-! ## Programs -/

/-- The variables of a function at its beginning: the parameters with the arguments. -/
def FunDecl.bindings (f : FunDecl) (arguments : List Value) : Bindings :=
  ((f.params.map Param.name).zip arguments).reverse

/-- The result of a function; one that comes to its end without a return gives nil. -/
def Flow.result : Flow → Value
  | .next _ => .nil
  | .ret v => v

/-- Executes a function at a given depth of nested calls. -/
def Program.invoke (p : Program) (maxDepth : Option Nat) :
    Nat → Nat → FunDecl → List Value → EvalM Value
  | 0, _, _, _ => throw .outOfFuel
  | bound + 1, depth, f, arguments => do
    let call (name : String) (values : List Value) : EvalM Value :=
      match p.function? name with
      | none => throw (.unresolved (.undefinedFunction name))
      | some g =>
        if values.length = g.arity then
          match exceeded? maxDepth (depth + 1) with
          | some limit => throw (.stackOverflow (depth + 1) limit)
          | none => p.invoke maxDepth bound (depth + 1) g values
        else throw .wrongCount
    let flow ← execStmts ⟨p.context, f.name, call⟩ (bound + 1) (f.bindings arguments) f.body
    pure flow.result

/-- Executes a program: `main` is called and the heap is emptied, while the streams go on. -/
def Program.eval (p : Program) (maxDepth : Option Nat) (bound : Nat) (w : World) :
    Except StartError (EStateM.Result Stop World Value) :=
  match p.function? "main" with
  | none => .error .missingMain
  | some f =>
    if f.arity = 0 then .ok (p.invoke maxDepth bound 1 f [] { w with heap := .empty })
    else .error (.mainArity f.arity)

end FrameMachine
