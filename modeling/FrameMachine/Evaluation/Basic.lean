import FrameMachine.Compiler.Emitter
import FrameMachine.Machine.Execute

/-!
# The effects of evaluation

The meaning of program trees is given without code and without a machine: expressions are evaluated
and statements executed where they stand. This module has the effects from which that meaning is
built. Variables are kept by name, the latest first, and a block forgets its own when it ends.

Evaluation need not end. It is therefore given a bound, which limits the nesting of calls and the
rounds of each loop. When the bound is used up, evaluation stops without a result. It also stops at
a name that stands for nothing and at a call with a wrong number of arguments, to which the tree
gives no meaning.
-/

set_option autoImplicit false

namespace FrameMachine

/-- The reason why evaluation stops before its end. -/
inductive Stop where
  /-- Something went wrong in a function. -/
  | fault (fault : Fault) (function : String)
  /-- A call would be nested deeper than is allowed. -/
  | stackOverflow (depth limit : Nat)
  /-- A name stands for nothing. -/
  | unresolved (name : CompileError)
  /-- A call does not pass as many arguments as its function takes. -/
  | wrongCount
  /-- The bound is used up. -/
  | outOfFuel

/-- Evaluation that acts on the world. -/
abbrev EvalM := EStateM Stop World

/-- The values of the variables in scope, the latest first. -/
abbrev Bindings := List (String × Value)

namespace Bindings

/-- The latest variable of the name has a new value. -/
def assign (name : String) (value : Value) : Bindings → Bindings
  | [] => []
  | (x, old) :: rest => if x = name then (x, value) :: rest else (x, old) :: assign name value rest

/-- The variables that were there before the latest ones were declared. -/
def leave (outer inner : Bindings) : Bindings := inner.drop (inner.length - outer.length)

end Bindings

namespace EvalM

/-- The result of an operation in a function. -/
def lift {α : Type} (function : String) : Except Fault α → EvalM α
  | .ok a => pure a
  | .error e => throw (.fault e function)

/-- The value of a variable. -/
def lookup (vars : Bindings) (name : String) : EvalM Value :=
  match vars.lookup name with
  | some v => pure v
  | none => throw (.unresolved (.undefinedVariable name))

/-- The contents of a field of an object. -/
def getField (function : String) (v : Value) (field : String) : EvalM Value := do
  let id ← lift function v.object
  lift function ((← get).heap.get id field)

/-- The contents at the end of a path of fields. -/
def followPath (function : String) : List String → Value → EvalM Value
  | [], v => pure v
  | field :: fields, v => do
    let next ← getField function v field
    followPath function fields next

/-- Puts a value into a field of an object. -/
def setField (function : String) (v : Value) (field : String) (value : Value) : EvalM Unit := do
  let id ← lift function v.object
  let (result, heap) := (← get).heap.set id field value
  modify fun w => { w with heap := heap }
  lift function result

/-- Makes an object. -/
def alloc (fields : List String) : EvalM Value := do
  let (id, heap) := (← get).heap.alloc fields
  modify fun w => { w with heap := heap }
  pure (.ref id)

/-- Gives up an object. -/
def free (function : String) (v : Value) : EvalM Unit := do
  let id ← lift function v.object
  let (result, heap) := (← get).heap.free id
  modify fun w => { w with heap := heap }
  lift function result

/-- Prints a value. -/
def write (function : String) (v : Value) : EvalM Unit := do
  let (result, out) := (← get).output.write v.text
  modify fun w => { w with output := out }
  lift function (result.mapError Fault.stream)

/-- Reads a line. -/
def readLine (function : String) : EvalM Value := do
  let (result, input) := Input.readLine (← get).input
  modify fun w => { w with input := input }
  lift function ((result.mapError Fault.stream).map Value.str)

/-- The truth of a condition. -/
def truth (function : String) : Value → EvalM Bool
  | .bool b => pure b
  | .nil => throw (.fault .nilDereference function)
  | v => throw (.fault (.invalidOperand (.notABool v.type)) function)

end EvalM

end FrameMachine
