import FrameMachine.Instruction
import FrameMachine.Value

/-!
# Faults

What can go wrong in an instruction, in a run and before it. Each cause is a constructor, and its
wording is given by a `message` function.
-/

set_option autoImplicit false

namespace FrameMachine

/-- The types that text can be converted to. -/
inductive NumberType where
  | int | double
deriving DecidableEq

/-- The name of a number type in messages. -/
def NumberType.name : NumberType → String
  | int => "int"
  | double => "double"

/-- A stack or an operand that an instruction cannot work with. -/
inductive OperandFault where
  /-- The operand stack has fewer values than the instruction takes. -/
  | emptyStack
  /-- Fewer than two values are there to be exchanged. -/
  | swapNeedsTwo
  /-- Fewer values are on the stack than the function has parameters. -/
  | tooFewArguments (function : String) (arity found : Nat)
  /-- Nothing has been stored in the slot. -/
  | unsetSlot (slot : Nat)
  /-- A conditional jump found something other than a truth value. -/
  | notABool (found : ValueType)
  /-- Something other than an object was given where an object is needed. -/
  | notAnObject (found : ValueType)
  /-- An operation on one operand does not apply to its type. -/
  | undefinedFor (operation : String) (operand : ValueType)
  /-- An operation on two operands does not apply to their types. -/
  | undefinedForBoth (operation : String) (left right : ValueType)
deriving DecidableEq

/-- The wording of an operand fault. -/
def OperandFault.message : OperandFault → String
  | emptyStack => "operand stack is empty"
  | swapNeedsTwo => "swap needs two operands"
  | tooFewArguments function arity found =>
    s!"{function} expects {arity} arguments, found {found} on the stack"
  | unsetSlot slot => s!"slot {slot} is unset"
  | notABool found => s!"jmpf expects a bool, found {found.name}"
  | notAnObject found => s!"expected an object reference, found {found.name}"
  | undefinedFor operation operand => s!"{operation} is not defined for {operand.name}"
  | undefinedForBoth operation left right =>
    s!"{operation} is not defined for {left.name} and {right.name}"

/-- A failure of one of the two streams. -/
inductive StreamFault where
  /-- A line of the input is not valid UTF-8. -/
  | invalidText
  /-- The output takes no more bytes. -/
  | sinkFull
  /-- The output could not be flushed. -/
  | flushFailed
  /-- The output failed for a reason of its own. -/
  | refused (reason : String)
deriving DecidableEq

/-- The wording of a stream fault. -/
def StreamFault.message : StreamFault → String
  | invalidText => "stream did not contain valid UTF-8"
  | sinkFull => "sink full"
  | flushFailed => "flush failed"
  | refused reason => reason

/-- The reason why an instruction fails. -/
inductive Fault where
  /-- An operand is nil where a value is needed. -/
  | nilDereference
  /-- A string has no character at the index. -/
  | indexOutOfRange (index : Int64) (length : Nat)
  /-- A text is not the text of a number. -/
  | conversion (text : String) (target : NumberType)
  /-- The object was never made or has been given up. -/
  | missingObject (object : Nat)
  /-- The object has no such field. -/
  | missingField (object : Nat) (field : String)
  /-- No function of this name is registered. -/
  | unknownFunction (name : String)
  /-- A quotient or remainder by zero. -/
  | divisionByZero
  /-- The instruction cannot work with its operands. -/
  | invalidOperand (cause : OperandFault)
  /-- A stream failed. -/
  | stream (cause : StreamFault)
deriving DecidableEq

/-- The wording of a fault. -/
def Fault.message : Fault → String
  | nilDereference => "Nil dereference"
  | indexOutOfRange index length =>
    "Index " ++ intText index ++ s!" out of range (length: {length})"
  | conversion text target => "Cannot convert " ++ Text.quoteString text ++ s!" to {target.name}"
  | missingObject object => s!"Invalid heap access: object {object} does not exist"
  | missingField object field => s!"Invalid heap access: object {object} has no field '{field}'"
  | unknownFunction name => s!"Unknown function '{name}'"
  | divisionByZero => "Division by zero"
  | invalidOperand cause => s!"Invalid operand: {cause.message}"
  | stream cause => s!"I/O error: {cause.message}"

/-- A fault together with the instruction that failed and its place. -/
structure LocatedFault where
  fault : Fault
  /-- The function that was running. -/
  function : String
  /-- The index of the instruction. -/
  pc : Nat
  /-- The instruction itself. -/
  instruction : Instr
deriving DecidableEq

/-- The wording of a located fault. -/
def LocatedFault.message (e : LocatedFault) : String :=
  s!"{e.fault.message} (in {e.function} at {e.pc}: {e.instruction.text})"

/-- The reason why a run ends without a result. -/
inductive RunError where
  /-- An instruction failed. -/
  | fault (fault : LocatedFault)
  /-- A call would be nested deeper than is allowed. -/
  | stackOverflow (depth limit : Nat)
deriving DecidableEq

/-- The wording of a run error. -/
def RunError.message : RunError → String
  | fault e => e.message
  | stackOverflow depth limit => s!"Call stack overflow: depth {depth} exceeds maximum of {limit}"

/-- The reason why a run does not even start. -/
inductive StartError where
  /-- There is no function `main`. -/
  | missingMain
  /-- The function `main` has parameters. -/
  | mainArity (arity : Nat)
deriving DecidableEq

/-- The wording of a start error. -/
def StartError.message : StartError → String
  | missingMain => "No function named 'main' is registered"
  | mainArity arity => s!"Function 'main' must take no arguments, but takes {arity}"

end FrameMachine
