import FrameMachine.Instruction

/-!
# Built-in functions

Functions that the machine has instructions for. Their names cannot be redefined: a call of such a
name never reaches a declared function.
-/

set_option autoImplicit false

namespace FrameMachine

/-- A function that needs no declaration. -/
inductive Builtin where
  | print | read | length | get | stoi | dtoi | stod | itod | itos | dtos
deriving DecidableEq

namespace Builtin

/-- The function of a given name. -/
def ofName? : String → Option Builtin
  | "print" => some print
  | "read" => some read
  | "length" => some length
  | "get" => some get
  | "stoi" => some stoi
  | "dtoi" => some dtoi
  | "stod" => some stod
  | "itod" => some itod
  | "itos" => some itos
  | "dtos" => some dtos
  | _ => none

/-- The number of arguments that the function works on. -/
def arity : Builtin → Nat
  | read => 0
  | get => 2
  | _ => 1

/-- The instructions that stand for a call once the arguments are on the stack.
Printing gives nil. -/
def code : Builtin → List Instr
  | print => [.write, .push .nil]
  | read => [.read]
  | length => [.unary .length]
  | get => [.charAt]
  | stoi | dtoi => [.unary .toInt]
  | stod | itod => [.unary .toDouble]
  | itos | dtos => [.unary .toText]

end Builtin
end FrameMachine
