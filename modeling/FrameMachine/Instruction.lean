import FrameMachine.Literal
import FrameMachine.Operator

/-!
# Instructions

The instruction set of the machine. An instruction takes its operands from the operand stack
of the running function and leaves its result there. Jumps name the index of an instruction in
the same function.
-/

set_option autoImplicit false

namespace FrameMachine

/-- An instruction with its operand, if it has one. -/
inductive Instr where
  /-- Puts a constant on the stack. -/
  | push (value : Literal)
  /-- Drops the top of the stack. -/
  | pop
  /-- Puts the contents of a local slot on the stack. -/
  | load (slot : Nat)
  /-- Moves the top of the stack to a local slot. -/
  | store (slot : Nat)
  /-- Applies an operation to the top of the stack. -/
  | unary (op : UnaryOp)
  /-- Applies an operator to the two uppermost values; the right operand is on top. -/
  | binary (op : BinaryOp)
  /-- Takes a string from the top, an index from below it, and gives the character at the index. -/
  | charAt
  /-- Goes on at another instruction. -/
  | jump (target : Nat)
  /-- Takes a truth value and goes on at another instruction if it is false. -/
  | jumpUnless (target : Nat)
  /-- Calls a function with as many arguments from the stack as it has parameters. -/
  | call (function : String)
  /-- Ends the function with the top of the stack as its result. -/
  | ret
  /-- Prints the top of the stack. -/
  | write
  /-- Puts the next line of the input on the stack. -/
  | read
  /-- Makes an object whose fields are all nil. -/
  | alloc (fields : List String)
  /-- Gives up an object. -/
  | free
  /-- Replaces an object by the contents of one of its fields. -/
  | getField (field : String)
  /-- Takes a value from the top, an object from below it, and puts the value into a field. -/
  | setField (field : String)
  /-- Doubles the top of the stack. -/
  | dup
  /-- Exchanges the two uppermost values. -/
  | swap
  /-- Does nothing. -/
  | nop
deriving DecidableEq

namespace Instr

/-- The name of an instruction in listings. -/
def mnemonic : Instr → String
  | push _ => "push"
  | pop => "pop"
  | load _ => "load"
  | store _ => "store"
  | unary op => op.mnemonic
  | binary op => op.mnemonic
  | charAt => "getchr"
  | jump _ => "jmp"
  | jumpUnless _ => "jmpf"
  | call _ => "call"
  | ret => "vret"
  | write => "write"
  | read => "read"
  | alloc _ => "alloc"
  | free => "free"
  | getField _ => "getfld"
  | setField _ => "setfld"
  | dup => "dup"
  | swap => "swap"
  | nop => "nop"

/-- The text of the operand in listings. -/
def operandText? : Instr → Option String
  | push value => some value.text
  | load n | store n | jump n | jumpUnless n => some (String.ofList (Text.natDigits n))
  | call name | getField name | setField name => some name
  | alloc fields => some ("[" ++ String.intercalate ", " fields ++ "]")
  | _ => none

/-- The text of an instruction: its name and its operand. -/
def text (i : Instr) : String :=
  match i.operandText? with
  | some operand => i.mnemonic ++ " " ++ operand
  | none => i.mnemonic

/-- How many values an instruction takes from the stack and how many it leaves there. For a call
this depends on the function that is called. -/
def stackEffect? : Instr → Option (Nat × Nat)
  | push _ | load _ | read | alloc _ => some (0, 1)
  | pop | store _ | jumpUnless _ | ret | write | free => some (1, 0)
  | binary _ | charAt => some (2, 1)
  | unary _ | getField _ => some (1, 1)
  | setField _ => some (2, 0)
  | dup => some (1, 2)
  | swap => some (2, 2)
  | jump _ | nop => some (0, 0)
  | call _ => none

/-- Where a jump goes. -/
def target? : Instr → Option Nat
  | jump target | jumpUnless target => some target
  | _ => none

/-- The same jump to another place. -/
def withTarget? (target : Nat) : Instr → Option Instr
  | jump _ => some (jump target)
  | jumpUnless _ => some (jumpUnless target)
  | _ => none

end Instr
end FrameMachine
