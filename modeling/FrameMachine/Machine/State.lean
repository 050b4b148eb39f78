import FrameMachine.Code
import FrameMachine.Heap
import FrameMachine.Stream

/-!
# States of the machine

A run consists of activations of functions, the innermost of which is at work, and of a world that
they share: the heap and the two streams. Each activation has its own local slots and operand stack.
There is memory for all of them; runs for which memory is limited are those of `Confined`.
-/

set_option autoImplicit false

namespace FrameMachine

/-- Local slots. A slot in which nothing has been stored is unset. -/
structure Locals where
  slots : Array (Option Value) := #[]
deriving DecidableEq

namespace Locals

/-- The contents of a slot. -/
def get? (l : Locals) (slot : Nat) : Option Value := (l.slots[slot]?).join

/-- The slots with new contents in one of them. If it lies beyond the others, those between stay
unset. They are there from then on, so the memory they take depends on the slot alone
(`Instr.request`). -/
def set (l : Locals) (slot : Nat) (value : Value) : Locals :=
  if slot < l.slots.size then ⟨l.slots.setIfInBounds slot (some value)⟩
  else ⟨(l.slots ++ Array.replicate (slot - l.slots.size) none).push (some value)⟩

end Locals

/-- An activation of a function. -/
structure Frame where
  template : Template
  /-- The index of the next instruction. -/
  pc : Nat := 0
  locals : Locals := {}
  /-- The operand stack, its top first. -/
  stack : List Value := []
deriving DecidableEq

namespace Frame

/-- The activation of a function with arguments. The first argument is on top of the stack. The
memory for the stack that the function announces is asked for elsewhere (`Machine.request`,
`Code.startWithin`). -/
def enter (t : Template) (arguments : List Value) : Frame := { template := t, stack := arguments }

/-- The next instruction, unless the function has come to its end. -/
def fetch? (f : Frame) : Option Instr := f.template.code[f.pc]?

/-- The activation with a value put on its stack. -/
def push (f : Frame) (v : Value) : Frame := { f with stack := v :: f.stack }

end Frame

/-- What all activations share. -/
structure World where
  heap : Heap := {}
  /-- The bytes of the input that have not been read. -/
  input : List UInt8 := []
  output : Output := {}
deriving DecidableEq, Inhabited

/-- A run at work. -/
structure Machine where
  /-- The activation at work. -/
  top : Frame
  /-- The activations that wait for it, the innermost last. -/
  callers : Array Frame := #[]
  world : World
deriving DecidableEq

/-- The number of activations. -/
def Machine.depth (m : Machine) : Nat := m.callers.size + 1

/-- A run, at work or at its end. -/
inductive State where
  | running (machine : Machine)
  | halted (result : Except RunError Value) (world : World)

end FrameMachine
