import FrameMachine.Machine.Run

/-!
# Runs in a limited memory

The local slots of an activation lie in one block of memory, and so do the values of its operand
stack. In two cases the size of such a block is written in the code. A store into a slot beyond the
others asks for all slots up to its own, and a call asks for the operand stack that the called
function announces. If there is no room for so many values, the run breaks off, with neither a
result nor an error. Otherwise it goes on as if memory had no limit. Only the values that a block
must hold count, not what it keeps in reserve. A block that grows value by value is taken to
find room.
-/

set_option autoImplicit false

namespace FrameMachine

/-- The number of values for which an instruction asks for a block. An instruction that fails asks
for none, and neither does a store into a slot that is there. -/
def Instr.request (code : Code) (i : Instr) (f : Frame) : Nat :=
  match i with
  | store slot => if f.stack.isEmpty || slot < f.locals.slots.size then 0 else slot + 1
  | call name =>
    match code.get? name with
    | some t => if t.arity ≤ f.stack.length then t.maxStack else 0
    | none => 0
  | _ => 0

/-- The number of values for which the next step asks for a block. -/
def Machine.request (code : Code) (m : Machine) : Nat :=
  match m.top.fetch? with
  | some i => i.request code m.top
  | none => 0

/-- A run in a limited memory. -/
inductive Confined where
  /-- There was room for everything that the run has asked for. -/
  | fits (state : State)
  /-- The run has asked for a block for which there was no room. -/
  | brokenOff

namespace Confined

/-- One step of a run, if a block has room for the given number of values. -/
def step (code : Code) (maxDepth : Option Nat) (room : Nat) : Confined → Confined
  | fits (.running m) => if m.request code ≤ room then fits (m.step code maxDepth) else brokenOff
  | fits (.halted result w) => fits (.halted result w)
  | brokenOff => brokenOff

/-- The given number of steps. -/
def run (code : Code) (maxDepth : Option Nat) (room : Nat) : Nat → Confined → Confined
  | 0, c => c
  | n + 1, c => run code maxDepth room n (c.step code maxDepth room)

end Confined

end FrameMachine
