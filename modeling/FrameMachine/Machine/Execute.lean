import FrameMachine.Machine.State
import FrameMachine.Operation

/-!
# The effect of an instruction

What an instruction does to the activation that executes it and to the world. The activation is
given with its instruction counter already behind the instruction. Calls and returns concern other
activations as well, so their effect is only described here and carried out by the machine.
-/

set_option autoImplicit false

namespace FrameMachine

/-- The effect of an instruction. -/
inductive Effect where
  /-- The activation goes on. -/
  | next (frame : Frame) (world : World)
  /-- A function is called with arguments, the first argument first; the caller waits. -/
  | call (callee : Template) (arguments : List Value) (caller : Frame) (world : World)
  /-- The activation ends with a result. -/
  | ret (value : Value) (world : World)
  /-- The instruction fails. -/
  | fail (fault : Fault) (world : World)

/-- The object that a value refers to. -/
def Value.object : Value → Except Fault Nat
  | .ref id => .ok id
  | .nil => .error .nilDereference
  | v => .error (.invalidOperand (.notAnObject v.type))

/-- The fault of an instruction that finds too few operands. -/
def emptyStack : Fault := .invalidOperand .emptyStack

namespace Effect

/-- The activation goes on with a value on top of its stack, unless there is a fault. -/
def pushing (f : Frame) (w : World) : Except Fault Value → Effect
  | .ok v => next (f.push v) w
  | .error e => fail e w

/-- The activation goes on after an operation without a result, unless there is a fault. -/
def after (f : Frame) (w : World) : Except Fault Unit → Effect
  | .ok () => next f w
  | .error e => fail e w

end Effect

namespace Frame

/-- Takes one value from the stack. -/
@[inline] def pop1 (f : Frame) (w : World) (use : Value → Frame → Effect) : Effect :=
  match f.stack with
  | v :: rest => use v { f with stack := rest }
  | [] => .fail emptyStack w

/-- Takes two values from the stack, the upper one first. -/
@[inline] def pop2 (f : Frame) (w : World) (use : Value → Value → Frame → Effect) : Effect :=
  match f.stack with
  | upper :: lower :: rest => use upper lower { f with stack := rest }
  | _ => .fail emptyStack w

/-- A copy of a local slot. -/
def load (f : Frame) (w : World) (slot : Nat) : Effect :=
  match f.locals.get? slot with
  | some v => .next (f.push v) w
  | none => .fail (.invalidOperand (.unsetSlot slot)) w

/-- The two uppermost values change places. -/
def swap (f : Frame) (w : World) : Effect :=
  match f.stack with
  | upper :: lower :: rest => .next { f with stack := lower :: upper :: rest } w
  | _ => .fail (.invalidOperand .swapNeedsTwo) w

/-- A conditional jump: it is taken if the value is false. -/
def jumpUnless (f : Frame) (w : World) (target : Nat) : Value → Effect
  | .bool true => .next f w
  | .bool false => .next { f with pc := target } w
  | .nil => .fail .nilDereference w
  | v => .fail (.invalidOperand (.notABool v.type)) w

/-- A call: the arguments are moved from the stack of the caller, where the last one was on top. -/
def call (code : Code) (f : Frame) (w : World) (name : String) : Effect :=
  match code.get? name with
  | none => .fail (.unknownFunction name) w
  | some t =>
    if t.arity ≤ f.stack.length then
      .call t (f.stack.take t.arity).reverse { f with stack := f.stack.drop t.arity } w
    else .fail (.invalidOperand (.tooFewArguments name t.arity f.stack.length)) w

/-- A value is printed. -/
def write (f : Frame) (w : World) (v : Value) : Effect :=
  match w with
  | ⟨heap, input, output⟩ =>
    let (result, output) := output.write v.text
    .after f ⟨heap, input, output⟩ (result.mapError Fault.stream)

/-- A line is read. -/
def read (f : Frame) (w : World) : Effect :=
  match w with
  | ⟨heap, input, output⟩ =>
    let (result, input) := Input.readLine input
    .pushing f ⟨heap, input, output⟩ ((result.mapError Fault.stream).map Value.str)

/-- An object is made. -/
def alloc (f : Frame) (w : World) (fields : List String) : Effect :=
  match w with
  | ⟨heap, input, output⟩ =>
    let (id, heap) := heap.alloc fields
    .next (f.push (.ref id)) ⟨heap, input, output⟩

/-- The heap is changed at the object that a value refers to. -/
@[inline] def change (f : Frame) (w : World) (v : Value)
    (operation : Heap → Nat → Except Fault Unit × Heap) : Effect :=
  match v.object with
  | .error e => .fail e w
  | .ok id =>
    match w with
    | ⟨heap, input, output⟩ =>
      let (result, heap) := operation heap id
      .after f ⟨heap, input, output⟩ result

end Frame

/-- The effect of an instruction on an activation and the world. -/
def Instr.execute (code : Code) (i : Instr) (f : Frame) (w : World) : Effect :=
  match i with
  | push c => .next (f.push c.toValue) w
  | pop => f.pop1 w fun _ f => .next f w
  | load slot => f.load w slot
  | store slot => f.pop1 w fun v f => .next { f with locals := f.locals.set slot v } w
  | unary op => f.pop1 w fun v f => .pushing f w (op.apply v)
  | binary op => f.pop2 w fun right left f => .pushing f w (op.apply left right)
  | charAt => f.pop2 w fun string index f => .pushing f w (FrameMachine.charAt string index)
  | jump target => .next { f with pc := target } w
  | jumpUnless target => f.pop1 w fun v f => f.jumpUnless w target v
  | call name => f.call code w name
  | ret => f.pop1 w fun v _ => .ret v w
  | write => f.pop1 w fun v f => f.write w v
  | read => f.read w
  | alloc fields => f.alloc w fields
  | free => f.pop1 w fun v f => f.change w v Heap.free
  | getField field => f.pop1 w fun v f => .pushing f w (v.object.bind (w.heap.get · field))
  | setField field =>
    f.pop2 w fun value v f => f.change w v (Heap.set · · field value)
  | dup => f.pop1 w fun v f => .next ((f.push v).push v) w
  | swap => f.swap w
  | nop => .next f w

end FrameMachine
