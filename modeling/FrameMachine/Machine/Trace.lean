import FrameMachine.Machine.Run

/-!
# Traces

The events that a run reports: its start, each instruction before it is executed, calls and returns,
and the making and giving up of objects. They are read off the states of the run.
-/

set_option autoImplicit false

namespace FrameMachine

/-- An event of a run. -/
inductive Event where
  /-- A run starts, with so many functions registered. -/
  | starting (templates : Nat)
  /-- An instruction is about to be executed on an operand stack of the given height. -/
  | execute (function : String) (pc : Nat) (instruction : Instr) (depth : Nat)
  /-- A function has been called, which makes so many activations. -/
  | call (function : String) (depth : Nat)
  /-- A function has returned a value. -/
  | ret (function : String) (value : Value)
  /-- An object has been made. -/
  | allocated (object : Nat) (fields : List String)
  /-- An object has been given up. -/
  | freed (object : Nat)

/-- The line that reports an event. -/
def Event.text : Event → String
  | starting templates => s!"Starting run templates={templates}"
  | execute function pc instruction depth =>
    s!"Execute function={function} pc={pc} instruction={instruction.text} depth={depth}"
  | call function depth => s!"Call function={function} depth={depth}"
  | ret function value => s!"Return function={function} value={value.text}"
  | allocated object fields => s!"Allocated object id={object} fields={Text.quoteList fields}"
  | freed object => s!"Freed object id={object}"

/-- The report of an instruction that has changed the heap. -/
def Instr.heapEvents (i : Instr) (stack : List Value) (heap : Heap) : List Event :=
  match i, stack with
  | alloc fields, _ => [.allocated heap.allocated fields]
  | free, .ref id :: _ => [.freed id]
  | _, _ => []

/-- The events of the next step. -/
def Machine.events (code : Code) (maxDepth : Option Nat) (m : Machine) : List Event :=
  let f := m.top
  let name := f.template.name
  match f.fetch? with
  | none => [.ret name .nil]
  | some i =>
    .execute name f.pc i f.stack.length ::
      match i.execute code { f with pc := f.pc + 1 } m.world with
      | .next _ _ => i.heapEvents f.stack m.world.heap
      | .call callee _ _ _ =>
        match exceeded? maxDepth (m.depth + 1) with
        | some _ => []
        | none => [.call callee.name (m.depth + 1)]
      | .ret v _ => [.ret name v]
      | .fail _ _ => []

/-- The events of the next step; a run that has ended has none. -/
def State.events (code : Code) (maxDepth : Option Nat) : State → List Event
  | .running m => m.events code maxDepth
  | .halted _ _ => []

end FrameMachine
