import FrameMachine.Machine.Execute

/-!
# Runs

A run starts with an activation of the function `main` on an empty heap and goes on step by step. A
step executes one instruction; past the last instruction of a function it returns nil. A run that
has ended stays as it is. The nesting of calls may be limited.
-/

set_option autoImplicit false

namespace FrameMachine

/-- Ends the activation at work: its result goes to the one that waits for it, or is
that of the run. -/
def Machine.finish (callers : Array Frame) (w : World) (v : Value) : State :=
  match callers.back? with
  | none => .halted (.ok v) w
  | some caller => .running { top := caller.push v, callers := callers.pop, world := w }

/-- The limit on the nesting of calls, if there is one and the given depth is beyond it. -/
def exceeded? (maxDepth : Option Nat) (depth : Nat) : Option Nat := maxDepth.filter (· < depth)

/-- Carries out the effect of an instruction. The place of the instruction serves to locate a fault.
A call that would be nested too deeply ends the run. -/
def Machine.perform (maxDepth : Option Nat) (function : String) (pc : Nat) (i : Instr)
    (callers : Array Frame) : Effect → State
  | .next frame w => .running { top := frame, callers := callers, world := w }
  | .call callee arguments caller w =>
    let depth := callers.size + 2
    match exceeded? maxDepth depth with
    | some limit => .halted (.error (.stackOverflow depth limit)) w
    | none =>
      .running { top := .enter callee arguments, callers := callers.push caller, world := w }
  | .ret v w => finish callers w v
  | .fail fault w => .halted (.error (.fault ⟨fault, function, pc, i⟩)) w

/-- One step of a run at work. -/
def Machine.step (code : Code) (maxDepth : Option Nat) : Machine → State
  | ⟨f, callers, w⟩ =>
    match f.fetch? with
    | none => finish callers w .nil
    | some i =>
      perform maxDepth f.template.name f.pc i callers (i.execute code { f with pc := f.pc + 1 } w)

namespace State

/-- One step of a run. -/
def step (code : Code) (maxDepth : Option Nat) : State → State
  | .running m => m.step code maxDepth
  | .halted result world => .halted result world

/-- The given number of steps. -/
def run (code : Code) (maxDepth : Option Nat) : Nat → State → State
  | 0, s => s
  | n + 1, s => run code maxDepth n (s.step code maxDepth)

/-- Whether the run has ended. -/
def isHalted : State → Bool
  | .running _ => false
  | .halted _ _ => true

/-- The world at this point of the run. -/
def world : State → World
  | .running m => m.world
  | .halted _ w => w

end State

/-- The start of a run: `main` is activated and the heap is emptied, while the streams go on. -/
def Code.start (code : Code) (w : World) : Except StartError Machine :=
  match code.get? "main" with
  | none => .error .missingMain
  | some t =>
    if t.arity = 0 then .ok { top := .enter t [], world := { w with heap := .empty } }
    else .error (.mainArity t.arity)

end FrameMachine
