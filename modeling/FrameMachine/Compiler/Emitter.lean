import FrameMachine.Instruction

/-!
# Emitting instructions

The code of a function is emitted instruction by instruction. Beside the instructions the
emitter keeps the local slots of the variables in scope and the height that the operand stack
has at this point. A jump to a place that is not known yet is emitted with a provisional target
and patched later.

Names that cannot be resolved are errors of the program. Everything else that can go wrong is a
defect: a tree that does not fit the stack, or a use of the emitter that makes no sense. An error
leaves the emitter as it is at that point.
-/

set_option autoImplicit false

namespace FrameMachine

/-- A name in a program that stands for nothing. -/
inductive CompileError where
  | undefinedVariable (name : String)
  | undefinedType (name : String)
  | undefinedFunction (name : String)
deriving DecidableEq

/-- The wording of a compile error. -/
def CompileError.message : CompileError → String
  | undefinedVariable name => s!"Undefined variable '{name}'"
  | undefinedType name => s!"Undefined type '{name}'"
  | undefinedFunction name => s!"Undefined function '{name}'"

/-- A reason to give up that is not a name without meaning. -/
inductive Defect where
  /-- An instruction takes more values than the stack holds at its place. -/
  | stackUnderflow (wanted depth : Nat)
  /-- A statement leaves the stack higher or lower than it found it. -/
  | unbalanced (before after : Nat)
  /-- The effect of the instruction on the stack is not known. -/
  | unknownEffect (instruction : Instr)
  /-- The instruction to be patched is not a jump. -/
  | notAJump (place : Nat)
  /-- There is no scope to close. -/
  | noScope
  /-- The first contents of an object would need objects without end. -/
  | endlessType (name : String)
deriving DecidableEq

/-- The wording of a defect. -/
def Defect.message : Defect → String
  | stackUnderflow wanted depth => s!"Stack underflow: trying to pop {wanted} but depth is {depth}"
  | unbalanced before after => s!"Statement is not stack-neutral: {before} before, {after} after"
  | unknownEffect instruction => s!"{instruction.text} has no static stack effect"
  | notAJump place => s!"Instruction {place} is not a jump"
  | noScope => "Cannot pop the function scope twice"
  | endlessType name => s!"Type '{name}' contains itself"

/-- The reason why a function has no code. -/
inductive CompileFailure where
  | error (error : CompileError)
  | defect (defect : Defect)
deriving DecidableEq

/-- The wording of a compile failure. -/
def CompileFailure.message : CompileFailure → String
  | error e => e.message
  | defect d => d.message

/-- The variables of a scope with their slots, the latest first. -/
abbrev Scope := List (String × Nat)

/-- The code of a function as far as it has been emitted. -/
structure Emitter where
  code : Array Instr := #[]
  /-- The number of local slots given out. A slot is never used for two variables. -/
  slots : Nat := 0
  /-- The open scopes, the innermost first. -/
  scopes : List Scope := []
  /-- The height of the operand stack. -/
  depth : Nat := 0
  /-- The greatest height so far. -/
  peak : Nat := 0

/-- An action of the emitter. If it fails, the emitter stays as it is at that point. -/
abbrev EmitM := EStateM CompileFailure Emitter

namespace EmitM

/-- Gives up because of a name without meaning. -/
def reject {α : Type} (e : CompileError) : EmitM α := throw (.error e)

/-- Gives up because of a defect. -/
def giveUp {α : Type} (d : Defect) : EmitM α := throw (.defect d)

/-! ## Instructions -/

/-- Appends an instruction that takes and leaves the given numbers of values. -/
def append (i : Instr) (pops pushes : Nat) : EmitM Unit := do
  let s ← get
  if s.depth < pops then giveUp (.stackUnderflow pops s.depth)
  else
    let depth := s.depth - pops + pushes
    set { s with code := s.code.push i, depth := depth, peak := max s.peak depth }

/-- Appends an instruction with its own effect on the stack. -/
def emit (i : Instr) : EmitM Unit :=
  match i.stackEffect? with
  | some (pops, pushes) => append i pops pushes
  | none => giveUp (.unknownEffect i)

/-- Appends instructions one after the other. -/
def emitAll : List Instr → EmitM Unit
  | [] => pure ()
  | i :: is => do
    emit i
    emitAll is

/-- Appends a call, which takes the arguments and leaves the result. -/
def emitCall (function : String) (arity : Nat) : EmitM Unit := append (.call function) arity 1

/-! ## Variables -/

/-- The slot of a variable, sought from the innermost scope outward. -/
def lookup (name : String) : EmitM Nat := do
  let s ← get
  match s.scopes.findSome? fun scope => scope.lookup name with
  | some slot => pure slot
  | none => reject (.undefinedVariable name)

/-- Gives a new variable of the innermost scope the next slot. -/
def allocate (name : String) : EmitM Nat := do
  let s ← get
  let scopes := match s.scopes with
    | scope :: outer => ((name, s.slots) :: scope) :: outer
    | [] => []
  set { s with slots := s.slots + 1, scopes := scopes }
  pure s.slots

/-- Opens a scope. -/
def openScope : EmitM Unit := modify fun s => { s with scopes := [] :: s.scopes }

/-- Closes the innermost scope. -/
def closeScope : EmitM Unit := do
  let s ← get
  match s.scopes with
  | _ :: outer => set { s with scopes := outer }
  | [] => giveUp .noScope

/-- Does something in a scope of its own. -/
def inScope (body : EmitM Unit) : EmitM Unit := do
  openScope
  body
  closeScope

/-! ## Jumps -/

/-- The place of the next instruction. -/
def label : EmitM Nat := do
  let s ← get
  pure s.code.size

/-- The provisional target of a jump, beyond the places of any code. -/
def pendingTarget : Nat := Nat.pow 2 64 - 1

/-- Appends a jump to a place that is not known yet and gives the place of the jump. -/
def emitJump (jump : Nat → Instr) : EmitM Nat := do
  let place ← label
  emit (jump pendingTarget)
  pure place

/-- Lets the jump at a place go to the target. -/
def patch (target place : Nat) : EmitM Unit := do
  let s ← get
  match (s.code[place]?).bind (Instr.withTarget? target) with
  | some jump => set { s with code := s.code.setIfInBounds place jump }
  | none => giveUp (.notAJump place)

/-- Lets the jumps at several places go to the target. -/
def patchAll (target : Nat) : List Nat → EmitM Unit
  | [] => pure ()
  | place :: places => do
    patch target place
    patchAll target places

/-- Lets a jump go to the place of the next instruction. -/
def patchHere (place : Nat) : EmitM Unit := do
  patch (← label) place

/-! ## Statements -/

/-- Does something that has to leave the stack as high as it was. -/
def balanced (body : EmitM Unit) : EmitM Unit := do
  let before := (← get).depth
  body
  let after := (← get).depth
  if after = before then pure () else giveUp (.unbalanced before after)

end EmitM
end FrameMachine
