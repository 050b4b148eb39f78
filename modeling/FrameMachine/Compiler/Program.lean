import FrameMachine.Code
import FrameMachine.Compiler.Emit

/-!
# Compiling programs

The functions of a program are compiled one after the other by the same emitter, which starts
afresh with each of them. A program has code if each of its functions has; otherwise the first
failure is reported.
-/

set_option autoImplicit false

namespace FrameMachine

/-- The code of a function, with the number of local slots that it uses. -/
structure Compiled where
  template : Template
  slots : Nat

/-- The line that reports that a function has been compiled. -/
def Compiled.report (c : Compiled) : String :=
  let t := c.template
  s!"Compiled function function={t.name} arity={t.arity} instructions={t.code.size} " ++
    s!"locals={c.slots} max_stack_size={t.maxStack}"

/-- The emitter at the beginning of a function: the arguments are on the stack. -/
def Emitter.begin (arity : Nat) : Emitter := { depth := arity, peak := arity }

/-- Clears, part by part, what the emitter keeps of an earlier function, of which it may have been
in the middle. -/
def Emitter.restart (arity : Nat) (s : Emitter) : Emitter :=
  { s with code := #[], slots := 0, scopes := [], depth := arity, peak := arity }

/-- Moves the arguments from the stack to the slots of the parameters. -/
def emitParams : List Param → EmitM Unit
  | [] => pure ()
  | param :: params => do
    EmitM.emit (.store (← EmitM.allocate param.name))
    emitParams params

namespace FunDecl

/-- Whether the last statement of the body is a return. -/
def endsInReturn (f : FunDecl) : Bool := f.body.getLast?.any Stmt.isReturn

/-- Emits the body; a function that does not end in a return statement returns nil. -/
def emitBody (ctx : Context) (f : FunDecl) : EmitM Unit := do
  emitStmts ctx f.body
  if f.endsInReturn then pure () else EmitM.emitAll [.push .nil, .ret]

/-- Compiles a function, whatever the emitter did before. -/
def compile (ctx : Context) (f : FunDecl) : EmitM Compiled := do
  modify (Emitter.restart f.arity)
  EmitM.openScope
  emitParams f.params
  f.emitBody ctx
  EmitM.closeScope
  let s ← get
  pure ⟨{ name := f.name, arity := f.arity, code := s.code, maxStack := s.peak }, s.slots⟩

end FunDecl

namespace Context

/-- Compiles functions one after the other and goes on after a failure. -/
def compileEach (ctx : Context) : List FunDecl → Emitter → List (Except CompileFailure Compiled)
  | [], _ => []
  | f :: fs, s =>
    match f.compile ctx s with
    | .ok compiled s => .ok compiled :: compileEach ctx fs s
    | .error e s => .error e :: compileEach ctx fs s

/-- Compiles functions and registers them up to the first failure. -/
def compileInto (ctx : Context) : List FunDecl → Emitter → Code → Except CompileFailure Code
  | [], _, code => .ok code
  | f :: fs, s, code =>
    match f.compile ctx s with
    | .ok compiled s => compileInto ctx fs s (code.add compiled.template)
    | .error e _ => .error e

end Context

namespace Program

/-- The declarations of a program, of which the last one of a name counts, with a bound on the
nesting of new objects. -/
def contextWithin (p : Program) (nesting : Nat) : Context := ⟨p.type?, p.arity?, nesting⟩

/-- The declarations of a program. New objects may be nested as deeply as there are types. -/
def context (p : Program) : Context := p.contextWithin p.types.length

/-- Compiles functions of a program, goes on after a failure, and gives the outcome for each. -/
def compileFunctions (p : Program) (fs : List FunDecl) : List (Except CompileFailure Compiled) :=
  p.context.compileEach fs {}

/-- The code of a program in which new objects may be nested up to a bound. -/
def compileWithin (p : Program) (nesting : Nat) : Except CompileFailure Code :=
  (p.contextWithin nesting).compileInto p.functions {} .empty

/-- The code of a program. -/
def compile (p : Program) : Except CompileFailure Code := p.compileWithin p.types.length

end Program
end FrameMachine
