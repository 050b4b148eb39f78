import FrameMachine.Compiler.Program
import FrameMachine.Machine.Run

/-!
# Diagnostics

What a user is told about a program that cannot be compiled or does not run to its end: a message, a
code for the kind of failure, in some cases a hint, and all of it laid out as a short text.
-/

set_option autoImplicit false

namespace FrameMachine

/-- The reason why a program has no result. -/
inductive Failure where
  | compile (failure : CompileFailure)
  | start (error : StartError)
  | run (error : RunError)

namespace Failure

/-- The message of a failure. -/
def message : Failure → String
  | compile e => "Compilation failed: " ++ e.message
  | start e => e.message
  | run e => e.message

/-- The failure behind a failure. -/
def cause? : Failure → Option String
  | compile e => some e.message
  | _ => none

/-- The code for the kind of a failure. -/
def code : Failure → String
  | compile _ => "mypl::compile"
  | start _ => "mypl::entry_point"
  | run (.fault _) => "mypl::runtime"
  | run (.stackOverflow _ _) => "mypl::resource"

/-- A hint on what to do. -/
def help? : Failure → Option String
  | compile _ => some "the program tree must pass name resolution before it is compiled"
  | start .missingMain => some "declare a `main` function"
  | start (.mainArity _) => some "remove the parameters of `main`"
  | run (.stackOverflow _ _) =>
    some "raise `ExecutionOptions::max_depth` or reduce the recursion depth"
  | run (.fault _) => none

/-- The failure laid out for reading: the code, the message, what is behind it, and the hint. -/
def render (e : Failure) : String :=
  let cause := match e.cause? with
    | some text => "  ╰─▶ " ++ text ++ "\n"
    | none => ""
  let help := match e.help? with
    | some text => "  help: " ++ text ++ "\n"
    | none => ""
  e.code ++ "\n\n  × " ++ e.message ++ "\n" ++ cause ++ help

end Failure
end FrameMachine
