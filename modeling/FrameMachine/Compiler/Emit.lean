import FrameMachine.Builtin
import FrameMachine.Compiler.Emitter
import FrameMachine.Tree

/-!
# The code of expressions and statements

An expression leaves its value on the stack, and a statement leaves the stack as it found it.
Operands and arguments are evaluated from left to right.

The first contents of the fields of a new object are computed where the object is made, so the code
of `new` contains the code of these expressions, in which further objects may be made. The nesting
is bounded. A program that declares no more types than the bound says reaches it only if a type
contains itself, and then no bound would be enough.
-/

set_option autoImplicit false

namespace FrameMachine

open EmitM

/-- What the code of a function depends on beside the function itself. -/
structure Context where
  /-- The record type of a name. -/
  type? : String → Option TypeDecl
  /-- The number of parameters of the function of a name. -/
  arity? : String → Option Nat
  /-- How deeply new objects may be nested in the first contents of others. -/
  nesting : Nat

/-! ## Expressions -/

/-- Emits a call once the arguments are on the stack. -/
def emitCallOf (ctx : Context) (function : String) : EmitM Unit :=
  match Builtin.ofName? function with
  | some builtin => emitAll builtin.code
  | none =>
    match ctx.arity? function with
    | some arity => emitCall function arity
    | none => reject (.undefinedFunction function)

mutual

/-- Emits an expression, given the emission of new objects. -/
def Expr.emitWith (ctx : Context) (new : String → EmitM Unit) : Expr → EmitM Unit
  | .literal value => emit (.push value)
  | .path base fields => do
    emit (.load (← lookup base))
    emitAll (fields.map .getField)
  | .new type => new type
  | .call function arguments => do
    emitArguments ctx new arguments
    emitCallOf ctx function
  | .neg operand => do
    operand.emitWith ctx new
    emit (.unary .neg)
  | .not operand => do
    operand.emitWith ctx new
    emit (.unary .not)
  | .binary op left right => do
    left.emitWith ctx new
    right.emitWith ctx new
    emit (.binary op)

/-- Emits expressions one after the other. -/
def emitArguments (ctx : Context) (new : String → EmitM Unit) : List Expr → EmitM Unit
  | [] => pure ()
  | e :: es => do
    e.emitWith ctx new
    emitArguments ctx new es

end

/-- Emits the first contents of the fields of the object on top of the stack, given the emission of
their expressions. -/
def emitFields (expression : Expr → EmitM Unit) : List Field → EmitM Unit
  | [] => pure ()
  | field :: fields => do
    emit .dup
    expression field.init
    emit (.setField field.name)
    emitFields expression fields

/-- Emits the making of an object, in which new objects may be nested up to the given depth. -/
def emitNew (ctx : Context) : Nat → String → EmitM Unit
  | 0, type =>
    match ctx.type? type with
    | some _ => giveUp (.endlessType type)
    | none => reject (.undefinedType type)
  | depth + 1, type =>
    match ctx.type? type with
    | some decl => do
      emit (.alloc (decl.fields.map Field.name))
      emitFields (Expr.emitWith ctx (emitNew ctx depth)) decl.fields
    | none => reject (.undefinedType type)

/-- Emits an expression. -/
def Expr.emit (ctx : Context) (e : Expr) : EmitM Unit := e.emitWith ctx (emitNew ctx ctx.nesting)

/-! ## Statements -/

/-- Emits an assignment to a variable, or to the last of some fields, of the value on top
of the stack. -/
def emitAssignment (base : String) (fields : List String) : EmitM Unit := do
  match fields.getLast? with
  | none => emit (.store (← lookup base))
  | some field =>
    emit (.load (← lookup base))
    emitAll (fields.dropLast.map .getField)
    emit .swap
    emit (.setField field)

/-- The test of a `for` loop between its variable and the last value. -/
def Direction.test : Direction → BinaryOp
  | .upto => .le
  | .downto => .ge

/-- The operator that takes a `for` loop to its next value. -/
def Direction.advance : Direction → BinaryOp
  | .upto => .add
  | .downto => .sub

/-- Emits a condition and the block that is done if it holds. Of the two places in the result, the
first is that of the jump behind the block and the second that of the jump taken if the condition
does not hold. -/
def emitCase (condition block : EmitM Unit) : EmitM (Nat × Nat) := do
  condition
  let skip ← emitJump .jumpUnless
  inScope block
  let leave ← emitJump .jump
  pure (leave, skip)

mutual

/-- Emits a statement. -/
def Stmt.emit (ctx : Context) : Stmt → EmitM Unit
  | .var name init => balanced do
    init.emit ctx
    EmitM.emit (.store (← allocate name))
  | .assign base fields value => balanced do
    value.emit ctx
    emitAssignment base fields
  | .branch condition body rest => balanced do
    let (leave, skip) ← emitCase (condition.emit ctx) (emitStmts ctx body)
    let jumps ← rest.emit ctx skip
    let finish ← label
    EmitM.emit .nop
    patchAll finish (leave :: jumps)
  | .whileLoop condition body => balanced do
    let start ← label
    condition.emit ctx
    let leave ← emitJump .jumpUnless
    inScope (emitStmts ctx body)
    EmitM.emit (.jump start)
    patchHere leave
  | .forLoop counter first direction last body => balanced <| inScope do
    first.emit ctx
    let slot ← allocate counter
    EmitM.emit (.store slot)
    let test ← label
    EmitM.emit (.load slot)
    last.emit ctx
    EmitM.emit (.binary direction.test)
    let leave ← emitJump .jumpUnless
    inScope (emitStmts ctx body)
    emitAll [.load slot, .push (.int 1), .binary direction.advance, .store slot, .jump test]
    patchHere leave
  | .ret value => balanced do
    match value with
    | some e => e.emit ctx
    | none => EmitM.emit (.push .nil)
    EmitM.emit .ret
  | .delete name => balanced do
    EmitM.emit (.load (← lookup name))
    EmitM.emit .free
  | .call function arguments => balanced do
    Expr.emit ctx (.call function arguments)
    EmitM.emit .pop

/-- Emits statements one after the other. -/
def emitStmts (ctx : Context) : List Stmt → EmitM Unit
  | [] => pure ()
  | s :: ss => do
    s.emit ctx
    emitStmts ctx ss

/-- Emits what is done if no condition so far holds, given the place of the jump that leads there.
The jumps at the places in the result are to go behind the whole statement. -/
def Alternatives.emit (ctx : Context) (skip : Nat) : Alternatives → EmitM (List Nat)
  | .none => pure [skip]
  | .otherwise body => do
    patchHere skip
    inScope (emitStmts ctx body)
    pure []
  | .elif condition body rest => do
    patchHere skip
    let (leave, skip) ← emitCase (condition.emit ctx) (emitStmts ctx body)
    let jumps ← rest.emit ctx skip
    pure (leave :: jumps)

end

end FrameMachine
