import FrameMachine.Compiler.Program

/-!
# Code by construction

The code of a function put together from the code of its parts. Each statement is given the place at
which its code starts. The targets of its jumps follow from this place and from the lengths of its
parts, so nothing has to be patched, and the height of the stack plays no role.

A part has no code if some name in it stands for nothing.
-/

set_option autoImplicit false

namespace FrameMachine

/-- The variables in scope with their slots, the latest first, and the number of slots given out. -/
structure Slots where
  visible : Scope := []
  used : Nat := 0

namespace Slots

/-- The slot of a variable. -/
def slot? (s : Slots) (name : String) : Option Nat := s.visible.lookup name

/-- The next slot is given to a new variable. -/
def declare (s : Slots) (name : String) : Slots := ⟨(name, s.used) :: s.visible, s.used + 1⟩

/-- The variables of a block go out of scope, but keep their slots. -/
def leave (outer inner : Slots) : Slots := ⟨outer.visible, inner.used⟩

end Slots

/-! ## Expressions -/

/-- The code of a call behind that of its arguments. -/
def callCode (ctx : Context) (function : String) : Option (List Instr) :=
  match Builtin.ofName? function with
  | some builtin => some builtin.code
  | none => (ctx.arity? function).map fun _ => [.call function]

mutual

/-- The code of an expression, given that of new objects. -/
def Expr.codeWith (ctx : Context) (slots : Slots) (new : String → Option (List Instr)) :
    Expr → Option (List Instr)
  | .literal value => some [.push value]
  | .path base fields => do
    let slot ← slots.slot? base
    some (.load slot :: fields.map .getField)
  | .new type => new type
  | .call function arguments => do
    let before ← argumentsCode ctx slots new arguments
    let call ← callCode ctx function
    some (before ++ call)
  | .neg operand => do
    let code ← operand.codeWith ctx slots new
    some (code ++ [.unary .neg])
  | .not operand => do
    let code ← operand.codeWith ctx slots new
    some (code ++ [.unary .not])
  | .binary op left right => do
    let leftCode ← left.codeWith ctx slots new
    let rightCode ← right.codeWith ctx slots new
    some (leftCode ++ rightCode ++ [.binary op])

/-- The code of several expressions. -/
def argumentsCode (ctx : Context) (slots : Slots) (new : String → Option (List Instr)) :
    List Expr → Option (List Instr)
  | [] => some []
  | e :: es => do
    let code ← e.codeWith ctx slots new
    let rest ← argumentsCode ctx slots new es
    some (code ++ rest)

end

/-- The code that fills the fields of the object on top of the stack, given that of
their expressions. -/
def fieldsCode (expression : Expr → Option (List Instr)) : List Field → Option (List Instr)
  | [] => some []
  | field :: fields => do
    let code ← expression field.init
    let rest ← fieldsCode expression fields
    some (.dup :: code ++ .setField field.name :: rest)

/-- The code that makes an object, in which new objects may be nested up to the given depth. -/
def newCode (ctx : Context) (slots : Slots) : Nat → String → Option (List Instr)
  | 0, _ => none
  | depth + 1, type => do
    let decl ← ctx.type? type
    let fill ← fieldsCode (Expr.codeWith ctx slots (newCode ctx slots depth)) decl.fields
    some (.alloc (decl.fields.map Field.name) :: fill)

/-- The code of an expression. -/
def Expr.code (ctx : Context) (slots : Slots) (e : Expr) : Option (List Instr) :=
  e.codeWith ctx slots (newCode ctx slots ctx.nesting)

/-! ## Statements -/

/-- The code that moves the top of the stack to a variable, or to the last of some fields. -/
def assignmentCode (slots : Slots) (base : String) (fields : List String) :
    Option (List Instr) := do
  let slot ← slots.slot? base
  match fields.getLast? with
  | none => some [.store slot]
  | some field => some (.load slot :: fields.dropLast.map .getField ++ [.swap, .setField field])

/-- A condition, the block that is done if it holds, and what is done otherwise. Behind the block
the code goes on after the whole. -/
def caseCode (start : Nat) (condition block rest : List Instr) : List Instr :=
  let next := start + condition.length + block.length + 2
  condition ++ .jumpUnless next :: block ++ .jump (next + rest.length) :: rest

/-- A condition and the block that is repeated as long as it holds. -/
def whileCode (start : Nat) (condition block : List Instr) : List Instr :=
  let leave := start + condition.length + block.length + 2
  condition ++ .jumpUnless leave :: block ++ [.jump start]

/-- Where the body of a `for` loop starts, behind the first value and the test. -/
def forBody (start : Nat) (first last : List Instr) : Nat := start + first.length + last.length + 4

/-- A `for` loop: the first value, the test, the body, and the step to the next value. -/
def forCode (start slot : Nat) (direction : Direction) (first last block : List Instr) :
    List Instr :=
  let test := start + first.length + 1
  let leave := forBody start first last + block.length + 5
  first ++ [.store slot, .load slot] ++ last ++ [.binary direction.test, .jumpUnless leave] ++
    block ++ [.load slot, .push (.int 1), .binary direction.advance, .store slot, .jump test]

mutual

/-- The code of a statement, and the slots after it. -/
def Stmt.code (ctx : Context) (start : Nat) (slots : Slots) : Stmt → Option (List Instr × Slots)
  | .var name init => do
    let code ← init.code ctx slots
    some (code ++ [.store slots.used], slots.declare name)
  | .assign base fields value => do
    let code ← value.code ctx slots
    let assignment ← assignmentCode slots base fields
    some (code ++ assignment, slots)
  | .branch condition body rest => do
    let test ← condition.code ctx slots
    let (block, inner) ← stmtsCode ctx (start + test.length + 1) slots body
    let next := start + test.length + block.length + 2
    let (others, inner) ← rest.code ctx next (slots.leave inner)
    some (caseCode start test block others ++ [.nop], slots.leave inner)
  | .whileLoop condition body => do
    let test ← condition.code ctx slots
    let (block, inner) ← stmtsCode ctx (start + test.length + 1) slots body
    some (whileCode start test block, slots.leave inner)
  | .forLoop counter first direction last body => do
    let begin ← first.code ctx slots
    let scope := slots.declare counter
    let limit ← last.code ctx scope
    let (block, inner) ← stmtsCode ctx (forBody start begin limit) scope body
    some (forCode start slots.used direction begin limit block, slots.leave inner)
  | .ret none => some ([.push .nil, .ret], slots)
  | .ret (some value) => do
    let code ← value.code ctx slots
    some (code ++ [.ret], slots)
  | .delete name => do
    let slot ← slots.slot? name
    some ([.load slot, .free], slots)
  | .call function arguments => do
    let code ← Expr.code ctx slots (.call function arguments)
    some (code ++ [.pop], slots)

/-- The code of several statements, and the slots after them. -/
def stmtsCode (ctx : Context) (start : Nat) (slots : Slots) :
    List Stmt → Option (List Instr × Slots)
  | [] => some ([], slots)
  | s :: ss => do
    let (code, slots) ← s.code ctx start slots
    let (rest, slots) ← stmtsCode ctx (start + code.length) slots ss
    some (code ++ rest, slots)

/-- The code of what is done if no condition so far holds, and the slots after it. -/
def Alternatives.code (ctx : Context) (start : Nat) (slots : Slots) :
    Alternatives → Option (List Instr × Slots)
  | .none => some ([], slots)
  | .otherwise body => do
    let (block, inner) ← stmtsCode ctx start slots body
    some (block, slots.leave inner)
  | .elif condition body rest => do
    let test ← condition.code ctx slots
    let (block, inner) ← stmtsCode ctx (start + test.length + 1) slots body
    let next := start + test.length + block.length + 2
    let (others, inner) ← rest.code ctx next (slots.leave inner)
    some (caseCode start test block others, slots.leave inner)

end

/-! ## Functions -/

/-- The slots of the parameters, in the order of the parameters. -/
def paramSlots (params : List Param) : Slots :=
  params.foldl (fun slots param => slots.declare param.name) {}

/-- The code of a function and the number of slots that it uses. -/
def FunDecl.code (ctx : Context) (f : FunDecl) : Option (List Instr × Nat) := do
  let entry := (List.range f.arity).map Instr.store
  let (body, slots) ← stmtsCode ctx f.arity (paramSlots f.params) f.body
  some (entry ++ body ++ (if f.endsInReturn then [] else [.push .nil, .ret]), slots.used)

end FrameMachine
