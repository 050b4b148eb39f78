import FrameMachine.Compiler.Emit

/-!
# Names that stand for nothing

A variable is visible from behind its declaration to the end of the block in which it is declared.
The expressions for the first contents of a new object are resolved where the object is made. This
module lists the names of a function that stand for nothing, in the order in which evaluation meets
them: operands and arguments from left to right, a value before the place that it is assigned to,
arguments before the function that is called, and a type before the contents of its fields.
-/

set_option autoImplicit false

namespace FrameMachine

/-- A variable that is not visible. -/
def unknownVariable (visible : List String) (name : String) : List CompileError :=
  if name ∈ visible then [] else [.undefinedVariable name]

/-- A function that is neither built in nor declared. -/
def unknownFunction (ctx : Context) (name : String) : List CompileError :=
  if (Builtin.ofName? name).isSome || (ctx.arity? name).isSome then []
  else [.undefinedFunction name]

/-! ## Expressions -/

mutual

/-- The unresolved names of an expression, given those of new objects. -/
def Expr.unresolvedWith (ctx : Context) (visible : List String) (new : String → List CompileError) :
    Expr → List CompileError
  | .literal _ => []
  | .path base _ => unknownVariable visible base
  | .new type => new type
  | .call function arguments =>
    unresolvedArguments ctx visible new arguments ++ unknownFunction ctx function
  | .neg operand => operand.unresolvedWith ctx visible new
  | .not operand => operand.unresolvedWith ctx visible new
  | .binary _ left right =>
    left.unresolvedWith ctx visible new ++ right.unresolvedWith ctx visible new

/-- The unresolved names of several expressions. -/
def unresolvedArguments (ctx : Context) (visible : List String) (new : String → List CompileError) :
    List Expr → List CompileError
  | [] => []
  | e :: es => e.unresolvedWith ctx visible new ++ unresolvedArguments ctx visible new es

end

/-- The unresolved names of a new object, in which new objects may be nested up to the given
depth. -/
def unresolvedNew (ctx : Context) (visible : List String) : Nat → String → List CompileError
  | depth, type =>
    match ctx.type? type, depth with
    | none, _ => [.undefinedType type]
    | some _, 0 => []
    | some decl, depth + 1 =>
      decl.fields.flatMap fun field =>
        field.init.unresolvedWith ctx visible (unresolvedNew ctx visible depth)

/-- The unresolved names of an expression. -/
def Expr.unresolved (ctx : Context) (visible : List String) (e : Expr) : List CompileError :=
  e.unresolvedWith ctx visible (unresolvedNew ctx visible ctx.nesting)

/-! ## Statements -/

/-- The variables that are visible behind a statement. -/
def Stmt.declares (visible : List String) : Stmt → List String
  | .var name _ => name :: visible
  | _ => visible

mutual

/-- The unresolved names of a statement. -/
def Stmt.unresolved (ctx : Context) (visible : List String) : Stmt → List CompileError
  | .var _ init => init.unresolved ctx visible
  | .assign base _ value => value.unresolved ctx visible ++ unknownVariable visible base
  | .branch condition body rest =>
    condition.unresolved ctx visible ++ unresolvedStmts ctx visible body ++
      rest.unresolved ctx visible
  | .whileLoop condition body =>
    condition.unresolved ctx visible ++ unresolvedStmts ctx visible body
  | .forLoop counter first _ last body =>
    first.unresolved ctx visible ++ last.unresolved ctx (counter :: visible) ++
      unresolvedStmts ctx (counter :: visible) body
  | .ret none => []
  | .ret (some value) => value.unresolved ctx visible
  | .delete name => unknownVariable visible name
  | .call function arguments => Expr.unresolved ctx visible (.call function arguments)

/-- The unresolved names of several statements. -/
def unresolvedStmts (ctx : Context) (visible : List String) : List Stmt → List CompileError
  | [] => []
  | s :: ss => s.unresolved ctx visible ++ unresolvedStmts ctx (s.declares visible) ss

/-- The unresolved names of what is done if no condition so far holds. -/
def Alternatives.unresolved (ctx : Context) (visible : List String) :
    Alternatives → List CompileError
  | .none => []
  | .otherwise body => unresolvedStmts ctx visible body
  | .elif condition body rest =>
    condition.unresolved ctx visible ++ unresolvedStmts ctx visible body ++
      rest.unresolved ctx visible

end

/-- The unresolved names of a function. -/
def FunDecl.unresolved (ctx : Context) (f : FunDecl) : List CompileError :=
  unresolvedStmts ctx (f.params.map Param.name) f.body

end FrameMachine
