import FrameMachine.Literal
import FrameMachine.Operator

/-!
# Program trees

The programs of the language. A program declares record types and functions. The body of a function
is a list of statements, in which blocks open scopes of their own. Types of parameters and results
are kept, but nothing depends on them.
-/

set_option autoImplicit false

namespace FrameMachine

/-- An expression. -/
inductive Expr where
  | literal (value : Literal)
  /-- A variable and a path of fields from its object on, as in `a.b.c`. -/
  | path (base : String) (fields : List String)
  /-- A new object of a record type. -/
  | new (type : String)
  | call (function : String) (arguments : List Expr)
  | neg (operand : Expr)
  | not (operand : Expr)
  | binary (op : BinaryOp) (left right : Expr)

/-- The direction in which a `for` loop counts. -/
inductive Direction where
  | upto | downto
deriving DecidableEq

mutual

/-- A statement. -/
inductive Stmt where
  /-- Declares a variable; its initial value cannot refer to it. -/
  | var (name : String) (init : Expr)
  /-- Changes a variable, or the last field on a path of fields from its object on. -/
  | assign (base : String) (fields : List String) (value : Expr)
  /-- Does the first of several alternatives whose condition holds. -/
  | branch (condition : Expr) (body : List Stmt) (rest : Alternatives)
  | whileLoop (condition : Expr) (body : List Stmt)
  /-- Counts a variable from a first value to a last one, which is computed anew each time. -/
  | forLoop (counter : String) (first : Expr) (direction : Direction) (last : Expr)
      (body : List Stmt)
  | ret (value : Option Expr)
  /-- Gives up the object of a variable. -/
  | delete (name : String)
  /-- Calls a function and drops its result. -/
  | call (function : String) (arguments : List Expr)

/-- What a branching statement does if no condition so far holds. -/
inductive Alternatives where
  /-- It does nothing. -/
  | none
  /-- It does a last block without a condition. -/
  | otherwise (body : List Stmt)
  /-- It tries another condition. -/
  | elif (condition : Expr) (body : List Stmt) (rest : Alternatives)

end

/-- Whether the statement ends the function. -/
def Stmt.isReturn : Stmt → Bool
  | .ret _ => true
  | _ => false

/-- A field of a record type with the expression that gives its first contents. -/
structure Field where
  name : String
  init : Expr

/-- A record type. -/
structure TypeDecl where
  name : String
  fields : List Field

/-- A parameter of a function. -/
structure Param where
  name : String
  type : String

/-- A function. -/
structure FunDecl where
  name : String
  result : String
  params : List Param
  body : List Stmt

/-- The number of parameters. -/
def FunDecl.arity (f : FunDecl) : Nat := f.params.length

/-- A program. -/
structure Program where
  types : List TypeDecl
  functions : List FunDecl

namespace Program

/-- The last declaration of a record type of this name. -/
def type? (p : Program) (name : String) : Option TypeDecl :=
  p.types.reverse.find? fun t => t.name = name

/-- The last declaration of a function of this name. -/
def function? (p : Program) (name : String) : Option FunDecl :=
  p.functions.reverse.find? fun f => f.name = name

/-- The number of parameters of the last function of this name. -/
def arity? (p : Program) (name : String) : Option Nat := (p.function? name).map FunDecl.arity

end Program
end FrameMachine
