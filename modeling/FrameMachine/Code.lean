import FrameMachine.Instruction
import Std.Data.TreeMap

/-!
# Code

The functions of a program in the form that the machine runs, registered under their names. They are
listed in the order in which their names were first registered; a second function of a name takes
the place of the first.
-/

set_option autoImplicit false

namespace FrameMachine

/-- A function in the form that the machine runs. -/
structure Template where
  name : String
  /-- The number of parameters. -/
  arity : Nat
  code : Array Instr
  /-- The greatest height of the operand stack, as far as it is known in advance. -/
  maxStack : Nat := arity
deriving DecidableEq

/-- The registered functions. -/
structure Code where
  /-- The functions in the order of their names' first registration. -/
  templates : Array Template := #[]
  /-- The place of each name in this order. -/
  places : Std.TreeMap String Nat := {}

namespace Code

/-- No functions. -/
def empty : Code := {}

/-- Registers a function, in the place of an earlier one of the same name if there is one. -/
def add (code : Code) (t : Template) : Code :=
  match code.places[t.name]? with
  | some place => { code with templates := code.templates.setIfInBounds place t }
  | none =>
    { templates := code.templates.push t
      places := code.places.insert t.name code.templates.size }

/-- The function registered under a name. -/
def get? (code : Code) (name : String) : Option Template :=
  (code.places[name]?).bind fun place => code.templates[place]?

/-- The number of registered functions. -/
def size (code : Code) : Nat := code.templates.size

/-- Whether nothing is registered. -/
def isEmpty (code : Code) : Bool := code.templates.isEmpty

/-- Registers functions one after the other. -/
def ofTemplates (ts : List Template) : Code := ts.foldl add empty

end Code
end FrameMachine
