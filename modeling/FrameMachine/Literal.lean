import FrameMachine.Double.Notation
import FrameMachine.Text.Quoted

/-!
# Literals

The constants that a program can write down and an instruction can carry: everything that has a
value except references to objects.
-/

set_option autoImplicit false

namespace FrameMachine

/-- A constant of the language. -/
inductive Literal where
  | nil
  | int (value : Int64)
  | double (value : Double)
  | bool (value : Bool)
  | char (value : Char)
  | str (value : String)
deriving DecidableEq

/-- The text of an integer. -/
def intText (i : Int64) : String := String.ofList (Text.intDigits i.toInt)

/-- The text of a truth value. -/
def boolText (b : Bool) : String := if b then "true" else "false"

/-- The text of a double in one of its two forms. -/
def doubleText (form : Double.Form) (d : Double) : String := String.ofList (d.textIn form)

namespace Literal

/-- The text of a constant in a listing, with characters and strings in quotes. -/
def text : Literal → String
  | nil => "nil"
  | int i => intText i
  | double d => doubleText Double.constantForm d
  | bool b => boolText b
  | char c => Text.quoteChar c
  | str s => Text.quoteString s

/-- The constant together with its kind. -/
def describe : Literal → String
  | nil => "Nil"
  | int i => "Int(" ++ intText i ++ ")"
  | double d => "Double(" ++ doubleText Double.constantForm d ++ ")"
  | bool b => "Bool(" ++ boolText b ++ ")"
  | char c => "Char(" ++ Text.quoteChar c ++ ")"
  | str s => "Str(" ++ Text.quoteString s ++ ")"

end Literal
end FrameMachine
