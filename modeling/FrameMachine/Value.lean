import FrameMachine.Literal

/-!
# Values

The values that a running program computes with. A reference names an object of the
heap by its number.
-/

set_option autoImplicit false

namespace FrameMachine

/-- The types of values. -/
inductive ValueType where
  | nil | int | double | bool | char | string | object
deriving DecidableEq

/-- The name of a type in messages. -/
def ValueType.name : ValueType → String
  | nil => "nil"
  | int => "int"
  | double => "double"
  | bool => "bool"
  | char => "char"
  | string => "string"
  | object => "object"

/-- A value at run time. -/
inductive Value where
  | nil
  | int (value : Int64)
  | double (value : Double)
  | bool (value : Bool)
  | char (value : Char)
  | str (value : String)
  | ref (object : Nat)
deriving DecidableEq, Inhabited

/-- The value of a constant. -/
def Literal.toValue : Literal → Value
  | nil => .nil
  | int i => .int i
  | double d => .double d
  | bool b => .bool b
  | char c => .char c
  | str s => .str s

namespace Value

/-- The type of a value. -/
def type : Value → ValueType
  | nil => .nil
  | int _ => .int
  | double _ => .double
  | bool _ => .bool
  | char _ => .char
  | str _ => .string
  | ref _ => .object

/-- The text of a value, as it is printed. An object is shown by its number. -/
def text : Value → String
  | nil => "nil"
  | int i => intText i
  | double d => doubleText Double.valueForm d
  | bool b => boolText b
  | char c => c.toString
  | str s => s
  | ref id => String.ofList (Text.natDigits id)

/-- Whether the value is nil. -/
def isNil (v : Value) : Bool := v.type = .nil

/-- Equality as the language has it: values of different types differ, doubles are compared as
numbers, and references by the object that they name. -/
def equals : Value → Value → Bool
  | nil, nil => true
  | int a, int b => a = b
  | double a, double b => a.equals b
  | bool a, bool b => a = b
  | char a, char b => a = b
  | str a, str b => a = b
  | ref a, ref b => a = b
  | _, _ => false

end Value
end FrameMachine
