import FrameMachine.Double.Reader
import FrameMachine.Fault
import FrameMachine.Text.Blank

/-!
# What the operators compute

The meaning of the operators and conversions on values. Except for the two tests of equality, every
operation refuses nil before it looks at anything else, and then every combination of types for
which it is not defined. Integer arithmetic is that of 64 bits and wraps around.
-/

set_option autoImplicit false

namespace FrameMachine

/-! ## Binary operators -/

/-- A pair of types to which an operator does not apply. -/
def mismatch (operation : String) (left right : Value) : Fault :=
  .invalidOperand (.undefinedForBoth operation left.type right.type)

namespace BinaryOp

/-- Integer arithmetic modulo `2 ^ 64`. A quotient is cut off toward zero and the remainder
has the sign of the dividend; the divisor must not be zero. Operators that are not arithmetic
give nothing. -/
def onInts? (op : BinaryOp) (a b : Int64) : Option (Except Fault Int64) :=
  match op with
  | add => some (.ok (a + b))
  | sub => some (.ok (a - b))
  | mul => some (.ok (a * b))
  | div => some (if b = 0 then .error .divisionByZero else .ok (a / b))
  | mod => some (if b = 0 then .error .divisionByZero else .ok (a % b))
  | _ => none

/-- Arithmetic on doubles. Division by either zero is an error, and there is no remainder. -/
def onDoubles? (op : BinaryOp) (a b : Double) : Option (Except Fault Double) :=
  match op with
  | add => some (.ok (a.add b))
  | sub => some (.ok (a.sub b))
  | mul => some (.ok (a.mul b))
  | div => some (if b.isZero then .error .divisionByZero else .ok (a.div b))
  | _ => none

/-- The truth of an ordering, given the strict and the weak order of the operands in
both directions. -/
def orders? (op : BinaryOp) {α : Type} (less atMost : α → α → Bool) (a b : α) : Option Bool :=
  match op with
  | lt => some (less a b)
  | le => some (atMost a b)
  | gt => some (less b a)
  | ge => some (atMost b a)
  | _ => none

/-- The bytes of a string in UTF-8. -/
def stringBytes (s : String) : List UInt8 := s.toUTF8.data.toList

/-- The strict order of strings, by their bytes in UTF-8. -/
def stringLess (a b : String) : Bool := stringBytes a < stringBytes b

/-- The weak order of strings, by their bytes in UTF-8. -/
def stringAtMost (a b : String) : Bool := !stringLess b a

/-- Arithmetic on two values. A sum with a string on either side joins the texts of the operands. -/
def arithmetic (op : BinaryOp) (left right : Value) : Except Fault Value :=
  match op, left, right with
  | add, .str s, v => .ok (.str (s ++ v.text))
  | add, v, .str s => .ok (.str (v.text ++ s))
  | op, .int a, .int b =>
    match op.onInts? a b with
    | some result => result.map Value.int
    | none => .error (mismatch op.mnemonic left right)
  | op, .double a, .double b =>
    match op.onDoubles? a b with
    | some result => result.map Value.double
    | none => .error (mismatch op.mnemonic left right)
  | op, left, right => .error (mismatch op.mnemonic left right)

/-- The order of two integers, doubles, characters or strings. -/
def comparison (op : BinaryOp) (left right : Value) : Except Fault Value :=
  let truth := match left, right with
    | .int a, .int b => op.orders? (fun x y => x < y) (fun x y => x ≤ y) a b
    | .double a, .double b => op.orders? Double.less Double.atMost a b
    | .char a, .char b => op.orders? (fun x y => x < y) (fun x y => x ≤ y) a b
    | .str a, .str b => op.orders? stringLess stringAtMost a b
    | _, _ => none
  match truth with
  | some b => .ok (.bool b)
  | none => .error (mismatch op.mnemonic left right)

/-- Conjunction and disjunction of two truth values, both of which are already there. -/
def connective (op : BinaryOp) (left right : Value) : Except Fault Value :=
  match op, left, right with
  | and, .bool a, .bool b => .ok (.bool (a && b))
  | or, .bool a, .bool b => .ok (.bool (a || b))
  | op, left, right => .error (mismatch op.mnemonic left right)

/-- The result of an operator, for operands that are not nil. -/
def applyDefined (op : BinaryOp) (left right : Value) : Except Fault Value :=
  match op with
  | add | sub | mul | div | mod => op.arithmetic left right
  | lt | le | gt | ge => op.comparison left right
  | and | or => op.connective left right
  | eq => .ok (.bool (left.equals right))
  | ne => .ok (.bool (!left.equals right))

/-- Whether the operator is one of the two tests of equality. -/
def isEquality : BinaryOp → Bool
  | eq | ne => true
  | _ => false

/-- The result of an operator. Only the tests of equality take nil. -/
def apply (op : BinaryOp) (left right : Value) : Except Fault Value :=
  if !op.isEquality && (left.isNil || right.isNil) then .error .nilDereference
  else op.applyDefined left right

end BinaryOp

/-! ## Unary operators -/

/-- Reads an integer of 64 bits. -/
def readInt64? (cs : List Char) : Option Int64 :=
  (Text.readInt? cs).bind fun i =>
    if Int64.minValue.toInt ≤ i ∧ i ≤ Int64.maxValue.toInt then some (Int64.ofInt i) else none

/-- Reads an integer from a text between blanks. A text that holds a finite number of another kind,
or an integer out of range, is read as a double and cut off. -/
def parseInt? (text : String) : Option Int64 :=
  let body := Text.trim text.toList
  match readInt64? body with
  | some i => some i
  | none => (Double.read? body).bind fun d => if d.isFinite then some d.toInt64 else none

/-- Reads a double from a text between blanks. -/
def parseDouble? (text : String) : Option Double := Double.read? (Text.trim text.toList)

namespace UnaryOp

/-- The result of a conversion that may not understand its text. -/
def converted (text : String) (target : NumberType) : Option Value → Except Fault Value
  | some v => .ok v
  | none => .error (.conversion text target)

/-- The result of an operation on one operand. -/
def apply (op : UnaryOp) (operand : Value) : Except Fault Value :=
  match op, operand with
  | _, .nil => .error .nilDereference
  | neg, .int i => .ok (.int (-i))
  | neg, .double d => .ok (.double d.neg)
  | not, .bool b => .ok (.bool !b)
  | length, .str s => .ok (.int (Int64.ofNat s.length))
  | toInt, .int i => .ok (.int i)
  | toInt, .double d => .ok (.int d.toInt64)
  | toInt, .str s => converted s .int ((parseInt? s).map .int)
  | toInt, .char c => converted c.toString .int ((parseInt? c.toString).map .int)
  | toInt, v => .error (.conversion v.text .int)
  | toDouble, .int i => .ok (.double (Double.ofInt i.toInt))
  | toDouble, .double d => .ok (.double d)
  | toDouble, .str s => converted s .double ((parseDouble? s).map .double)
  | toDouble, .char c => converted c.toString .double ((parseDouble? c.toString).map .double)
  | toDouble, v => .error (.conversion v.text .double)
  | toText, v => .ok (.str v.text)
  | op, v => .error (.invalidOperand (.undefinedFor op.mnemonic v.type))

end UnaryOp

/-! ## Characters of a string -/

/-- The character of a string at a place, counted from zero. -/
def charAt? (s : String) (place : Nat) : Option Char := (s.drop place).front?

/-- A string is looked up as the list of its characters. -/
theorem charAt?_eq_getElem? (s : String) (place : Nat) : charAt? s place = s.toList[place]? := by
  rw [charAt?, String.Slice.front?_eq, String.toList_copy_drop, List.head?_drop]

/-- The character of a string at an index, as a string of length one. -/
def charAt (string index : Value) : Except Fault Value :=
  if string.isNil || index.isNil then .error .nilDereference
  else match string, index with
    | .str s, .int i =>
      match if i < 0 then none else charAt? s i.toInt.toNat with
      | some c => .ok (.str c.toString)
      | none => .error (.indexOutOfRange i s.length)
    | _, _ => .error (mismatch "getchr" string index)

end FrameMachine
