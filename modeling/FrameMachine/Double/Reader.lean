import FrameMachine.Double.Nearest
import FrameMachine.Text.Digits

/-!
# Reading a double

The accepted texts are an optional sign followed by a number or, in letters of either case, by
`inf`, `infinity` or `nan`. A number has digits with at most one point among them, at least one
digit in all, and after them possibly `e` or `E` with a signed power of ten. The result is the
double nearest to the number.

The power may have any number of digits, but they count only until it has reached `2 ^ 16`. This
bounds the power, and makes a difference only for texts of more than sixty thousand digits.
-/

set_option autoImplicit false

namespace FrameMachine.Double

/-- The pattern that is taken for what is no number. -/
def nan : Double := ofCode false (infinityCode + Nat.pow 2 51)

/-- The power from which on further digits do not count. -/
def powerBound : Nat := Nat.pow 2 16

/-- The power that digits stand for. Those after the bound has been reached do not count. -/
def powerValue (digits : List Char) : Nat :=
  digits.foldl (fun n c => if n < powerBound then 10 * n + Text.digitValue c else n) 0

/-- Reads one or more digits of a power after an optional sign. -/
def readSignedPower? (cs : List Char) : Option Int :=
  let (negative, digits) := Text.splitSign cs
  if digits.isEmpty || !digits.all Text.isDigit then none
  else some (if negative then -(powerValue digits : Int) else powerValue digits)

/-- The power of ten after the digits: nothing, or an `e` and an integer. -/
def readPower? : List Char → Option Int
  | [] => some 0
  | c :: cs => if c = 'e' || c = 'E' then readSignedPower? cs else none

/-- Reads digits with at most one point and a power of ten. -/
def readDecimal? (cs : List Char) : Option Decimal :=
  let whole := cs.takeWhile Text.isDigit
  let rest := cs.dropWhile Text.isDigit
  let (fraction, tail) := match rest with
    | '.' :: more => (more.takeWhile Text.isDigit, more.dropWhile Text.isDigit)
    | _ => ([], rest)
  if whole.isEmpty && fraction.isEmpty then none
  else (readPower? tail).map fun power =>
    ⟨Text.digitsValue (whole ++ fraction), power - fraction.length⟩

/-- Reads the names of what is infinite or no number, and numbers. -/
def readMagnitude? (negative : Bool) (cs : List Char) : Option Double :=
  let word := cs.map Char.toLower
  if word = "inf".toList || word = "infinity".toList then some (ofCode negative infinityCode)
  else if word = "nan".toList then some nan
  else (readDecimal? cs).map (ofDecimal negative)

/-- Reads the text of a double. -/
def read? (cs : List Char) : Option Double :=
  let (negative, body) := Text.splitSign cs
  readMagnitude? negative body

end FrameMachine.Double
