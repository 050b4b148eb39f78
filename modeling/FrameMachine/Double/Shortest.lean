import FrameMachine.Double.Nearest
import FrameMachine.Text.Digits

/-!
# The shortest decimal of a double

Among the decimals whose nearest double is the given one, those with the fewest digits
are considered, and of these the one nearest to the double is taken; if two are equally
near, the larger.

For one digit, two digits and so on the two multiples of the last decimal place that enclose the
double are tried. Seventeen digits are always enough. Should no candidate be found the exact decimal
value is taken, so that the result has the given double as its nearest in any case.
-/

set_option autoImplicit false

namespace FrameMachine

/-- The same decimal without zeros at the end of its digits. -/
def Decimal.normalize (d : Decimal) : Decimal :=
  if d.digits ≠ 0 ∧ d.digits % 10 = 0 then
    Decimal.normalize ⟨d.digits / 10, d.exponent + 1⟩
  else d
termination_by d.digits

namespace Double

/-- The units of `2 ^ -1074` in one. -/
def unitsInOne : Nat := Nat.pow 2 1074

/-- The power of ten above a positive magnitude: it is less than `10 ^ k`, and at least a
tenth of that. -/
def decimalScale (code : Nat) : Int :=
  let u := units code
  if unitsInOne ≤ u then (Text.natDigits (u / unitsInOne)).length
  else 1 - (Text.natDigits (unitsInOne / u)).length

/-- The magnitude in multiples of `10 ^ place`, as numerator and denominator. -/
def inPlaces (code : Nat) (place : Int) : Nat × Nat :=
  (units code * Nat.pow 10 (-place).toNat, unitsInOne * Nat.pow 10 place.toNat)

/-- The decimal with `place` as its last place that stands for the magnitude: one of the two that
enclose it, if its nearest double is this one; the nearer if both qualify, and the upper if they are
equally near. -/
def candidate? (code : Nat) (place : Int) : Option Decimal :=
  let (num, den) := inPlaces code place
  let lower : Decimal := ⟨num / den, place⟩
  let upper : Decimal := ⟨num / den + 1, place⟩
  let lowerFits := nearestDecimalCode lower = code
  let upperFits := nearestDecimalCode upper = code
  if lowerFits ∧ (¬ upperFits ∨ 2 * (num % den) < den) then some lower
  else if upperFits then some upper
  else none

/-- The exact value of a finite magnitude as a decimal. -/
def exactDecimal (code : Nat) : Decimal := ⟨units code * Nat.pow 5 1074, -1074⟩

/-- The shortest decimal of a positive finite magnitude, without zeros at its end. -/
def shortest (code : Nat) : Decimal :=
  let top := decimalScale code
  let found := (List.range 17).findSome? fun (n : Nat) => candidate? code (top - 1 - n)
  (found.getD (exactDecimal code)).normalize

end Double
end FrameMachine
