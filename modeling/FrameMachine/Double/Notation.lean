import FrameMachine.Double.Shortest

/-!
# The text of a double

A double is written with the digits of its shortest decimal. From `10 ^ -4` up to, but not
including, `10 ^ 16` the point stands at its place, with at least one digit on either side;
zero is written so as well. Otherwise one digit stands in front of the point, and the power of
ten follows an `e`.

There are two forms. The one for values has a digit after the point in every case, `1.0e16`. The one
for constants in listings omits the point where nothing follows it, `1e16`.
-/

set_option autoImplicit false

namespace FrameMachine.Double

/-- How a double is written when its digits are followed by a power of ten. -/
structure Form where
  /-- A single digit is followed by a point and a zero. -/
  pointAlways : Bool

/-- The form of values. -/
def valueForm : Form := ⟨true⟩

/-- The form of constants in listings. -/
def constantForm : Form := ⟨false⟩

/-- The digits with the point `place` digits from the left, filled up with zeros on either side. -/
def positional (digits : List Char) (place : Int) : List Char :=
  if place ≤ 0 then '0' :: '.' :: (List.replicate (-place).toNat '0' ++ digits)
  else
    let whole := digits.take place.toNat
    let fraction := digits.drop place.toNat
    whole ++ List.replicate (place.toNat - digits.length) '0' ++
      '.' :: (if fraction.isEmpty then ['0'] else fraction)

/-- The digits with the point after the first, and the power of ten of that first digit. -/
def scientific (form : Form) (digits : List Char) (power : Int) : List Char :=
  let fraction := digits.drop 1
  let point := if !fraction.isEmpty then '.' :: fraction
    else if form.pointAlways then ['.', '0'] else []
  digits.take 1 ++ point ++ 'e' :: Text.intDigits power

/-- A decimal in positional notation if its first digit is within reach of the point, and otherwise
with a power of ten. -/
def layout (form : Form) (d : Decimal) : List Char :=
  let digits := Text.natDigits d.digits
  let place := digits.length + d.exponent
  if -4 < place ∧ place ≤ 16 then positional digits place
  else scientific form digits (place - 1)

/-- The text of a magnitude. -/
def magnitudeText (form : Form) (code : Nat) : List Char :=
  if infinityCode < code then "NaN".toList
  else if code = infinityCode then "inf".toList
  else if code = 0 then "0.0".toList
  else layout form (shortest code)

/-- The text of a double. What is no number has no sign. -/
def textIn (form : Form) (d : Double) : List Char :=
  if d.negative && !d.isNaN then '-' :: magnitudeText form d.code else magnitudeText form d.code

end FrameMachine.Double
