import FrameMachine.Double.Basic

/-!
# The nearest double

A ratio of natural numbers, a decimal or an integer is rounded to the nearest double; of two
that are equally near the one with the even code is taken. From half a unit above the largest
finite double on, the result is infinite. In the other direction a double is cut off to an
integer of 64 bits.
-/

set_option autoImplicit false

namespace FrameMachine

/-- A decimal fraction: `digits * 10 ^ exponent`. -/
structure Decimal where
  digits : Nat
  exponent : Int
deriving DecidableEq

namespace Double

/-- The quotient rounded to the nearest natural number, a half to the even neighbour. -/
def roundDiv (num den : Nat) : Nat :=
  let quotient := num / den
  let twice := 2 * (num % den)
  if twice < den || (twice = den && quotient % 2 = 0) then quotient else quotient + 1

/-- The code of the magnitude nearest to `num / den`.

In units of `2 ^ -1074` the ratio is `num * 2 ^ 1074 / den`. The unit of the last place is doubled
as long as the ratio has more than 53 binary digits in front of the point, and the rest is rounded.
A significand that is rounded up to `2 ^ 53` carries into the exponent field, as it should. -/
def nearestCode (num den : Nat) : Nat :=
  let shifted := num * Nat.pow 2 1074
  let doublings := (shifted / den).log2 - 52
  min infinityCode (doublings * Nat.pow 2 52 + roundDiv shifted (den * Nat.pow 2 doublings))

/-- The code of the magnitude nearest to a decimal. The powers of ten are computed only where the
decimal is neither far above the largest double nor far below the least. -/
def nearestDecimalCode (d : Decimal) : Nat :=
  if d.digits = 0 then 0
  else if 400 < d.exponent then infinityCode
  else if d.exponent + d.digits.log2 < -400 then 0
  else nearestCode (d.digits * Nat.pow 10 d.exponent.toNat) (Nat.pow 10 (-d.exponent).toNat)

/-- The double nearest to a decimal with a sign. -/
def ofDecimal (negative : Bool) (d : Decimal) : Double := ofCode negative (nearestDecimalCode d)

/-- The double nearest to an integer. -/
def ofInt (i : Int) : Double := ofCode (i < 0) (nearestCode i.natAbs 1)

/-! ## Cutting off the fraction -/

/-- The integer in the range of 64 bits that is nearest to `i`. -/
def clampInt64 (i : Int) : Int64 :=
  if i < Int64.minValue.toInt then Int64.minValue
  else if Int64.maxValue.toInt < i then Int64.maxValue
  else Int64.ofInt i

/-- The whole part of a finite magnitude. -/
def wholePart (code : Nat) : Nat := units code / Nat.pow 2 1074

/-- The double without its fraction, as an integer. Numbers out of range, the infinities included,
give the end of the range, and what is no number gives zero. -/
def toInt64 (d : Double) : Int64 :=
  if d.isNaN then 0
  else
    let whole : Int := wholePart d.code
    clampInt64 (if d.negative then -whole else whole)

end Double
end FrameMachine
