/-!
# Double precision numbers

A double is held as its 64 bits: a sign, an exponent field of eleven bits and a fraction field of
fifty-two. Without the sign bit the pattern is a natural number, the *code* of the magnitude. Codes
are ordered as the magnitudes are, from `0` for zero through the finite values to `infinityCode`;
the codes above stand for no number.

A finite magnitude is `significand c * 2 ^ scale c` units of `2 ^ -1074`, the least positive double.
The same two numbers give the code back, `scale c * 2 ^ 52 + significand c`, for small values
(`scale c = 0`) as for the others.
-/

set_option autoImplicit false

namespace FrameMachine

/-- A double precision number, held as its bit pattern. -/
structure Double where
  /-- Sign, exponent field and fraction field, from the highest bit down. -/
  bits : UInt64
deriving DecidableEq

namespace Double

/-! ## Codes of magnitudes -/

/-- The code of the infinite magnitude; smaller codes are finite. -/
def infinityCode : Nat := 2047 * Nat.pow 2 52

/-- How often the unit of the last place is doubled. -/
def scale (code : Nat) : Nat := code / Nat.pow 2 52 - 1

/-- The magnitude in units of its last place. -/
def significand (code : Nat) : Nat :=
  if code < Nat.pow 2 52 then code else Nat.pow 2 52 + code % Nat.pow 2 52

/-- The number of units of `2 ^ -1074` in a finite magnitude. -/
def units (code : Nat) : Nat := significand code * Nat.pow 2 (scale code)

/-- The double with this sign and this code of its magnitude. -/
def ofCode (negative : Bool) (code : Nat) : Double :=
  ⟨UInt64.ofNat (if negative then code + Nat.pow 2 63 else code)⟩

/-- The sign bit. -/
def negative (d : Double) : Bool := Nat.pow 2 63 ≤ d.bits.toNat

/-- The bit pattern without its sign. -/
def code (d : Double) : Nat := d.bits.toNat % Nat.pow 2 63

/-- The pattern stands for no number. -/
def isNaN (d : Double) : Bool := infinityCode < d.code

/-- The pattern stands for a number, and not for an infinity. -/
def isFinite (d : Double) : Bool := d.code < infinityCode

/-- Zero, with either sign. -/
def isZero (d : Double) : Bool := d.code = 0

/-! ## Arithmetic and comparison -/

/-- The number for which the pattern stands. -/
def toFloat (d : Double) : Float := Float.ofBits d.bits

/-- The pattern of a number. -/
def ofFloat (x : Float) : Double := ⟨x.toBits⟩

/-- The number with the other sign. -/
def neg (d : Double) : Double := ofCode (!d.negative) d.code

/-- The sum, rounded to the nearest double. -/
def add (a b : Double) : Double := ofFloat (a.toFloat + b.toFloat)

/-- The difference, rounded to the nearest double. -/
def sub (a b : Double) : Double := ofFloat (a.toFloat - b.toFloat)

/-- The product, rounded to the nearest double. -/
def mul (a b : Double) : Double := ofFloat (a.toFloat * b.toFloat)

/-- The quotient, rounded to the nearest double. -/
def div (a b : Double) : Double := ofFloat (a.toFloat / b.toFloat)

/-- Equality of numbers: the two zeros are equal, and what is no number equals nothing. -/
def equals (a b : Double) : Bool := a.toFloat == b.toFloat

/-- Strictly less; never true of what is no number. -/
def less (a b : Double) : Bool := a.toFloat < b.toFloat

/-- Less or equal; never true of what is no number. -/
def atMost (a b : Double) : Bool := a.toFloat ≤ b.toFloat

end Double
end FrameMachine
