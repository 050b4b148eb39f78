/-!
# Decimal digit strings

Natural and whole numbers as lists of decimal digit characters, and the reading of such lists. A
number is written without leading zeros, and a negative one with `-` in front. Reading is more
liberal: it takes leading zeros and a `+`, but at least one digit and nothing else.
-/

set_option autoImplicit false

namespace FrameMachine.Text

/-- The digits of a natural number, most significant first; zero is `0`. -/
def natDigits (n : Nat) : List Char := Nat.toDigits 10 n

/-- The digits of a whole number, after a `-` if it is negative. -/
def intDigits : Int → List Char
  | .ofNat n => natDigits n
  | .negSucc n => '-' :: natDigits (n + 1)

/-- One of the ten characters `0` to `9`. -/
def isDigit (c : Char) : Bool := '0' ≤ c && c ≤ '9'

/-- The number that a digit stands for. -/
def digitValue (c : Char) : Nat := c.toNat - '0'.toNat

/-- A number while its digits are read. The latest digits are gathered in a small number and joined
to the large one in groups, so that a long list takes few operations on large numbers. -/
structure Gathered where
  high : Nat := 0
  scale : Nat := 1
  low : Nat := 0

namespace Gathered

/-- The number that has been read. -/
def value (g : Gathered) : Nat := g.high * g.scale + g.low

/-- The number with one more digit. -/
def digit (g : Gathered) (d : Nat) : Gathered :=
  if g.scale < Nat.pow 10 17 then ⟨g.high, 10 * g.scale, 10 * g.low + d⟩
  else ⟨g.high * (10 * g.scale) + (10 * g.low + d), 1, 0⟩

/-- One more digit makes the number ten times as large and adds the digit. -/
theorem value_digit (g : Gathered) (d : Nat) : (g.digit d).value = 10 * g.value + d := by
  have h : g.high * (10 * g.scale) = 10 * (g.high * g.scale) := Nat.mul_left_comm _ _ _
  unfold digit
  split <;> simp only [value] <;> omega

end Gathered

/-- The number that a list of digits stands for in base ten. -/
def digitsValue (cs : List Char) : Nat :=
  (cs.foldl (fun g c => g.digit (digitValue c)) ({} : Gathered)).value

/-- Reading digits from left to right, whatever has been read before. -/
theorem value_foldl_digit (cs : List Char) (g : Gathered) :
    (cs.foldl (fun g c => g.digit (digitValue c)) g).value =
      cs.foldl (fun n c => 10 * n + digitValue c) g.value := by
  induction cs generalizing g with
  | nil => rfl
  | cons c cs ih => rw [List.foldl_cons, List.foldl_cons, ih, Gathered.value_digit]

/-- The value of a list of digits by the rule of base ten. -/
theorem digitsValue_eq_foldl (cs : List Char) :
    digitsValue cs = cs.foldl (fun n c => 10 * n + digitValue c) 0 :=
  value_foldl_digit cs {}

/-- Reads a list that consists of one or more digits. -/
def readNat? (cs : List Char) : Option Nat :=
  if cs.isEmpty || !cs.all isDigit then none else some (digitsValue cs)

/-- A sign and what follows it: `true` after a `-`, `false` after a `+` or without a sign. -/
def splitSign : List Char → Bool × List Char
  | '-' :: cs => (true, cs)
  | '+' :: cs => (false, cs)
  | cs => (false, cs)

/-- Reads one or more digits after an optional sign. -/
def readInt? (cs : List Char) : Option Int :=
  let (negative, body) := splitSign cs
  (readNat? body).map fun n => if negative then -(n : Int) else n

end FrameMachine.Text
