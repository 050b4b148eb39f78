import FrameMachine.Machine.Execute
import Mathlib.Tactic.Ring

/-!
# Integer arithmetic

The integers have 64 bits. Sums, differences, products and negations are the exact results reduced
to this range (`IsResidue`). A quotient is cut off toward zero. It is out of the range in one case
only, the least integer divided by minus one, and is reduced to the range there as well
(`toInt_div_of_not_overflow`); the remainder is exact in all cases.

The results are those that the instructions leave on the stack (`Instr.Yields`), for any activation
that has the two integers on top of its stack (`Instr.integers_wrap`).
-/

set_option autoImplicit false

namespace FrameMachine

/-! ## Instructions that replace their operands by a result -/

/-- With these operands on the stack, the first one on top, the instruction puts the outcome in
their place if it is a value, and fails with it if it is a fault. Nothing else changes. -/
def Instr.Yields (i : Instr) (operands : List Value) (outcome : Except Fault Value) : Prop :=
  ∀ (code : Code) (f : Frame) (w : World),
    i.execute code { f with stack := operands ++ f.stack } w = Effect.pushing f w outcome

theorem Instr.yields_unary (op : UnaryOp) (v : Value) : (Instr.unary op).Yields [v] (op.apply v) :=
  fun _ _ _ => rfl

/-- The right operand is on top. -/
theorem Instr.yields_binary (op : BinaryOp) (left right : Value) :
    (Instr.binary op).Yields [right, left] (op.apply left right) :=
  fun _ _ _ => rfl

theorem Effect.pushing_inj {f : Frame} {w : World} {x y : Except Fault Value}
    (h : pushing f w x = pushing f w y) :
    x = y := by
  cases x with
  | ok v =>
    cases y with
    | ok u =>
      injection h with hframe
      injection hframe with _ _ _ hstack
      injection hstack with hvalue
      rw [hvalue]
    | error e => cases h
  | error e =>
    cases y with
    | ok u => cases h
    | error e' =>
      injection h with hfault
      rw [hfault]

/-- There is at most one outcome. -/
theorem Instr.Yields.unique {i : Instr} {operands : List Value} {x y : Except Fault Value}
    (hx : i.Yields operands x) (hy : i.Yields operands y) : x = y := by
  -- any activation tells the two apart
  let f : Frame := { template := { name := "main", arity := 0, code := #[] } }
  have heq : Effect.pushing f {} x = Effect.pushing f {} y := (hx {} f {}).symm.trans (hy {} f {})
  exact Effect.pushing_inj heq

/-! ## The range of 64 bits -/

/-- The integer of 64 bits that differs from a number by a multiple of `2 ^ 64`. -/
structure IsResidue (n : Int) (r : Int64) : Prop where
  dvd_sub : (2 : Int) ^ 64 ∣ n - r.toInt
  le : -(2 : Int) ^ 63 ≤ r.toInt
  lt : r.toInt < (2 : Int) ^ 63

theorem isResidue_of_eq_bmod {n : Int} {r : Int64} (h : r.toInt = n.bmod (2 ^ 64)) :
    IsResidue n r where
  dvd_sub := by
    rw [h]
    exact Int.dvd_self_sub_bmod
  le := r.le_toInt
  lt := r.toInt_lt

section Division

variable {a b : Int64}

theorem toInt_ne_zero (h : b ≠ 0) : b.toInt ≠ 0 := by
  intro hzero
  exact h (Int64.toInt_inj.1 hzero)

/-- A quotient is exact, except where it is the first number behind the range. -/
theorem toInt_div_of_not_overflow (h : ¬ (a = Int64.minValue ∧ b = -1)) :
    (a / b).toInt = a.toInt.tdiv b.toInt := by
  by_cases ha : a = Int64.minValue
  · exact Int64.toInt_div_of_ne_right a b fun hb => h ⟨ha, hb⟩
  · exact Int64.toInt_div_of_ne_left a b ha

theorem natAbs_toInt_mod_lt (h : b ≠ 0) : (a % b).toInt.natAbs < b.toInt.natAbs := by
  rw [Int64.toInt_mod, Int.natAbs_tmod]
  exact Nat.mod_lt _ (Int.natAbs_pos.2 (toInt_ne_zero h))

theorem mod_eq_zero_or_sign (a b : Int64) : a % b = 0 ∨ (a % b).toInt.sign = a.toInt.sign := by
  have hsign : (a % b).toInt.sign = if b.toInt ∣ a.toInt then 0 else a.toInt.sign := by
    rw [Int64.toInt_mod, Int.sign_tmod]
  split at hsign
  · exact .inl (Int64.toInt_inj.1 (Int.sign_eq_zero_iff_zero.1 hsign))
  · exact .inr hsign

/-- Quotient and remainder give the dividend back, up to a multiple of `2 ^ 64`. -/
theorem dvd_sub_quotient_mul_add (a b : Int64) :
    (2 : Int) ^ 64 ∣ a.toInt - ((a / b).toInt * b.toInt + (a % b).toInt) := by
  have hquotient : (2 : Int) ^ 64 ∣ a.toInt.tdiv b.toInt - (a / b).toInt := by
    rw [Int64.toInt_div]
    exact Int.dvd_self_sub_bmod
  have hsplit : a.toInt - ((a / b).toInt * b.toInt + (a % b).toInt) =
      (a.toInt.tdiv b.toInt - (a / b).toInt) * b.toInt := by
    have hexact : a.toInt.tmod b.toInt + a.toInt.tdiv b.toInt * b.toInt = a.toInt :=
      Int.tmod_add_tdiv_mul _ _
    rw [Int64.toInt_mod, Int.sub_mul]
    omega
  rw [hsplit]
  exact hquotient.mul_right b.toInt

end Division

/-! ## Instructions on integers -/

section Instructions

variable {a b : Int64}

/-- Two integers are not refused before the operator is applied to them. -/
theorem BinaryOp.apply_ints (op : BinaryOp) {result : Except Fault Int64}
    (h : op.onInts? a b = some result) :
    op.apply (.int a) (.int b) = result.map Value.int := by
  cases op with
  | add | sub | mul | div | mod =>
    obtain rfl := Option.some.inj h
    rfl
  | and | or | lt | le | gt | ge | eq | ne => cases h

/-- The instruction of an operator leaves what the operator gives for integers. -/
theorem Instr.yields_ints (op : BinaryOp) {result : Except Fault Int64}
    (h : op.onInts? a b = some result) :
    (Instr.binary op).Yields [.int b, .int a] (result.map Value.int) := by
  rw [← op.apply_ints h]
  exact yields_binary op (.int a) (.int b)

theorem Instr.yields_div (h : b ≠ 0) :
    (Instr.binary .div).Yields [.int b, .int a] (.ok (.int (a / b))) := by
  have hquotient : BinaryOp.div.onInts? a b = some (.ok (a / b)) := by
    rw [BinaryOp.onInts?, if_neg h]
  exact yields_ints .div hquotient

theorem Instr.yields_mod (h : b ≠ 0) :
    (Instr.binary .mod).Yields [.int b, .int a] (.ok (.int (a % b))) := by
  have hremainder : BinaryOp.mod.onInts? a b = some (.ok (a % b)) := by
    rw [BinaryOp.onInts?, if_neg h]
  exact yields_ints .mod hremainder

/-- Only a divisor of zero is refused. -/
theorem Instr.yields_divisionByZero_iff {op : BinaryOp} (hop : op = .div ∨ op = .mod) :
    (Instr.binary op).Yields [.int b, .int a] (.error .divisionByZero) ↔ b = 0 := by
  constructor
  · intro hfails
    by_contra hb
    rcases hop with rfl | rfl
    · cases hfails.unique (yields_div hb)
    · cases hfails.unique (yields_mod hb)
  · rintro rfl
    rcases hop with rfl | rfl
    · exact yields_ints .div rfl
    · exact yields_ints .mod rfl

end Instructions

/-- Sums, differences, products and negations are reduced to the range of 64 bits. Quotients and
remainders fail if the divisor is zero, and only then. The quotient is cut off toward zero and the
remainder is less than the divisor and has the sign of the dividend; the quotient that is out of the
range is reduced to it, and then nothing remains. -/
theorem Instr.integers_wrap (a b : Int64) :
    (∃ r, (Instr.binary .add).Yields [.int b, .int a] (.ok (.int r)) ∧
      IsResidue (a.toInt + b.toInt) r) ∧
    (∃ r, (Instr.binary .sub).Yields [.int b, .int a] (.ok (.int r)) ∧
      IsResidue (a.toInt - b.toInt) r) ∧
    (∃ r, (Instr.binary .mul).Yields [.int b, .int a] (.ok (.int r)) ∧
      IsResidue (a.toInt * b.toInt) r) ∧
    (∃ r, (Instr.unary .neg).Yields [.int a] (.ok (.int r)) ∧ IsResidue (-a.toInt) r) ∧
    (∀ op, op = BinaryOp.div ∨ op = BinaryOp.mod →
      ((Instr.binary op).Yields [.int b, .int a] (.error .divisionByZero) ↔ b = 0)) ∧
    (b ≠ 0 → ∃ q r,
      (Instr.binary .div).Yields [.int b, .int a] (.ok (.int q)) ∧
      (Instr.binary .mod).Yields [.int b, .int a] (.ok (.int r)) ∧
      (2 : Int) ^ 64 ∣ a.toInt - (q.toInt * b.toInt + r.toInt) ∧
      r.toInt.natAbs < b.toInt.natAbs ∧
      (r = 0 ∨ r.toInt.sign = a.toInt.sign) ∧
      if a = Int64.minValue ∧ b = -1 then q = Int64.minValue ∧ r = 0
      else q.toInt = a.toInt.tdiv b.toInt) := by
  refine ⟨⟨_, yields_ints .add rfl, isResidue_of_eq_bmod (Int64.toInt_add a b)⟩,
    ⟨_, yields_ints .sub rfl, isResidue_of_eq_bmod (Int64.toInt_sub a b)⟩,
    ⟨_, yields_ints .mul rfl, isResidue_of_eq_bmod (Int64.toInt_mul a b)⟩,
    ⟨_, yields_unary .neg (.int a), isResidue_of_eq_bmod (Int64.toInt_neg a)⟩,
    fun op hop => yields_divisionByZero_iff hop, ?_⟩
  intro hb
  refine ⟨a / b, a % b, yields_div hb, yields_mod hb, dvd_sub_quotient_mul_add a b,
    natAbs_toInt_mod_lt hb, mod_eq_zero_or_sign a b, ?_⟩
  split
  · rename_i hoverflow
    obtain ⟨rfl, rfl⟩ := hoverflow
    decide
  · rename_i hno
    exact toInt_div_of_not_overflow hno

/-- The quotient that is out of the range, and one of a negative dividend. -/
theorem Instr.least_integers_wrap :
    (Instr.binary .div).Yields [.int (-1), .int Int64.minValue] (.ok (.int Int64.minValue)) ∧
    (Instr.binary .mod).Yields [.int (-1), .int Int64.minValue] (.ok (.int 0)) ∧
    (Instr.binary .div).Yields [.int 2, .int (-7)] (.ok (.int (-3))) ∧
    (Instr.binary .mod).Yields [.int 0, .int (-7)] (.error .divisionByZero) := by
  obtain ⟨q, r, hq, hr, -, -, -, hoverflow⟩ :=
    (integers_wrap Int64.minValue (-1)).2.2.2.2.2 (by decide)
  obtain ⟨rfl, rfl⟩ := hoverflow
  obtain ⟨q, r, hq', -, -, -, -, hexact⟩ := (integers_wrap (-7) 2).2.2.2.2.2 (by decide)
  obtain rfl : q = -3 := Int64.toInt_inj.1 hexact
  have hzero := (integers_wrap (-7) 0).2.2.2.2.1 .mod (.inr rfl)
  exact ⟨hq, hr, hq', hzero.2 rfl⟩

end FrameMachine
