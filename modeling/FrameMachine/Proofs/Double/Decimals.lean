import FrameMachine.Double.Reader
import FrameMachine.Proofs.Double.WholePart
import Mathlib.Algebra.Order.Field.Rat
import Mathlib.Algebra.Order.Field.Power
import Mathlib.Tactic.FieldSimp

/-!
# The decimals of a double

A decimal stands for a rational number (`Decimal.value`), and the double nearest to it depends on
this number alone (`nearestDecimalCode_congr`): digits and exponent may change as long as the number
does not. Removing zeros at the end of the digits is such a change.

So the decimal that is chosen for a double, whichever it is, has this double as its nearest
(`nearestDecimalCode_shortest`): one that has been found was tested, and the exact value has
distance zero. Since the double is finite and not zero, the first digit of the decimal is not far
from the point (`natAbs_place_lt`).
-/

set_option autoImplicit false

namespace FrameMachine

/-- The number that a decimal stands for. -/
def Decimal.value (d : Decimal) : ℚ := d.digits * 10 ^ d.exponent

/-- Zeros at the end of the digits may as well stand in the exponent. -/
theorem Decimal.value_mul_ten_pow (digits n : Nat) (exponent : Int) :
    (⟨digits * 10 ^ n, exponent⟩ : Decimal).value = (⟨digits, exponent + n⟩ : Decimal).value := by
  rw [value, value, zpow_add₀ (by norm_num), zpow_natCast]
  push_cast
  ring

namespace Double

/-! ## The nearest double of a number -/

section Ratio

variable {num den num' den' k : Nat}

theorem roundDiv_mul (hk : 0 < k) : roundDiv (num * k) (den * k) = roundDiv num den := by
  have hquotient : num * k / (den * k) = num / den := Nat.mul_div_mul_right num den hk
  have hremainder : 2 * (num * k % (den * k)) = 2 * (num % den) * k := by
    rw [Nat.mul_mod_mul_right, Nat.mul_assoc]
  simp only [roundDiv, hquotient, hremainder, Nat.mul_lt_mul_right hk,
    Nat.mul_left_inj (Nat.ne_of_gt hk)]

/-- A factor of numerator and denominator makes no difference. -/
theorem nearestCode_mul (hk : 0 < k) : nearestCode (num * k) (den * k) = nearestCode num den := by
  have hdoublings : doublings (num * k) (den * k) = doublings num den := by
    rw [doublings, doublings, Nat.mul_right_comm, Nat.mul_div_mul_right _ _ hk]
  have hrounded : rounded (num * k) (den * k) = rounded num den := by
    rw [rounded, rounded, hdoublings, Nat.mul_right_comm num, Nat.mul_right_comm den,
      roundDiv_mul hk]
  rw [nearestCode_eq, nearestCode_eq, hdoublings, hrounded]

theorem nearestCode_congr (hden : 0 < den) (hden' : 0 < den') (h : num * den' = num' * den) :
    nearestCode num den = nearestCode num' den' := by
  rw [← nearestCode_mul hden', h, Nat.mul_comm den, nearestCode_mul hden]

end Ratio

/-- Numerator and denominator of a decimal, as they are when powers of ten are computed. -/
theorem value_mul_denominator (d : Decimal) :
    d.value * (10 ^ (-d.exponent).toNat : Nat) = (d.digits * 10 ^ d.exponent.toNat : Nat) := by
  have hpower : (10 : ℚ) ^ d.exponent * 10 ^ (-d.exponent).toNat = 10 ^ d.exponent.toNat := by
    rw [← zpow_natCast, ← zpow_natCast, ← zpow_add₀ (by norm_num)]
    congr 1
    omega
  push_cast
  rw [Decimal.value, mul_assoc, hpower]

/-- The nearest double depends on the number alone. -/
theorem nearestDecimalCode_congr {d d' : Decimal} (h : d.value = d'.value) :
    nearestDecimalCode d = nearestDecimalCode d' := by
  rw [nearestDecimalCode_eq, nearestDecimalCode_eq]
  apply nearestCode_congr (Nat.pow_pos (by decide)) (Nat.pow_pos (by decide))
  have hd := value_mul_denominator d
  have hd' := value_mul_denominator d'
  rw [h] at hd
  have hcross : ((d.digits * 10 ^ d.exponent.toNat : Nat) : ℚ) * (10 ^ (-d'.exponent).toNat : Nat) =
      (d'.digits * 10 ^ d'.exponent.toNat : Nat) * (10 ^ (-d.exponent).toNat : Nat) := by
    rw [← hd, ← hd', mul_right_comm]
  exact_mod_cast hcross

/-! ## The decimal that is chosen -/

theorem value_normalize (d : Decimal) : d.normalize.value = d.value := by
  induction d using Decimal.normalize.induct with
  | case1 d h ih =>
    have hdigits : d.digits / 10 * 10 = d.digits := Nat.div_mul_cancel (Nat.dvd_of_mod_eq_zero h.2)
    have hshifted := Decimal.value_mul_ten_pow (d.digits / 10) 1 d.exponent
    rw [pow_one, hdigits] at hshifted
    rw [Decimal.normalize, if_pos h, ih]
    exact hshifted.symm
  | case2 d h => rw [Decimal.normalize, if_neg h]

/-- A number that is the magnitude of a code has this code as its nearest. -/
theorem nearestCode_of_exact {num den code : Nat} (hden : 0 < den) (hcode : code ≤ infinityCode)
    (h : units code * den = num * unitsInOne) : nearestCode num den = code := by
  by_contra hne
  have hnearest : IsNearest num den (nearestCode num den) := isNearest_nearestCode hden
  have hzero : distance num den code = 0 := by
    rw [distance, h, Nat.dist_self]
  rcases hnearest.nearer code hcode (Ne.symm hne) with hlt | ⟨heq, -⟩
  · omega
  · -- the nearest one is exact as well, and so has the same magnitude
    rw [hzero, distance] at heq
    have hunits : units (nearestCode num den) * den = units code * den :=
      (Nat.eq_of_dist_eq_zero heq).trans h.symm
    exact hne (units_strictMono.injective (Nat.eq_of_mul_eq_mul_right hden hunits))

theorem nearestDecimalCode_exactDecimal {code : Nat} (h : code ≤ infinityCode) :
    nearestDecimalCode (exactDecimal code) = code := by
  obtain ⟨e, he⟩ : ∃ e, e = 1074 := ⟨_, rfl⟩
  have hexact : exactDecimal code = ⟨units code * 5 ^ e, -e⟩ := by
    have hexponent : (-1074 : Int) = -e := by omega
    rw [exactDecimal, hexponent, ← he, Nat.pow_eq]
  have hten : (10 : Nat) ^ e = 5 ^ e * 2 ^ e := mul_pow 5 2 e
  rw [nearestDecimalCode_eq, hexact, Int.toNat_neg_natCast, neg_neg, Int.toNat_natCast]
  apply nearestCode_of_exact (Nat.pow_pos (by decide)) h
  rw [unitsInOne_eq he, pow_zero, mul_one, mul_assoc, hten]

theorem nearestDecimalCode_candidate {code : Nat} {place : Int} {d : Decimal}
    (h : candidate? code place = some d) :
    nearestDecimalCode d = code := by
  simp only [candidate?] at h
  split at h
  · rename_i hlower
    obtain rfl := Option.some.inj h
    exact hlower.1
  · split at h
    · rename_i hupper
      obtain rfl := Option.some.inj h
      exact hupper
    · cases h

/-- The decimal of a double has this double as its nearest. -/
theorem nearestDecimalCode_shortest {code : Nat} (h : code ≤ infinityCode) :
    nearestDecimalCode (shortest code) = code := by
  rw [shortest, nearestDecimalCode_congr (value_normalize _)]
  cases hfound : (List.range 17).findSome? fun n : Nat =>
    candidate? code (decimalScale code - 1 - n) with
  | none => exact nearestDecimalCode_exactDecimal h
  | some d =>
    obtain ⟨n, -, hcandidate⟩ := List.exists_of_findSome?_eq_some hfound
    exact nearestDecimalCode_candidate hcandidate

/-! ## The place of the point -/

section Place

variable {d : Decimal} {e : Nat}

theorem digits_ne_zero (h : nearestDecimalCode d ≠ 0) : d.digits ≠ 0 := by
  intro hzero
  exact h (by rw [nearestDecimalCode, if_pos hzero])

theorem lt_ten_pow_length (n : Nat) : n < 10 ^ (Text.natDigits n).length :=
  (Nat.length_toDigits_le_iff (by decide) Nat.length_toDigits_pos).1 (Nat.le_refl _)

theorem ten_pow_length_le {n : Nat} (h : n ≠ 0) : 10 ^ ((Text.natDigits n).length - 1) ≤ n := by
  rcases Nat.eq_zero_or_pos ((Text.natDigits n).length - 1) with hone | hmore
  · rw [hone]
    exact Nat.pos_of_ne_zero h
  · apply Nat.le_of_not_lt
    intro hlt
    have hle : (Text.natDigits n).length ≤ (Text.natDigits n).length - 1 :=
      (Nat.length_toDigits_le_iff (by decide) hmore).2 hlt
    omega

/-- The number is less than `2 ^ 1026`. -/
theorem place_lt (he : e = 2100) (hzero : nearestDecimalCode d ≠ 0)
    (hinfinity : nearestDecimalCode d ≠ infinityCode) :
    (Text.natDigits d.digits).length + d.exponent ≤ e := by
  have hlow := ten_pow_length_le (digits_ne_zero hzero)
  rw [nearestDecimalCode_eq] at hinfinity
  generalize (Text.natDigits d.digits).length = length at hlow ⊢
  have hlt : 10 ^ (length - 1 + d.exponent.toNat) < 10 ^ (e + (-d.exponent).toNat) := by
    calc 10 ^ (length - 1 + d.exponent.toNat) = 10 ^ (length - 1) * 10 ^ d.exponent.toNat :=
      Nat.pow_add ..
      _ ≤ d.digits * 10 ^ d.exponent.toNat := Nat.mul_le_mul_right _ hlow
      _ ≤ d.digits * 10 ^ d.exponent.toNat * unitsInOne := Nat.le_mul_of_pos_right _ unitsInOne_pos
      _ < 2 ^ e * 10 ^ (-d.exponent).toNat := by
        apply Nat.lt_of_not_le
        intro hle
        exact hinfinity (nearestCode_eq_infinityCode (Nat.pow_pos (by decide))
          (Nat.le_of_eq he.symm) hle)
      _ ≤ 10 ^ e * 10 ^ (-d.exponent).toNat :=
        Nat.mul_le_mul_right _ (Nat.pow_le_pow_left (by decide) e)
      _ = 10 ^ (e + (-d.exponent).toNat) := (Nat.pow_add ..).symm
  have hexponents := (Nat.pow_lt_pow_iff_right (by decide)).1 hlt
  omega

/-- The number is at least half the least positive double. -/
theorem lt_place (he : e = 1074) (hzero : nearestDecimalCode d ≠ 0) :
    -((e : Int) + 1) < (Text.natDigits d.digits).length + d.exponent := by
  have hhigh := lt_ten_pow_length d.digits
  rw [nearestDecimalCode_eq] at hzero
  generalize (Text.natDigits d.digits).length = length at hhigh ⊢
  have hlt : 10 ^ (-d.exponent).toNat < 10 ^ (length + d.exponent.toNat + (e + 1)) := by
    calc 10 ^ (-d.exponent).toNat ≤ 2 * (d.digits * 10 ^ d.exponent.toNat * unitsInOne) := by
          apply Nat.le_of_not_lt
          intro hlt
          exact hzero (nearestCode_eq_zero hlt)
      _ = d.digits * 10 ^ d.exponent.toNat * 2 ^ (e + 1) := by
          rw [unitsInOne_eq he, Nat.pow_succ]
          ring
      _ < 10 ^ length * 10 ^ d.exponent.toNat * 2 ^ (e + 1) := by
          apply Nat.mul_lt_mul_of_pos_right _ (Nat.two_pow_pos _)
          exact Nat.mul_lt_mul_of_pos_right hhigh (Nat.pow_pos (by decide))
      _ ≤ 10 ^ length * 10 ^ d.exponent.toNat * 10 ^ (e + 1) :=
          Nat.mul_le_mul_left _ (Nat.pow_le_pow_left (by decide) _)
      _ = 10 ^ (length + d.exponent.toNat + (e + 1)) := by
          rw [Nat.pow_add 10 (length + d.exponent.toNat), Nat.pow_add 10 length]
  have hexponents := (Nat.pow_lt_pow_iff_right (by decide)).1 hlt
  omega

/-- The power of ten of the first digit is far below the bound for powers that are read. -/
theorem natAbs_place_lt (hzero : nearestDecimalCode d ≠ 0)
    (hinfinity : nearestDecimalCode d ≠ infinityCode) :
    ((Text.natDigits d.digits).length + d.exponent - 1).natAbs < powerBound := by
  have hhigh := place_lt rfl hzero hinfinity
  have hlow := lt_place rfl hzero
  have hbound : powerBound = 65536 := rfl
  omega

end Place

end Double

end FrameMachine
