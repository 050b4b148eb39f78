import FrameMachine.Double.Shortest
import Mathlib.Data.Nat.Dist
import Mathlib.Order.Monotone.Basic

/-!
# Rounding to the nearest double

A magnitude is given by scale and significand, and the code with them (`units_add`): codes are
ordered as the magnitudes are (`units_strictMono`), and from a power of two on all magnitudes are
multiples of the unit of the last place there (`dvd_units_or_lt`).

So it is enough to round a ratio to a multiple of this unit. The result is the nearest code, and the
even one of two that are equally near (`isNearest_nearestCode`). For a decimal the powers of ten
need not be computed if it is very large or very small (`nearestDecimalCode_eq`).
-/

set_option autoImplicit false

namespace FrameMachine.Double

/-! ## Codes and magnitudes -/

/-- Scale and significand give the code back. -/
theorem scale_add_significand (code : Nat) : scale code * 2 ^ 52 + significand code = code := by
  simp only [scale, significand, Nat.pow_eq]
  split <;> omega

theorem scale_eq_zero_or_le (code : Nat) : scale code = 0 ∨ 2 ^ 52 ≤ significand code := by
  simp only [scale, significand, Nat.pow_eq]
  split <;> omega

theorem significand_lt (code : Nat) : significand code < 2 ^ 53 := by
  simp only [significand, Nat.pow_eq]
  split <;> omega

theorem units_eq (code : Nat) : units code = significand code * 2 ^ scale code := rfl

/-- The magnitude of a code that is given by scale and significand. A significand of `2 ^ 53`
belongs to the next scale. -/
theorem units_add {d m : Nat} (hm : m ≤ 2 ^ 53) (h : d = 0 ∨ 2 ^ 52 ≤ m) :
    units (d * 2 ^ 52 + m) = m * 2 ^ d := by
  rcases Nat.lt_or_ge m (2 ^ 53) with hlt | hge
  · -- the fields of the code are read off
    have hscale : scale (d * 2 ^ 52 + m) = d := by
      simp only [scale, Nat.pow_eq]
      omega
    have hsignificand : significand (d * 2 ^ 52 + m) = m := by
      simp only [significand, Nat.pow_eq]
      split <;> omega
    rw [units_eq, hscale, hsignificand]
  · -- the carry makes the scale one more and the significand half as large
    obtain rfl : m = 2 ^ 53 := by omega
    have hscale : scale (d * 2 ^ 52 + 2 ^ 53) = d + 1 := by
      simp only [scale, Nat.pow_eq]
      omega
    have hsignificand : significand (d * 2 ^ 52 + 2 ^ 53) = 2 ^ 52 := by
      simp only [significand, Nat.pow_eq]
      split <;> omega
    rw [units_eq, hscale, hsignificand, Nat.pow_succ' (n := d)]
    omega

theorem units_strictMono : StrictMono units := by
  apply strictMono_nat_of_lt_succ
  intro code
  have hnext : code + 1 = scale code * 2 ^ 52 + (significand code + 1) := by
    have hcode := scale_add_significand code
    omega
  have hunits : units (code + 1) = (significand code + 1) * 2 ^ scale code := by
    rw [hnext]
    apply units_add
    · have := significand_lt code
      omega
    · have := scale_eq_zero_or_le code
      omega
  rw [hunits, units_eq]
  exact Nat.mul_lt_mul_of_pos_right (Nat.lt_succ_self _) (Nat.two_pow_pos _)

/-- The doubles from a power of two on are multiples of the unit of the last place there. -/
theorem dvd_units_or_lt (d code : Nat) :
    2 ^ d ∣ units code ∨ 0 < d ∧ units code < 2 ^ (52 + d) := by
  rcases Nat.lt_or_ge (scale code) d with hlt | hge
  · refine .inr ⟨Nat.zero_lt_of_lt hlt, ?_⟩
    calc units code < 2 ^ 53 * 2 ^ scale code := by
          rw [units_eq]
          exact Nat.mul_lt_mul_of_pos_right (significand_lt code) (Nat.two_pow_pos _)
      _ = 2 ^ (53 + scale code) := (Nat.pow_add ..).symm
      _ ≤ 2 ^ (52 + d) := Nat.pow_le_pow_right (by decide) (by omega)
  · left
    exact Nat.dvd_mul_left_of_dvd (Nat.pow_dvd_pow 2 hge) _

/-! ## Rounding a quotient -/

section RoundDiv

variable {num den k : Nat}

/-- The result is below a number if the quotient is more than a half below it, or just a half and
the number is odd. -/
theorem roundDiv_lt_iff (hden : 0 < den) :
    roundDiv num den < k ↔ 2 * num + den < 2 * (k * den) ∨ 2 * num + den = 2 * (k * den) ∧
      k % 2 = 1 := by
  have hnum : num / den * den + num % den = num := Nat.div_add_mod' num den
  have hmod : num % den < den := Nat.mod_lt num hden
  simp only [roundDiv, Bool.or_eq_true, Bool.and_eq_true, decide_eq_true_eq]
  generalize num / den = q at hnum ⊢
  generalize num % den = r at hnum hmod ⊢
  subst hnum
  -- the result is the quotient or the next number, so only the latter is in doubt
  rcases Nat.lt_trichotomy k (q + 1) with hk | rfl | hk
  · have hle : k * den ≤ q * den := Nat.mul_le_mul_right den (by omega)
    split <;> omega
  · have hsucc : (q + 1) * den = q * den + den := Nat.succ_mul q den
    split <;> omega
  · have hle : (q + 2) * den ≤ k * den := Nat.mul_le_mul_right den (by omega)
    rw [Nat.add_mul] at hle
    split <;> omega

theorem le_roundDiv (hden : 0 < den) (h : k * den ≤ num) : k ≤ roundDiv num den := by
  apply Nat.le_of_not_lt
  rw [roundDiv_lt_iff hden]
  omega

theorem roundDiv_le (hden : 0 < den) (h : num ≤ k * den) : roundDiv num den ≤ k := by
  have hsucc : (k + 1) * den = k * den + den := Nat.succ_mul k den
  apply Nat.le_of_lt_succ
  rw [Nat.succ_eq_add_one, roundDiv_lt_iff hden]
  omega

/-- Every other multiple of the denominator is farther away, or as far and the result is even. -/
theorem roundDiv_nearer (hden : 0 < den) (hk : k ≠ roundDiv num den) :
    Nat.dist (roundDiv num den * den) num < Nat.dist (k * den) num ∨
      Nat.dist (roundDiv num den * den) num = Nat.dist (k * den) num ∧
        roundDiv num den % 2 = 0 := by
  have hnot : ¬ roundDiv num den < roundDiv num den := Nat.lt_irrefl _
  have hself : roundDiv num den < roundDiv num den + 1 := Nat.lt_succ_self _
  rw [roundDiv_lt_iff hden] at hnot hself
  generalize roundDiv num den = m at hk hnot hself ⊢
  have hsucc : (m + 1) * den = m * den + den := Nat.succ_mul m den
  unfold Nat.dist
  rcases Nat.lt_or_gt_of_ne hk with hlt | hgt
  · have hle : (k + 1) * den ≤ m * den := Nat.mul_le_mul_right den hlt
    rw [Nat.add_mul] at hle
    omega
  · have hle : (m + 1) * den ≤ k * den := Nat.mul_le_mul_right den hgt
    omega

end RoundDiv

/-! ## The nearest code -/

/-- How far the magnitude of a code is from a ratio, in units of `2 ^ -1074` and multiplied by
the denominator. -/
def distance (num den code : Nat) : Nat := Nat.dist (units code * den) (num * unitsInOne)

/-- The magnitude of the first code is nearer to the ratio, or it is as near and the
code is even. -/
def Nearer (num den code c : Nat) : Prop :=
  distance num den code < distance num den c ∨ distance num den code = distance num den c ∧
    code % 2 = 0

/-- The code of the magnitude that is nearest to a ratio. The infinite one counts as the power of
two behind the finite ones. -/
structure IsNearest (num den code : Nat) : Prop where
  le_infinityCode : code ≤ infinityCode
  nearer : ∀ c ≤ infinityCode, c ≠ code → Nearer num den code c

/-- How often the unit of the last place is doubled for a ratio. -/
def doublings (num den : Nat) : Nat := (num * unitsInOne / den).log2 - 52

/-- The ratio in units of its last place. -/
def rounded (num den : Nat) : Nat := roundDiv (num * unitsInOne) (den * 2 ^ doublings num den)

section Nearest

variable {num den : Nat}

theorem nearestCode_eq (num den : Nat) :
    nearestCode num den = min infinityCode (doublings num den * 2 ^ 52 + rounded num den) := by
  unfold nearestCode rounded doublings unitsInOne
  simp only [Nat.pow_eq, -Nat.reducePow]

/-- After the doublings at most 53 binary digits are in front of the point. -/
theorem shifted_lt (hden : 0 < den) :
    num * unitsInOne < 2 ^ 53 * (den * 2 ^ doublings num den) := by
  have hlog : num * unitsInOne / den < 2 ^ (53 + doublings num den) := by
    apply Nat.lt_of_lt_of_le Nat.lt_log2_self
    apply Nat.pow_le_pow_right (by decide)
    rw [doublings]
    omega
  rw [Nat.div_lt_iff_lt_mul hden, Nat.pow_add] at hlog
  rwa [Nat.mul_comm den, ← Nat.mul_assoc]

/-- If there is a doubling at all, there are just 53. -/
theorem le_shifted (hden : 0 < den) (hpos : 0 < doublings num den) :
    2 ^ 52 * (den * 2 ^ doublings num den) ≤ num * unitsInOne := by
  have hne : num * unitsInOne / den ≠ 0 := by
    intro hzero
    rw [doublings, hzero] at hpos
    exact absurd hpos (by decide)
  have hexponent : 52 + doublings num den = (num * unitsInOne / den).log2 := by
    rw [doublings] at hpos ⊢
    omega
  have hlog : 2 ^ (52 + doublings num den) ≤ num * unitsInOne / den := by
    rw [hexponent]
    exact Nat.log2_self_le hne
  rw [Nat.le_div_iff_mul_le hden, Nat.pow_add] at hlog
  rwa [Nat.mul_comm den, ← Nat.mul_assoc]

theorem denominator_pos (hden : 0 < den) : 0 < den * 2 ^ doublings num den :=
  Nat.mul_pos hden (Nat.two_pow_pos _)

theorem rounded_le (hden : 0 < den) : rounded num den ≤ 2 ^ 53 :=
  roundDiv_le (denominator_pos hden) (Nat.le_of_lt (shifted_lt hden))

theorem le_rounded (hden : 0 < den) (hpos : 0 < doublings num den) : 2 ^ 52 ≤ rounded num den :=
  le_roundDiv (denominator_pos hden) (le_shifted hden hpos)

theorem units_rounded (hden : 0 < den) :
    units (doublings num den * 2 ^ 52 + rounded num den) =
      rounded num den * 2 ^ doublings num den :=
  units_add (rounded_le hden) ((Nat.eq_zero_or_pos _).imp_right (le_rounded hden))

/-- Before it is bounded, the code is nearest among all codes. -/
theorem nearer_rounded (hden : 0 < den) {c : Nat}
    (hc : c ≠ doublings num den * 2 ^ 52 + rounded num den) :
    Nearer num den (doublings num den * 2 ^ 52 + rounded num den) c := by
  have hcode : units (doublings num den * 2 ^ 52 + rounded num den) * den =
      rounded num den * (den * 2 ^ doublings num den) := by
    rw [units_rounded hden, Nat.mul_right_comm, Nat.mul_assoc]
  rw [Nearer, distance, distance, hcode]
  rcases dvd_units_or_lt (doublings num den) c with ⟨k, hk⟩ | ⟨hpos, hlt⟩
  · -- among the multiples of the unit of the last place the rounded one is nearest
    have hmultiple : units c * den = k * (den * 2 ^ doublings num den) := by
      rw [hk, Nat.mul_comm (2 ^ doublings num den), Nat.mul_right_comm, Nat.mul_assoc]
    have hne : k ≠ rounded num den := by
      rintro rfl
      apply hc
      apply units_strictMono.injective
      rw [units_rounded hden, hk, Nat.mul_comm]
    rw [hmultiple]
    apply (roundDiv_nearer (denominator_pos hden) hne).imp_right
    rintro ⟨heq, heven⟩
    refine ⟨heq, ?_⟩
    -- the scale adds an even number to the code
    rw [rounded] at hne ⊢
    omega
  · -- the power of two in between is a multiple of the unit of the last place
    left
    have hlow : units c * den < 2 ^ 52 * (den * 2 ^ doublings num den) := by
      rw [Nat.mul_comm den, ← Nat.mul_assoc, ← Nat.pow_add]
      exact Nat.mul_lt_mul_of_pos_right hlt hden
    have hshifted := le_shifted hden hpos
    have hpower : Nat.dist (rounded num den * (den * 2 ^ doublings num den)) (num * unitsInOne) ≤
        Nat.dist (2 ^ 52 * (den * 2 ^ doublings num den)) (num * unitsInOne) := by
      by_cases heq : 2 ^ 52 = rounded num den
      · rw [heq]
      · rcases roundDiv_nearer (denominator_pos hden) heq with hnearer | ⟨hequal, -⟩
        · exact Nat.le_of_lt hnearer
        · exact Nat.le_of_eq hequal
    apply Nat.lt_of_le_of_lt hpower
    rw [Nat.dist_eq_sub_of_le hshifted,
      Nat.dist_eq_sub_of_le (Nat.le_of_lt (Nat.lt_of_lt_of_le hlow hshifted))]
    exact Nat.sub_lt_sub_left (Nat.lt_of_lt_of_le hlow hshifted) hlow

/-- Bounding keeps the code nearest: a ratio that is nearest to a code behind the bound is not below
the bound itself. -/
theorem isNearest_nearestCode (hden : 0 < den) : IsNearest num den (nearestCode num den) := by
  rw [nearestCode_eq]
  rcases Nat.lt_or_ge infinityCode (doublings num den * 2 ^ 52 + rounded num den) with hlt | hge
  · rw [Nat.min_eq_left (Nat.le_of_lt hlt)]
    refine ⟨Nat.le_refl _, fun c hc hne => .inl ?_⟩
    have hbelow : units c * den < units infinityCode * den :=
      Nat.mul_lt_mul_of_pos_right (units_strictMono (Nat.lt_of_le_of_ne hc hne)) hden
    have habove := Nat.mul_lt_mul_of_pos_right (units_strictMono hlt) hden
    have hnearer := nearer_rounded hden (Nat.ne_of_lt hlt)
    unfold Nearer distance Nat.dist at hnearer
    unfold distance Nat.dist
    omega
  · rw [Nat.min_eq_right hge]
    exact ⟨hge, fun c _ hc => nearer_rounded hden hc⟩

/-! ## Decimals -/

theorem nearestCode_eq_zero (h : 2 * (num * unitsInOne) < den) : nearestCode num den = 0 := by
  have hdoublings : doublings num den = 0 := by
    rw [doublings, Nat.div_eq_of_lt (by omega)]
    rfl
  have hrounded : rounded num den < 1 := by
    rw [rounded, hdoublings, Nat.pow_zero, Nat.mul_one, roundDiv_lt_iff (by omega)]
    omega
  rw [nearestCode_eq, hdoublings]
  omega

theorem nearestCode_eq_infinityCode {e : Nat} (hden : 0 < den) (he : 2100 ≤ e)
    (h : 2 ^ e * den ≤ num * unitsInOne) :
    nearestCode num den = infinityCode := by
  have hlt : 2 ^ e * den < 2 ^ (53 + doublings num den) * den := by
    apply Nat.lt_of_le_of_lt h
    rw [Nat.pow_add, Nat.mul_assoc, Nat.mul_comm (2 ^ doublings num den)]
    exact shifted_lt hden
  have hexponent : e < 53 + doublings num den :=
    (Nat.pow_lt_pow_iff_right (by decide)).1 (Nat.lt_of_mul_lt_mul_right hlt)
  rw [nearestCode_eq, Nat.min_eq_left]
  rw [infinityCode, Nat.pow_eq]
  omega

/-- The exponent has a name here, so that the power is not computed. -/
theorem unitsInOne_eq {e : Nat} (he : e = 1074) : unitsInOne = 2 ^ e := by
  unfold unitsInOne
  rw [← he]
  rfl

theorem unitsInOne_pos : 0 < unitsInOne := by
  obtain ⟨e, he⟩ : ∃ e, e = 1074 := ⟨_, rfl⟩
  rw [unitsInOne_eq he]
  exact Nat.two_pow_pos e

theorem two_pow_le_ten_pow (n : Nat) : 2 ^ (3 * n) ≤ 10 ^ n := by
  rw [Nat.pow_mul]
  exact Nat.pow_le_pow_left (by decide) n

/-- The cases that are decided without powers of ten are decided as the others are. -/
theorem nearestDecimalCode_eq (d : Decimal) :
    nearestDecimalCode d =
      nearestCode (d.digits * 10 ^ d.exponent.toNat) (10 ^ (-d.exponent).toNat) := by
  obtain ⟨e, he⟩ : ∃ e, e = 1074 := ⟨_, rfl⟩
  rw [nearestDecimalCode, Nat.pow_eq, Nat.pow_eq]
  split
  next hzero =>
    rw [hzero, Nat.zero_mul, nearestCode_eq_zero]
    rw [Nat.zero_mul]
    exact Nat.pow_pos (by decide)
  next hdigits =>
    split
    next hlarge =>
      -- ten is more than eight, so the power of two is above all finite magnitudes
      have hden : (-d.exponent).toNat = 0 := by omega
      have hnum : 2 ^ (3 * d.exponent.toNat + e) * 1 ≤
          d.digits * 10 ^ d.exponent.toNat * unitsInOne := by
        rw [Nat.mul_one, Nat.pow_add, unitsInOne_eq he]
        apply Nat.mul_le_mul_right
        exact Nat.le_trans (two_pow_le_ten_pow _)
          (Nat.le_mul_of_pos_left _ (Nat.pos_of_ne_zero hdigits))
      rw [hden, Nat.pow_zero, nearestCode_eq_infinityCode Nat.one_pos (by omega) hnum]
    next =>
      split
      next hsmall =>
        -- the digits cannot make up for so many places behind the point
        have hnum : d.exponent.toNat = 0 := by omega
        rw [hnum, Nat.pow_zero, Nat.mul_one, nearestCode_eq_zero]
        calc 2 * (d.digits * unitsInOne) < 2 * (2 ^ (d.digits.log2 + 1) * 2 ^ e) := by
              rw [unitsInOne_eq he]
              apply Nat.mul_lt_mul_of_pos_left _ (by decide)
              exact Nat.mul_lt_mul_of_pos_right Nat.lt_log2_self (Nat.two_pow_pos _)
          _ = 2 ^ (d.digits.log2 + 1 + e + 1) := by
              rw [← Nat.pow_add, ← Nat.pow_succ']
          _ ≤ 2 ^ (3 * (-d.exponent).toNat) := Nat.pow_le_pow_right (by decide) (by omega)
          _ ≤ 10 ^ (-d.exponent).toNat := two_pow_le_ten_pow _
      next => rfl

end Nearest

end FrameMachine.Double
