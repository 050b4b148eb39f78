import FrameMachine.Proofs.Double.Rounding
import Mathlib.Data.Nat.Size
import Mathlib.Tactic.NthRewrite
import Mathlib.Tactic.Ring

/-!
# The whole part of the nearest double

A ratio is rounded to a double, and the double is cut off. The result is the whole part of the ratio
in some cases and in others not, and which they are is a matter of the distance between the doubles
(`wholePart_eq_iff`). From `2 ^ 53` on this distance is one or more, and the whole part has to be a
double itself. Below, the whole part is a double in any case, and so is the next integer: the
question is whether the ratio is rounded up to it.

A double out of the range of 64 bits is cut off to the end of the range, and this is the result for
all ratios out of the range (`le_wholePart_nearestCode`).
-/

set_option autoImplicit false

namespace FrameMachine.Double

/-- When the double nearest to a ratio has the same whole part. From `2 ^ 53` on the whole part has
at most 53 binary digits in front of its zeros. Below, what is missing to the next integer is more
than half the distance of the doubles in front of it; or it is just half, this distance is one, and
the whole part is even. -/
def KeepsWhole (num den : Nat) : Prop :=
  if num / den < 2 ^ 53 then
    den * 2 ^ (num / den).size < (den - num % den) * 2 ^ 54 ∨
      den * 2 ^ (num / den).size = (den - num % den) * 2 ^ 54 ∧ (num / den).size = 53 ∧
        num / den % 2 = 0
  else 2 ^ ((num / den).size - 53) ∣ num / den

instance (num den : Nat) : Decidable (KeepsWhole num den) :=
  inferInstanceAs (Decidable (ite (num / den < 2 ^ 53) (_ ∨ _) (_ ∣ _)))

section WholePart

variable {num den e : Nat}

/-- The doublings follow from the number of binary digits of the whole part. -/
theorem doublings_of_pos (he : e = 1074) (hden : 0 < den) (hpos : 0 < num / den) :
    doublings num den + 53 = e + (num / den).size := by
  have hsize : 0 < (num / den).size := Nat.size_pos.2 hpos
  have hlow : 2 ^ ((num / den).size - 1) * den ≤ num :=
    (Nat.le_div_iff_mul_le hden).1 (Nat.lt_size.1 (by omega))
  have hhigh : num < 2 ^ (num / den).size * den :=
    (Nat.div_lt_iff_lt_mul hden).1 (Nat.lt_size_self _)
  have hge : 2 ^ ((num / den).size - 1 + e) ≤ num * unitsInOne / den := by
    rw [Nat.le_div_iff_mul_le hden, unitsInOne_eq he, Nat.pow_add, Nat.mul_right_comm]
    exact Nat.mul_le_mul_right _ hlow
  have hlt : num * unitsInOne / den < 2 ^ ((num / den).size + e) := by
    rw [Nat.div_lt_iff_lt_mul hden, unitsInOne_eq he, Nat.pow_add, Nat.mul_right_comm]
    exact Nat.mul_lt_mul_of_pos_right hhigh (Nat.two_pow_pos e)
  -- the fraction does not change the number of binary digits
  have hlog : (num * unitsInOne / den).log2 = (num / den).size - 1 + e := by
    rw [Nat.log2_eq_iff (Nat.ne_of_gt (Nat.lt_of_lt_of_le (Nat.two_pow_pos _) hge))]
    refine ⟨hge, ?_⟩
    have hexponent : (num / den).size - 1 + e + 1 = (num / den).size + e := by omega
    rw [hexponent]
    exact hlt
  rw [doublings, hlog]
  omega

theorem doublings_of_zero (he : e = 1074) (hzero : num / den = 0) : doublings num den + 53 ≤ e := by
  have hlt : num * unitsInOne / den < 2 ^ e := by
    rcases Nat.eq_zero_or_pos den with rfl | hden
    · rw [Nat.div_zero]
      exact Nat.two_pow_pos e
    · rw [Nat.div_lt_iff_lt_mul hden, unitsInOne_eq he, Nat.mul_comm]
      exact Nat.mul_lt_mul_of_pos_left (Nat.lt_of_div_eq_zero hden hzero) (Nat.two_pow_pos e)
  rcases Nat.eq_zero_or_pos (num * unitsInOne / den) with hq | hq
  · rw [doublings, hq, Nat.log2_zero]
    omega
  · have hlog := (Nat.log2_lt (Nat.ne_of_gt hq)).2 hlt
    rw [doublings]
    omega

theorem doublings_le (he : e = 1074) (hden : 0 < den) :
    doublings num den + 53 ≤ e + (num / den).size := by
  rcases Nat.eq_zero_or_pos (num / den) with hzero | hpos
  · exact Nat.le_add_right_of_le (doublings_of_zero he hzero)
  · exact Nat.le_of_eq (doublings_of_pos he hden hpos)

/-- Up to the range of 64 bits the nearest double is finite. -/
theorem nearestCode_lt_infinityCode (hden : 0 < den) (h : num / den ≤ 2 ^ 63) :
    nearestCode num den < infinityCode := by
  obtain ⟨e, he⟩ : ∃ e, e = 1074 := ⟨_, rfl⟩
  have hsize : (num / den).size ≤ 64 := Nat.size_le.2 (by omega)
  have hdoublings : doublings num den + 53 ≤ e + (num / den).size := doublings_le he hden
  have hrounded : rounded num den ≤ 2 ^ 53 := rounded_le hden
  rw [nearestCode_eq, infinityCode, Nat.pow_eq]
  omega

theorem wholePart_eq (code : Nat) : wholePart code = units code / unitsInOne := by
  unfold wholePart unitsInOne
  rfl

theorem wholePart_nearestCode (hden : 0 < den) (h : nearestCode num den < infinityCode) :
    wholePart (nearestCode num den) = rounded num den * 2 ^ doublings num den / unitsInOne := by
  rw [nearestCode_eq] at h ⊢
  rw [Nat.min_eq_right (by omega), wholePart_eq, units_rounded hden]

/-! ## From `2 ^ 53` on -/

/-- The unit of the last place is a whole number. -/
theorem two_pow_doublings (hden : 0 < den) (h : 2 ^ 53 ≤ num / den) :
    2 ^ doublings num den = 2 ^ ((num / den).size - 53) * unitsInOne := by
  obtain ⟨e, he⟩ : ∃ e, e = 1074 := ⟨_, rfl⟩
  have hsize : 53 < (num / den).size := Nat.lt_size.2 h
  have hdoublings : doublings num den + 53 = e + (num / den).size :=
    doublings_of_pos he hden (by omega)
  rw [unitsInOne_eq he, ← Nat.pow_add]
  congr 1
  omega

theorem wholePart_of_le (hden : 0 < den) (h : 2 ^ 53 ≤ num / den)
    (hfinite : nearestCode num den < infinityCode) :
    wholePart (nearestCode num den) = rounded num den * 2 ^ ((num / den).size - 53) := by
  rw [wholePart_nearestCode hden hfinite, two_pow_doublings hden h, ← Nat.mul_assoc]
  exact Nat.mul_div_cancel _ unitsInOne_pos

/-- A whole part that is a double itself stays, since what follows the point is at most half a unit
of the last place. -/
theorem rounded_of_eq_mul {k : Nat} (hden : 0 < den) (h : 2 ^ 53 ≤ num / den)
    (hk : num / den = 2 ^ ((num / den).size - 53) * k) : rounded num den = k := by
  have hsize : 53 < (num / den).size := Nat.lt_size.2 h
  have htwo : 2 ^ 1 ≤ 2 ^ ((num / den).size - 53) := Nat.pow_le_pow_right (by decide) (by omega)
  have hmul : k * (den * 2 ^ doublings num den) = num / den * den * unitsInOne := by
    rw [two_pow_doublings hden h]
    nth_rewrite 2 [hk]
    ring
  have hhalf : 2 * (den * unitsInOne) ≤ den * 2 ^ doublings num den := by
    rw [two_pow_doublings hden h, Nat.mul_left_comm]
    exact Nat.mul_le_mul_left den (Nat.mul_le_mul_right _ htwo)
  have hlt : num * unitsInOne < num / den * den * unitsInOne + den * unitsInOne := by
    rw [← Nat.add_mul]
    exact Nat.mul_lt_mul_of_pos_right (Nat.lt_div_mul_add hden) unitsInOne_pos
  apply Nat.le_antisymm
  · apply Nat.le_of_lt_succ
    rw [rounded, Nat.succ_eq_add_one, roundDiv_lt_iff (denominator_pos hden), Nat.add_mul, hmul]
    omega
  · apply le_roundDiv (denominator_pos hden)
    rw [hmul]
    exact Nat.mul_le_mul_right _ (Nat.div_mul_le_self num den)

theorem wholePart_eq_iff_of_le (hden : 0 < den) (h : 2 ^ 53 ≤ num / den)
    (hfinite : nearestCode num den < infinityCode) :
    wholePart (nearestCode num den) = num / den ↔ 2 ^ ((num / den).size - 53) ∣ num / den := by
  rw [wholePart_of_le hden h hfinite]
  constructor
  · intro heq
    exact ⟨rounded num den, by rw [Nat.mul_comm, heq]⟩
  · rintro ⟨k, hk⟩
    rw [rounded_of_eq_mul hden h hk, Nat.mul_comm, ← hk]

/-! ## Below `2 ^ 53` -/

/-- One is a multiple of the unit of the last place. -/
theorem unitsInOne_eq_mul (he : e = 1074) (hden : 0 < den) (h : num / den < 2 ^ 53) :
    unitsInOne = 2 ^ (e - doublings num den) * 2 ^ doublings num den := by
  have hsize : (num / den).size ≤ 53 := Nat.size_le.2 h
  have hdoublings : doublings num den + 53 ≤ e + (num / den).size := doublings_le he hden
  rw [unitsInOne_eq he, ← Nat.pow_add]
  congr 1
  omega

theorem wholePart_of_lt (he : e = 1074) (hden : 0 < den) (h : num / den < 2 ^ 53)
    (hfinite : nearestCode num den < infinityCode) :
    wholePart (nearestCode num den) = rounded num den / 2 ^ (e - doublings num den) := by
  rw [wholePart_nearestCode hden hfinite, unitsInOne_eq_mul he hden h]
  exact Nat.mul_div_mul_right _ _ (Nat.two_pow_pos _)

/-- The whole part does not get less, and it is kept if the next integer is not reached. -/
theorem wholePart_eq_iff_rounded_lt (he : e = 1074) (hden : 0 < den) (h : num / den < 2 ^ 53)
    (hfinite : nearestCode num den < infinityCode) :
    wholePart (nearestCode num den) = num / den ↔
      rounded num den < (num / den + 1) * 2 ^ (e - doublings num den) := by
  -- the whole part is a multiple of the unit of the last place, so the ratio is not
  -- rounded below it
  have hle : num / den * 2 ^ (e - doublings num den) ≤ rounded num den := by
    apply le_roundDiv (denominator_pos hden)
    calc num / den * 2 ^ (e - doublings num den) * (den * 2 ^ doublings num den)
        = num / den * den * unitsInOne := by
          rw [unitsInOne_eq_mul he hden h]
          ring
      _ ≤ num * unitsInOne := Nat.mul_le_mul_right _ (Nat.div_mul_le_self num den)
  rw [wholePart_of_lt he hden h hfinite, Nat.div_eq_iff (Nat.two_pow_pos _), Nat.add_mul]
  have hpos : 0 < 2 ^ (e - doublings num den) := Nat.two_pow_pos _
  omega

/-- The next integer is not reached if more than half a unit of the last place is missing. -/
theorem rounded_lt_iff (he : e = 1074) (hden : 0 < den) (h : num / den < 2 ^ 53) :
    rounded num den < (num / den + 1) * 2 ^ (e - doublings num den) ↔
      den * 2 ^ doublings num den < 2 * ((den - num % den) * unitsInOne) ∨
        den * 2 ^ doublings num den = 2 * ((den - num % den) * unitsInOne) ∧
          (num / den + 1) * 2 ^ (e - doublings num den) % 2 = 1 := by
  have hmod : num % den < den := Nat.mod_lt num hden
  -- what is missing to the next integer
  have hnext : (num / den + 1) * den = num + (den - num % den) := by
    have hdiv : num / den * den + num % den = num := Nat.div_add_mod' num den
    rw [Nat.add_mul]
    omega
  have hmul : (num / den + 1) * 2 ^ (e - doublings num den) * (den * 2 ^ doublings num den) =
      num * unitsInOne + (den - num % den) * unitsInOne := by
    rw [← Nat.add_mul, ← hnext, unitsInOne_eq_mul he hden h]
    ring
  rw [rounded, roundDiv_lt_iff (denominator_pos hden), hmul]
  omega

theorem keepsWhole_iff_of_lt (h : num / den < 2 ^ 53) :
    KeepsWhole num den ↔ den * 2 ^ (num / den).size < (den - num % den) * 2 ^ 54 ∨
      den * 2 ^ (num / den).size = (den - num % den) * 2 ^ 54 ∧ (num / den).size = 53 ∧
        num / den % 2 = 0 := by
  rw [KeepsWhole, if_pos h]

theorem rounded_lt_iff_keepsWhole (he : e = 1074) (hden : 0 < den) (h : num / den < 2 ^ 53)
    (hd : doublings num den + 53 = e + (num / den).size) :
    rounded num den < (num / den + 1) * 2 ^ (e - doublings num den) ↔ KeepsWhole num den := by
  have hsize : (num / den).size ≤ 53 := Nat.size_le.2 h
  -- both sides of the comparison in another unit
  have hleft : den * 2 ^ doublings num den * 2 ^ 53 = den * 2 ^ (num / den).size * unitsInOne := by
    rw [unitsInOne_eq he, Nat.mul_assoc, Nat.mul_assoc, ← Nat.pow_add, ← Nat.pow_add, hd,
      Nat.add_comm e]
  have hright : 2 * ((den - num % den) * unitsInOne) * 2 ^ 53 =
      (den - num % den) * 2 ^ 54 * unitsInOne := by
    ring
  -- the next integer has an odd code only where the doubles are the integers
  have hodd : (num / den + 1) * 2 ^ (e - doublings num den) % 2 = 1 ↔ (num / den).size = 53 ∧
      num / den % 2 = 0 := by
    have hexponent : e - doublings num den = 53 - (num / den).size := by omega
    rw [hexponent]
    rcases Nat.lt_or_eq_of_le hsize with hlt | heq
    · obtain ⟨k, hk⟩ := Nat.exists_eq_add_of_lt hlt
      have hsucc : 53 - (num / den).size = k + 1 := by omega
      rw [hsucc, Nat.pow_succ, ← Nat.mul_assoc]
      omega
    · rw [heq, Nat.sub_self, Nat.pow_zero, Nat.mul_one]
      omega
  rw [rounded_lt_iff he hden h, keepsWhole_iff_of_lt h, hodd,
    ← Nat.mul_lt_mul_right (Nat.two_pow_pos 53), hleft, hright,
    Nat.mul_lt_mul_right unitsInOne_pos, ← Nat.mul_left_inj (Nat.ne_of_gt (Nat.two_pow_pos 53)),
    hleft, hright, Nat.mul_left_inj (Nat.ne_of_gt unitsInOne_pos)]

/-- Below one half a ratio is far from one. -/
theorem rounded_lt_and_keepsWhole (he : e = 1074) (hden : 0 < den) (hzero : num / den = 0)
    (hd : doublings num den + 53 < e) :
    rounded num den < (num / den + 1) * 2 ^ (e - doublings num den) ∧ KeepsWhole num den := by
  constructor
  · apply Nat.lt_of_le_of_lt (rounded_le hden)
    rw [hzero, Nat.zero_add, Nat.one_mul]
    exact Nat.pow_lt_pow_right (by decide) (by omega)
  · have hhalf : 2 * num < den := by
      apply Nat.lt_of_mul_lt_mul_right (a := unitsInOne)
      calc 2 * num * unitsInOne < 2 * (2 ^ 53 * (den * 2 ^ doublings num den)) := by
            have hlt : num * unitsInOne < 2 ^ 53 * (den * 2 ^ doublings num den) := shifted_lt hden
            rw [Nat.mul_assoc]
            omega
        _ = den * 2 ^ (doublings num den + 54) := by ring
        _ ≤ den * unitsInOne := by
            rw [unitsInOne_eq he]
            exact Nat.mul_le_mul_left den (Nat.pow_le_pow_right (by decide) (by omega))
    rw [keepsWhole_iff_of_lt (by omega), hzero, Nat.size_zero, Nat.mod_eq_of_lt (by omega)]
    omega

/-- What `KeepsWhole` says of a ratio is so of its nearest double. -/
theorem wholePart_eq_iff (hden : 0 < den) (hfinite : nearestCode num den < infinityCode) :
    wholePart (nearestCode num den) = num / den ↔ KeepsWhole num den := by
  obtain ⟨e, he⟩ : ∃ e, e = 1074 := ⟨_, rfl⟩
  rcases Nat.lt_or_ge (num / den) (2 ^ 53) with hlt | hge
  · rw [wholePart_eq_iff_rounded_lt he hden hlt hfinite]
    rcases Nat.eq_zero_or_pos (num / den) with hzero | hpos
    · -- a whole part of zero says nothing about the doublings
      rcases Nat.lt_or_eq_of_le (doublings_of_zero he hzero) with hd | hd
      · obtain ⟨hrounded, hkeeps⟩ := rounded_lt_and_keepsWhole he hden hzero hd
        exact iff_of_true hrounded hkeeps
      · apply rounded_lt_iff_keepsWhole he hden hlt
        rw [hd, hzero, Nat.size_zero, Nat.add_zero]
    · exact rounded_lt_iff_keepsWhole he hden hlt (doublings_of_pos he hden hpos)
  · rw [wholePart_eq_iff_of_le hden hge hfinite, KeepsWhole, if_neg (Nat.not_lt.2 hge)]

theorem keepsWhole_of_eq_two_pow {k : Nat} (hk : 53 ≤ k) (h : num / den = 2 ^ k) :
    KeepsWhole num den := by
  have hle : 2 ^ 53 ≤ 2 ^ k := Nat.pow_le_pow_right (by decide) hk
  rw [KeepsWhole, h, if_neg (Nat.not_lt.2 hle), Nat.size_pow]
  exact Nat.pow_dvd_pow 2 (by omega)

/-! ## Out of the range of 64 bits -/

/-- The integers behind the range, and the last one in it, go to a double behind the range. -/
theorem le_wholePart_nearestCode (hden : 0 < den) (h : 2 ^ 63 - 1 ≤ num / den)
    (hfinite : nearestCode num den < infinityCode) : 2 ^ 63 ≤ wholePart (nearestCode num den) := by
  have hle : 2 ^ 53 ≤ num / den := by omega
  rw [wholePart_of_le hden hle hfinite]
  rcases Nat.lt_or_ge (num / den) (2 ^ 63) with hlt | hge
  · -- the doubles are 1024 apart here, so that the last integer is rounded up
    have hsize : (num / den).size = 63 := by
      apply Nat.le_antisymm (Nat.size_le.2 hlt)
      exact Nat.lt_size.2 (by omega)
    have hpower : den * 2 ^ doublings num den = 2 ^ 10 * (den * unitsInOne) := by
      rw [two_pow_doublings hden hle, hsize, Nat.mul_left_comm]
    have hnum : (2 ^ 63 - 1) * (den * unitsInOne) ≤ num * unitsInOne := by
      rw [← Nat.mul_assoc]
      exact Nat.mul_le_mul_right _ ((Nat.le_div_iff_mul_le hden).1 h)
    have hpos : 0 < den * unitsInOne := Nat.mul_pos hden unitsInOne_pos
    have hrounded : 2 ^ 53 ≤ rounded num den := by
      apply Nat.le_of_not_lt
      rw [rounded, roundDiv_lt_iff (denominator_pos hden), hpower]
      omega
    rw [hsize]
    omega
  · have hsize : 63 < (num / den).size := Nat.lt_size.2 hge
    have hdoublings : doublings num den + 53 = 1074 + (num / den).size :=
      doublings_of_pos rfl hden (by omega)
    calc 2 ^ 63 = 2 ^ 52 * 2 ^ 11 := by rw [← Nat.pow_add]
      _ ≤ rounded num den * 2 ^ ((num / den).size - 53) :=
        Nat.mul_le_mul (le_rounded hden (by omega)) (Nat.pow_le_pow_right (by decide) (by omega))

end WholePart

/-! ## Integers of 64 bits -/

theorem toInt_clampInt64 (i : Int) :
    (clampInt64 i).toInt =
      if i < Int64.minValue.toInt then Int64.minValue.toInt
      else if Int64.maxValue.toInt < i then Int64.maxValue.toInt else i := by
  rw [clampInt64]
  split
  next => rfl
  next hmin =>
    split
    next => rfl
    next hmax =>
      have hlast : Int64.maxValue.toInt = 2 ^ 63 - 1 := rfl
      apply Int64.toInt_ofInt_of_le (Int.not_lt.1 hmin)
      omega

section OfCode

variable {negative : Bool} {code : Nat}

theorem toNat_bits_ofCode (h : code ≤ infinityCode) :
    (ofCode negative code).bits.toNat = if negative then code + 2 ^ 63 else code := by
  rw [infinityCode, Nat.pow_eq] at h
  apply UInt64.toNat_ofNat_of_lt'
  rw [UInt64.size, Nat.pow_eq]
  split <;> omega

theorem code_ofCode (h : code ≤ infinityCode) : (ofCode negative code).code = code := by
  rw [Double.code, toNat_bits_ofCode h]
  rw [infinityCode, Nat.pow_eq] at h
  rw [Nat.pow_eq]
  split <;> omega

theorem negative_ofCode (h : code ≤ infinityCode) : (ofCode negative code).negative = negative := by
  rw [Double.negative, toNat_bits_ofCode h]
  rw [infinityCode, Nat.pow_eq] at h
  cases negative with
  | false => simp only [Nat.pow_eq, Bool.false_eq_true, if_false, decide_eq_false_iff_not]; omega
  | true => simp only [Nat.pow_eq, if_true, decide_eq_true_eq]; omega

/-- A finite double is cut off to its whole part, or to the end of the range. -/
theorem toInt64_ofCode (h : code ≤ infinityCode) :
    (ofCode negative code).toInt64 = clampInt64 (if negative then -(wholePart code : Int) else
      wholePart code) := by
  rw [toInt64, isNaN, code_ofCode h, negative_ofCode h, if_neg]
  simpa using h

end OfCode

end FrameMachine.Double
