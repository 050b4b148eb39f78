import FrameMachine.Operation
import FrameMachine.Proofs.Double.WholePart
import FrameMachine.Proofs.Text.Recognition
import Mathlib.Data.List.TakeWhile

/-!
# Decimal numbers in texts

A text between blanks that holds a decimal number is converted to an integer. What should come out
is the number cut off toward zero (`Text.Numeral.truncated`). It does if the number has no point and
is in the range of 64 bits; all others are rounded to a double before they are cut off.

So a number in the range is always accepted, but the result is right in some cases only, and a
number out of the range gives the end of the range unless it is so large that the double is infinite
(`UnaryOp.toInt_numeral`).
-/

set_option autoImplicit false

namespace FrameMachine

namespace Text

section Runs

variable {test : Char → Bool} {cs rest : List Char}

/-- A run of characters that pass a test is taken as a whole, and no more than it. -/
theorem takeWhile_append_of_ends (hcs : ∀ c ∈ cs, test c = true) (hrest : Ends test rest) :
    (cs ++ rest).takeWhile test = cs := by
  rw [List.takeWhile_append_of_pos hcs]
  cases rest with
  | nil => exact List.append_nil cs
  | cons c rest => rw [List.takeWhile_cons_of_neg (by simp [ends_cons.1 hrest]), List.append_nil]

theorem dropWhile_append_of_ends (hcs : ∀ c ∈ cs, test c = true) (hrest : Ends test rest) :
    (cs ++ rest).dropWhile test = rest := by
  rw [List.dropWhile_append_of_pos hcs]
  cases rest with
  | nil => rfl
  | cons c rest => rw [List.dropWhile_cons_of_neg (by simp [ends_cons.1 hrest])]

end Runs

/-- The sign in front of a number. -/
inductive Sign
  | unsigned
  | plus
  | minus
deriving DecidableEq

namespace Sign

/-- The sign as it is written. -/
def chars : Sign → List Char
  | unsigned => []
  | plus => ['+']
  | minus => ['-']

/-- Whether the sign is a minus. -/
def negative : Sign → Bool
  | minus => true
  | unsigned | plus => false

/-- The whole number with this sign. -/
def apply (sign : Sign) (n : Nat) : Int := if sign.negative then -(n : Int) else n

end Sign

/-- A decimal number as it is written: a sign or none, one or more digits, and possibly a point with
digits behind it. -/
structure Numeral where
  sign : Sign
  whole : List Char
  fraction : Option (List Char)
  whole_ne_nil : whole ≠ []
  all_whole : whole.all isDigit = true
  all_fraction : fraction.all (·.all isDigit) = true

namespace Numeral

/-- The digits behind the point. -/
def places (x : Numeral) : List Char := x.fraction.getD []

/-- The point and what is behind it. -/
def tail (x : Numeral) : List Char :=
  match x.fraction with
  | none => []
  | some ds => '.' :: ds

/-- The number as it is written, without its sign. -/
def body (x : Numeral) : List Char := x.whole ++ x.tail

/-- The number as it is written. -/
def chars (x : Numeral) : List Char := x.sign.chars ++ x.body

/-- The number that all its digits make, as if there were no point. Without its sign the number is
this numerator divided by the denominator. -/
def numerator (x : Numeral) : Nat := digitsValue (x.whole ++ x.places)

/-- The power of ten by which the point divides the numerator. -/
def denominator (x : Numeral) : Nat := 10 ^ x.places.length

/-- The number, cut off toward zero. -/
def truncated (x : Numeral) : Int := (x.sign.apply x.numerator).tdiv x.denominator

/-- The number that has been cut off is in the range of 64 bits. -/
def Fits (x : Numeral) : Prop :=
  Int64.minValue.toInt ≤ x.truncated ∧ x.truncated ≤ Int64.maxValue.toInt

instance (x : Numeral) : Decidable x.Fits := inferInstanceAs (Decidable (_ ∧ _))

theorem isDigit_whole (x : Numeral) : ∀ c ∈ x.whole, isDigit c = true :=
  List.all_eq_true.1 x.all_whole

theorem isDigit_fraction (x : Numeral) {ds : List Char} (h : x.fraction = some ds) :
    ∀ c ∈ ds, isDigit c = true := by
  have hall := x.all_fraction
  rw [h] at hall
  exact List.all_eq_true.1 hall

theorem denominator_pos (x : Numeral) : 0 < x.denominator := Nat.pow_pos (by decide)

theorem truncated_eq (x : Numeral) : x.truncated = x.sign.apply (x.numerator / x.denominator) := by
  rw [truncated, Sign.apply, Sign.apply]
  split
  · rw [Int.neg_tdiv, Int.ofNat_tdiv]
  · rw [Int.ofNat_tdiv]

/-! ## Reading -/

theorem exists_body_eq_cons (x : Numeral) : ∃ c cs, x.body = c :: cs ∧ isDigit c = true := by
  obtain ⟨c, cs, hwhole⟩ := List.exists_cons_of_ne_nil x.whole_ne_nil
  refine ⟨c, cs ++ x.tail, by rw [body, hwhole, List.cons_append], x.isDigit_whole c ?_⟩
  rw [hwhole]
  exact List.mem_cons_self

theorem splitSign_append (x : Numeral) (rest : List Char) :
    splitSign (x.chars ++ rest) = (x.sign.negative, x.body ++ rest) := by
  rw [chars, List.append_assoc]
  cases x.sign with
  | plus => rfl
  | minus => rfl
  | unsigned =>
    obtain ⟨c, cs, hbody, hc⟩ := x.exists_body_eq_cons
    rw [Sign.chars, List.nil_append, hbody, List.cons_append, splitSign]
    · rfl
    · intro _ heq
      obtain ⟨rfl, -⟩ := List.cons.inj heq
      cases hc
    · intro _ heq
      obtain ⟨rfl, -⟩ := List.cons.inj heq
      cases hc

theorem splitSign_chars (x : Numeral) : splitSign x.chars = (x.sign.negative, x.body) := by
  simpa using x.splitSign_append []

/-- What follows the whole part of a number does not begin with a digit. -/
theorem ends_tail (x : Numeral) {rest : List Char} (h : Ends isDigit rest) :
    Ends isDigit (x.tail ++ rest) := by
  rw [tail]
  cases x.fraction with
  | none => exact h
  | some ds => exact ends_cons.2 rfl

/-- A number is read up to its end, and what follows it as a power of ten. -/
theorem readDecimal?_append (x : Numeral) {rest : List Char} {power : Int}
    (hdigit : Ends isDigit rest) (hpoint : Ends (· = '.') rest)
    (hpower : Double.readPower? rest = some power) :
    Double.readDecimal? (x.body ++ rest) = some ⟨x.numerator, power - x.places.length⟩ := by
  have hwhole : x.whole.isEmpty = false := List.isEmpty_eq_false_iff.2 x.whole_ne_nil
  have htake : (x.body ++ rest).takeWhile isDigit = x.whole := by
    rw [body, List.append_assoc, takeWhile_append_of_ends x.isDigit_whole (x.ends_tail hdigit)]
  have hdrop : (x.body ++ rest).dropWhile isDigit = x.tail ++ rest := by
    rw [body, List.append_assoc, dropWhile_append_of_ends x.isDigit_whole (x.ends_tail hdigit)]
  rw [Double.readDecimal?, htake, hdrop, tail, numerator, places]
  cases hfraction : x.fraction with
  | none =>
    have hrest : ∀ more, rest = '.' :: more → False := by
      rintro more rfl
      exact absurd (ends_cons.1 hpoint) (by simp)
    simp [hwhole, hpower]
  | some ds =>
    have hds := x.isDigit_fraction hfraction
    simp [hwhole, hpower, takeWhile_append_of_ends hds hdigit, dropWhile_append_of_ends hds hdigit]

theorem toLower_of_isDigit {c : Char} (h : isDigit c = true) : c.toLower = c := by
  rw [isDigit, Bool.and_eq_true, decide_eq_true_eq, decide_eq_true_eq] at h
  have hle : c.val ≤ 57 := h.2
  apply dif_neg
  rintro ⟨hge, -⟩
  exact absurd (UInt32.le_trans hge hle) (by decide)

/-- A number is not a word, since no word begins with a digit. -/
theorem map_toLower_body_ne (x : Numeral) (rest : List Char) {c : Char} (hc : isDigit c = false)
    (word : List Char) :
    (x.body ++ rest).map Char.toLower ≠ c :: word := by
  obtain ⟨d, ds, hbody, hd⟩ := x.exists_body_eq_cons
  rw [hbody, List.cons_append, List.map_cons, toLower_of_isDigit hd]
  intro heq
  obtain ⟨rfl, -⟩ := List.cons.inj heq
  rw [hc] at hd
  cases hd

theorem read?_append (x : Numeral) {rest : List Char} {power : Int} (hdigit : Ends isDigit rest)
    (hpoint : Ends (· = '.') rest) (hpower : Double.readPower? rest = some power) :
    Double.read? (x.chars ++ rest) =
      some (Double.ofDecimal x.sign.negative ⟨x.numerator, power - x.places.length⟩) := by
  have hinf : (x.body ++ rest).map Char.toLower ≠ "inf".toList := x.map_toLower_body_ne rest rfl _
  have hinfinity : (x.body ++ rest).map Char.toLower ≠ "infinity".toList :=
    x.map_toLower_body_ne rest rfl _
  have hnan : (x.body ++ rest).map Char.toLower ≠ "nan".toList := x.map_toLower_body_ne rest rfl _
  simp only [Double.read?, x.splitSign_append, Double.readMagnitude?, hinf, hinfinity, hnan,
    decide_false, Bool.or_false,
    Bool.false_eq_true, if_false, x.readDecimal?_append hdigit hpoint hpower, Option.map_some]

theorem read?_chars (x : Numeral) :
    Double.read? x.chars =
      some (Double.ofCode x.sign.negative (Double.nearestCode x.numerator x.denominator)) := by
  have hread := x.read?_append (ends_nil isDigit) (ends_nil (· = '.')) rfl
  have hplaces : (-(0 - (x.places.length : Int))).toNat = x.places.length := by omega
  have hpower : (0 - (x.places.length : Int)).toNat = 0 := by omega
  rw [List.append_nil, Double.ofDecimal, Double.nearestDecimalCode_eq] at hread
  simpa only [hplaces, hpower, Nat.pow_zero, Nat.mul_one, denominator] using hread

theorem readInt?_chars (x : Numeral) (hfraction : x.fraction = none) :
    readInt? x.chars = some x.truncated := by
  have hbody : x.body = x.whole := by rw [body, tail, hfraction, List.append_nil]
  have hnum : x.numerator = digitsValue x.whole := by rw [numerator, places, hfraction,
      Option.getD_none, List.append_nil]
  have hden : x.denominator = 1 := by
    rw [denominator, places, hfraction]
    rfl
  have hread : readNat? x.whole = some (digitsValue x.whole) := by
    rw [readNat?, if_neg]
    simpa [x.whole_ne_nil] using x.isDigit_whole
  rw [readInt?, x.splitSign_chars, hbody, truncated_eq, hden, Nat.div_one, hnum]
  dsimp only
  rw [hread]
  rfl

/-- A point is not read. -/
theorem readInt?_chars_eq_none (x : Numeral) {ds : List Char} (hfraction : x.fraction = some ds) :
    readInt? x.chars = none := by
  have hpoint : '.' ∈ x.body := by
    rw [body, tail, hfraction]
    exact List.mem_append_right _ List.mem_cons_self
  have hall : x.body.all isDigit = false := List.all_eq_false.2 ⟨'.', hpoint, by decide⟩
  rw [readInt?, x.splitSign_chars]
  dsimp only
  rw [readNat?, hall, Bool.not_false, Bool.or_true, if_pos rfl]
  rfl

/-! ## Conversion to an integer -/

variable {text : String}

/-- An integer in the range is read as such. -/
theorem parseInt?_of_fits (x : Numeral) (h : trim text.toList = x.chars)
    (hfraction : x.fraction = none) (hfits : x.Fits) :
    parseInt? text = some (Int64.ofInt x.truncated) := by
  have hread : readInt64? x.chars = some (Int64.ofInt x.truncated) := by
    rw [readInt64?, x.readInt?_chars hfraction, Option.bind_some]
    exact if_pos hfits
  rw [parseInt?, h, hread]

/-- All others are read as doubles. -/
theorem parseInt?_of_not_fits (x : Numeral) (h : trim text.toList = x.chars)
    (hother : x.fraction ≠ none ∨ ¬ x.Fits) :
    parseInt? text =
      if Double.nearestCode x.numerator x.denominator = Double.infinityCode then none
      else some (Double.clampInt64
        (x.sign.apply (Double.wholePart (Double.nearestCode x.numerator x.denominator)))) := by
  have hread : readInt64? x.chars = none := by
    cases hfraction : x.fraction with
    | none =>
      have hnot : ¬ x.Fits := hother.resolve_left (fun hne => hne hfraction)
      rw [readInt64?, x.readInt?_chars hfraction, Option.bind_some]
      exact if_neg hnot
    | some ds => rw [readInt64?, x.readInt?_chars_eq_none hfraction, Option.bind_none]
  have hnearest : Double.IsNearest x.numerator x.denominator _ :=
    Double.isNearest_nearestCode x.denominator_pos
  have hle := hnearest.le_infinityCode
  rw [parseInt?, h, hread, x.read?_chars]
  dsimp only
  rw [Option.bind_some, Double.isFinite, Double.code_ofCode hle, Double.toInt64_ofCode hle]
  rcases Nat.lt_or_eq_of_le hle with hlt | heq
  · rw [if_pos (decide_eq_true hlt), if_neg (Nat.ne_of_lt hlt)]
    rfl
  · rw [heq, if_neg (by simp), if_pos rfl]

theorem Fits.whole_le {x : Numeral} (hfits : x.Fits) : x.numerator / x.denominator ≤ 2 ^ 63 := by
  have hmin : Int64.minValue.toInt = -2 ^ 63 := rfl
  have hmax : Int64.maxValue.toInt = 2 ^ 63 - 1 := rfl
  rw [Fits, truncated_eq, Sign.apply] at hfits
  split at hfits <;> omega

/-- In the range the cut-off double is right if it has the whole part of the number, or if both are
at the upper end. -/
theorem toInt_clampInt64_eq_iff (x : Numeral) (hfits : x.Fits) :
    (Double.clampInt64
      (x.sign.apply (Double.wholePart (Double.nearestCode x.numerator x.denominator)))).toInt =
        x.truncated ↔
      Double.KeepsWhole x.numerator x.denominator ∨ x.truncated = Int64.maxValue.toInt := by
  have hmin : Int64.minValue.toInt = -2 ^ 63 := rfl
  have hmax : Int64.maxValue.toInt = 2 ^ 63 - 1 := rfl
  have hfinite := Double.nearestCode_lt_infinityCode x.denominator_pos hfits.whole_le
  rw [Fits, truncated_eq] at hfits
  rw [truncated_eq, Double.toInt_clampInt64]
  have hkeeps := Double.wholePart_eq_iff x.denominator_pos hfinite
  have hlast := fun h => Double.le_wholePart_nearestCode x.denominator_pos h hfinite
  -- the lower end of the range is a double, so that it is not missed
  have hfirst (h : x.numerator / x.denominator = 2 ^ 63) :
      Double.wholePart _ = x.numerator / x.denominator :=
    hkeeps.2 (Double.keepsWhole_of_eq_two_pow (by decide) h)
  rw [← hkeeps]
  generalize Double.wholePart (Double.nearestCode x.numerator x.denominator) = w at hlast hfirst ⊢
  generalize x.numerator / x.denominator = n at hfits hlast hfirst ⊢
  by_cases hnegative : x.sign.negative = true
  · simp only [Sign.apply, if_pos hnegative] at hfits ⊢
    split
    · omega
    · split <;> omega
  · simp only [Sign.apply, if_neg hnegative] at hfits ⊢
    split
    · omega
    · split <;> omega

/-- Out of the range a double that is finite is cut off to the end of the range. -/
theorem clampInt64_of_not_fits (x : Numeral) (hnot : ¬ x.Fits)
    (hfinite : Double.nearestCode x.numerator x.denominator < Double.infinityCode) :
    Double.clampInt64 (x.sign.apply
      (Double.wholePart (Double.nearestCode x.numerator x.denominator))) =
      if x.sign.negative then Int64.minValue else Int64.maxValue := by
  have hmin : Int64.minValue.toInt = -2 ^ 63 := rfl
  have hmax : Int64.maxValue.toInt = 2 ^ 63 - 1 := rfl
  have hlast := fun h => Double.le_wholePart_nearestCode x.denominator_pos h hfinite
  rw [Fits, truncated_eq] at hnot
  apply Int64.toInt_inj.1
  rw [Double.toInt_clampInt64]
  generalize Double.wholePart (Double.nearestCode x.numerator x.denominator) = w at hlast ⊢
  generalize x.numerator / x.denominator = n at hnot hlast
  by_cases hnegative : x.sign.negative = true
  · simp only [Sign.apply, if_pos hnegative] at hnot ⊢
    split
    · rfl
    · split <;> omega
  · simp only [Sign.apply, if_neg hnegative] at hnot ⊢
    split
    · omega
    · split <;> omega

end Numeral

end Text

namespace UnaryOp

/-- The conversion of a decimal number between blanks to an integer. In the range there is a result,
and it is the number cut off just if the number has no point, if rounding to a double keeps its
whole part, or if it is cut off to the upper end of the range. Out of the range the result is an
error or the end of the range. In all cases but that of an integer in the range it is the nearest
double that decides. -/
theorem toInt_numeral (x : Text.Numeral) {text : String} (h : Text.trim text.toList = x.chars) :
    (x.Fits → ∃ n, UnaryOp.toInt.apply (.str text) = .ok (.int n) ∧
      (n.toInt = x.truncated ↔
        x.fraction = none ∨ Double.KeepsWhole x.numerator x.denominator ∨
          x.truncated = Int64.maxValue.toInt)) ∧
    (¬ x.Fits → UnaryOp.toInt.apply (.str text) = .error (.conversion text .int) ∨
      UnaryOp.toInt.apply (.str text) =
        .ok (.int (if x.sign.negative then Int64.minValue else Int64.maxValue))) ∧
    (x.fraction ≠ none ∨ ¬ x.Fits → ∃ code, Double.IsNearest x.numerator x.denominator code ∧
      UnaryOp.toInt.apply (.str text) =
        if code = Double.infinityCode then .error (.conversion text .int)
        else .ok (.int (Double.clampInt64 (x.sign.apply (Double.wholePart code))))) := by
  have happly : UnaryOp.toInt.apply (.str text) = converted text .int ((parseInt? text).map .int) :=
    rfl
  have hden := x.denominator_pos
  refine ⟨fun hfits => ?_, fun hnot => ?_, fun hother => ?_⟩
  · by_cases hfraction : x.fraction = none
    · -- an integer is read without rounding
      rw [x.parseInt?_of_fits h hfraction hfits] at happly
      refine ⟨_, happly, iff_of_true ?_ (.inl hfraction)⟩
      exact Int64.toInt_ofInt_of_le hfits.1 (Int.lt_of_le_of_lt hfits.2 (by decide))
    · -- the double is finite, and cut off
      rw [x.parseInt?_of_not_fits h (.inl hfraction),
        if_neg (Nat.ne_of_lt (Double.nearestCode_lt_infinityCode hden hfits.whole_le))] at happly
      refine ⟨_, happly, (x.toInt_clampInt64_eq_iff hfits).trans (or_iff_right hfraction).symm⟩
  · rw [x.parseInt?_of_not_fits h (.inr hnot)] at happly
    rcases Nat.lt_or_eq_of_le (Double.isNearest_nearestCode hden).le_infinityCode with hlt | heq
    · right
      rw [happly, if_neg (Nat.ne_of_lt hlt), x.clampInt64_of_not_fits hnot hlt]
      rfl
    · left
      rw [happly, if_pos heq]
      rfl
  · refine ⟨_, Double.isNearest_nearestCode hden, ?_⟩
    rw [happly, x.parseInt?_of_not_fits h hother]
    split <;> rfl

end UnaryOp

/-- Just below the middle between an odd integer and the next one, where the doubles are
the integers. -/
def belowMiddle : Text.Numeral where
  sign := .plus
  whole := "4503599627370497".toList
  fraction := some "49".toList
  whole_ne_nil := by decide
  all_whole := by decide
  all_fraction := by decide

theorem toInt_belowMiddle :
    Text.trim " +4503599627370497.49\n".toList = belowMiddle.chars ∧
      UnaryOp.toInt.apply (.str " +4503599627370497.49\n") = .ok (.int 4503599627370497) := by
  have htrim : Text.trim " +4503599627370497.49\n".toList = belowMiddle.chars := by decide +kernel
  have htruncated : belowMiddle.truncated = 4503599627370497 := by decide +kernel
  have hkeeps : Double.KeepsWhole belowMiddle.numerator belowMiddle.denominator := by decide +kernel
  obtain ⟨n, hn, hiff⟩ := (UnaryOp.toInt_numeral belowMiddle htrim).1 (by decide +kernel)
  have hvalue : n.toInt = 4503599627370497 := (hiff.2 (.inr (.inl hkeeps))).trans htruncated
  obtain rfl : n = 4503599627370497 := Int64.toInt_inj.1 hvalue
  exact ⟨htrim, hn⟩

/-- Less than one, but nearer to it than to the double in front of it. -/
def belowOne : Text.Numeral where
  sign := .unsigned
  whole := "0".toList
  fraction := some "99999999999999999999".toList
  whole_ne_nil := by decide
  all_whole := by decide
  all_fraction := by decide

/-- The first integer behind the range. -/
def behindRange : Text.Numeral where
  sign := .unsigned
  whole := "9223372036854775808".toList
  fraction := none
  whole_ne_nil := by decide
  all_whole := by decide
  all_fraction := by decide

/-- A result that is not the number cut off, in the range and out of it. -/
theorem toInt_ne_truncated :
    (Text.trim "0.99999999999999999999".toList = belowOne.chars ∧ belowOne.truncated = 0 ∧
      UnaryOp.toInt.apply (.str "0.99999999999999999999") = .ok (.int 1)) ∧
    (Text.trim "9223372036854775808".toList = behindRange.chars ∧ behindRange.truncated = 2 ^ 63 ∧
      UnaryOp.toInt.apply (.str "9223372036854775808") = .ok (.int (2 ^ 63 - 1))) := by
  decide +kernel

end FrameMachine
