import FrameMachine.Proofs.Double.Decimals
import FrameMachine.Proofs.Text.Integer
import Mathlib.Data.List.Induction

/-!
# Numbers with a power of ten

A number is written with a sign or none, digits, possibly a point with digits behind it, and
possibly a power of ten behind an `e`. The text shows where each of these parts ends, so that it
stands for one number only (`Figure.chars_inj`). Read as a double it gives the double that is
nearest to the number (`Figure.read?_chars`), as long as the power is not so large that its digits
are no longer counted.

A text with a power and no point may get `.0` in front of the `e` (`pointed`). Then it has a point,
and it stands for the same number (`Figure.value_withPlaces`) and is read as the same double
(`Figure.read?_pointed`), whatever its digits and its power.
-/

set_option autoImplicit false

namespace FrameMachine.Text

/-! ## Values of digits -/

theorem digitsValue_eq_ofDigitChars (cs : List Char) : digitsValue cs = Nat.ofDigitChars 10 cs 0 :=
  digitsValue_eq_foldl cs

theorem digitsValue_natDigits (n : Nat) : digitsValue (natDigits n) = n := by
  rw [digitsValue_eq_ofDigitChars]
  exact Nat.ofDigitChars_ten_toDigits

theorem digitsValue_append_zeros (cs : List Char) (n : Nat) :
    digitsValue (cs ++ List.replicate n '0') = digitsValue cs * 10 ^ n := by
  rw [digitsValue_eq_ofDigitChars, digitsValue_eq_ofDigitChars, Nat.ofDigitChars_append,
    Nat.ofDigitChars_replicate_zero, Nat.mul_comm]

theorem digitsValue_zeros_append (n : Nat) (cs : List Char) :
    digitsValue (List.replicate n '0' ++ cs) = digitsValue cs := by
  rw [digitsValue_eq_ofDigitChars, digitsValue_eq_ofDigitChars, Nat.ofDigitChars_append,
    Nat.ofDigitChars_replicate_zero, Nat.mul_zero]

/-! ## Numbers -/

namespace Numeral

/-- The number without its sign and with this power of ten, as a decimal. -/
def scaled (x : Numeral) (power : Int) : Decimal := ⟨x.numerator, power - x.places.length⟩

theorem mem_chars {x : Numeral} {c : Char} (h : c ∈ x.chars) :
    c = '+' ∨ c = '-' ∨ c = '.' ∨ isDigit c = true := by
  rw [chars, body, tail, List.mem_append, List.mem_append] at h
  rcases h with hsign | hwhole | htail
  · cases hx : x.sign with
    | unsigned => simp [hx, Sign.chars] at hsign
    | plus => exact .inl (by simpa [hx, Sign.chars] using hsign)
    | minus => exact .inr (.inl (by simpa [hx, Sign.chars] using hsign))
  · exact .inr (.inr (.inr (x.isDigit_whole c hwhole)))
  · cases hfraction : x.fraction with
    | none => simp [hfraction] at htail
    | some ds =>
      rw [hfraction] at htail
      rcases List.mem_cons.1 htail with rfl | hds
      · exact .inr (.inr (.inl rfl))
      · exact .inr (.inr (.inr (x.isDigit_fraction hfraction c hds)))

/-- The only point of a number is the one in front of the places. -/
theorem contains_point (x : Numeral) : x.chars.contains '.' = x.fraction.isSome := by
  have hwhole : '.' ∉ x.whole := fun hmem => absurd (x.isDigit_whole '.' hmem) (by decide)
  rw [chars, body, tail]
  cases x.sign with
  | unsigned | plus | minus =>
    cases x.fraction with
    | none => simpa [Sign.chars] using hwhole
    | some ds => simp [Sign.chars]

end Numeral

/-- A number as it is written, possibly with a power of ten behind it. -/
structure Figure where
  numeral : Numeral
  power : Option Int

namespace Figure

/-- The power of ten as it is written. -/
def tail (x : Figure) : List Char :=
  match x.power with
  | none => []
  | some p => 'e' :: intDigits p

/-- The number as it is written, its power of ten included. -/
def chars (x : Figure) : List Char := x.numeral.chars ++ x.tail

/-- The power of ten. -/
def shift (x : Figure) : Int := x.power.getD 0

/-- The number for which the text stands. -/
def value (x : Figure) : ℚ :=
  x.numeral.sign.apply x.numeral.numerator / x.numeral.denominator * 10 ^ x.shift

/-- The number without its sign, as a decimal. -/
def decimal (x : Figure) : Decimal := x.numeral.scaled x.shift

theorem value_eq (x : Figure) :
    x.value = if x.numeral.sign.negative then -x.decimal.value else x.decimal.value := by
  have hdecimal : x.decimal.value = x.numeral.numerator / x.numeral.denominator * 10 ^ x.shift := by
    rw [Decimal.value, decimal, Numeral.scaled, Numeral.denominator, zpow_sub₀ (by norm_num),
      zpow_natCast]
    push_cast
    ring
  rw [hdecimal, value, Sign.apply]
  split
  · push_cast
    ring
  · push_cast
    ring

/-! ## The parts of a text -/

theorem ends_tail {test : Char → Bool} (h : test 'e' = false) (x : Figure) : Ends test x.tail := by
  rw [tail]
  cases x.power with
  | none => exact ends_nil test
  | some p => exact ends_cons.2 h

theorem sign_inj {s s' : Sign} {c c' : Char} {cs cs' : List Char} (hc : isDigit c = true)
    (hc' : isDigit c' = true) (h : s.chars ++ c :: cs = s'.chars ++ c' :: cs') :
    s = s' ∧ c :: cs = c' :: cs' := by
  cases s with
  | unsigned =>
    cases s' with
    | unsigned => exact ⟨rfl, h⟩
    | plus | minus =>
      obtain ⟨rfl, -⟩ := List.cons.inj h
      cases hc
  | plus =>
    cases s' with
    | plus => exact ⟨rfl, (List.cons.inj h).2⟩
    | minus => cases (List.cons.inj h).1
    | unsigned =>
      obtain ⟨rfl, -⟩ := List.cons.inj h
      cases hc'
  | minus =>
    cases s' with
    | minus => exact ⟨rfl, (List.cons.inj h).2⟩
    | plus => cases (List.cons.inj h).1
    | unsigned =>
      obtain ⟨rfl, -⟩ := List.cons.inj h
      cases hc'

theorem tail_inj {x y : Figure} (h : x.tail = y.tail) : x.power = y.power := by
  rw [tail, tail] at h
  cases hx : x.power with
  | none =>
    cases hy : y.power with
    | none => rfl
    | some q => simp [hx, hy] at h
  | some p =>
    cases hy : y.power with
    | none => simp [hx, hy] at h
    | some q =>
      rw [hx, hy] at h
      rw [intDigits_inj (List.cons.inj h).2]

/-- What follows the whole part shows whether there is a point, and then where the digits
behind it end. -/
theorem fraction_inj {x y : Figure} (h : x.numeral.tail ++ x.tail = y.numeral.tail ++ y.tail) :
    x.numeral.fraction = y.numeral.fraction ∧ x.tail = y.tail := by
  have hpoint (z : Figure) {cs : List Char} (hz : z.tail = '.' :: cs) : False := by
    have hends : Ends (· = '.') z.tail := z.ends_tail rfl
    rw [hz] at hends
    cases ends_cons.1 hends
  rw [Numeral.tail, Numeral.tail] at h
  cases hx : x.numeral.fraction with
  | none =>
    cases hy : y.numeral.fraction with
    | none =>
      rw [hx, hy] at h
      exact ⟨rfl, h⟩
    | some ds =>
      rw [hx, hy] at h
      exact (hpoint x h).elim
  | some ds =>
    cases hy : y.numeral.fraction with
    | none =>
      rw [hx, hy] at h
      exact (hpoint y h.symm).elim
    | some ds' =>
      rw [hx, hy] at h
      obtain ⟨rfl, htail⟩ :=
        append_inj_of_ends (x.numeral.isDigit_fraction hx) (y.numeral.isDigit_fraction hy)
        (x.ends_tail rfl) (y.ends_tail rfl) (List.cons.inj h).2
      exact ⟨rfl, htail⟩

/-- A text is written in one way only. -/
theorem chars_inj {x y : Figure} (h : x.chars = y.chars) : x = y := by
  obtain ⟨c, cs, hx, hc⟩ := x.numeral.exists_body_eq_cons
  obtain ⟨d, ds, hy, hd⟩ := y.numeral.exists_body_eq_cons
  rw [chars, chars, Numeral.chars, Numeral.chars, hx, hy, List.append_assoc, List.append_assoc] at h
  obtain ⟨hsign, hbody⟩ := sign_inj hc hd h
  -- the whole part ends in front of the first character that is no digit
  have hwhole : x.numeral.whole ++ (x.numeral.tail ++ x.tail) = y.numeral.whole ++
      (y.numeral.tail ++ y.tail) := by
    rw [← List.append_assoc, ← List.append_assoc]
    change x.numeral.body ++ x.tail = y.numeral.body ++ y.tail
    rw [hx, hy]
    exact hbody
  obtain ⟨hdigits, hrest⟩ := append_inj_of_ends x.numeral.isDigit_whole y.numeral.isDigit_whole
    (x.numeral.ends_tail (x.ends_tail rfl)) (y.numeral.ends_tail (y.ends_tail rfl)) hwhole
  obtain ⟨hfraction, htail⟩ := fraction_inj hrest
  have hpower := tail_inj htail
  obtain ⟨⟨_, _, _, _, _, _⟩, _⟩ := x
  obtain ⟨⟨_, _, _, _, _, _⟩, _⟩ := y
  cases hsign
  cases hdigits
  cases hfraction
  cases hpower
  rfl

/-! ## Reading -/

/-- The digits of a power count as long as the bound has not been reached. -/
theorem powerValue_eq {cs : List Char} (h : digitsValue cs < Double.powerBound) :
    Double.powerValue cs = digitsValue cs := by
  rw [digitsValue_eq_foldl] at h ⊢
  rw [Double.powerValue]
  -- from the last digit back, since what the first digits stand for is not more than the whole
  induction cs using List.reverseRecOn with
  | nil => rfl
  | append_singleton cs c ih =>
    rw [List.foldl_append, List.foldl_cons, List.foldl_nil] at h ⊢
    rw [List.foldl_append, List.foldl_cons, List.foldl_nil, ih (by omega), if_pos (by omega)]

/-- Every integer is read as a power, and as itself if it is below the bound. -/
theorem exists_readSignedPower?_intDigits (p : Int) : ∃ power,
    Double.readSignedPower? (intDigits p) = some power ∧
    (p.natAbs < Double.powerBound → power = p) := by
  obtain ⟨sign, digits, hdigits, hne, hall, hp⟩ := spells_intDigits p
  refine ⟨sign.apply (Double.powerValue digits), ?_, ?_⟩
  · rw [Double.readSignedPower?, hdigits, splitSign_append sign hne hall]
    dsimp only
    rw [hall, List.isEmpty_eq_false_iff.2 hne]
    rfl
  · intro h
    rw [← digitsValue_eq_ofDigitChars] at hp
    rw [hp, Sign.apply] at h
    rw [hp, powerValue_eq (by split at h <;> omega)]

theorem exists_readPower?_tail (x : Figure) : ∃ power, Double.readPower? x.tail = some power ∧
    (x.shift.natAbs < Double.powerBound → power = x.shift) := by
  rw [tail, shift]
  cases x.power with
  | none => exact ⟨0, rfl, fun _ => rfl⟩
  | some p => exact exists_readSignedPower?_intDigits p

/-- The double that is read is the one nearest to the number. -/
theorem read?_chars (x : Figure) (h : x.shift.natAbs < Double.powerBound) :
    Double.read? x.chars = some (Double.ofDecimal x.numeral.sign.negative x.decimal) := by
  obtain ⟨power, hpower, hshift⟩ := x.exists_readPower?_tail
  rw [hshift h] at hpower
  exact x.numeral.read?_append (x.ends_tail rfl) (x.ends_tail rfl) hpower

/-! ## The characters of a text -/

theorem isBlank_eq_false {x : Figure} {c : Char} (h : c ∈ x.chars) : isBlank c = false := by
  rw [chars, List.mem_append] at h
  rcases h with hnumeral | htail
  · rcases Numeral.mem_chars hnumeral with rfl | rfl | rfl | hdigit
    · decide
    · decide
    · decide
    · exact isBlank_of_isDigit hdigit
  · rw [tail] at htail
    cases hpower : x.power with
    | none => simp [hpower] at htail
    | some p =>
      rw [hpower] at htail
      rcases List.mem_cons.1 htail with rfl | hp
      · decide
      · exact (spells_intDigits p).isBlank_eq_false c hp

theorem trim_chars (x : Figure) : trim x.chars = x.chars := by
  obtain ⟨c, cs, hbody, -⟩ := x.numeral.exists_body_eq_cons
  have hne : x.chars ≠ [] := by
    rw [chars, Numeral.chars, hbody]
    simp
  have htrim : trim ([] ++ x.chars ++ []) = x.chars :=
    trim_append rfl rfl hne fun _ hc => isBlank_eq_false hc
  rwa [List.nil_append, List.append_nil] at htrim

theorem point_mem_chars {x : Figure} (h : x.numeral.fraction ≠ none) : '.' ∈ x.chars := by
  obtain ⟨ds, hds⟩ := Option.ne_none_iff_exists'.1 h
  rw [chars, Numeral.chars, Numeral.body, Numeral.tail, hds]
  simp

end Figure

/-! ## The point in front of a power -/

/-- A text with a power of ten and no point gets `.0` in front of the power. All others
stay as they are. -/
def pointed (cs : List Char) : List Char :=
  let mantissa := cs.takeWhile (· != 'e')
  let power := cs.dropWhile (· != 'e')
  if power.isEmpty || mantissa.contains '.' then cs else mantissa ++ '.' :: '0' :: power

namespace Figure

/-- A number has places or a power of ten. -/
def NotPlain (x : Figure) : Prop := x.numeral.fraction ≠ none ∨ x.power ≠ none

/-- A number with a power of ten and no places, with a zero for these. All others stay as they
are. -/
def withPlaces (x : Figure) : Figure :=
  if x.numeral.fraction = none ∧ x.power ≠ none then
    { x with numeral := { x.numeral with fraction := some ['0'], all_fraction := rfl } }
  else x

theorem pointed_chars (x : Figure) : pointed x.chars = x.withPlaces.chars := by
  -- no character in front of the power is an `e`, so that the text is split where the power begins
  have hnumeral : ∀ c ∈ x.numeral.chars, (c != 'e') = true := by
    intro c hc
    rw [bne_iff_ne]
    rintro rfl
    rcases Numeral.mem_chars hc with h | h | h | h <;> revert h <;> decide
  have hends : Ends (· != 'e') x.tail := x.ends_tail rfl
  rw [pointed, chars, takeWhile_append_of_ends hnumeral hends,
    dropWhile_append_of_ends hnumeral hends, Numeral.contains_point, withPlaces]
  cases hpower : x.power with
  | none => simp [tail, hpower, chars]
  | some p =>
    cases hfraction : x.numeral.fraction with
    | none => simp [tail, hpower, hfraction, chars, Numeral.chars, Numeral.body, Numeral.tail]
    | some ds => simp [tail, hpower, chars]

theorem sign_withPlaces (x : Figure) : x.withPlaces.numeral.sign = x.numeral.sign := by
  rw [withPlaces]
  split <;> rfl

theorem power_withPlaces (x : Figure) : x.withPlaces.power = x.power := by
  rw [withPlaces]
  split <;> rfl

theorem fraction_withPlaces_ne_none {x : Figure} (h : x.NotPlain) :
    x.withPlaces.numeral.fraction ≠ none := by
  rw [withPlaces]
  split
  · exact Option.some_ne_none _
  · rename_i hnot
    intro hnone
    exact hnot ⟨hnone, h.resolve_left (fun hne => hne hnone)⟩

/-- One more digit makes the number ten times as large, and one more place a tenth of that. -/
theorem value_scaled_withPlaces (x : Figure) (power : Int) :
    (x.withPlaces.numeral.scaled power).value = (x.numeral.scaled power).value := by
  rw [withPlaces]
  split
  · rename_i h
    have hdigits : digitsValue (x.numeral.whole ++ ['0']) = digitsValue x.numeral.whole * 10 ^ 1 :=
      digitsValue_append_zeros x.numeral.whole 1
    simp only [Numeral.scaled, Numeral.numerator, Numeral.places, h.1, Option.getD_some,
      Option.getD_none, List.append_nil, List.length_nil, List.length_singleton, hdigits,
      Decimal.value_mul_ten_pow, Nat.cast_one, Nat.cast_zero, sub_add_cancel, sub_zero]
  · rfl

theorem value_withPlaces (x : Figure) : x.withPlaces.value = x.value := by
  have hshift : x.withPlaces.shift = x.shift := by rw [shift, shift, power_withPlaces]
  rw [value_eq, value_eq, sign_withPlaces, decimal, decimal, hshift, value_scaled_withPlaces]

/-- The text with its point is read as the same double, even if the power is too large to count. -/
theorem read?_pointed (x : Figure) : Double.read? (pointed x.chars) = Double.read? x.chars := by
  obtain ⟨power, hpower, -⟩ := x.exists_readPower?_tail
  have htail : x.withPlaces.tail = x.tail := by rw [tail, tail, power_withPlaces]
  have hread := x.numeral.read?_append (x.ends_tail rfl) (x.ends_tail rfl) hpower
  have hpointed := x.withPlaces.numeral.read?_append (x.ends_tail rfl) (x.ends_tail rfl) hpower
  rw [pointed_chars, chars, chars, htail, hread, hpointed, sign_withPlaces, Double.ofDecimal,
    Double.ofDecimal]
  have hnearest := Double.nearestDecimalCode_congr (x.value_scaled_withPlaces power)
  rw [Numeral.scaled, Numeral.scaled] at hnearest
  rw [hnearest]

end Figure

/-- The text stands for the number. -/
def Denotes (cs : List Char) (q : ℚ) : Prop := ∃ x : Figure, x.chars = cs ∧ x.value = q

theorem denotes_chars_iff {x : Figure} {q : ℚ} : Denotes x.chars q ↔ q = x.value := by
  constructor
  · rintro ⟨y, hchars, rfl⟩
    rw [Figure.chars_inj hchars]
  · rintro rfl
    exact ⟨x, rfl, rfl⟩

end FrameMachine.Text
