import FrameMachine.Machine.Execute
import FrameMachine.Proofs.Text.Figure

/-!
# The text of a double

A finite double is written as a number that stands for its shortest decimal. The two forms of the
text differ only by the `.0` in front of a power of ten, so that both stand for the same number and
are read as the same double. This double is the one that was written, with its sign, since the
decimal has it as its nearest.

What is proved about the notations is gathered in `Renders`: the positional one has digits behind
its point in every case (`exists_renders_positional`), and the other one a power of ten that is not
too large to be read (`exists_renders_scientific`).
-/

set_option autoImplicit false

namespace FrameMachine

namespace Double

open Text

/-- The number is written with this sign, and behind it as `constant` in the form of constants and
as `value` in the form of values. Its power of ten is not too large to be read. -/
structure Renders (x : Figure) (sign : Sign) (constant value : List Char) : Prop where
  sign_eq : x.numeral.sign = sign
  chars_eq : x.chars = sign.chars ++ constant
  withPlaces_eq : x.withPlaces.chars = sign.chars ++ value
  notPlain : x.NotPlain
  shift_lt : x.shift.natAbs < powerBound

/-! ## Positional notation -/

/-- The number has this sign and these digits, with the point behind as many of them as
`place` says. -/
structure Positions (x : Numeral) (sign : Sign) (digits : List Char) (place : Int) : Prop where
  sign_eq : x.sign = sign
  body_eq : x.body = positional digits place
  fraction_ne_none : x.fraction ≠ none
  value_eq : (x.scaled 0).value = (⟨digitsValue digits, place - digits.length⟩ : Decimal).value

theorem all_isDigit_zeros (n : Nat) : (List.replicate n '0').all isDigit = true := by
  rw [List.all_replicate]
  split <;> rfl

section Notations

variable {digits : List Char} (sign : Sign)

/-- With the point in front of all digits there are only zeros before them. -/
theorem exists_positions_before (hall : digits.all isDigit = true) {place : Int} (h : place ≤ 0) :
    ∃ x, Positions x sign digits place := by
  have hplaces : (List.replicate (-place).toNat '0' ++ digits).all isDigit = true := by
    rw [List.all_append, all_isDigit_zeros, hall]
    rfl
  refine ⟨⟨sign, ['0'], some (List.replicate (-place).toNat '0' ++ digits), List.cons_ne_nil _ _,
    rfl, hplaces⟩, rfl, ?_, Option.some_ne_none _, ?_⟩
  · rw [positional, if_pos h]
    rfl
  · -- the zero in front of the point is one more at the beginning of the digits
    have hvalue := digitsValue_zeros_append ((-place).toNat + 1) digits
    have hexponent : 0 - (((-place).toNat + digits.length : Nat) : Int) =
        place - digits.length := by omega
    rw [Numeral.scaled, Numeral.numerator, Numeral.places, Option.getD_some, List.length_append,
      List.length_replicate,
      hexponent, List.singleton_append, ← List.cons_append, ← List.replicate_succ, hvalue]

variable (hne : digits ≠ []) (hall : digits.all isDigit = true)

include hne hall

/-- With the point behind all digits there are zeros up to it, and one after it. -/
theorem exists_positions_behind {place : Int} (hpos : 0 < place) (h : digits.length ≤ place) :
    ∃ x, Positions x sign digits place := by
  have hlength : digits.length ≤ place.toNat := by omega
  have hwhole : (digits ++ List.replicate (place.toNat - digits.length) '0').all isDigit =
      true := by
    rw [List.all_append, all_isDigit_zeros, hall]
    rfl
  refine ⟨⟨sign, digits ++ List.replicate (place.toNat - digits.length) '0', some ['0'],
    List.append_ne_nil_of_left_ne_nil hne _, hwhole, rfl⟩, rfl, ?_, Option.some_ne_none _, ?_⟩
  · rw [positional, if_neg (by omega), List.take_of_length_le hlength,
      List.drop_of_length_le hlength]
    rfl
  · -- the zero behind the point is one more at the end of the digits, and makes up for the
    -- one place
    have hvalue := digitsValue_append_zeros digits (place.toNat - digits.length + 1)
    have hexponent : 0 - ((1 : Nat) : Int) + ((place.toNat - digits.length + 1 : Nat) : Int) =
        place - digits.length := by omega
    rw [Numeral.scaled, Numeral.numerator, Numeral.places, Option.getD_some, List.length_singleton,
      List.append_assoc, ← List.replicate_succ', hvalue, Decimal.value_mul_ten_pow, hexponent]

/-- With the point among the digits there are no zeros. -/
theorem exists_positions_among {place : Int} (hpos : 0 < place) (h : place < digits.length) :
    ∃ x, Positions x sign digits place := by
  have hlength : place.toNat < digits.length := by omega
  have htake : digits.take place.toNat ≠ [] := by
    intro hnil
    rcases List.take_eq_nil_iff.1 hnil with hzero | hempty
    · omega
    · exact hne hempty
  have hdrop : (digits.drop place.toNat).isEmpty = false := by
    rw [List.isEmpty_eq_false_iff, ne_eq, List.drop_eq_nil_iff]
    omega
  have hparts : (digits.take place.toNat).all isDigit = true ∧
      (digits.drop place.toNat).all isDigit = true := by
    rw [← Bool.and_eq_true, ← List.all_append, List.take_append_drop]
    exact hall
  refine ⟨⟨sign, digits.take place.toNat, some (digits.drop place.toNat), htake, hparts.1,
    hparts.2⟩, rfl, ?_, Option.some_ne_none _, ?_⟩
  · have hzeros : place.toNat - digits.length = 0 := by omega
    rw [positional, if_neg (by omega)]
    dsimp only
    rw [hdrop, hzeros, List.replicate_zero, List.append_nil]
    rfl
  · have hexponent : 0 - ((digits.length - place.toNat : Nat) : Int) =
        place - digits.length := by omega
    rw [Numeral.scaled, Numeral.numerator, Numeral.places, Option.getD_some, List.take_append_drop,
      List.length_drop, hexponent]

/-- Wherever the point is put, there are digits on both sides of it, and the number is the one
that is meant. -/
theorem exists_renders_positional (place : Int) :
    ∃ x : Figure, Renders x sign (positional digits place) (positional digits place) ∧
      x.decimal.value = (⟨digitsValue digits, place - digits.length⟩ : Decimal).value := by
  obtain ⟨x, hsign, hbody, hfraction, hvalue⟩ : ∃ x, Positions x sign digits place := by
    rcases lt_or_ge 0 place with hpos | hneg
    · rcases lt_or_ge place digits.length with hlt | hge
      · exact exists_positions_among sign hne hall hpos hlt
      · exact exists_positions_behind sign hne hall hpos hge
    · exact exists_positions_before sign hall hneg
  have hchars : (Figure.mk x none).chars = sign.chars ++ positional digits place := by
    rw [Figure.chars, Numeral.chars, hsign, hbody]
    exact List.append_nil _
  have hwithPlaces : (Figure.mk x none).withPlaces = Figure.mk x none := by
    rw [Figure.withPlaces, if_neg fun h => hfraction h.1]
  refine ⟨⟨x, none⟩, ⟨hsign, hchars, ?_, .inl hfraction, Nat.two_pow_pos 16⟩, hvalue⟩
  rw [hwithPlaces]
  exact hchars

/-! ## Notation with a power of ten -/

/-- The first digit alone has no point in the form of constants, and otherwise the two forms
agree. -/
theorem exists_renders_scientific {power : Int} (h : power.natAbs < powerBound) :
    ∃ x : Figure, Renders x sign (scientific constantForm digits power)
      (scientific valueForm digits power) ∧
      x.decimal = ⟨digitsValue digits, power - (digits.length - 1)⟩ := by
  obtain ⟨c, rest, rfl⟩ := List.exists_cons_of_ne_nil hne
  rw [List.all_cons, Bool.and_eq_true] at hall
  cases rest with
  | nil =>
    refine ⟨⟨⟨sign, [c], none, hne, by simp [hall.1], rfl⟩, some power⟩,
      ⟨rfl, ?_, ?_, .inr (Option.some_ne_none _), h⟩, ?_⟩
    · simp [Figure.chars, Figure.tail, Numeral.chars, Numeral.body, Numeral.tail, scientific,
        constantForm]
    · simp [Figure.withPlaces, Figure.chars, Figure.tail, Numeral.chars, Numeral.body, Numeral.tail,
        scientific, valueForm]
    · simp [Figure.decimal, Numeral.scaled, Figure.shift, Numeral.numerator, Numeral.places]
  | cons d rest =>
    refine ⟨⟨⟨sign, [c], some (d :: rest), List.cons_ne_nil _ _, by simp [hall.1], hall.2⟩,
      some power⟩, ⟨rfl, ?_, ?_, .inr (Option.some_ne_none _), h⟩, ?_⟩
    · simp [Figure.chars, Figure.tail, Numeral.chars, Numeral.body, Numeral.tail, scientific]
    · simp [Figure.withPlaces, Figure.chars, Figure.tail, Numeral.chars, Numeral.body, Numeral.tail,
        scientific]
    · simp [Figure.decimal, Numeral.scaled, Figure.shift, Numeral.numerator, Numeral.places]

end Notations

/-! ## The text of a number -/

theorem natDigits_ne_nil (n : Nat) : natDigits n ≠ [] := Nat.toDigits_ne_nil

theorem all_isDigit_natDigits (n : Nat) : (natDigits n).all isDigit = true :=
  List.all_eq_true.2 fun _ hc => isDigit_of_mem_natDigits hc

/-- In either notation a decimal is written as the number that it stands for. -/
theorem exists_renders_layout (sign : Sign) (d : Decimal)
    (h : ((natDigits d.digits).length + d.exponent - 1).natAbs < powerBound) :
    ∃ x : Figure, Renders x sign (layout constantForm d) (layout valueForm d) ∧
      x.decimal.value = d.value := by
  have hne := natDigits_ne_nil d.digits
  have hall := all_isDigit_natDigits d.digits
  have hvalue := digitsValue_natDigits d.digits
  simp only [layout]
  split
  · obtain ⟨x, hx, hdecimal⟩ :=
      exists_renders_positional sign hne hall ((natDigits d.digits).length + d.exponent)
    refine ⟨x, hx, ?_⟩
    rw [hdecimal, hvalue, add_sub_cancel_left]
  · obtain ⟨x, hx, hdecimal⟩ := exists_renders_scientific sign hne hall h
    refine ⟨x, hx, ?_⟩
    have hexponent :
        (natDigits d.digits).length + d.exponent - 1 - ((natDigits d.digits).length - 1) =
        d.exponent := by omega
    rw [hdecimal, hvalue, hexponent]

/-- A finite magnitude is the one nearest to the number that is written for it. -/
theorem exists_renders_magnitude (sign : Sign) {code : Nat} (h : code < infinityCode) :
    ∃ x : Figure, Renders x sign (magnitudeText constantForm code) (magnitudeText valueForm code) ∧
      nearestDecimalCode x.decimal = code := by
  simp only [magnitudeText, if_neg (Nat.not_lt_of_lt h), if_neg (Nat.ne_of_lt h)]
  split
  · -- zero is written as its one digit with the point behind it
    rename_i hzero
    obtain ⟨x, hx, hvalue⟩ := exists_renders_positional sign (List.cons_ne_nil '0' []) rfl 1
    refine ⟨x, hx, ?_⟩
    rw [nearestDecimalCode_congr hvalue, hzero]
    rfl
  · rename_i hzero
    have hnearest := nearestDecimalCode_shortest (Nat.le_of_lt h)
    have hplace :
        ((natDigits (shortest code).digits).length + (shortest code).exponent - 1).natAbs <
        powerBound := by
      apply natAbs_place_lt
      · rw [hnearest]
        exact hzero
      · rw [hnearest]
        exact Nat.ne_of_lt h
    obtain ⟨x, hx, hvalue⟩ := exists_renders_layout sign (shortest code) hplace
    exact ⟨x, hx, (nearestDecimalCode_congr hvalue).trans hnearest⟩

/-! ## Signs -/

variable {d : Double}

/-- The sign as it is written. -/
def sign (d : Double) : Sign := if d.negative then .minus else .unsigned

theorem negative_sign (d : Double) : d.sign.negative = d.negative := by
  rw [sign]
  cases d.negative with
  | false => rfl
  | true => rfl

theorem textIn_eq (form : Form) (h : d.isNaN = false) :
    d.textIn form = d.sign.chars ++ magnitudeText form d.code := by
  rw [textIn, sign, h]
  cases d.negative with
  | false => rfl
  | true => rfl

/-- Sign and code make up the whole pattern. -/
theorem ofCode_code (d : Double) : ofCode d.negative d.code = d := by
  obtain ⟨bits⟩ := d
  have hbits := bits.toNat_lt
  have htwo : Nat.pow 2 63 = 9223372036854775808 := rfl
  rw [ofCode, mk.injEq]
  apply UInt64.toNat_inj.1
  rw [UInt64.toNat_ofNat']
  simp only [negative, code, htwo, decide_eq_true_eq]
  split <;> omega

/-- A finite double is written as a number with places or a power of ten, in either form, and the
number is read as the double. -/
theorem exists_figure (h : d.isFinite = true) :
    ∃ x : Figure, x.NotPlain ∧ x.chars = d.textIn constantForm ∧
      x.withPlaces.chars = d.textIn valueForm ∧ read? x.chars = some d := by
  have hlt : d.code < infinityCode := of_decide_eq_true h
  have hnumber : d.isNaN = false := decide_eq_false (Nat.not_lt_of_lt hlt)
  obtain ⟨x, hx, hnearest⟩ := exists_renders_magnitude d.sign hlt
  refine ⟨x, hx.notPlain, ?_, ?_, ?_⟩
  · rw [hx.chars_eq, textIn_eq constantForm hnumber]
  · rw [hx.withPlaces_eq, textIn_eq valueForm hnumber]
  · rw [x.read?_chars hx.shift_lt, hx.sign_eq, negative_sign, ofDecimal, hnearest, ofCode_code]

/-! ## Reading the text again -/

theorem textIn_of_infinite (form : Form) (h : d.code = infinityCode) :
    d.textIn form = d.sign.chars ++ "inf".toList := by
  have hnumber : d.isNaN = false := decide_eq_false (by omega)
  rw [textIn_eq form hnumber, magnitudeText, if_neg (by omega), if_pos h]

theorem textIn_of_isNaN (form : Form) (h : d.isNaN = true) : d.textIn form = "NaN".toList := by
  rw [textIn, h, Bool.not_true, Bool.and_false, if_neg Bool.false_ne_true, magnitudeText,
    if_pos (of_decide_eq_true h)]

/-- A value is written as a constant is, but with a point in front of a power of ten. -/
theorem textIn_valueForm (d : Double) : d.textIn valueForm = pointed (d.textIn constantForm) := by
  rcases Nat.lt_trichotomy d.code infinityCode with hfinite | hinfinite | hnan
  · obtain ⟨x, -, hconstant, hvalue, -⟩ := exists_figure (decide_eq_true hfinite)
    rw [← hvalue, ← hconstant, x.pointed_chars]
  · rw [textIn_of_infinite valueForm hinfinite, textIn_of_infinite constantForm hinfinite, sign]
    split <;> rfl
  · rw [textIn_of_isNaN valueForm (decide_eq_true hnan),
      textIn_of_isNaN constantForm (decide_eq_true hnan)]
    rfl

theorem read?_trim_textIn (d : Double) :
    read? (trim (d.textIn valueForm)) = some (if d.isNaN then nan else d) := by
  rcases Nat.lt_trichotomy d.code infinityCode with hfinite | hinfinite | hnan
  · have hnumber : d.isNaN = false := decide_eq_false (by omega)
    obtain ⟨x, -, -, hvalue, hread⟩ := exists_figure (decide_eq_true hfinite)
    rw [hnumber, ← hvalue, x.withPlaces.trim_chars, ← x.pointed_chars, x.read?_pointed, hread]
    rfl
  · have hnumber : d.isNaN = false := decide_eq_false (by omega)
    have hd := d.ofCode_code
    rw [hinfinite] at hd
    rw [hnumber, if_neg Bool.false_ne_true, textIn_of_infinite valueForm hinfinite, sign, ← hd]
    cases d.negative with
    | false => decide
    | true => decide
  · have hnumber : d.isNaN = true := decide_eq_true hnan
    rw [hnumber, if_pos rfl, textIn_of_isNaN valueForm hnumber]
    decide

/-- A text with places or a power of ten may get its point: it stands for the same number, and is
read as the same double. The text of a value is the text of the constant with such a point. For a
finite double the text of the constant is of this kind, and is read as the double; so the text of
the value has a point and stands for the same number. Converted to a text and back, every double is
returned with all its bits, unless it is not a number. -/
theorem text_round_trip :
    (∀ x : Figure, x.NotPlain → '.' ∈ pointed x.chars ∧
      (∀ q, Denotes (pointed x.chars) q ↔ q = x.value) ∧ read? (pointed x.chars) = read? x.chars) ∧
    ∀ d : Double, (Value.double d).text.toList = pointed (Literal.double d).text.toList ∧
      (d.isFinite = true → '.' ∈ (Value.double d).text.toList ∧
        ∃ x : Figure, x.NotPlain ∧ x.chars = (Literal.double d).text.toList ∧
          read? x.chars = some d ∧ ∀ q, (Denotes (Literal.double d).text.toList q ↔ q = x.value) ∧
            (Denotes (Value.double d).text.toList q ↔ q = x.value)) ∧
      UnaryOp.toText.apply (.double d) = .ok (.str (Value.double d).text) ∧
      UnaryOp.toDouble.apply (.str (Value.double d).text) =
        .ok (.double (if d.isNaN then nan else d)) := by
  have hconstant (d : Double) : (Literal.double d).text.toList = d.textIn constantForm :=
    String.toList_ofList
  have hvalue (d : Double) : (Value.double d).text.toList = d.textIn valueForm :=
    String.toList_ofList
  refine ⟨fun x hx => ⟨?_, fun q => ?_, x.read?_pointed⟩, fun d => ⟨?_, fun hfinite => ?_, rfl, ?_⟩⟩
  · rw [x.pointed_chars]
    exact Figure.point_mem_chars (Figure.fraction_withPlaces_ne_none hx)
  · rw [x.pointed_chars, denotes_chars_iff, x.value_withPlaces]
  · rw [hvalue, hconstant, textIn_valueForm]
  · obtain ⟨x, hx, hchars, hwithPlaces, hread⟩ := exists_figure hfinite
    rw [hvalue, hconstant, ← hwithPlaces, ← hchars]
    refine ⟨Figure.point_mem_chars (Figure.fraction_withPlaces_ne_none hx), x, hx, rfl, hread,
      fun q => ⟨denotes_chars_iff, ?_⟩⟩
    rw [denotes_chars_iff, x.value_withPlaces]
  · have happly : UnaryOp.toDouble.apply (.str (Value.double d).text) =
        UnaryOp.converted (Value.double d).text .double
          ((parseDouble? (Value.double d).text).map .double) := rfl
    rw [happly, parseDouble?, hvalue, read?_trim_textIn]
    rfl

/-- The negative double next to zero. -/
def leastNegative : Double := ⟨0x8000000000000001⟩

theorem leastNegative_round_trip :
    (Literal.double leastNegative).text = "-5e-324" ∧
      (Value.double leastNegative).text = "-5.0e-324" ∧ leastNegative.isFinite = true ∧
      (∃ q, Denotes "-5e-324".toList q ∧ Denotes "-5.0e-324".toList q) ∧
      '.' ∈ pointed "-5e-324".toList ∧ read? (pointed "-5e-324".toList) = some leastNegative ∧
      UnaryOp.toDouble.apply (.str "-5.0e-324") = .ok (.double leastNegative) := by
  have hconstant : (Literal.double leastNegative).text = "-5e-324" := by decide +kernel
  have hvalue : (Value.double leastNegative).text = "-5.0e-324" := by decide +kernel
  have hfinite : leastNegative.isFinite = true := by decide
  obtain ⟨hpointed, hdouble⟩ := text_round_trip
  obtain ⟨-, hnumber, -, hback⟩ := hdouble leastNegative
  obtain ⟨-, x, hx, hchars, hread, hdenotes⟩ := hnumber hfinite
  obtain ⟨hpoint, -, hsame⟩ := hpointed x hx
  rw [hconstant] at hchars
  rw [hconstant, hvalue] at hdenotes
  rw [hvalue] at hback
  refine ⟨hconstant, hvalue, hfinite,
    ⟨x.value, (hdenotes x.value).1.2 rfl, (hdenotes x.value).2.2 rfl⟩, ?_, ?_, hback⟩
  · rwa [hchars] at hpoint
  · rw [← hchars, hsame, hread]

end Double

end FrameMachine
