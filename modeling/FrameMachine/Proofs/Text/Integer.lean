import FrameMachine.Machine.Execute
import FrameMachine.Proofs.Text.Numeral

/-!
# The text of an integer

An integer is written as its digits in base ten, behind a minus sign if it is negative. Read
again, with any blanks around it, this text gives the integer back, at both ends of the range of
64 bits as well.

Reading takes more texts than these: an integer may be written with a plus sign or with zeros in
front. What is taken is said by `Text.Spells`, and is taken exactly if it stands between blanks and
its value is in the range (`Text.readInt64?_trim_eq_some_iff`).
-/

set_option autoImplicit false

namespace FrameMachine.Text

/-- The characters are a sign or none and one or more digits, which stand for the
number in base ten. -/
def Spells (cs : List Char) (n : Int) : Prop :=
  ∃ (sign : Sign) (digits : List Char), cs = sign.chars ++ digits ∧ digits ≠ [] ∧
    digits.all isDigit = true ∧ n = sign.apply (Nat.ofDigitChars 10 digits 0)

/-! ## Blanks -/

section Blanks

theorem isBlank_of_isDigit {c : Char} (h : isDigit c = true) : isBlank c = false := by
  rw [isDigit, Bool.and_eq_true, decide_eq_true_eq, decide_eq_true_eq] at h
  have hlow : 48 ≤ c.toNat := h.1
  have hhigh : c.toNat ≤ 57 := h.2
  simp [isBlank, blankRanges]
  omega

/-- Characters of which none is blank stay where they are. -/
theorem dropWhile_isBlank_append {cs : List Char} (hne : cs ≠ [])
    (hcs : ∀ c ∈ cs, isBlank c = false) (rest : List Char) :
    (cs ++ rest).dropWhile isBlank = cs ++ rest := by
  obtain ⟨c, cs, rfl⟩ := List.exists_cons_of_ne_nil hne
  rw [List.cons_append, List.dropWhile_cons_of_neg]
  simp [hcs c List.mem_cons_self]

theorem trim_append {u cs v : List Char} (hu : u.all isBlank = true) (hv : v.all isBlank = true)
    (hne : cs ≠ []) (hcs : ∀ c ∈ cs, isBlank c = false) : trim (u ++ cs ++ v) = cs := by
  have hfront : (u ++ cs ++ v).dropWhile isBlank = cs ++ v := by
    rw [List.append_assoc, List.dropWhile_append_of_pos (List.all_eq_true.1 hu),
      dropWhile_isBlank_append hne hcs]
  have hback : (cs ++ v).reverse.dropWhile isBlank = cs.reverse := by
    rw [List.reverse_append, List.dropWhile_append_of_pos]
    · have hne' : cs.reverse ≠ [] := by simpa using hne
      have hcs' : ∀ c ∈ cs.reverse, isBlank c = false := by simpa using hcs
      simpa using dropWhile_isBlank_append hne' hcs' []
    · simpa using hv
  rw [trim, hfront, hback, List.reverse_reverse]

/-- Only blanks are lost. -/
theorem exists_eq_append_trim (cs : List Char) :
    ∃ u v, cs = u ++ trim cs ++ v ∧ u.all isBlank = true ∧ v.all isBlank = true := by
  refine ⟨cs.takeWhile isBlank, ((cs.dropWhile isBlank).reverse.takeWhile isBlank).reverse, ?_,
    List.all_takeWhile, ?_⟩
  · rw [List.append_assoc, trim, ← List.reverse_append, List.takeWhile_append_dropWhile,
      List.reverse_reverse, List.takeWhile_append_dropWhile]
  · rw [List.all_reverse]
    exact List.all_takeWhile

end Blanks

/-! ## Integers -/

section Integers

variable {cs : List Char} {n : Int}

theorem readNat?_eq_some_iff {value : Nat} :
    readNat? cs = some value ↔ cs ≠ [] ∧ cs.all isDigit = true ∧
      Nat.ofDigitChars 10 cs 0 = value := by
  have hvalue : digitsValue cs = Nat.ofDigitChars 10 cs 0 := digitsValue_eq_foldl cs
  rw [readNat?, hvalue]
  by_cases hne : cs = []
  · simp [hne]
  · by_cases hall : cs.all isDigit = true
    · simp [hne, hall]
    · simp [hne, hall]

/-- What stands in front of the digits is a sign. -/
theorem exists_eq_append_splitSign (cs : List Char) :
    ∃ sign : Sign, cs = sign.chars ++ (splitSign cs).2 ∧ (splitSign cs).1 = sign.negative := by
  unfold splitSign
  split
  · exact ⟨.minus, rfl, rfl⟩
  · exact ⟨.plus, rfl, rfl⟩
  · exact ⟨.unsigned, rfl, rfl⟩

theorem splitSign_append (sign : Sign) {digits : List Char} (hne : digits ≠ [])
    (hall : digits.all isDigit = true) :
    splitSign (sign.chars ++ digits) = (sign.negative, digits) := by
  have hsplit := (Numeral.mk sign digits none hne hall rfl).splitSign_chars
  simpa [Numeral.chars, Numeral.body, Numeral.tail] using hsplit

theorem readInt?_eq_map (cs : List Char) : readInt? cs =
    (readNat? (splitSign cs).2).map fun value : Nat =>
      if (splitSign cs).1 then -(value : Int) else value := by
  rw [readInt?]
  rcases splitSign cs with ⟨negative, body⟩
  cases hbody : readNat? body with
  | none => simp [hbody]
  | some value => simp [hbody]

/-- Exactly the texts of integers are read, and read as the integers they stand for. -/
theorem readInt?_eq_some_iff : readInt? cs = some n ↔ Spells cs n := by
  rw [readInt?_eq_map, Option.map_eq_some_iff]
  constructor
  · rintro ⟨value, hvalue, hn⟩
    obtain ⟨sign, hcs, hsign⟩ := exists_eq_append_splitSign cs
    obtain ⟨hne, hall, rfl⟩ := readNat?_eq_some_iff.1 hvalue
    rw [hsign] at hn
    exact ⟨sign, _, hcs, hne, hall, hn.symm⟩
  · rintro ⟨sign, digits, rfl, hne, hall, rfl⟩
    rw [splitSign_append sign hne hall]
    exact ⟨_, readNat?_eq_some_iff.2 ⟨hne, hall, rfl⟩, rfl⟩

/-- A number that is read is in the range of 64 bits. -/
theorem readInt64?_eq_some_iff {i : Int64} : readInt64? cs = some i ↔ Spells cs i.toInt := by
  rw [readInt64?, Option.bind_eq_some_iff]
  constructor
  · rintro ⟨n, hn, hi⟩
    by_cases hrange : Int64.minValue.toInt ≤ n ∧ n ≤ Int64.maxValue.toInt
    · rw [if_pos hrange, Option.some.injEq] at hi
      have htoInt : i.toInt = n := by
        rw [← hi]
        exact Int64.toInt_ofInt_of_le hrange.1 (Int.lt_of_le_of_lt hrange.2 (by decide))
      rw [htoInt]
      exact readInt?_eq_some_iff.1 hn
    · rw [if_neg hrange] at hi
      cases hi
  · intro h
    refine ⟨i.toInt, readInt?_eq_some_iff.2 h, ?_⟩
    rw [if_pos ⟨i.minValue_le_toInt, i.toInt_le⟩, Int64.ofInt_toInt]

theorem Spells.isBlank_eq_false (h : Spells cs n) : ∀ c ∈ cs, isBlank c = false := by
  obtain ⟨sign, digits, rfl, -, hall, -⟩ := h
  intro c hc
  rcases List.mem_append.1 hc with hc | hc
  · cases sign with
    | unsigned => cases hc
    | plus =>
      obtain rfl := List.mem_singleton.1 hc
      decide
    | minus =>
      obtain rfl := List.mem_singleton.1 hc
      decide
  · exact isBlank_of_isDigit (List.all_eq_true.1 hall c hc)

theorem Spells.ne_nil (h : Spells cs n) : cs ≠ [] := by
  obtain ⟨sign, digits, rfl, hne, -, -⟩ := h
  exact List.append_ne_nil_of_right_ne_nil _ hne

/-- An integer is spelled by its own text. -/
theorem spells_intDigits (n : Int) : Spells (intDigits n) n := by
  have hall (k : Nat) : (natDigits k).all isDigit = true :=
    List.all_eq_true.2 fun c hc => Nat.isDigit_of_mem_toDigits (by decide) (by decide) hc
  have hvalue (k : Nat) : Nat.ofDigitChars 10 (natDigits k) 0 = k :=
    Nat.ofDigitChars_toDigits (by decide) (by decide)
  cases n with
  | ofNat k => exact ⟨.unsigned, natDigits k, rfl, Nat.toDigits_ne_nil, hall k, by rw [hvalue]; rfl⟩
  | negSucc k =>
    exact ⟨.minus, natDigits (k + 1), rfl, Nat.toDigits_ne_nil, hall (k + 1), by rw [hvalue]; rfl⟩

/-- What is read as an integer of 64 bits stands between blanks. -/
theorem readInt64?_trim_eq_some_iff {i : Int64} :
    readInt64? (trim cs) = some i ↔ ∃ u body v, cs = u ++ body ++ v ∧ u.all isBlank = true ∧
      v.all isBlank = true ∧ Spells body i.toInt := by
  rw [readInt64?_eq_some_iff]
  constructor
  · intro h
    obtain ⟨u, v, hcs, hu, hv⟩ := exists_eq_append_trim cs
    exact ⟨u, trim cs, v, hcs, hu, hv, h⟩
  · rintro ⟨u, body, v, rfl, hu, hv, h⟩
    rwa [trim_append hu hv h.ne_nil h.isBlank_eq_false]

theorem toInt_of_readInt64? {text : String} {i : Int64}
    (h : readInt64? (trim text.toList) = some i) :
    UnaryOp.toInt.apply (.str text) = .ok (.int i) := by
  have happly : UnaryOp.toInt.apply (.str text) =
      UnaryOp.converted text .int ((parseInt? text).map .int) := rfl
  rw [happly, parseInt?, h]
  rfl

end Integers

/-- Converted to a text, joined to a text on either side or printed, an integer gives the same text.
This text, with blanks around it, is converted to the integer again.

What is read as an integer, and not as a double, are the texts between blanks that consist of a sign
or none and one or more digits, with zeros in front or not, and stand for a number in the range of
64 bits. It is this number that they are converted to. -/
theorem integer_round_trip :
    (∀ i : Int64, ∃ t : String, UnaryOp.toText.apply (.int i) = .ok (.str t) ∧
      (∀ s, BinaryOp.add.apply (.str s) (.int i) = .ok (.str (s ++ t)) ∧
        BinaryOp.add.apply (.int i) (.str s) = .ok (.str (t ++ s))) ∧
      (∀ (code : Code) (f : Frame) (w : World) (rest : List Value),
        Instr.write.execute code { f with stack := .int i :: rest } w =
          Instr.write.execute code { f with stack := .str t :: rest } w) ∧
      ∀ u v : String, u.toList.all isBlank = true → v.toList.all isBlank = true →
        UnaryOp.toInt.apply (.str (u ++ t ++ v)) = .ok (.int i)) ∧
    ∀ (text : String) (i : Int64),
      (readInt64? (trim text.toList) = some i ↔ ∃ (u v digits : List Char) (sign : Sign),
        text.toList = u ++ (sign.chars ++ digits) ++ v ∧ u.all isBlank = true ∧
        v.all isBlank = true ∧ digits ≠ [] ∧ digits.all isDigit = true ∧
          i.toInt = sign.apply (Nat.ofDigitChars 10 digits 0)) ∧
      (readInt64? (trim text.toList) = some i →
          UnaryOp.toInt.apply (.str text) = .ok (.int i)) := by
  constructor
  · intro i
    refine ⟨intText i, rfl, fun s => ⟨rfl, rfl⟩, fun _ _ _ _ => rfl, fun u v hu hv =>
      toInt_of_readInt64? ?_⟩
    refine readInt64?_trim_eq_some_iff.2
      ⟨u.toList, intDigits i.toInt, v.toList, ?_, hu, hv, spells_intDigits i.toInt⟩
    simp [intText]
  · intro text i
    refine ⟨?_, toInt_of_readInt64?⟩
    rw [readInt64?_trim_eq_some_iff]
    constructor
    · rintro ⟨u, _, v, htext, hu, hv, sign, digits, rfl, hrest⟩
      exact ⟨u, v, digits, sign, htext, hu, hv, hrest⟩
    · rintro ⟨u, v, digits, sign, htext, hu, hv, hrest⟩
      exact ⟨u, _, v, htext, hu, hv, sign, digits, rfl, hrest⟩

/-- The lower end of the range, with blanks of several kinds around it, and a small number with a
plus sign and zeros. -/
theorem least_round_trip :
    UnaryOp.toText.apply (.int Int64.minValue) = .ok (.str "-9223372036854775808") ∧
    "\u3000\t".toList.all isBlank = true ∧ "\u2029".toList.all isBlank = true ∧
    UnaryOp.toInt.apply (.str ("\u3000\t" ++ "-9223372036854775808" ++ "\u2029")) =
      .ok (.int Int64.minValue) ∧
    UnaryOp.toInt.apply (.str "\u0085+0070 ") = .ok (.int 70) := by
  have hfirst : "\u3000\t".toList.all isBlank = true := by decide +kernel
  have hlast : "\u2029".toList.all isBlank = true := by decide +kernel
  have htext : UnaryOp.toText.apply (.int Int64.minValue) =
      .ok (.str "-9223372036854775808") := by decide +kernel
  obtain ⟨t, ht, -, -, hread⟩ := integer_round_trip.1 Int64.minValue
  rw [htext] at ht
  cases ht
  have hzeros : readInt64? (trim "\u0085+0070 ".toList) = some 70 := by
    refine ((integer_round_trip.2 _ _).1).2 ⟨['\u0085'], [' '], "0070".toList, .plus, ?_⟩
    decide +kernel
  exact ⟨htext, hfirst, hlast, hread _ _ hfirst hlast, (integer_round_trip.2 _ _).2 hzeros⟩

end FrameMachine.Text
