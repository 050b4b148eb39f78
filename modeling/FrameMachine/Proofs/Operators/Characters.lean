import FrameMachine.Proofs.Operators.Integers

/-!
# Strings as sequences of characters

A string is looked up by the place of a character, and its length is the number of its characters,
however many bytes each of them takes. An index that is negative or not less than the length has no
character (`charIn?_eq_none_iff`).

So a string is made again by joining its characters one after the other (`gathered_eq_take`), and of
two strings that have been joined, the first is found at its own places and the second behind them
(`charIn?_append`).
-/

set_option autoImplicit false

namespace FrameMachine

/-! ## Looking up characters -/

/-- The character at an index, counted from zero. -/
def charIn? (s : String) (i : Int64) : Option Char :=
  if i.toInt < 0 then none else s.toList[i.toInt.toNat]?

section Lookup

variable {s : String} {i : Int64}

theorem charAt_eq (s : String) (i : Int64) : charAt (.str s) (.int i) =
    match charIn? s i with
    | some c => .ok (.str c.toString)
    | none => .error (.indexOutOfRange i s.length) := by
  have hnegative : i < 0 ↔ i.toInt < 0 := Int64.lt_iff_toInt_lt
  have hlookup : (if i < 0 then none else charAt? s i.toInt.toNat) = charIn? s i := by
    simp only [charIn?, hnegative, charAt?_eq_getElem?]
  rw [← hlookup]
  rfl

theorem charIn?_eq_none_iff : charIn? s i = none ↔ ¬ (0 ≤ i.toInt ∧ i.toInt < s.length) := by
  rw [charIn?]
  split
  · simp
    omega
  · rw [List.getElem?_eq_none_iff, String.length_toList]
    omega

theorem charIn?_ofNat {n : Nat} (hn : n < 2 ^ 63) (s : String) :
    charIn? s (Int64.ofNat n) = s.toList[n]? := by
  rw [charIn?, Int64.toInt_ofNat_of_lt hn, if_neg (by omega), Int.toNat_natCast]

theorem charAt_of_some {c : Char} (h : charIn? s i = some c) :
    charAt (.str s) (.int i) = .ok (.str c.toString) := by
  rw [charAt_eq, h]

theorem charAt_of_none (h : charIn? s i = none) :
    charAt (.str s) (.int i) = .error (.indexOutOfRange i s.length) := by
  rw [charAt_eq, h]

end Lookup

theorem Instr.yields_charAt (string index : Value) :
    Instr.charAt.Yields [string, index] (FrameMachine.charAt string index) :=
  fun _ _ _ => rfl

/-- There is a character at an index exactly if the index is in the range from zero to the
length. -/
theorem Instr.yields_charAt_iff (s : String) (i : Int64) :
    (∃ v, Instr.charAt.Yields [.str s, .int i] (.ok v)) ↔ 0 ≤ i.toInt ∧ i.toInt < s.length := by
  have hyields := yields_charAt (.str s) (.int i)
  cases hc : charIn? s i with
  | none =>
    rw [charAt_of_none hc] at hyields
    refine iff_of_false ?_ (charIn?_eq_none_iff.1 hc)
    rintro ⟨v, hv⟩
    cases hyields.unique hv
  | some c =>
    rw [charAt_of_some hc] at hyields
    refine iff_of_true ⟨_, hyields⟩ ?_
    by_contra hout
    rw [charIn?_eq_none_iff.2 hout] at hc
    cases hc

/-! ## Joining characters -/

/-- The characters at the first places of a string, looked up one after the other, and each joined
to those before it. -/
def gathered (s : String) : Nat → Except Fault Value
  | 0 => .ok (.str "")
  | n + 1 => (gathered s n).bind fun text =>
    (charAt (.str s) (.int (Int64.ofNat n))).bind fun c => BinaryOp.add.apply text c

/-- One more character makes the text one character longer. -/
theorem gathered_succ {s : String} {n : Nat} {cs : List Char} {c : Char}
    (h : gathered s n = .ok (.str (String.ofList cs))) (hn : n < 2 ^ 63)
    (hc : s.toList[n]? = some c) : gathered s (n + 1) = .ok (.str (String.ofList (cs ++ [c]))) := by
  have hlookup : charAt (.str s) (.int (Int64.ofNat n)) = .ok (.str c.toString) := by
    apply charAt_of_some
    rw [charIn?_ofNat hn, hc]
  have hjoin : BinaryOp.add.apply (.str (String.ofList cs)) (.str c.toString) =
      .ok (.str (String.ofList cs ++ c.toString)) :=
    rfl
  have hstring : String.ofList cs ++ c.toString = String.ofList (cs ++ [c]) := by
    rw [String.ofList_append]
    rfl
  rw [gathered, h, hlookup, ← hstring]
  exact hjoin

/-- The text that has been gathered is the beginning of the string. -/
theorem gathered_eq_take {s : String} (n : Nat) (hlength : n ≤ s.length) (hn : n ≤ 2 ^ 63) :
    gathered s n = .ok (.str (String.ofList (s.toList.take n))) := by
  induction n with
  | zero => rfl
  | succ n ih =>
    have hlt : n < s.toList.length := by
      rw [String.length_toList]
      omega
    rw [List.take_succ_eq_append_getElem hlt]
    exact gathered_succ (ih (by omega) (by omega)) (by omega) (List.getElem?_eq_getElem hlt)

theorem gathered_length {s : String} (h : s.length ≤ 2 ^ 63) :
    gathered s s.length = .ok (.str s) := by
  have htake : s.toList.take s.length = s.toList := by
    rw [← String.length_toList, List.take_length]
  rw [gathered_eq_take s.length (Nat.le_refl _) h, htake, String.ofList_toList]

/-! ## Strings that have been joined -/

section Joined

variable {i : Int64}

/-- An index behind the first string is an index in the second, which is the lesser by the length
of the first. -/
theorem toInt_sub_length {n : Nat} (h : (n : Int) ≤ i.toInt) :
    (i - Int64.ofNat n).toInt = i.toInt - n := by
  have hlt : i.toInt < 2 ^ 63 := i.toInt_lt
  rw [Int64.toInt_sub, Int64.toInt_ofNat_of_lt (by omega)]
  apply Int.bmod_eq_of_le <;> omega

/-- The characters of the first string keep their places, and those of the second follow. -/
theorem charIn?_append (a b : String) (i : Int64) :
    charIn? (a ++ b) i =
      if i.toInt < a.length then charIn? a i else charIn? b (i - Int64.ofNat a.length) := by
  by_cases hnegative : i.toInt < 0
  · have hfirst : i.toInt < a.length := by omega
    rw [if_pos hfirst, charIn?, charIn?, if_pos hnegative, if_pos hnegative]
  · rw [charIn?, if_neg hnegative, String.toList_append, List.getElem?_append, String.length_toList]
    by_cases hfirst : i.toInt < a.length
    · rw [if_pos hfirst, if_pos (by omega), charIn?, if_neg hnegative]
    · have hplace := toInt_sub_length (Int.not_lt.1 hfirst)
      rw [if_neg hfirst, if_neg (by omega), charIn?, hplace, if_neg (by omega)]
      congr 1
      omega

/-- Two look-ups with the same result: both give the same value, or both are out of range. -/
def SameLookup (x y : Except Fault Value) : Prop :=
  (∃ v, x = .ok v ∧ y = .ok v) ∨
    ∃ i j m n, x = .error (.indexOutOfRange i m) ∧ y = .error (.indexOutOfRange j n)

theorem sameLookup_of_charIn? {s t : String} {j : Int64} (h : charIn? s i = charIn? t j) :
    SameLookup (charAt (.str s) (.int i)) (charAt (.str t) (.int j)) := by
  cases hc : charIn? t j with
  | some c => exact .inl ⟨_, charAt_of_some (h.trans hc), charAt_of_some hc⟩
  | none => exact .inr ⟨_, _, _, _, charAt_of_none (h.trans hc), charAt_of_none hc⟩

end Joined

/-- Looking up an index gives the character at this place if there is one, and fails otherwise with
the index and the length. The characters of a string, looked up and joined in their order, are the
string; a string that has more than `2 ^ 63` of them cannot be looked up to its end. Joined strings
have the lengths of both, and a look-up in them is a look-up in the first or, with the length of the
first taken off, in the second. -/
theorem strings_are_characters :
    (∀ string index, Instr.charAt.Yields [string, index] (charAt string index)) ∧
    (∀ (s : String) (i : Int64),
      ((∃ v, Instr.charAt.Yields [.str s, .int i] (.ok v)) ↔ 0 ≤ i.toInt ∧ i.toInt < s.length) ∧
      (∀ c, 0 ≤ i.toInt → s.toList[i.toInt.toNat]? = some c →
        charAt (.str s) (.int i) = .ok (.str c.toString)) ∧
      (¬ (0 ≤ i.toInt ∧ i.toInt < s.length) →
        charAt (.str s) (.int i) = .error (.indexOutOfRange i s.length))) ∧
    (∀ s : String, s.length ≤ 2 ^ 63 → gathered s s.length = .ok (.str s)) ∧
    (∀ s : String, ∃ n, (Instr.unary .length).Yields [.str s] (.ok (.int n)) ∧
      IsResidue s.length n) ∧
    ∀ a b : String,
      (Instr.binary .add).Yields [.str b, .str a] (.ok (.str (a ++ b))) ∧
      (a ++ b).length = a.length + b.length ∧
      (∃ m n k, (Instr.unary .length).Yields [.str a] (.ok (.int m)) ∧
        (Instr.unary .length).Yields [.str b] (.ok (.int n)) ∧
        (Instr.unary .length).Yields [.str (a ++ b)] (.ok (.int k)) ∧
        (Instr.binary .add).Yields [.int n, .int m] (.ok (.int k))) ∧
      ∀ i : Int64,
        (i.toInt < a.length →
          SameLookup (charAt (.str (a ++ b)) (.int i)) (charAt (.str a) (.int i))) ∧
        (a.length ≤ i.toInt →
          SameLookup (charAt (.str (a ++ b)) (.int i))
            (charAt (.str b) (.int (i - Int64.ofNat a.length)))) := by
  refine ⟨Instr.yields_charAt,
    fun s i => ⟨Instr.yields_charAt_iff s i, fun c hpos hc => ?_, fun hout => ?_⟩,
    fun s hs => gathered_length hs, fun s => ?_,
    fun a b => ⟨Instr.yields_binary .add (.str a) (.str b), String.length_append a b, ?_,
      fun i => ⟨fun hfirst => ?_, fun hsecond => ?_⟩⟩⟩
  · apply charAt_of_some
    rw [charIn?, if_neg (Int.not_lt.2 hpos), hc]
  · exact charAt_of_none (charIn?_eq_none_iff.2 hout)
  · refine ⟨_, Instr.yields_unary .length (.str s), isResidue_of_eq_bmod ?_⟩
    exact Int64.toInt_ofNat
  · have hsum : Int64.ofNat (a ++ b).length = Int64.ofNat a.length + Int64.ofNat b.length := by
      rw [String.length_append, Int64.ofNat_add]
    have hlength := Instr.yields_unary .length (.str (a ++ b))
    refine ⟨_, _, _, Instr.yields_unary .length (.str a), Instr.yields_unary .length (.str b),
      hlength, ?_⟩
    rw [hsum]
    exact Instr.yields_ints .add rfl
  · apply sameLookup_of_charIn?
    rw [charIn?_append, if_pos hfirst]
  · apply sameLookup_of_charIn?
    rw [charIn?_append, if_neg (Int.not_lt.2 hsecond)]

/-- The characters take one, two, three and four bytes. -/
theorem widths_are_characters :
    charAt (.str "zé日😀") (.int 2) = .ok (.str "日") ∧
    charAt (.str "zé日😀") (.int (-1)) = .error (.indexOutOfRange (-1) 4) ∧
    gathered "zé日😀" 4 = .ok (.str "zé日😀") ∧
    SameLookup (charAt (.str ("zé" ++ "日😀")) (.int 3)) (charAt (.str "日😀") (.int 1)) := by
  obtain ⟨-, hlookup, hgathered, -, hjoined⟩ := strings_are_characters
  refine ⟨(hlookup _ _).2.1 '日' (by decide) (by decide), (hlookup _ _).2.2 (by decide),
    hgathered _ (by decide), ?_⟩
  exact ((hjoined "zé" "日😀").2.2.2 3).2 (by decide)

end FrameMachine
