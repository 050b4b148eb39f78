import FrameMachine.Operation

/-!
# The order of strings

Strings are compared by their bytes. The bytes of a character are its number, cut into groups of six
bits, with a mark in front that is the greater the more groups there are. So of two characters with
as many bytes the greater one is greater in the first group in which they differ
(`Encoding.groups_lt`), and of two with different numbers of bytes it has the greater first byte
(`Encoding.first_lt`). In neither case do the bytes behind count, which is why the bytes of two
strings compare as the characters do (`Encoding.stringBytes_lt_iff`).

The four comparisons of strings are therefore those of the characters, taken one after the other,
and have the laws of a total order (`BinaryOp.strings_ordered`).
-/

set_option autoImplicit false

namespace FrameMachine

namespace Encoding

/-! ## Characters -/

/-- How many groups of six bits follow the first byte of a character. -/
def trailing (v : Nat) : Nat :=
  if v ≤ 0x7F then 0 else if v ≤ 0x7FF then 1 else if v ≤ 0xFFFF then 2 else 3

/-- The mark of the first byte, if so many groups follow. No more than three do. -/
def mark (k : Nat) : Nat :=
  if k = 0 then 0 else if k = 1 then 192 else if k = 2 then 224 else if k = 3 then 240 else 256

/-- What is left of a number in front of its last groups. -/
def leading : Nat → Nat → Nat
  | 0, v => v
  | k + 1, v => leading k (v / 64)

/-- The bytes of a number: what is in front of the last groups, with a mark, and the groups. -/
def groups (mark : Nat) : Nat → Nat → List UInt8
  | 0, v => [UInt8.ofNat (v + mark)]
  | k + 1, v => groups mark k (v / 64) ++ [UInt8.ofNat (v % 64 + 128)]

/-- The first byte of a number. -/
def first (v : Nat) : Nat := leading (trailing v) v + mark (trailing v)

theorem toNat_lt (c : Char) : c.toNat < 0x110000 := by
  have hvalid : c.toNat < 0xD800 ∨ 0xDFFF < c.toNat ∧ c.toNat < 0x110000 := c.valid
  omega

theorem utf8EncodeChar_eq_groups (c : Char) :
    String.utf8EncodeChar c = groups (mark (trailing c.toNat)) (trailing c.toNat) c.toNat := by
  have hmax := toNat_lt c
  have hbytes : String.utf8EncodeChar c =
      if c.toNat ≤ 0x7F then [UInt8.ofNat c.toNat]
      else if c.toNat ≤ 0x7FF then
        [UInt8.ofNat (c.toNat / 64 % 32 + 192), UInt8.ofNat (c.toNat % 64 + 128)]
      else if c.toNat ≤ 0xFFFF then
        [UInt8.ofNat (c.toNat / 4096 % 16 + 224), UInt8.ofNat (c.toNat / 64 % 64 + 128),
        UInt8.ofNat (c.toNat % 64 + 128)]
      else [UInt8.ofNat (c.toNat / 262144 % 8 + 240), UInt8.ofNat (c.toNat / 4096 % 64 + 128),
        UInt8.ofNat (c.toNat / 64 % 64 + 128), UInt8.ofNat (c.toNat % 64 + 128)] := rfl
  rw [hbytes, trailing]
  generalize c.toNat = v at hmax
  split
  · rfl
  · split
    · have hfirst : v / 64 % 32 = v / 64 := by omega
      rw [hfirst]
      rfl
    · split
      · have hfirst : v / 4096 % 16 = v / 64 / 64 := by omega
        rw [hfirst]
        rfl
      · have hfirst : v / 262144 % 8 = v / 64 / 64 / 64 := by omega
        have hsecond : v / 4096 % 64 = v / 64 / 64 % 64 := by omega
        rw [hfirst, hsecond]
        rfl

theorem ofNat_lt {a b : Nat} (h : a < b) (hb : b < 256) : UInt8.ofNat a < UInt8.ofNat b :=
  (UInt8.ofNat_lt_iff_lt (Nat.lt_trans h hb) hb).2 h

/-- The lesser number is less in the first group in which the numbers differ, whatever follows. -/
theorem groups_lt {mark k v w : Nat} (h : v < w) (hw : leading k w + mark < 256)
    (xs ys : List UInt8) :
    groups mark k v ++ xs < groups mark k w ++ ys := by
  induction k generalizing v w xs ys with
  | zero => exact List.Lex.rel (ofNat_lt (Nat.add_lt_add_right h mark) hw)
  | succ k ih =>
    rw [groups, groups, List.append_assoc, List.append_assoc]
    by_cases hfront : v / 64 < w / 64
    · exact ih hfront hw _ _
    · -- all the groups in front are the same, and the last one decides
      have hsame : v / 64 = w / 64 := by omega
      rw [hsame]
      exact List.append_left_lt (List.Lex.rel (ofNat_lt (by omega) (by omega)))

theorem exists_groups_eq_cons (mark k v : Nat) :
    ∃ rest, groups mark k v = UInt8.ofNat (leading k v + mark) :: rest := by
  induction k generalizing v with
  | zero => exact ⟨[], rfl⟩
  | succ k ih =>
    obtain ⟨rest, hrest⟩ := ih (v / 64)
    exact ⟨rest ++ [UInt8.ofNat (v % 64 + 128)], by rw [groups, hrest]; rfl⟩

theorem trailing_mono {v w : Nat} (h : v ≤ w) : trailing v ≤ trailing w := by
  unfold trailing
  (repeat' split) <;> omega

theorem mark_mono {j k : Nat} (h : j ≤ k) : mark j ≤ mark k := by
  unfold mark
  (repeat' split) <;> omega

/-- The marks are so far apart that the first byte stays below the next one. -/
theorem first_lt_mark {v : Nat} (h : v < 0x110000) : first v < mark (trailing v + 1) := by
  unfold first trailing
  (repeat' split) <;> simp [leading, mark] <;> omega

theorem first_lt_size {v : Nat} (h : v < 0x110000) : first v < 256 := by
  have hmark : mark (trailing v + 1) ≤ 256 := by
    unfold mark
    (repeat' split) <;> omega
  exact Nat.lt_of_lt_of_le (first_lt_mark h) hmark

/-- The number with fewer bytes has the lesser first byte. -/
theorem first_lt {v w : Nat} (hv : v < 0x110000) (h : trailing v < trailing w) :
    first v < first w :=
  calc first v < mark (trailing v + 1) := first_lt_mark hv
    _ ≤ mark (trailing w) := mark_mono h
    _ ≤ first w := Nat.le_add_left _ _

/-- The bytes of the lesser character are less, whatever follows. -/
theorem utf8EncodeChar_lt {c d : Char} (h : c < d) (xs ys : List UInt8) :
    String.utf8EncodeChar c ++ xs < String.utf8EncodeChar d ++ ys := by
  have hlt : c.toNat < d.toNat := h
  have hsize := first_lt_size (toNat_lt d)
  rw [utf8EncodeChar_eq_groups, utf8EncodeChar_eq_groups]
  by_cases hsame : trailing c.toNat = trailing d.toNat
  · rw [hsame]
    exact groups_lt hlt hsize xs ys
  · have hfewer : trailing c.toNat < trailing d.toNat :=
      Nat.lt_of_le_of_ne (trailing_mono (Nat.le_of_lt hlt)) hsame
    obtain ⟨rest, hrest⟩ :=
      exists_groups_eq_cons (mark (trailing c.toNat)) (trailing c.toNat) c.toNat
    obtain ⟨rest', hrest'⟩ :=
      exists_groups_eq_cons (mark (trailing d.toNat)) (trailing d.toNat) d.toNat
    rw [hrest, hrest']
    exact List.Lex.rel (ofNat_lt (first_lt (toNat_lt c) hfewer) hsize)

/-! ## Strings -/

theorem not_lt_iff {cs ds : List Char} : ¬ ds < cs ↔ cs < ds ∨ cs = ds :=
  List.not_lt.trans List.le_iff_lt_or_eq

theorem not_lt_trans {cs ds es : List Char} (hcd : ¬ ds < cs) (hde : ¬ es < ds) : ¬ es < cs :=
  List.not_lt.2 (List.le_trans (List.not_lt.1 hcd) (List.not_lt.1 hde))

/-- What keeps the strict order of lists of characters also reflects it. -/
theorem lt_iff_of_mono {β : Type} [LT β] [Std.Asymm (α := β) (· < ·)] {f : List Char → List β}
    (hf : ∀ {cs ds}, cs < ds → f cs < f ds) {cs ds : List Char} : f cs < f ds ↔ cs < ds := by
  refine ⟨fun h => ?_, hf⟩
  by_cases hlt : cs < ds
  · exact hlt
  · rcases not_lt_iff.1 hlt with hgt | rfl
    · exact absurd h (List.lt_asymm (hf hgt))
    · exact absurd h (List.lt_asymm h)

theorem flatMap_utf8EncodeChar_lt {cs ds : List Char} (h : cs < ds) :
    cs.flatMap String.utf8EncodeChar < ds.flatMap String.utf8EncodeChar := by
  change List.Lex (· < ·) cs ds at h
  induction h with
  | @nil d ds =>
    -- a character has a first byte
    obtain ⟨rest, hrest⟩ :=
      exists_groups_eq_cons (mark (trailing d.toNat)) (trailing d.toNat) d.toNat
    rw [List.flatMap_cons, utf8EncodeChar_eq_groups, hrest]
    exact List.Lex.nil
  | rel hlt => exact utf8EncodeChar_lt hlt _ _
  | cons _ ih => exact List.append_left_lt ih

theorem stringBytes_eq_flatMap (s : String) :
    BinaryOp.stringBytes s = s.toList.flatMap String.utf8EncodeChar := by
  have hbytes : BinaryOp.stringBytes s = s.toByteArray.data.toList := rfl
  rw [hbytes, ← String.utf8Encode_toList]
  exact List.toList_data_toByteArray

/-- The bytes of two strings compare as their characters do. -/
theorem stringBytes_lt_iff (a b : String) :
    BinaryOp.stringBytes a < BinaryOp.stringBytes b ↔ a.toList < b.toList := by
  rw [stringBytes_eq_flatMap, stringBytes_eq_flatMap]
  exact lt_iff_of_mono flatMap_utf8EncodeChar_lt

/-- The characters compare as their numbers do. -/
theorem map_toNat_lt_iff (cs ds : List Char) : cs.map Char.toNat < ds.map Char.toNat ↔ cs < ds :=
  lt_iff_of_mono (f := List.map Char.toNat) fun h => List.map_lt (fun _ _ hlt => hlt) h

end Encoding

/-! ## Comparisons -/

namespace BinaryOp

/-- The operator is one of the four comparisons. -/
def isOrder : BinaryOp → Bool
  | lt | le | gt | ge => true
  | _ => false

/-- The truth of a comparison, given whether the left operand is less and whether it is greater. -/
def decides (op : BinaryOp) (less greater : Bool) : Bool :=
  match op with
  | lt => less
  | le => !greater
  | gt => greater
  | ge => !less
  | _ => false

/-- The comparison of two strings character by character. It is the first characters that differ
that are compared. If there are none, the string that has come to its end is less than the other, as
zero is less than one. -/
def charwise (op : BinaryOp) : List Char → List Char → Except Fault Value
  | [], [] => op.apply (.int 0) (.int 0)
  | [], _ :: _ => op.apply (.int 0) (.int 1)
  | _ :: _, [] => op.apply (.int 1) (.int 0)
  | c :: cs, d :: ds => if c = d then op.charwise cs ds else op.apply (.char c) (.char d)

/-- The comparison of two strings is true. -/
def Holds (op : BinaryOp) (a b : String) : Prop := op.apply (.str a) (.str b) = .ok (.bool true)

section Laws

variable {op : BinaryOp} {a b c : String}

theorem orders?_eq_decides (h : op.isOrder = true) {α : Type} {less atMost : α → α → Bool}
    (hle : ∀ x y, atMost x y = !less y x) (x y : α) :
    op.orders? less atMost x y = some (op.decides (less x y) (less y x)) := by
  cases op with
  | lt | gt => rfl
  | le => exact congrArg some (hle x y)
  | ge => exact congrArg some (hle y x)
  | add | sub | mul | div | mod | and | or | eq | ne => cases h

theorem apply_eq_comparison (h : op.isOrder = true) {left right : Value}
    (hleft : left.isNil = false) (hright : right.isNil = false) :
    op.apply left right = op.comparison left right := by
  cases op with
  | lt | le | gt | ge => simp [apply, applyDefined, isEquality, hleft, hright]
  | add | sub | mul | div | mod | and | or | eq | ne => cases h

theorem apply_int (h : op.isOrder = true) (i j : Int64) :
    op.apply (.int i) (.int j) = .ok (.bool (op.decides (decide (i < j)) (decide (j < i)))) := by
  have hle (i j : Int64) : decide (i ≤ j) = !decide (j < i) := by
    rw [← decide_not, decide_eq_decide]
    exact Int64.not_lt.symm
  rw [apply_eq_comparison h rfl rfl, comparison, orders?_eq_decides h hle]

theorem apply_char (h : op.isOrder = true) (c d : Char) :
    op.apply (.char c) (.char d) = .ok (.bool (op.decides (decide (c < d)) (decide (d < c)))) := by
  have hle (c d : Char) : decide (c ≤ d) = !decide (d < c) := by
    rw [← decide_not, decide_eq_decide]
    exact Char.not_lt.symm
  rw [apply_eq_comparison h rfl rfl, comparison, orders?_eq_decides h hle]

/-- Strings are compared as their characters are. -/
theorem apply_str (h : op.isOrder = true) (a b : String) : op.apply (.str a) (.str b) =
    .ok (.bool (op.decides (decide (a.toList < b.toList)) (decide (b.toList < a.toList)))) := by
  have hless (a b : String) : stringLess a b = decide (a.toList < b.toList) := by
    rw [stringLess, decide_eq_decide]
    exact Encoding.stringBytes_lt_iff a b
  have hle (a b : String) : stringAtMost a b = !stringLess b a := rfl
  rw [apply_eq_comparison h rfl rfl, comparison, orders?_eq_decides h hle, hless, hless]

theorem charwise_eq (h : op.isOrder = true) (cs ds : List Char) :
    op.charwise cs ds = .ok (.bool (op.decides (decide (cs < ds)) (decide (ds < cs)))) := by
  fun_induction charwise op cs ds with
  | case1 | case2 | case3 =>
    -- one of the strings has come to its end, or both have
    rw [apply_int h]
    simp
  | case4 c cs ds ih => simpa [List.cons_lt_cons_iff] using ih
  | case5 c cs d ds hne =>
    rw [apply_char h]
    simp [List.cons_lt_cons_iff, hne, Ne.symm hne]

theorem append_lt_append_iff (p a b : String) :
    (p ++ a).toList < (p ++ b).toList ↔ a.toList < b.toList := by
  rw [String.toList_append, String.toList_append]
  induction p.toList with
  | nil => rfl
  | cons c cs ih => simpa [List.cons_lt_cons_iff] using ih

theorem holds_iff (h : op.isOrder = true) : op.Holds a b ↔
    op.decides (decide (a.toList < b.toList)) (decide (b.toList < a.toList)) = true := by
  rw [Holds, apply_str h, Except.ok.injEq, Value.bool.injEq]

theorem holds_lt : lt.Holds a b ↔ a.toList < b.toList := (holds_iff rfl).trans decide_eq_true_iff

theorem holds_le : le.Holds a b ↔ ¬ b.toList < a.toList := (holds_iff rfl).trans (by simp [decides])

theorem holds_gt : gt.Holds a b ↔ b.toList < a.toList := (holds_iff rfl).trans decide_eq_true_iff

theorem holds_ge : ge.Holds a b ↔ ¬ a.toList < b.toList := (holds_iff rfl).trans (by simp [decides])

theorem holds_eq : eq.Holds a b ↔ a = b := by
  have happly : eq.apply (.str a) (.str b) = .ok (.bool (decide (a = b))) := rfl
  rw [Holds, happly, Except.ok.injEq, Value.bool.injEq, decide_eq_true_iff]

theorem holds_le_iff : le.Holds a b ↔ lt.Holds a b ∨ eq.Holds a b := by
  rw [holds_le, holds_lt, holds_eq, Encoding.not_lt_iff, String.toList_inj]

theorem holds_ge_iff : ge.Holds a b ↔ ¬ lt.Holds a b := by
  rw [holds_ge, holds_lt]

theorem holds_trichotomy (a b : String) :
    (lt.Holds a b ∧ ¬ eq.Holds a b ∧ ¬ gt.Holds a b) ∨
    (¬ lt.Holds a b ∧ eq.Holds a b ∧ ¬ gt.Holds a b) ∨
    (¬ lt.Holds a b ∧ ¬ eq.Holds a b ∧ gt.Holds a b) := by
  rw [holds_lt, holds_eq, holds_gt]
  by_cases hlt : a.toList < b.toList
  · exact .inl ⟨hlt, fun heq => List.lt_irrefl _ (heq ▸ hlt), List.lt_asymm hlt⟩
  · rcases Encoding.not_lt_iff.1 hlt with hgt | heq
    · exact .inr (.inr ⟨hlt, fun heq => List.lt_irrefl _ (heq ▸ hgt), hgt⟩)
    · have hab : a = b := (String.toList_inj.1 heq).symm
      exact .inr (.inl ⟨hlt, hab, hab ▸ List.lt_irrefl _⟩)

theorem Holds.trans (h : op.isOrder = true) (hab : op.Holds a b) (hbc : op.Holds b c) :
    op.Holds a c := by
  cases op with
  | lt => exact holds_lt.2 (List.lt_trans (holds_lt.1 hab) (holds_lt.1 hbc))
  | le => exact holds_le.2 (Encoding.not_lt_trans (holds_le.1 hab) (holds_le.1 hbc))
  | gt => exact holds_gt.2 (List.lt_trans (holds_gt.1 hbc) (holds_gt.1 hab))
  | ge => exact holds_ge.2 (Encoding.not_lt_trans (holds_ge.1 hbc) (holds_ge.1 hab))
  | add | sub | mul | div | mod | and | or | eq | ne => cases h

end Laws

/-- Each of the four comparisons gives a truth value for any two strings. It is what the comparison
of the characters one after the other gives, and a text in front of both strings does not change it.
A string is less than another if the numbers of its characters are, in the lexicographic order. Of
any two strings the first is less than, equal to or greater than the second, and only one of these;
at most is less or equal, at least is not less, and each comparison is transitive. -/
theorem strings_ordered :
    (∀ op : BinaryOp, op.isOrder = true → ∀ a b : String,
      (∃ truth, op.apply (.str a) (.str b) = .ok (.bool truth)) ∧
      op.apply (.str a) (.str b) = op.charwise a.toList b.toList ∧
      (∀ p, op.apply (.str (p ++ a)) (.str (p ++ b)) = op.apply (.str a) (.str b)) ∧
      ∀ c, op.Holds a b → op.Holds b c → op.Holds a c) ∧
    ∀ a b : String,
      (lt.Holds a b ↔ a.toList.map Char.toNat < b.toList.map Char.toNat) ∧
      (eq.Holds a b ↔ a = b) ∧
      ((lt.Holds a b ∧ ¬ eq.Holds a b ∧ ¬ gt.Holds a b) ∨
        (¬ lt.Holds a b ∧ eq.Holds a b ∧ ¬ gt.Holds a b) ∨
        (¬ lt.Holds a b ∧ ¬ eq.Holds a b ∧ gt.Holds a b)) ∧
      (le.Holds a b ↔ lt.Holds a b ∨ eq.Holds a b) ∧
      (ge.Holds a b ↔ ¬ lt.Holds a b) := by
  refine ⟨fun op h a b => ⟨⟨_, apply_str h a b⟩, ?_, fun p => ?_, fun c => Holds.trans h⟩,
    fun a b => ?_⟩
  · rw [apply_str h, charwise_eq h]
  · rw [apply_str h, apply_str h]
    simp only [append_lt_append_iff]
  · exact ⟨holds_lt.trans (Encoding.map_toNat_lt_iff _ _).symm, holds_eq, holds_trichotomy a b,
      holds_le_iff, holds_ge_iff⟩

/-- The strings have characters of one, two, three and four bytes. -/
theorem widths_strings_ordered :
    lt.isOrder = true ∧ lt.Holds "z~" "é" ∧ lt.Holds "é" "日本" ∧ lt.Holds "日本" "😀" ∧
      lt.Holds "z~" "😀" ∧
      lt.apply (.str ("日" ++ "z~")) (.str ("日" ++ "😀")) = lt.apply (.str "z~") (.str "😀") := by
  have hless (a b : String) := (strings_ordered.2 a b).1.2
  have hfirst : lt.Holds "z~" "é" := hless _ _ (by decide)
  have hsecond : lt.Holds "é" "日本" := hless _ _ (by decide)
  have hthird : lt.Holds "日本" "😀" := hless _ _ (by decide)
  have hlaws := strings_ordered.1 lt rfl
  have hhalf := (hlaws "z~" "é").2.2.2 "日本" hfirst hsecond
  exact ⟨rfl, hfirst, hsecond, hthird, (hlaws "z~" "日本").2.2.2 "😀" hhalf hthird,
    (hlaws "z~" "😀").2.2.1 "日"⟩

end BinaryOp

end FrameMachine
