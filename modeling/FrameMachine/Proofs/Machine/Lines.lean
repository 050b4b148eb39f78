import FrameMachine.Proofs.Machine.Failure

/-!
# The lines of the input

The whole input is cut into lines behind each newline (`Input.lines`). Reading takes the first line
off and gives its contents as a text (`Input.readLine_eq`), so that the lines are delivered in their
order (`Input.readLine_unread`).

Reading decodes a line together with its end and drops the end from the text, whereas the contents
of a line (`Input.contents`) are the bytes in front of its end. This comes to the same
(`Input.decode?_line`), since a byte below 128 at the end of a line is a character of its own,
whatever stands before it.
-/

set_option autoImplicit false

namespace FrameMachine

/-- The byte that may stand before the end of a line and belongs to it then. -/
def carriageReturn : UInt8 := 13

namespace Input

/-- The lines of the input, each with the newline that ends it. The last one may have none. -/
def lines : List UInt8 → List (List UInt8)
  | [] => []
  | b :: bytes =>
    if b = newline then [b] :: lines bytes
    else
      match lines bytes with
      | [] => [[b]]
      | line :: rest => (b :: line) :: rest

/-- The bytes of a line in front of its end: a newline, and one carriage return right before it if
there is one. A line without a newline is kept whole. -/
def contents (line : List UInt8) : List UInt8 :=
  if line.getLast? = some newline then
    if line.dropLast.getLast? = some carriageReturn then line.dropLast.dropLast else line.dropLast
  else line

/-- The contents of a line as a text, if they are one. -/
def lineText (line : List UInt8) : Except StreamFault String :=
  match decode? (contents line) with
  | some text => .ok text
  | none => .error .invalidText

/-- What is read when the given number of lines has been read before. Behind the last line it is
the empty text. -/
def nthText (input : List UInt8) (k : Nat) : Except StreamFault String :=
  match (lines input)[k]? with
  | some line => lineText line
  | none => .ok ""

/-- What is left of the input when the given number of lines has been read. -/
def unread (input : List UInt8) (k : Nat) : List UInt8 := ((lines input).drop k).flatten

/-! ## Cutting the input into lines -/

theorem lines_newline (bytes : List UInt8) :
    lines (newline :: bytes) = [newline] :: lines bytes := by
  rw [lines, if_pos rfl]

/-- The first line is the one that is read first, and the others are the lines of the rest. -/
theorem lines_eq_cons {input : List UInt8} (h : input ≠ []) :
    lines input = (splitLine input).1 :: lines (splitLine input).2 := by
  induction input with
  | nil => exact absurd rfl h
  | cons b bytes ih =>
    by_cases hb : b = newline
    · rw [hb, lines_newline, splitLine_newline]
    · rw [lines, if_neg hb, splitLine_cons hb]
      cases bytes with
      | nil => rfl
      | cons d bytes => rw [ih (List.cons_ne_nil d bytes)]

/-- The lines one after the other are the whole input. -/
theorem flatten_lines (input : List UInt8) : (lines input).flatten = input := by
  induction input with
  | nil => rfl
  | cons b bytes ih =>
    rw [lines]
    split
    · rw [List.flatten_cons, ih]
      rfl
    · split
      · rename_i hnil
        rw [hnil] at ih
        rw [← ih]
        rfl
      · rename_i line rest hcons
        rw [hcons] at ih
        rw [← ih]
        rfl

theorem unread_zero (input : List UInt8) : unread input 0 = input := flatten_lines input

/-- The lines of what is left when some lines have been read are the other lines. -/
theorem lines_unread (input : List UInt8) (k : Nat) :
    lines (unread input k) = (lines input).drop k := by
  induction k generalizing input with
  | zero => rw [unread_zero, List.drop_zero]
  | succ k ih =>
    cases input with
    | nil => simp [unread, lines]
    | cons b bytes =>
      rw [unread, lines_eq_cons (List.cons_ne_nil b bytes), List.drop_succ_cons]
      exact ih _

/-! ## Decoding -/

/-- Bytes are decoded to a text if and only if they are its encoding. -/
theorem decode?_eq_some_iff {bytes : List UInt8} {s : String} :
    decode? bytes = some s ↔ bytes = s.toList.flatMap String.utf8EncodeChar := by
  have hencode : s.toByteArray = (s.toList.flatMap String.utf8EncodeChar).toByteArray := by
    rw [← List.utf8Encode, ← String.toByteArray_ofList, String.ofList_toList]
  have hbytes : (⟨bytes.toArray⟩ : ByteArray) = bytes.toByteArray := by simp [ByteArray.ext_iff]
  rw [decode?, String.fromUTF8?, hbytes]
  constructor
  · intro h
    split at h
    · rename_i hvalid
      cases h
      have hsame : bytes.toByteArray = (String.fromUTF8 bytes.toByteArray hvalid).toByteArray := rfl
      rw [hencode] at hsame
      simpa [ByteArray.ext_iff] using hsame
    · cases h
  · intro h
    have hvalid : bytes.toByteArray.IsValidUTF8 := by
      rw [h, ← hencode]
      exact s.isValidUTF8
    rw [dif_pos hvalid, Option.some.injEq, ← String.toByteArray_inj, hencode, ← h]
    rfl

section Ascii

variable {c : Char} {b : UInt8} (hc : String.utf8EncodeChar c = [b])

include hc

/-- A character whose encoding ends with the only byte of another is that other character, because
all bytes of an encoding but the first are marked as such. -/
theorem eq_of_utf8EncodeChar_concat {d : Char} {before : List UInt8}
    (hd : String.utf8EncodeChar d = before ++ [b]) :
    d = c ∧ before = [] := by
  have hfirst : b.IsUTF8FirstByte := by
    have hpositive : 0 < (String.utf8EncodeChar c).length := by simp [hc]
    have hplace : (String.utf8EncodeChar c)[0].IsUTF8FirstByte ↔ 0 = 0 :=
      UInt8.isUTF8FirstByte_getElem_utf8EncodeChar
    simpa [hc] using hplace
  have hlast : before.length < (String.utf8EncodeChar d).length := by simp [hd]
  have hplace : (String.utf8EncodeChar d)[before.length].IsUTF8FirstByte ↔ before.length = 0 :=
    UInt8.isUTF8FirstByte_getElem_utf8EncodeChar
  simp only [hd, List.getElem_concat_length, hfirst, true_iff] at hplace
  -- the byte stands at the beginning, so it is the whole encoding
  obtain rfl := List.eq_nil_of_length_eq_zero hplace
  have hdecode (e : Char) (he : String.utf8EncodeChar e = [b]) :
      decode? [b] = some (String.singleton e) := by
    rw [decode?_eq_some_iff, String.toList_singleton, List.flatMap_singleton, he]
  have hsame := (hdecode d hd).symm.trans (hdecode c hc)
  exact ⟨by simpa [← String.toList_inj] using hsame, rfl⟩

/-- An encoding that ends with the only byte of a character is that of a text that ends with
this character. -/
theorem flatMap_utf8EncodeChar_eq_concat {cs : List Char} {before : List UInt8}
    (h : before ++ [b] = cs.flatMap String.utf8EncodeChar) :
    ∃ cs', cs = cs' ++ [c] ∧ before = cs'.flatMap String.utf8EncodeChar := by
  rcases List.eq_nil_or_concat cs with rfl | ⟨cs', d, rfl⟩
  · simp at h
  · obtain ⟨front, e, hd⟩ :=
      (List.eq_nil_or_concat (String.utf8EncodeChar d)).resolve_left String.utf8EncodeChar_ne_nil
    rw [List.concat_eq_append] at h hd
    rw [List.flatMap_append, List.flatMap_singleton, hd, ← List.append_assoc] at h
    obtain ⟨hfront, hbyte⟩ := List.append_inj' h rfl
    obtain rfl : b = e := by simpa using hbyte
    obtain ⟨rfl, rfl⟩ := eq_of_utf8EncodeChar_concat hc hd
    exact ⟨cs', List.concat_eq_append, by simpa using hfront⟩

/-- Whether bytes are a text does not depend on a byte of this kind at their end. -/
theorem decode?_concat (bytes : List UInt8) :
    decode? (bytes ++ [b]) = (decode? bytes).map (·.push c) := by
  cases hdecode : decode? bytes with
  | some s =>
    rw [decode?_eq_some_iff] at hdecode
    rw [Option.map_some, decode?_eq_some_iff, String.toList_push, List.flatMap_append,
      List.flatMap_singleton, hc, ← hdecode]
  | none =>
    rw [Option.map_none]
    cases hwhole : decode? (bytes ++ [b]) with
    | none => rfl
    | some s =>
      obtain ⟨cs, -, hcs⟩ := flatMap_utf8EncodeChar_eq_concat hc (decode?_eq_some_iff.1 hwhole)
      have hsome : decode? bytes = some (String.ofList cs) := by
        rw [decode?_eq_some_iff, String.toList_ofList, hcs]
      rw [hdecode] at hsome
      cases hsome

/-- A text ends with the character if and only if its encoding ends with the byte. -/
theorem getLast?_of_decode? {bytes : List UInt8} {s : String} (h : decode? bytes = some s) :
    bytes.getLast? = some b ↔ s.toList.getLast? = some c := by
  rw [decode?_eq_some_iff] at h
  constructor
  · intro hlast
    obtain ⟨before, rfl⟩ := List.getLast?_eq_some_iff.1 hlast
    obtain ⟨cs, hcs, -⟩ := flatMap_utf8EncodeChar_eq_concat hc h
    rw [hcs, List.getLast?_concat]
  · intro hlast
    obtain ⟨cs, hcs⟩ := List.getLast?_eq_some_iff.1 hlast
    rw [h, hcs, List.flatMap_append, List.flatMap_singleton, hc, List.getLast?_concat]

end Ascii

theorem utf8EncodeChar_newline : String.utf8EncodeChar '\n' = [newline] := by decide

theorem utf8EncodeChar_carriageReturn : String.utf8EncodeChar '\r' = [carriageReturn] := by decide

/-! ## Line ends -/

theorem dropLineEnd_newline {cs : List Char} (h : cs.getLast? ≠ some '\r') :
    dropLineEnd (cs ++ ['\n']) = cs := by
  rw [dropLineEnd, List.reverse_append]
  split
  · rename_i body hbody
    have hreverse : cs.reverse = '\r' :: body := by simpa using hbody
    rw [← List.head?_reverse, hreverse] at h
    exact absurd rfl h
  · rename_i body _ hbody
    have hreverse : cs.reverse = body := by simpa using hbody
    rw [← hreverse, List.reverse_reverse]
  · rename_i hother
    exact absurd rfl (hother cs.reverse)

theorem dropLineEnd_of_ne {cs : List Char} (h : cs.getLast? ≠ some '\n') : dropLineEnd cs = cs := by
  rw [← List.head?_reverse] at h
  rw [dropLineEnd]
  split
  · rename_i body hbody
    rw [hbody] at h
    exact absurd rfl h
  · rename_i body _ hbody
    rw [hbody] at h
    exact absurd rfl h
  · rfl

/-- Decoding a line and then dropping its end gives its contents as a text, or fails if
they are none. -/
theorem decode?_line (line : List UInt8) :
    ((decode? line).map fun text => String.ofList (dropLineEnd text.toList)) =
      decode? (contents line) := by
  rw [contents]
  split
  · rename_i hnewline
    obtain ⟨body, rfl⟩ := List.getLast?_eq_some_iff.1 hnewline
    rw [List.dropLast_concat, decode?_concat utf8EncodeChar_newline]
    split
    · rename_i hreturn
      obtain ⟨front, rfl⟩ := List.getLast?_eq_some_iff.1 hreturn
      rw [List.dropLast_concat, decode?_concat utf8EncodeChar_carriageReturn]
      cases decode? front with
      | none => rfl
      | some text => simp [dropLineEnd]
    · rename_i hother
      cases hbody : decode? body with
      | none => rfl
      | some text =>
        rw [getLast?_of_decode? utf8EncodeChar_carriageReturn hbody] at hother
        simp [dropLineEnd_newline hother]
  · rename_i hother
    cases hline : decode? line with
    | none => rfl
    | some text =>
      rw [getLast?_of_decode? utf8EncodeChar_newline hline] at hother
      simp [dropLineEnd_of_ne hother]

/-- Reading a line gives its text. -/
theorem readLine_text (input : List UInt8) : (readLine input).1 = lineText (splitLine input).1 := by
  rw [readLine, lineText, ← decode?_line]
  simp only
  cases decode? (splitLine input).1 with
  | none => rfl
  | some text => rfl

/-- Reading gives the text of the first line and leaves the other lines. At the end of the input it
gives an empty text. -/
theorem readLine_eq (input : List UInt8) : readLine input = (nthText input 0, unread input 1) := by
  cases input with
  | nil => rfl
  | cons b bytes =>
    have hlines := lines_eq_cons (List.cons_ne_nil b bytes)
    apply Prod.ext
    · rw [readLine_text, nthText, hlines]
      rfl
    · rw [readLine_rest, unread, hlines, List.drop_succ_cons]
      exact (unread_zero _).symm

/-- When some lines have been read, reading gives the text of the next one. -/
theorem readLine_unread (input : List UInt8) (k : Nat) :
    readLine (unread input k) = (nthText input k, unread input (k + 1)) := by
  have htext : nthText (unread input k) 0 = nthText input k := by
    rw [nthText, nthText, lines_unread, List.getElem?_drop, Nat.add_zero]
  have hrest : unread (unread input k) 1 = unread input (k + 1) := by
    rw [unread, lines_unread, List.drop_drop, unread]
  rw [readLine_eq, htext, hrest]

/-- Inputs of which the first lines agree give the same texts as long as only these are read. -/
theorem nthText_of_take {input input' : List UInt8} {j k : Nat}
    (hlines : (lines input).take k = (lines input').take k) (hj : j < k) :
    nthText input j = nthText input' j := by
  have hline : (lines input)[j]? = (lines input')[j]? := by
    rw [← List.getElem?_take_of_lt hj, hlines, List.getElem?_take_of_lt hj]
  rw [nthText, nthText, hline]

end Input

end FrameMachine
