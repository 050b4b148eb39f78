import FrameMachine.Listing
import FrameMachine.Proofs.Text.Recognition

/-!
# Listings are faithful

The listing of code says which functions it has, with their names, their numbers of parameters and
their instructions. Two codes with the same listing agree in all this (`Code.listing_faithful`), if
names are words and no constant is a double.

A line of the listing has an end of its own, since a newline inside a constant is written in another
way. What stands before the instruction, its place and its label, consists of other characters than
the name of the instruction (`Template.line_append_inj`). The name says which kind of operand
follows (`Instr.kind_operand`), and operands of the same kind are recognised
(`Operand.text_append_inj`).
-/

set_option autoImplicit false

namespace FrameMachine

/-! ## Constants -/

namespace Literal

/-- Whether the constant is a double. -/
def isDouble : Literal → Bool
  | double _ => true
  | _ => false

/-- The kinds of constants that are told apart by their first characters. -/
inductive Kind where
  | nil | number | truth | character | string

/-- The kind of a constant. -/
def kind : Literal → Kind
  | nil => .nil
  | int _ | double _ => .number
  | bool _ => .truth
  | char _ => .character
  | str _ => .string

/-- The kind of a constant whose text begins with the given character. -/
def kindOfFirst : Char → Kind
  | 'n' => .nil
  | 't' | 'f' => .truth
  | '\x27' => .character
  | '\x22' => .string
  | _ => .number

theorem kindOfFirst_of_isDigit {c : Char} (h : c.isDigit = true) : kindOfFirst c = .number := by
  unfold kindOfFirst
  split
  case h_6 => rfl
  all_goals simp at h

theorem exists_text {a : Literal} (ha : a.isDouble = false) :
    ∃ c cs, a.text.toList = c :: cs ∧ kindOfFirst c = a.kind := by
  cases a with
  | nil => exact ⟨'n', _, rfl, rfl⟩
  | double => cases ha
  | bool b =>
    cases b with
    | false => exact ⟨'f', _, rfl, rfl⟩
    | true => exact ⟨'t', _, rfl, rfl⟩
  | char c => exact ⟨'\x27', _, String.toList_ofList, rfl⟩
  | str s => exact ⟨'\x22', _, String.toList_ofList, rfl⟩
  | int i =>
    have htext : (int i).text.toList = Text.intDigits i.toInt := String.toList_ofList
    rw [htext]
    cases i.toInt with
    | negSucc n => exact ⟨'-', _, rfl, rfl⟩
    | ofNat n =>
      have hne : Text.natDigits n ≠ [] := Nat.toDigits_ne_nil
      obtain ⟨c, cs, hdigits⟩ := List.exists_cons_of_ne_nil hne
      have hmem : c ∈ Text.natDigits n := hdigits ▸ List.mem_cons_self
      exact ⟨c, cs, hdigits, kindOfFirst_of_isDigit (Text.isDigit_of_mem_natDigits hmem)⟩

/-- Constants with the same text are the same. -/
theorem text_inj {a b : Literal} (ha : a.isDouble = false) (hb : b.isDouble = false)
    (h : a.text.toList = b.text.toList) : a = b := by
  -- the first character excludes constants of another kind
  obtain ⟨c, cs, hc, hakind⟩ := exists_text ha
  obtain ⟨d, ds, hd, hbkind⟩ := exists_text hb
  have hkind : a.kind = b.kind := by
    rw [hc, hd] at h
    rw [← hakind, ← hbkind, (List.cons.inj h).1]
  cases a with
  | double => cases ha
  | nil =>
    cases b with
    | nil => rfl
    | _ => cases hkind
  | int i =>
    cases b with
    | int j =>
      have hdigits : Text.intDigits i.toInt = Text.intDigits j.toInt := by
        simpa [text, intText] using h
      rw [Int64.toInt_inj.1 (Text.intDigits_inj hdigits)]
    | double => cases hb
    | _ => cases hkind
  | bool p =>
    cases b with
    | bool q =>
      cases p with
      | false =>
        cases q with
        | false => rfl
        | true => cases h
      | true =>
        cases q with
        | false => cases h
        | true => rfl
    | _ => cases hkind
  | char c =>
    cases b with
    | char d =>
      have hquoted : Text.quoteWith '\x27' [c] = Text.quoteWith '\x27' [d] := by
        simpa [text, Text.quoteChar] using h
      rw [List.singleton_inj.1 (Text.quoteWith_inj (Or.inr rfl) hquoted)]
    | _ => cases hkind
  | str s =>
    cases b with
    | str t =>
      have hquoted : Text.quoteWith '\x22' s.toList = Text.quoteWith '\x22' t.toList := by
        simpa [text, Text.quoteString] using h
      rw [String.toList_inj.1 (Text.quoteWith_inj (Or.inl rfl) hquoted)]
    | _ => cases hkind

theorem newline_notMem_text {a : Literal} (ha : a.isDouble = false) : '\n' ∉ a.text.toList := by
  cases a with
  | nil => decide
  | double => cases ha
  | bool b => cases b <;> decide
  | char c =>
    rw [text, Text.quoteChar, String.toList_ofList]
    exact Text.newline_notMem_quoteWith (Or.inr rfl) [c]
  | str s =>
    rw [text, Text.quoteString, String.toList_ofList]
    exact Text.newline_notMem_quoteWith (Or.inl rfl) s.toList
  | int i =>
    rw [text, intText, String.toList_ofList]
    cases i.toInt with
    | ofNat n => exact Text.newline_notMem_natDigits n
    | negSucc n => simpa [Text.intDigits] using Text.newline_notMem_natDigits (n + 1)

end Literal

/-! ## Operands -/

/-- What stands behind the name of an instruction. -/
inductive Operand where
  | none
  | constant (value : Literal)
  | number (n : Nat)
  | name (s : String)
  | names (ss : List String)

namespace Operand

/-- The kinds of operands. -/
inductive Kind where
  | none | constant | number | name | names

/-- The kind of an operand. -/
def kind : Operand → Kind
  | none => .none
  | constant _ => .constant
  | number _ => .number
  | name _ => .name
  | names _ => .names

/-- The text of an operand behind the name of its instruction. -/
def text : Operand → List Char
  | none => []
  | constant value => ' ' :: value.text.toList
  | number n => ' ' :: Text.natDigits n
  | name s => ' ' :: s.toList
  | names ss => ' ' :: '[' :: Text.listed ss

/-- Names are words, and a constant is no double. -/
def isLegible : Operand → Bool
  | constant value => !value.isDouble
  | name s => Text.isWord s
  | names ss => ss.all Text.isWord
  | none | number _ => true

/-- Operands of the same kind are recognised. Something else may follow behind a number,
but not a digit. -/
theorem text_append_inj {o o' : Operand} {xs ys : List Char} (hkind : o.kind = o'.kind)
    (ho : o.isLegible = true) (ho' : o'.isLegible = true) (hxs : Text.Ends Char.isDigit xs)
    (hys : Text.Ends Char.isDigit ys) (hempty : o.kind ≠ .number → xs = [] ∧ ys = [])
    (h : o.text ++ xs = o'.text ++ ys) : o = o' := by
  cases o with
  | none =>
    cases o' with
    | none => rfl
    | _ => cases hkind
  | number m =>
    cases o' with
    | number n => rw [(Text.natDigits_append_inj hxs hys (List.cons.inj h).2).1]
    | _ => cases hkind
  | constant a =>
    cases o' with
    | constant b =>
      obtain ⟨rfl, rfl⟩ := hempty (by simp [kind])
      have htext : a.text.toList = b.text.toList := by simpa [text] using h
      rw [Literal.text_inj (by simpa [isLegible] using ho) (by simpa [isLegible] using ho') htext]
    | _ => cases hkind
  | name s =>
    cases o' with
    | name t =>
      obtain ⟨rfl, rfl⟩ := hempty (by simp [kind])
      have htext : s.toList = t.toList := by simpa [text] using h
      rw [String.toList_inj.1 htext]
    | _ => cases hkind
  | names ss =>
    cases o' with
    | names ts =>
      obtain ⟨rfl, rfl⟩ := hempty (by simp [kind])
      have htext : Text.listed ss = Text.listed ts := by simpa [text] using h
      rw [Text.listed_inj (List.all_eq_true.1 ho) (List.all_eq_true.1 ho') htext]
    | _ => cases hkind

theorem ends_text_append (o : Operand) {xs : List Char} (hxs : Text.Ends (· != ' ') xs) :
    Text.Ends (· != ' ') (o.text ++ xs) := by
  cases o with
  | none => exact hxs
  | _ => exact Text.ends_cons.2 rfl

theorem newline_notMem_text {o : Operand} (ho : o.isLegible = true) : '\n' ∉ o.text := by
  cases o with
  | none => simp [text]
  | number n => simpa [text] using Text.newline_notMem_natDigits n
  | constant a => simpa [text] using Literal.newline_notMem_text (by simpa [isLegible] using ho)
  | name s => simpa [text] using Text.newline_notMem_word ho
  | names ss => simpa [text] using Text.newline_notMem_listed (List.all_eq_true.1 ho)

end Operand

/-! ## Instructions -/

namespace Instr

/-- The operand of an instruction. -/
def operand : Instr → Operand
  | push value => .constant value
  | load n | store n | jump n | jumpUnless n => .number n
  | call s | getField s | setField s => .name s
  | alloc ss => .names ss
  | _ => .none

/-- The kind of operand that an instruction of the given name has. -/
def kindNamed : String → Operand.Kind
  | "push" => .constant
  | "load" | "store" | "jmp" | "jmpf" => .number
  | "call" | "getfld" | "setfld" => .name
  | "alloc" => .names
  | _ => .none

/-- The instructions without an operand. -/
def bare : List Instr :=
  [pop, charAt, ret, write, read, free, dup, swap, nop,
    unary .neg, unary .not, unary .length, unary .toInt, unary .toDouble, unary .toText] ++
      BinaryOp.all.map binary

/-- The instruction with the given name and operand. -/
def assemble? (name : String) : Operand → Option Instr
  | .none => bare.find? fun i => i.mnemonic == name
  | .constant value => some (push value)
  | .number n =>
    match name with
    | "load" => some (load n)
    | "store" => some (store n)
    | "jmp" => some (jump n)
    | _ => some (jumpUnless n)
  | .name s =>
    match name with
    | "call" => some (call s)
    | "getfld" => some (getField s)
    | _ => some (setField s)
  | .names ss => some (alloc ss)

theorem toList_text (i : Instr) : i.text.toList = i.mnemonic.toList ++ i.operand.text := by
  cases i with
  | alloc ss => simp [text, operandText?, operand, Operand.text, Text.listed]
  | _ => simp [text, operandText?, operand, Operand.text]

theorem kind_operand (i : Instr) : i.operand.kind = kindNamed i.mnemonic := by
  cases i with
  | unary op => cases op <;> rfl
  | binary op => cases op <;> rfl
  | _ => rfl

theorem assemble?_operand (i : Instr) : assemble? i.mnemonic i.operand = some i := by
  cases i with
  | unary op => cases op <;> rfl
  | binary op => cases op <;> rfl
  | _ => rfl

theorem mnemonic_ne_nil (i : Instr) : i.mnemonic.toList ≠ [] := by
  cases i with
  | unary op => cases op <;> decide
  | binary op => cases op <;> decide
  | _ =>
    rw [mnemonic]
    decide

theorem isLower_of_mem_mnemonic {i : Instr} {c : Char} (h : c ∈ i.mnemonic.toList) :
    c.isLower = true := by
  have hall : i.mnemonic.toList.all Char.isLower = true := by
    cases i with
    | unary op => cases op <;> decide
    | binary op => cases op <;> decide
    | _ =>
      rw [mnemonic]
      decide
  exact List.all_eq_true.1 hall c h

theorem target?_eq_none {i : Instr} (h : i.operand.kind ≠ .number) : i.target? = none := by
  cases i with
  | jump | jumpUnless => exact absurd rfl h
  | _ => rfl

/-- Names are words, and a constant is no double. -/
def isLegible (i : Instr) : Bool := i.operand.isLegible

/-- An instruction is recognised by its text. Something else may follow behind a jump,
after a blank. -/
theorem text_append_inj {i j : Instr} {xs ys : List Char} (hi : i.isLegible = true)
    (hj : j.isLegible = true) (hxs : Text.Ends (· != ' ') xs) (hys : Text.Ends (· != ' ') ys)
    (hi' : i.target? = none → xs = []) (hj' : j.target? = none → ys = [])
    (h : i.text.toList ++ xs = j.text.toList ++ ys) : i = j := by
  have hblank {k : Instr} : ∀ c ∈ k.mnemonic.toList, (c != ' ') = true := by
    intro c hc
    have hlower := isLower_of_mem_mnemonic hc
    apply bne_iff_ne.2
    rintro rfl
    simp at hlower
  have hdigit (c : Char) (hc : c.isDigit = true) : (c != ' ') = true := by
    apply bne_iff_ne.2
    rintro rfl
    simp at hc
  rw [toList_text, toList_text, List.append_assoc, List.append_assoc] at h
  -- the name ends at the first blank, and says what kind of operand follows
  obtain ⟨hname, hrest⟩ := Text.append_inj_of_ends hblank hblank (i.operand.ends_text_append hxs)
    (j.operand.ends_text_append hys) h
  have hmnemonic : i.mnemonic = j.mnemonic := String.toList_inj.1 hname
  have hkind : i.operand.kind = j.operand.kind := by rw [kind_operand, kind_operand, hmnemonic]
  have hempty (hother : i.operand.kind ≠ .number) : xs = [] ∧ ys = [] :=
    ⟨hi' (target?_eq_none hother), hj' (target?_eq_none (hkind ▸ hother))⟩
  have hoperand :=
    Operand.text_append_inj hkind hi hj (hxs.mono hdigit) (hys.mono hdigit) hempty hrest
  apply Option.some.inj
  rw [← assemble?_operand i, ← assemble?_operand j, hmnemonic, hoperand]

end Instr

/-! ## Lines -/

namespace Template

/-- The characters that stand before an instruction. -/
def isMargin (c : Char) : Bool := c == ' ' || c.isDigit || c == 'L' || c == ':'

section Lines

variable {targets targets' : List Nat} {place place' : Nat} {i j : Instr} {xs ys : List Char}

theorem toList_line_append (targets : List Nat) (place : Nat) (i : Instr) (xs : List Char) :
    (line targets place i).toList ++ xs =
      (margin targets place).toList ++
        ((i.text.toList ++ (goal targets i).toList) ++ '\n' :: xs) := by
  rw [line]
  simp

theorem isMargin_of_mem_padLeft {width : Nat} {s : String} (hs : ∀ c ∈ s.toList, isMargin c = true)
    {c : Char} (h : c ∈ (padLeft width s).toList) : isMargin c = true := by
  rw [padLeft, String.toList_append, String.toList_ofList] at h
  rcases List.mem_append.1 h with hblank | hmem
  · rw [(List.mem_replicate.1 hblank).2]
    rfl
  · exact hs c hmem

theorem isMargin_of_mem_natText {n : Nat} {c : Char} (h : c ∈ (natText n).toList) :
    isMargin c = true := by
  rw [natText, String.toList_ofList] at h
  simp [isMargin, Text.isDigit_of_mem_natDigits h]

theorem isMargin_of_mem_label {c : Char} (h : c ∈ (label targets place).toList) :
    isMargin c = true := by
  rw [label] at h
  split at h
  · rename_i n _
    have hmem : c = 'L' ∨ c ∈ (natText n).toList ∨ c = ':' := by simpa [or_assoc] using h
    rcases hmem with rfl | hmem | rfl
    · rfl
    · exact isMargin_of_mem_natText hmem
    · rfl
  · simp at h

theorem isMargin_of_mem_margin {c : Char} (h : c ∈ (margin targets place).toList) :
    isMargin c = true := by
  have hblanks {s : String} (hs : s.toList.all isMargin = true) (hc : c ∈ s.toList) :
      isMargin c = true :=
    List.all_eq_true.1 hs c hc
  simp only [margin, String.toList_append, List.mem_append, or_assoc] at h
  rcases h with h | h | h | h | h
  · exact hblanks (by decide) h
  · exact isMargin_of_mem_padLeft (fun c hc => isMargin_of_mem_natText hc) h
  · exact hblanks (by decide) h
  · exact isMargin_of_mem_padLeft (fun c hc => isMargin_of_mem_label hc) h
  · exact hblanks (by decide) h

theorem isMargin_of_isLower {c : Char} (h : c.isLower = true) : isMargin c = false := by
  have hdigit : c.isDigit = false := by
    have hletter : (decide (c.val ≥ 'a'.val) && decide (c.val ≤ 'z'.val)) = true := h
    have hle : 'a'.val ≤ c.val := of_decide_eq_true (Bool.and_eq_true_iff.1 hletter).1
    have hlt : '9'.val < c.val := Nat.lt_of_lt_of_le (by decide : '9'.val < 'a'.val) hle
    exact Bool.and_eq_false_iff.2 (Or.inr (decide_eq_false (UInt32.not_le.2 hlt)))
  have hne {d : Char} (hd : d.isLower = false) : (c == d) = false := by
    apply beq_false_of_ne
    rintro rfl
    rw [h] at hd
    cases hd
  simp [isMargin, hdigit, hne]

/-- The margin ends where the name of the instruction begins. -/
theorem ends_margin (i : Instr) (xs ys : List Char) :
    Text.Ends isMargin ((i.text.toList ++ xs) ++ ys) := by
  obtain ⟨c, cs, hname⟩ := List.exists_cons_of_ne_nil i.mnemonic_ne_nil
  have hmem : c ∈ i.mnemonic.toList := hname ▸ List.mem_cons_self
  rw [Instr.toList_text, hname]
  exact Text.ends_cons.2 (isMargin_of_isLower (Instr.isLower_of_mem_mnemonic hmem))

theorem goal_eq_empty (h : i.target? = none) : (goal targets i).toList = [] := by
  rw [goal, h]
  rfl

theorem ends_goal (targets : List Nat) (i : Instr) :
    Text.Ends (· != ' ') (goal targets i).toList := by
  rw [goal]
  split
  · rw [String.toList_append, String.toList_append]
    exact Text.ends_cons.2 rfl
  · exact Text.ends_nil _

theorem newline_notMem_targetName (targets : List Nat) (target : Nat) :
    '\n' ∉ (targetName targets target).toList := by
  rw [targetName]
  split
  · rename_i n _
    simpa [natText] using Text.newline_notMem_natDigits n
  · simpa [natText] using Text.newline_notMem_natDigits target

theorem newline_notMem_goal (targets : List Nat) (i : Instr) : '\n' ∉ (goal targets i).toList := by
  rw [goal]
  split
  · rename_i target _
    simpa using newline_notMem_targetName targets target
  · simp

/-- The newline at the end of a line is the only one. -/
theorem newline_notMem_text (hi : i.isLegible = true) :
    '\n' ∉ i.text.toList ++ (goal targets i).toList := by
  rw [Instr.toList_text, List.append_assoc]
  intro h
  rcases List.mem_append.1 h with hname | hrest
  · have hlower := Instr.isLower_of_mem_mnemonic hname
    simp at hlower
  · rcases List.mem_append.1 hrest with hoperand | hgoal
    · exact Operand.newline_notMem_text hi hoperand
    · exact newline_notMem_goal targets i hgoal

/-- An instruction is recognised by its line, wherever it stands and whatever labels there are. -/
theorem line_append_inj (hi : i.isLegible = true) (hj : j.isLegible = true)
    (h : (line targets place i).toList ++ xs = (line targets' place' j).toList ++ ys) :
    i = j ∧ xs = ys := by
  have hnewline {k : Instr} {labels : List Nat} (hk : k.isLegible = true) :
      ∀ c ∈ k.text.toList ++ (goal labels k).toList, (c != '\n') = true := by
    intro c hc
    apply bne_iff_ne.2
    rintro rfl
    exact newline_notMem_text hk hc
  have hend (cs : List Char) : Text.Ends (· != '\n') ('\n' :: cs) := Text.ends_cons.2 rfl
  rw [toList_line_append, toList_line_append] at h
  -- the margins may differ, but both end in front of a lower case letter
  obtain ⟨-, hline⟩ := Text.append_inj_of_ends (fun c hc => isMargin_of_mem_margin hc)
    (fun c hc => isMargin_of_mem_margin hc) (ends_margin i _ _) (ends_margin j _ _) h
  obtain ⟨htext, hrest⟩ :=
    Text.append_inj_of_ends (hnewline hi) (hnewline hj) (hend xs) (hend ys) hline
  exact ⟨Instr.text_append_inj hi hj (ends_goal targets i)
    (ends_goal targets' j) goal_eq_empty goal_eq_empty htext, (List.cons.inj hrest).2⟩

/-- A line does not begin with a newline. -/
theorem not_ends_line (targets : List Nat) (place : Nat) (i : Instr) (xs : List Char) :
    ¬ Text.Ends (· != '\n') ((line targets place i).toList ++ xs) := by
  have hopens : ∃ cs, (line targets place i).toList = ' ' :: cs := by
    simp [line, margin]
  obtain ⟨cs, hcs⟩ := hopens
  rw [hcs]
  intro hends
  cases Text.ends_cons.1 hends

end Lines

/-! ## Functions -/

/-- Names are words, and no constant is a double. -/
def isLegible (t : Template) : Bool := Text.isWord t.name && t.code.all Instr.isLegible

/-- What the listing of a function says. -/
def contents (t : Template) : String × Nat × Array Instr := (t.name, t.arity, t.code)

section Functions

variable {t u : Template} {xs ys : List Char}

theorem isLegible_iff :
    t.isLegible = true ↔ Text.isWord t.name = true ∧ ∀ i ∈ t.code.toList, i.isLegible = true := by
  rw [isLegible, Bool.and_eq_true, ← Array.all_toList, List.all_eq_true]

theorem toList_listing (t : Template) : t.listing.toList =
    t.heading.toList ++ t.code.toList.zipIdx.flatMap fun p => (line t.targets p.2 p.1).toList := by
  rw [listing, String.toList_append, String.toList_join, List.flatMap_map]

/-- The name and the number of parameters are recognised by the heading. -/
theorem heading_append_inj (ht : Text.isWord t.name = true) (hu : Text.isWord u.name = true)
    (h : t.heading.toList ++ xs = u.heading.toList ++ ys) :
    t.name = u.name ∧ t.arity = u.arity ∧ xs = ys := by
  have hheading (v : Template) (zs : List Char) : v.heading.toList ++ zs = "frame ".toList ++
      (v.name.toList ++ (" (arity ".toList ++ (Text.natDigits v.arity ++ ')' :: '\n' :: zs))) := by
    simp [heading, natText]
  rw [hheading, hheading] at h
  have hblank {zs : List Char} : Text.Ends Text.isWordChar (" (arity ".toList ++ zs) :=
    Text.ends_cons.2 (by decide)
  have hbracket {zs : List Char} : Text.Ends Char.isDigit (')' :: zs) :=
    Text.ends_cons.2 (by decide)
  obtain ⟨hname, hrest⟩ := Text.word_append_inj ht hu hblank hblank (List.append_cancel_left h)
  obtain ⟨harity, hend⟩ :=
    Text.natDigits_append_inj hbracket hbracket (List.append_cancel_left hrest)
  exact ⟨hname, harity, (List.cons.inj (List.cons.inj hend).2).2⟩

/-- A function is recognised by its listing, at the end of the text or in front of an empty line. -/
theorem listing_append_inj (ht : t.isLegible = true) (hu : u.isLegible = true)
    (hxs : Text.Ends (· != '\n') xs) (hys : Text.Ends (· != '\n') ys)
    (h : t.listing.toList ++ xs = u.listing.toList ++ ys) :
    t.contents = u.contents ∧ xs = ys := by
  obtain ⟨htname, htcode⟩ := isLegible_iff.1 ht
  obtain ⟨huname, hucode⟩ := isLegible_iff.1 hu
  rw [toList_listing, toList_listing, List.append_assoc, List.append_assoc] at h
  obtain ⟨hname, harity, hlines⟩ := heading_append_inj htname huname h
  -- a line is recognised whatever is behind it, so only the end of the sequence has to be
  -- told from a line
  have hend (zs : List Char) (_ : Text.Ends (· != '\n') zs) : True := trivial
  have hopens (targets : List Nat) (p : Instr × Nat) (zs : List Char) :
      True ∧ ¬ Text.Ends (· != '\n') ((line targets p.2 p.1).toList ++ zs) :=
    ⟨trivial, not_ends_line targets p.2 p.1 zs⟩
  have hcode : t.code.toList.zipIdx.map Prod.fst = u.code.toList.zipIdx.map Prod.fst ∧ xs = ys := by
    apply Text.flatMap_append_inj hend (hopens t.targets) (hopens u.targets) _ hxs hys hlines
    intro p hp q hq zs zs' _ _ heq
    have hlegible := htcode p.1 (List.fst_mem_of_mem_zipIdx hp)
    have hlegible' := hucode q.1 (List.fst_mem_of_mem_zipIdx hq)
    exact line_append_inj hlegible hlegible' heq
  rw [List.zipIdx_map_fst, List.zipIdx_map_fst, Array.toList_inj] at hcode
  exact ⟨by rw [contents, contents, hname, harity, hcode.1], hcode.2⟩

/-- The listings of several functions, with an empty line between two of them. -/
def listings (ts : List Template) : List Char :=
  ['\n'].intercalate (ts.map fun t => t.listing.toList)

theorem newline_listings_cons (t : Template) (ts : List Template) :
    '\n' :: listings (t :: ts) = (t :: ts).flatMap (fun u => '\n' :: u.listing.toList) ++ [] := by
  rw [listings, List.map_cons, Text.intercalate_cons_eq, List.flatMap_map, List.flatMap_cons,
    List.append_nil]
  rfl

theorem listings_cons_ne (t : Template) (ts : List Template) :
    listings (t :: ts) ≠ listings [] := by
  have hopens : ∃ cs, listings (t :: ts) = 'f' :: cs := by
    simp [listings, Text.intercalate_cons_eq, toList_listing, heading]
  obtain ⟨cs, hcs⟩ := hopens
  rw [hcs]
  exact List.cons_ne_nil 'f' cs

/-- Functions are recognised by their listings. -/
theorem listings_inj {ts us : List Template} (hts : ∀ t ∈ ts, t.isLegible = true)
    (hus : ∀ u ∈ us, u.isLegible = true) (h : listings ts = listings us) :
    ts.map contents = us.map contents := by
  cases ts with
  | nil =>
    cases us with
    | nil => rfl
    | cons u us => exact absurd h.symm (listings_cons_ne u us)
  | cons t ts =>
    cases us with
    | nil => exact absurd h (listings_cons_ne t ts)
    | cons u us =>
      -- with a further newline in front of all, each listing has one before it
      have hlines : '\n' :: listings (t :: ts) = '\n' :: listings (u :: us) := by rw [h]
      rw [newline_listings_cons, newline_listings_cons] at hlines
      have hend (zs : List Char) (hzs : zs = []) : Text.Ends (· != '\n') zs := hzs ▸ Text.ends_nil _
      have hopens (v : Template) (zs : List Char) :
          Text.Ends (· != '\n') (('\n' :: v.listing.toList) ++ zs) ∧
          ('\n' :: v.listing.toList) ++ zs ≠ [] := ⟨Text.ends_cons.2 rfl, List.cons_ne_nil _ _⟩
      refine (Text.flatMap_append_inj hend hopens hopens ?_ rfl rfl hlines).1
      intro v hv v' hv' zs zs' hzs hzs' heq
      exact listing_append_inj (hts v hv) (hus v' hv') hzs hzs' (List.cons.inj heq).2

end Functions

end Template

/-! ## Code -/

/-- Names are words, and no constant is a double. -/
def Code.isLegible (code : Code) : Bool := code.templates.all Template.isLegible

theorem Code.toList_listing (code : Code) :
    code.listing.toList = Template.listings code.templates.toList := by
  rw [listing, String.toList_intercalate, Template.listings, List.map_map]
  rfl

/-- Code with the same listing has the same functions in the same order, with the same names,
numbers of parameters and instructions. -/
theorem Code.listing_faithful {code code' : Code} (hcode : code.isLegible = true)
    (hcode' : code'.isLegible = true) (h : code.listing = code'.listing) :
    code.templates.toList.map (fun t => (t.name, t.arity, t.code)) =
      code'.templates.toList.map (fun t => (t.name, t.arity, t.code)) := by
  rw [isLegible, ← Array.all_toList, List.all_eq_true] at hcode hcode'
  apply Template.listings_inj hcode hcode'
  rw [← toList_listing, ← toList_listing, h]

/-- Two functions with constants of all kinds but doubles, given the greatest height of the stack of
the first one. The string has a newline, a quote, a backslash and a combining accent in it. -/
def gallery (height : Nat) : Code := .ofTemplates [
  { name := "main", arity := 0, maxStack := height,
    code := #[.push (.str "a\n\"\\e\u0301"), .push (.char '\x27'), .push (.int (-5)), .push .nil,
      .push (.bool false), .jumpUnless 7, .jump 0, .alloc [], .call "f_2"] },
  { name := "f_2", arity := 2, code := #[.alloc ["x", "y1"], .dup, .getField "x", .ret] }]

/-- The height of the stack is not listed, but all the rest of `gallery` can be told
from its listing. -/
theorem gallery_listing_faithful :
    (gallery 4).isLegible = true ∧ (gallery 9).isLegible = true ∧
      (gallery 4).templates ≠ (gallery 9).templates ∧ (gallery 4).listing = (gallery 9).listing ∧
      (gallery 4).templates.toList.map (fun t => (t.name, t.arity, t.code)) =
        (gallery 9).templates.toList.map (fun t => (t.name, t.arity, t.code)) := by
  have hlegible : (gallery 4).isLegible = true := by decide +kernel
  have hlegible' : (gallery 9).isLegible = true := by decide +kernel
  have hlisting : (gallery 4).listing = (gallery 9).listing := by decide +kernel
  exact ⟨hlegible, hlegible', by decide +kernel, hlisting,
    Code.listing_faithful hlegible hlegible' hlisting⟩

end FrameMachine
