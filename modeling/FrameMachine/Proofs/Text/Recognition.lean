import FrameMachine.Text.Quoted

/-!
# Texts that are recognised in front of other texts

What has been written can be read back if the place is known where it ends. A run of characters of
one kind ends in front of a character of another kind (`append_inj_of_ends`). From this it follows
that numbers are recognised, words, and quoted texts, in which each character is written in a way
that shows its own end (`WrittenAs.append_inj`). A sequence is recognised if its members are and
nothing behind it can be taken for a further member (`flatMap_append_inj`).
-/

set_option autoImplicit false

namespace FrameMachine.Text

/-- A text that does not begin with a character that passes the test. -/
def Ends (test : Char → Bool) (cs : List Char) : Prop := ∀ c ∈ cs.head?, test c = false

@[simp] theorem ends_nil (test : Char → Bool) : Ends test [] := by simp [Ends]

@[simp] theorem ends_cons {test : Char → Bool} {c : Char} {cs : List Char} :
    Ends test (c :: cs) ↔ test c = false := by
  simp [Ends]

theorem Ends.mono {test test' : Char → Bool} {cs : List Char} (h : Ends test cs)
    (hle : ∀ c, test' c = true → test c = true) : Ends test' cs := by
  intro c hc
  cases htest : test' c with
  | false => rfl
  | true => exact absurd (hle c htest) (by simp [h c hc])

section Runs

variable {test : Char → Bool} {as bs xs ys : List Char}

/-- Runs of characters that pass a test are the same if they stand at the beginning of the same text
and end there. -/
theorem append_inj_of_ends (has : ∀ c ∈ as, test c = true) (hbs : ∀ c ∈ bs, test c = true)
    (hxs : Ends test xs) (hys : Ends test ys) (h : as ++ xs = bs ++ ys) : as = bs ∧ xs = ys := by
  -- one run cannot go on where the other one ends
  induction as generalizing bs with
  | nil =>
    cases bs with
    | nil => exact ⟨rfl, h⟩
    | cons b bs =>
      have hxs' : xs = b :: (bs ++ ys) := h
      rw [hxs', ends_cons, hbs b List.mem_cons_self] at hxs
      cases hxs
  | cons a as ih =>
    cases bs with
    | nil =>
      have hys' : a :: (as ++ xs) = ys := h
      rw [← hys', ends_cons, has a List.mem_cons_self] at hys
      cases hys
    | cons b bs =>
      obtain ⟨rfl, hrest⟩ := List.cons.inj h
      obtain ⟨rfl, rfl⟩ := ih (fun c hc => has c (List.mem_cons_of_mem a hc))
        (fun c hc => hbs c (List.mem_cons_of_mem a hc)) hrest
      exact ⟨rfl, rfl⟩

end Runs

section Sequences

variable {α β γ : Type} {f : α → List Char} {g : β → List Char} {key : α → γ} {key' : β → γ}
  {Behind Done : List Char → Prop} {as : List α} {bs : List β} {xs ys : List Char}

/-- What may stand behind a text may also begin with a sequence, if it may begin with each
member. -/
theorem flatMap_append_behind (hf : ∀ a cs, Behind (f a ++ cs)) (hxs : Behind xs) (as : List α) :
    Behind (as.flatMap f ++ xs) := by
  cases as with
  | nil => exact hxs
  | cons a as =>
    rw [List.flatMap_cons, List.append_assoc]
    exact hf a _

/-- Two sequences of texts have the same members, as far as each of them shows what it stands for,
if they stand at the beginning of the same text and what is behind them is not the beginning of a
further member. -/
theorem flatMap_append_inj (hdone : ∀ cs, Done cs → Behind cs)
    (hf : ∀ a cs, Behind (f a ++ cs) ∧ ¬ Done (f a ++ cs))
    (hg : ∀ b cs, Behind (g b ++ cs) ∧ ¬ Done (g b ++ cs))
    (hmember : ∀ a ∈ as, ∀ b ∈ bs, ∀ cs ds, Behind cs → Behind ds → f a ++ cs = g b ++ ds →
      key a = key' b ∧ cs = ds)
    (hxs : Done xs) (hys : Done ys) (h : as.flatMap f ++ xs = bs.flatMap g ++ ys) :
    as.map key = bs.map key' ∧ xs = ys := by
  -- member by member; a sequence that is at its end has something else behind it than the next
  -- member of the other
  induction as generalizing bs with
  | nil =>
    cases bs with
    | nil => exact ⟨rfl, h⟩
    | cons b bs =>
      have hxs' : xs = g b ++ (bs.flatMap g ++ ys) := by simpa using h
      rw [hxs'] at hxs
      exact absurd hxs (hg b _).2
  | cons a as ih =>
    cases bs with
    | nil =>
      have hys' : ys = f a ++ (as.flatMap f ++ xs) := by simpa using h.symm
      rw [hys'] at hys
      exact absurd hys (hf a _).2
    | cons b bs =>
      rw [List.flatMap_cons, List.flatMap_cons, List.append_assoc, List.append_assoc] at h
      have hbehind := flatMap_append_behind (fun a' cs => (hf a' cs).1) (hdone xs hxs) as
      have hbehind' := flatMap_append_behind (fun b' cs => (hg b' cs).1) (hdone ys hys) bs
      obtain ⟨hkey, hrest⟩ :=
        hmember a List.mem_cons_self b List.mem_cons_self _ _ hbehind hbehind' h
      obtain ⟨hkeys, hxy⟩ := ih (fun a' ha b' hb =>
        hmember a' (List.mem_cons_of_mem a ha) b' (List.mem_cons_of_mem b hb)) hrest
      exact ⟨by rw [List.map_cons, List.map_cons, hkey, hkeys], hxy⟩

end Sequences

/-! ## Numbers -/

section Numbers

variable {b m n : Nat}

theorem digitChar_inj (hm : m < 16) (hn : n < 16) (h : m.digitChar = n.digitChar) : m = n := by
  have hall : ∀ m < 16, ∀ n < 16, m.digitChar = n.digitChar → m = n := by decide
  exact hall m hm n hn h

/-- A number is known from its digits. -/
theorem toDigits_inj (hb : 1 < b) (hb' : b ≤ 16) (h : Nat.toDigits b m = Nat.toDigits b n) :
    m = n := by
  induction m using Nat.strongRecOn generalizing n with
  | ind m ih =>
    by_cases hm : m < b
    · by_cases hn : n < b
      · rw [Nat.toDigits_of_lt_base hm, Nat.toDigits_of_lt_base hn] at h
        exact digitChar_inj (by omega) (by omega) (List.singleton_inj.1 h)
      · rw [Nat.toDigits_of_lt_base hm, Nat.toDigits_of_base_le hb (Nat.le_of_not_lt hn)] at h
        exact absurd (List.append_eq_singleton_iff.1 h.symm) (by simp)
    · rw [Nat.toDigits_of_base_le hb (Nat.le_of_not_lt hm)] at h
      by_cases hn : n < b
      · rw [Nat.toDigits_of_lt_base hn] at h
        exact absurd (List.append_eq_singleton_iff.1 h) (by simp)
      · rw [Nat.toDigits_of_base_le hb (Nat.le_of_not_lt hn)] at h
        obtain ⟨hfront, hlast⟩ := List.append_inj' h rfl
        have hmod : m % b < b := Nat.mod_lt m (by omega)
        have hmod' : n % b < b := Nat.mod_lt n (by omega)
        have hquotient : m / b = n / b := ih (m / b) (Nat.div_lt_self (by omega) hb) hfront
        have hremainder : m % b = n % b :=
          digitChar_inj (by omega) (by omega) (List.singleton_inj.1 hlast)
        rw [← Nat.div_add_mod m b, ← Nat.div_add_mod n b, hquotient, hremainder]

theorem mem_toDigits {c : Char} (hb : 1 < b) (h : c ∈ Nat.toDigits b n) :
    ∃ d < b, c = d.digitChar := by
  induction n using Nat.strongRecOn with
  | ind n ih =>
    rw [Nat.toDigits_eq_if hb] at h
    split at h
    · rename_i hn
      exact ⟨n, hn, List.mem_singleton.1 h⟩
    · rename_i hn
      rcases List.mem_append.1 h with hfront | hlast
      · exact ih (n / b) (Nat.div_lt_self (by omega) hb) hfront
      · exact ⟨n % b, Nat.mod_lt n (by omega), List.mem_singleton.1 hlast⟩

theorem isDigit_of_mem_natDigits {c : Char} (h : c ∈ natDigits n) : c.isDigit = true :=
  Nat.isDigit_of_mem_toDigits (by decide) (by decide) h

theorem newline_notMem_natDigits (n : Nat) : '\n' ∉ natDigits n := by
  intro h
  have hdigit := isDigit_of_mem_natDigits h
  simp at hdigit

/-- A number is recognised in front of a character that is no digit. -/
theorem natDigits_append_inj {xs ys : List Char} (hxs : Ends Char.isDigit xs)
    (hys : Ends Char.isDigit ys) (h : natDigits m ++ xs = natDigits n ++ ys) : m = n ∧ xs = ys := by
  obtain ⟨hdigits, hrest⟩ := append_inj_of_ends (fun c hc => isDigit_of_mem_natDigits hc)
    (fun c hc => isDigit_of_mem_natDigits hc) hxs hys h
  exact ⟨toDigits_inj (by decide) (by decide) hdigits, hrest⟩

theorem natDigits_inj (h : natDigits m = natDigits n) : m = n :=
  toDigits_inj (by decide) (by decide) h

theorem natDigits_ne_minus {cs : List Char} : natDigits n ≠ '-' :: cs := by
  intro h
  have hdigit : '-'.isDigit = true := isDigit_of_mem_natDigits (h ▸ List.mem_cons_self)
  simp at hdigit

theorem intDigits_inj {i j : Int} (h : intDigits i = intDigits j) : i = j := by
  cases i with
  | ofNat m =>
    cases j with
    | ofNat n => rw [natDigits_inj h]
    | negSucc n => exact absurd h natDigits_ne_minus
  | negSucc m =>
    cases j with
    | ofNat n => exact absurd h.symm natDigits_ne_minus
    | negSucc n =>
      have hsucc := natDigits_inj (List.cons.inj h).2
      rw [Nat.succ.inj hsucc]

end Numbers

/-! ## Quoted texts -/

/-- One of the two characters between which texts are quoted. -/
def IsQuote (c : Char) : Prop := c = '\x22' ∨ c = '\x27'

/-- What a character stands for behind a backslash. -/
def meaning : Char → Char
  | '0' => '\x00'
  | 't' => '\t'
  | 'n' => '\n'
  | 'r' => '\r'
  | c => c

/-- The ways in which a character is written between quotes. -/
inductive WrittenAs (quote c : Char) : List Char → Prop
  | short {n : Char} : meaning n = c → n ≠ 'u' → n ≠ '\n' → WrittenAs quote c ['\\', n]
  | numbered : WrittenAs quote c (numbered c)
  | plain : c ≠ quote → c ≠ '\\' → c ≠ '\n' → WrittenAs quote c [c]

section Quoted

variable {quote c d : Char} {cs ds xs ys : List Char}

theorem writtenAs_escape (hquote : IsQuote quote) (c : Char) :
    WrittenAs quote c (escape quote c) := by
  -- the cases in the order in which `escape` tests them
  unfold escape
  split
  · rename_i hself
    have hcases : c = quote ∨ c = '\\' := by simpa using hself
    rcases hcases with rfl | rfl
    · rcases hquote with rfl | rfl
      · exact .short rfl (by decide) (by decide)
      · exact .short rfl (by decide) (by decide)
    · exact .short rfl (by decide) (by decide)
  · rename_i hself
    split
    · rename_i hc
      exact .short hc.symm (by decide) (by decide)
    · split
      · rename_i hc
        exact .short hc.symm (by decide) (by decide)
      · split
        · rename_i hc
          exact .short hc.symm (by decide) (by decide)
        · split
          · rename_i hc
            exact .short hc.symm (by decide) (by decide)
          · split
            · exact .numbered
            · have hother : c ≠ quote ∧ c ≠ '\\' := by simpa using hself
              exact .plain hother.1 hother.2 ‹_›

theorem numbered_append_inj (h : numbered c ++ xs = numbered d ++ ys) : c = d ∧ xs = ys := by
  have hdigits : Nat.toDigits 16 c.toNat ++ '\x7d' :: xs = Nat.toDigits 16 d.toNat ++ '\x7d' ::
      ys := by
    simpa [numbered] using h
  have hdigit (e : Char) : ∀ a ∈ Nat.toDigits 16 e.toNat, (a != '\x7d') = true := by
    intro a ha
    obtain ⟨k, hk, rfl⟩ := mem_toDigits (by decide) ha
    have hall : ∀ k < 16, (k.digitChar != '\x7d') = true := by decide
    exact hall k hk
  -- the brace ends the number, since it is no digit
  obtain ⟨hnumber, hrest⟩ := append_inj_of_ends (hdigit c) (hdigit d) (by simp) (by simp) hdigits
  exact ⟨Char.toNat_inj.1 (toDigits_inj (by decide) (by decide) hnumber), (List.cons.inj hrest).2⟩

/-- A character between quotes is recognised, whatever follows. -/
theorem WrittenAs.append_inj (hc : WrittenAs quote c cs) (hd : WrittenAs quote d ds)
    (h : cs ++ xs = ds ++ ys) :
    c = d ∧ xs = ys := by
  cases hc with
  | @short n hn hu _ =>
    cases hd with
    | @short k hk _ _ =>
      obtain ⟨rfl, hrest⟩ := List.cons.inj (List.cons.inj h).2
      exact ⟨hn.symm.trans hk, hrest⟩
    | numbered => exact absurd (List.cons.inj (List.cons.inj h).2).1 hu
    | plain _ hbackslash _ => exact absurd (List.cons.inj h).1.symm hbackslash
  | numbered =>
    cases hd with
    | @short k _ hu _ => exact absurd (List.cons.inj (List.cons.inj h).2).1.symm hu
    | numbered => exact numbered_append_inj h
    | plain _ hbackslash _ => exact absurd (List.cons.inj h).1.symm hbackslash
  | plain _ hbackslash _ =>
    cases hd with
    | short => exact absurd (List.cons.inj h).1 hbackslash
    | numbered => exact absurd (List.cons.inj h).1 hbackslash
    | plain => exact List.cons.inj h

/-- It is not taken for the quote at the end. -/
theorem WrittenAs.head?_ne (hquote : IsQuote quote) (h : WrittenAs quote c cs) (xs : List Char) :
    (cs ++ xs).head? ≠ some quote := by
  have hbackslash : '\\' ≠ quote := by
    rcases hquote with rfl | rfl
    · decide
    · decide
  cases h with
  | short => simpa using hbackslash
  | numbered => simpa [Text.numbered] using hbackslash
  | plain hne => simpa using hne

theorem WrittenAs.newline_notMem (h : WrittenAs quote c cs) : '\n' ∉ cs := by
  cases h with
  | short _ _ hn => simpa using hn.symm
  | plain _ _ hn => simpa using hn.symm
  | numbered =>
    intro hmem
    have hdigits : '\n' ∈ Nat.toDigits 16 c.toNat := by simpa [Text.numbered] using hmem
    obtain ⟨k, hk, hnewline⟩ := mem_toDigits (by decide) hdigits
    have hall : ∀ k < 16, k.digitChar ≠ '\n' := by decide
    exact hall k hk hnewline.symm

/-- A quoted text shows what it stands for. -/
theorem quoteWith_inj (hquote : IsQuote quote) (h : quoteWith quote cs = quoteWith quote ds) :
    cs = ds := by
  have hend (xs : List Char) (_ : xs.head? = some quote) : True := trivial
  have hopens (c : Char) (xs : List Char) : True ∧ (escape quote c ++ xs).head? ≠ some quote :=
    ⟨trivial, (writtenAs_escape hquote c).head?_ne hquote xs⟩
  have hmembers : cs.map id = ds.map id ∧ [quote] = [quote] := by
    apply flatMap_append_inj hend hopens hopens _ rfl rfl (List.cons.inj h).2
    intro c _ d _ xs ys _ _ heq
    exact (writtenAs_escape hquote c).append_inj (writtenAs_escape hquote d) heq
  simpa using hmembers.1

theorem newline_notMem_quoteWith (hquote : IsQuote quote) (cs : List Char) :
    '\n' ∉ quoteWith quote cs := by
  have hne : '\n' ≠ quote := by
    rcases hquote with rfl | rfl
    · decide
    · decide
  intro h
  have hmem : ∃ c ∈ cs, '\n' ∈ escape quote c := by simpa [quoteWith, hne] using h
  obtain ⟨c, -, hc⟩ := hmem
  exact (writtenAs_escape hquote c).newline_notMem hc

end Quoted

/-! ## Words -/

/-- The characters of names: letters, digits and the underscore. -/
def isWordChar (c : Char) : Bool := c.isAlphanum || c == '_'

/-- A name: at least one character, all of them such ones. -/
def isWord (s : String) : Bool := !s.toList.isEmpty && s.toList.all isWordChar

theorem isWord_iff {s : String} :
    isWord s = true ↔ s.toList ≠ [] ∧ ∀ c ∈ s.toList, isWordChar c = true := by
  simp [isWord]

/-- A word is recognised in front of a character of another kind. -/
theorem word_append_inj {s t : String} {xs ys : List Char} (hs : isWord s = true)
    (ht : isWord t = true) (hxs : Ends isWordChar xs) (hys : Ends isWordChar ys)
    (h : s.toList ++ xs = t.toList ++ ys) : s = t ∧ xs = ys := by
  obtain ⟨hlist, hrest⟩ := append_inj_of_ends (isWord_iff.1 hs).2 (isWord_iff.1 ht).2 hxs hys h
  exact ⟨String.toList_inj.1 hlist, hrest⟩

theorem newline_notMem_word {s : String} (h : isWord s = true) : '\n' ∉ s.toList := by
  intro hmem
  have hword := (isWord_iff.1 h).2 '\n' hmem
  simp [isWordChar] at hword

/-- In a list with a separator, the separator stands in front of each member but the first. -/
theorem intercalate_cons_eq {α : Type} (sep x : List α) (xs : List (List α)) :
    sep.intercalate (x :: xs) = x ++ xs.flatMap (sep ++ ·) := by
  induction xs generalizing x with
  | nil => simp
  | cons y ys ih =>
    rw [List.intercalate_cons_cons, ih, List.flatMap_cons, List.append_assoc, List.append_assoc]

/-- The names of a list, separated by commas and blanks and with a bracket at their end. -/
def listed (names : List String) : List Char :=
  [',', ' '].intercalate (names.map String.toList) ++ [']']

/-- A further name of a list, behind its comma. -/
def further (s : String) : List Char := ',' :: ' ' :: s.toList

section Lists

variable {s : String} {ss ts : List String}

theorem listed_cons (s : String) (ss : List String) :
    listed (s :: ss) = s.toList ++ (ss.flatMap further ++ [']']) := by
  rw [listed, List.map_cons, intercalate_cons_eq, List.flatMap_map, List.append_assoc]
  rfl

theorem ends_further (s : String) (xs : List Char) : Ends isWordChar (further s ++ xs) :=
  ends_cons.2 (by decide)

theorem ends_bracket : Ends isWordChar [']'] := ends_cons.2 (by decide)

theorem ends_flatMap_further (ss : List String) : Ends isWordChar (ss.flatMap further ++ [']']) :=
  flatMap_append_behind ends_further ends_bracket ss

/-- A list with a word in it is not empty. -/
theorem listed_cons_ne (hs : isWord s = true) : listed (s :: ss) ≠ listed [] := by
  intro h
  have hword : s.toList ++ (ss.flatMap further ++ [']']) = ([] : List Char) ++ [']'] := by
    rw [← listed_cons, h]
    rfl
  obtain ⟨hnil, -⟩ :=
    append_inj_of_ends (isWord_iff.1 hs).2 (by simp) (ends_flatMap_further ss) ends_bracket hword
  exact (isWord_iff.1 hs).1 hnil

/-- A list of words is recognised. -/
theorem listed_inj (hss : ∀ s ∈ ss, isWord s = true) (hts : ∀ t ∈ ts, isWord t = true)
    (h : listed ss = listed ts) :
    ss = ts := by
  cases ss with
  | nil =>
    cases ts with
    | nil => rfl
    | cons t ts => exact absurd h.symm (listed_cons_ne (hts t List.mem_cons_self))
  | cons s ss =>
    cases ts with
    | nil => exact absurd h (listed_cons_ne (hss s List.mem_cons_self))
    | cons t ts =>
      rw [listed_cons, listed_cons] at h
      obtain ⟨rfl, hothers⟩ := word_append_inj (hss s List.mem_cons_self) (hts t List.mem_cons_self)
        (ends_flatMap_further ss) (ends_flatMap_further ts) h
      have hend (xs : List Char) (hxs : xs = [']']) : Ends isWordChar xs := hxs ▸ ends_bracket
      have hopens (u : String) (xs : List Char) : Ends isWordChar (further u ++ xs) ∧
          further u ++ xs ≠ [']'] := by
        refine ⟨ends_further u xs, ?_⟩
        intro hxs
        cases hxs
      have hmembers : ss.map id = ts.map id ∧ [']'] = [']'] := by
        apply flatMap_append_inj hend hopens hopens _ rfl rfl hothers
        intro u hu v hv xs ys hxs hys heq
        have hu' := hss u (List.mem_cons_of_mem s hu)
        have hv' := hts v (List.mem_cons_of_mem s hv)
        exact word_append_inj hu' hv' hxs hys (List.cons.inj (List.cons.inj heq).2).2
      rw [List.map_id, List.map_id] at hmembers
      rw [hmembers.1]

theorem newline_notMem_listed (hss : ∀ s ∈ ss, isWord s = true) : '\n' ∉ listed ss := by
  cases ss with
  | nil => decide
  | cons s ss =>
    intro h
    have hmem : '\n' ∈ s.toList ∨
        ∃ t ∈ ss, '\n' ∈ t.toList := by simpa [listed_cons, further] using h
    rcases hmem with hs | ⟨t, ht, hmem⟩
    · exact newline_notMem_word (hss s List.mem_cons_self) hs
    · exact newline_notMem_word (hss t (List.mem_cons_of_mem s ht)) hmem

end Lists

end FrameMachine.Text
