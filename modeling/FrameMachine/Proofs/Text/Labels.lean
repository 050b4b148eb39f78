import FrameMachine.Proofs.Control.Closed
import FrameMachine.Proofs.Text.Listing

/-!
# The labels of a listing

In the listing of a function the place `a` has the label `Lk` exactly if `a` is the `k`-th of the
places to which the function jumps, counted from zero in ascending order (`Template.IsTarget`).
Behind each jump stands the label of its own target (`Template.labels_resolve`). If the function was
compiled, its jumps stay inside it, so that each label that is mentioned stands on one line.

The numbers of the labels are indices in the list of targets. This list is ascending
(`Template.targets_ascending`), so an index counts the smaller targets (`Template.idxOf?_targets`).
That a label is on a line is said of the text of the line alone, and the line is read from the left
for its label and from the right for the target of its jump.
-/

set_option autoImplicit false

namespace FrameMachine

/-- The number at the end of a text is known, and so is the character before it, if that
is not a digit. -/
theorem Text.append_natDigits_inj {xs ys : List Char} {c d : Char} {m n : Nat}
    (hc : c.isDigit = false) (hd : d.isDigit = false)
    (h : xs ++ c :: natDigits m = ys ++ d :: natDigits n) : c = d ∧ m = n := by
  have hdigits (n : Nat) : ∀ e ∈ (natDigits n).reverse, e.isDigit = true := by
    intro e he
    exact isDigit_of_mem_natDigits (List.mem_reverse.1 he)
  have hends {e : Char} {zs : List Char} (he : e.isDigit = false) : Ends Char.isDigit (e :: zs) :=
    ends_cons.2 he
  -- read from the end, the digits are a run that stops at the character before them
  have hreverse := congrArg List.reverse h
  simp only [List.reverse_append, List.reverse_cons, List.append_assoc,
    List.singleton_append] at hreverse
  obtain ⟨hrun, hrest⟩ := append_inj_of_ends (hdigits m) (hdigits n) (hends hc) (hends hd) hreverse
  exact ⟨(List.cons.inj hrest).1, natDigits_inj (List.reverse_inj.1 hrun)⟩

namespace Template

/-! ## Numbered targets -/

/-- Some jump of the function goes to the place. -/
def jumpsTo (t : Template) (place : Nat) : Bool := t.code.any fun i => i.target? == some place

/-- The place is the `k`-th, counted from zero in ascending order, of those to which the
function jumps. -/
def IsTarget (t : Template) (k place : Nat) : Prop :=
  t.jumpsTo place = true ∧ (List.range place).countP t.jumpsTo = k

section Targets

variable {t : Template} {ms : List Nat} {n k place place' : Nat}

theorem jumpsTo_iff :
    t.jumpsTo place = true ↔ ∃ (pc : Nat) (i : Instr), t.code[pc]? = some i ∧
      i.target? = some place := by
  rw [jumpsTo, Array.any_eq_true]
  constructor
  · rintro ⟨pc, hpc, htarget⟩
    exact ⟨pc, t.code[pc], Array.getElem?_eq_getElem hpc, beq_iff_eq.1 htarget⟩
  · rintro ⟨pc, i, hi, htarget⟩
    obtain ⟨hpc, rfl⟩ := Array.getElem?_eq_some_iff.1 hi
    exact ⟨pc, hpc, beq_iff_eq.2 htarget⟩

theorem mem_insertTarget : place ∈ insertTarget n ms ↔ place = n ∨ place ∈ ms := by
  induction ms with
  | nil => simp [insertTarget]
  | cons m ms ih =>
    rw [insertTarget]
    split
    · exact List.mem_cons
    · split
      · rename_i heq
        simp [heq]
      · rw [List.mem_cons, ih, List.mem_cons, or_left_comm]

theorem insertTarget_ascending (h : ms.Pairwise (· < ·)) :
    (insertTarget n ms).Pairwise (· < ·) := by
  induction ms with
  | nil => exact List.pairwise_singleton _ n
  | cons m ms ih =>
    obtain ⟨hm, hms⟩ := List.pairwise_cons.1 h
    rw [insertTarget]
    split
    · rename_i hlt
      refine List.pairwise_cons.2 ⟨?_, h⟩
      intro a ha
      rcases List.mem_cons.1 ha with rfl | ha
      · exact hlt
      · exact Nat.lt_trans hlt (hm a ha)
    · split
      · exact h
      · refine List.pairwise_cons.2 ⟨?_, ih hms⟩
        intro a ha
        rcases mem_insertTarget.1 ha with rfl | ha
        · omega
        · exact hm a ha

/-- The list of targets is ascending. -/
theorem targets_ascending (t : Template) : t.targets.Pairwise (· < ·) := by
  rw [targets]
  induction t.code.toList.filterMap Instr.target? with
  | nil => exact List.Pairwise.nil
  | cons n ns ih => exact insertTarget_ascending ih

theorem mem_targets : place ∈ t.targets ↔ t.jumpsTo place = true := by
  have hfold (ns : List Nat) : place ∈ ns.foldr insertTarget [] ↔ place ∈ ns := by
    induction ns with
    | nil => rfl
    | cons n ns ih => rw [List.foldr_cons, mem_insertTarget, ih, List.mem_cons]
  rw [targets, hfold, List.mem_filterMap, jumpsTo_iff]
  constructor
  · rintro ⟨i, hi, htarget⟩
    obtain ⟨pc, hpc⟩ := List.getElem?_of_mem hi
    rw [Array.getElem?_toList] at hpc
    exact ⟨pc, i, hpc, htarget⟩
  · rintro ⟨pc, i, hi, htarget⟩
    rw [← Array.getElem?_toList] at hi
    exact ⟨i, List.mem_of_getElem? hi, htarget⟩

/-- In an ascending list the index of a member is the number of the smaller members. -/
theorem idxOf?_of_ascending (h : ms.Pairwise (· < ·)) (hmem : place ∈ ms) :
    ms.idxOf? place = some (ms.countP (· < place)) := by
  induction ms with
  | nil => cases hmem
  | cons m ms ih =>
    obtain ⟨hm, hms⟩ := List.pairwise_cons.1 h
    rw [List.idxOf?_cons, List.countP_cons]
    rcases List.mem_cons.1 hmem with rfl | hmem
    · have hzero : ms.countP (· < place) = 0 := by
        apply List.countP_eq_zero.2
        intro a ha
        have hlt := hm a ha
        simp only [decide_eq_true_eq]
        omega
      simp [hzero]
    · have hlt := hm place hmem
      have hne : m ≠ place := by omega
      rw [ih hms hmem]
      simp [hlt, hne]

/-- Of the targets, those in front of a place are the places there to which the function jumps. -/
theorem countP_targets (t : Template) (place : Nat) :
    t.targets.countP (· < place) = (List.range place).countP t.jumpsTo := by
  rw [List.countP_eq_length_filter, List.countP_eq_length_filter]
  apply List.Perm.length_eq
  have hnodup : t.targets.Nodup := t.targets_ascending.imp fun hlt heq => by omega
  apply (List.perm_ext_iff_of_nodup (hnodup.filter _) (List.nodup_range.filter _)).2
  intro a
  rw [List.mem_filter, List.mem_filter, mem_targets, List.mem_range, decide_eq_true_eq, and_comm]

/-- The label of a place is its number among the targets. -/
theorem idxOf?_targets : t.targets.idxOf? place = some k ↔ t.IsTarget k place := by
  rw [IsTarget, ← mem_targets, ← countP_targets]
  constructor
  · intro h
    have hmem : place ∈ t.targets := by
      obtain ⟨hlt, heq, -⟩ := List.idxOf?_eq_some_iff.1 h
      exact heq ▸ List.getElem_mem hlt
    rw [idxOf?_of_ascending t.targets_ascending hmem, Option.some.injEq] at h
    exact ⟨hmem, h⟩
  · rintro ⟨hmem, hk⟩
    rw [idxOf?_of_ascending t.targets_ascending hmem, hk]

/-- A number belongs to one target only. -/
theorem IsTarget.unique (h : t.IsTarget k place) (h' : t.IsTarget k place') : place = place' := by
  obtain ⟨hlt, heq, -⟩ := List.idxOf?_eq_some_iff.1 (idxOf?_targets.2 h)
  obtain ⟨hlt', heq', -⟩ := List.idxOf?_eq_some_iff.1 (idxOf?_targets.2 h')
  rw [← heq, ← heq']

end Targets

/-! ## Lines -/

/-- The lines of the instructions in the listing of a function. -/
def lines (t : Template) : List String :=
  t.code.toList.zipIdx.map fun (i, place) => line t.targets place i

/-- The line of a place carries the label `Lk`. -/
def CarriesLabel (place k : Nat) (line : String) : Prop :=
  ∃ rest, line = "    " ++ padLeft 4 (natText place) ++ " " ++
    padLeft 4 ("L" ++ natText k ++ ":") ++ "  " ++ rest

/-- The line ends with the name of a target. -/
def EndsTo (name line : String) : Prop := ∃ before, line = before ++ " (to " ++ name ++ ")\n"

section Lines

variable {t : Template} {targets : List Nat} {n k place target : Nat} {i : Instr} {line : String}

theorem getElem?_lines : t.lines[place]? = some line ↔
    ∃ i, t.code[place]? = some i ∧ line = Template.line t.targets place i := by
  rw [lines, List.getElem?_map, List.getElem?_zipIdx, Option.map_map, Array.getElem?_toList,
    Option.map_eq_some_iff]
  simp only [Function.comp, Nat.zero_add, @eq_comm _ _ line]

/-- A padded text begins with blanks. -/
theorem toList_padLeft (width : Nat) (s : String) :
    ∃ blanks, (∀ c ∈ blanks, (c == ' ') = true) ∧
      (padLeft width s).toList = blanks ++ s.toList := by
  refine ⟨List.replicate (width - s.length) ' ', ?_, ?_⟩
  · intro c hc
    rw [(List.mem_replicate.1 hc).2]
    rfl
  · rw [padLeft, String.toList_append, String.toList_ofList]

/-- A label is read from the text behind the place, which is blank up to it. -/
theorem carriesLabel_line :
    CarriesLabel place k (Template.line targets place i) ↔ targets.idxOf? place = some k := by
  have hline : Template.line targets place i = "    " ++ padLeft 4 (natText place) ++ " " ++
      padLeft 4 (label targets place) ++ "  " ++ (i.text ++ goal targets i ++ "\n") := by
    have hparts : Template.line targets place i = margin targets place ++ i.text ++
        goal targets i ++ "\n" := rfl
    rw [hparts, margin]
    simp only [String.append_assoc]
  constructor
  · rintro ⟨rest, hrest⟩
    rw [hline] at hrest
    have hchars := congrArg String.toList hrest
    simp only [String.toList_append, List.append_assoc] at hchars
    replace hchars :=
      List.append_cancel_left (List.append_cancel_left (List.append_cancel_left hchars))
    obtain ⟨blanks, hblanks, hpad⟩ := toList_padLeft 4 ("L" ++ natText k ++ ":")
    obtain ⟨blanks', hblanks', hpad'⟩ := toList_padLeft 4 (label targets place)
    rw [hpad, hpad', List.append_assoc, List.append_assoc] at hchars
    have hopens : Text.Ends (· == ' ')
        (("L" ++ natText k ++ ":").toList ++ ("  ".toList ++ rest.toList)) := by
      simp only [String.toList_append, List.append_assoc]
      exact Text.ends_cons.2 rfl
    cases hidx : targets.idxOf? place with
    | some m =>
      have hopens' : Text.Ends (· == ' ') ((label targets place).toList ++ ("  ".toList ++
          (i.text.toList ++ ((goal targets i).toList ++ "\n".toList)))) := by
        simp only [label, hidx, String.toList_append, List.append_assoc]
        exact Text.ends_cons.2 rfl
      obtain ⟨-, hlabel⟩ := Text.append_inj_of_ends hblanks' hblanks hopens' hopens hchars
      simp only [label, hidx, natText, String.toList_append, String.toList_ofList,
        List.append_assoc] at hlabel
      have hcolon {cs : List Char} : Text.Ends Char.isDigit (":".toList ++ cs) :=
        Text.ends_cons.2 (by decide)
      rw [(Text.natDigits_append_inj hcolon hcolon (List.append_cancel_left hlabel)).1]
    | none =>
      -- without a label there are blanks up to the name of the instruction, which is in lower case
      obtain ⟨c, cs, hname⟩ := List.exists_cons_of_ne_nil i.mnemonic_ne_nil
      have hlower :=
        Instr.isLower_of_mem_mnemonic (hname ▸ List.mem_cons_self : c ∈ i.mnemonic.toList)
      have hempty : (label targets place).toList = [] := by
        rw [label, hidx]
        rfl
      rw [hempty, List.nil_append, Instr.toList_text, hname, ← List.append_assoc] at hchars
      have hblanks'' : ∀ d ∈ blanks' ++ "  ".toList, (d == ' ') = true := by
        intro d hd
        rcases List.mem_append.1 hd with hd | hd
        · exact hblanks' d hd
        · exact List.all_eq_true.1 (by decide : "  ".toList.all (· == ' ') = true) d hd
      have hnotBlank : (c == ' ') = false := by
        apply beq_false_of_ne
        rintro rfl
        simp at hlower
      obtain ⟨-, hletter⟩ :=
        Text.append_inj_of_ends hblanks'' hblanks (Text.ends_cons.2 hnotBlank) hopens hchars
      simp only [String.toList_append, List.append_assoc] at hletter
      have hc : c = 'L' := (List.cons.inj hletter).1
      rw [hc] at hlower
      simp at hlower
  · intro h
    rw [hline, label, h]
    exact ⟨_, rfl⟩

theorem line_of_target (h : i.target? = some target) : Template.line targets place i =
    margin targets place ++ i.text ++ " (to " ++ targetName targets target ++ ")\n" := by
  have hparts : Template.line targets place i = margin targets place ++ i.text ++ goal targets i ++
      "\n" := rfl
  have hend : ")" ++ "\n" = ")\n" := by decide
  rw [hparts, goal, h, ← hend]
  simp only [String.append_assoc]

/-- The names at the end of a line agree in what they are: a character that is not a digit,
and a number. -/
theorem EndsTo.name_inj {name : String} {c d : Char} {m : Nat} (hc : c.isDigit = false)
    (hd : d.isDigit = false) (htarget : i.target? = some target)
    (hname : name.toList = c :: Text.natDigits m)
    (hown : (targetName targets target).toList = d :: Text.natDigits n)
    (h : EndsTo name (Template.line targets place i)) : c = d ∧ m = n := by
  obtain ⟨before, hbefore⟩ := h
  rw [line_of_target htarget] at hbefore
  have hchars := congrArg String.toList hbefore
  simp only [String.toList_append, hname, hown] at hchars
  replace hchars := List.append_cancel_right hchars
  exact Text.append_natDigits_inj hc hd hchars.symm

theorem toList_append_natText (s : String) (n : Nat) :
    (s ++ natText n).toList = s.toList ++ Text.natDigits n := by
  rw [String.toList_append, natText, String.toList_ofList]

theorem targetName_eq (h : targets.idxOf? target = some n) :
    targetName targets target = "L" ++ natText n := by
  rw [targetName, h]

/-- The label behind a jump is that of its target. -/
theorem endsTo_label (htarget : i.target? = some target) (hidx : targets.idxOf? target = some n) :
    EndsTo ("L" ++ natText k) (Template.line targets place i) ↔ k = n := by
  have hown := targetName_eq hidx ▸ toList_append_natText "L" n
  constructor
  · intro h
    exact (h.name_inj (by decide) (by decide) htarget (toList_append_natText "L" k) hown).2
  · rintro rfl
    rw [line_of_target htarget, targetName_eq hidx]
    exact ⟨_, rfl⟩

/-- Behind a jump to a place with a label the place itself is not named. -/
theorem not_endsTo_place (htarget : i.target? = some target)
    (hidx : targets.idxOf? target = some n) :
    ¬ EndsTo ("@" ++ natText k) (Template.line targets place i) := by
  intro h
  have hown := targetName_eq hidx ▸ toList_append_natText "L" n
  have hletter := (h.name_inj (by decide) (by decide) htarget (toList_append_natText "@" k) hown).1
  exact absurd hletter (by decide)

end Lines

/-! ## Listings -/

theorem carriesLabel_iff {t : Template} {place k : Nat} {line : String}
    (hline : t.lines[place]? = some line) :
    CarriesLabel place k line ↔ t.IsTarget k place := by
  obtain ⟨i, -, rfl⟩ := getElem?_lines.1 hline
  rw [carriesLabel_line, idxOf?_targets]

/-- The target of a jump has a number, and the line of the jump is written with it. -/
theorem exists_number_of_jump {t : Template} {place target : Nat} {i : Instr} {line : String}
    (hi : t.code[place]? = some i) (htarget : i.target? = some target)
    (hline : t.lines[place]? = some line) :
    ∃ k, t.targets.idxOf? target = some k ∧ line = Template.line t.targets place i := by
  have hmem : target ∈ t.targets := mem_targets.2 (jumpsTo_iff.2 ⟨place, i, hi, htarget⟩)
  obtain ⟨j, hj, rfl⟩ := getElem?_lines.1 hline
  obtain rfl : i = j := Option.some.inj (hi.symm.trans hj)
  exact ⟨_, idxOf?_of_ascending t.targets_ascending hmem, rfl⟩

/-- A jump of a compiled function stays in the function, so that its target has one line, which
carries its label. -/
theorem existsUnique_line_of_target {ctx : Context} {f : FunDecl} {t : Template}
    {slots place target k : Nat} {last : Emitter} {i : Instr} (hf : f.EmittedAs ctx t slots last)
    (hi : t.code[place]? = some i) (htarget : i.target? = some target) (hk : t.IsTarget k target) :
    ∃! other, ∃ line, t.lines[other]? = some line ∧ CarriesLabel other k line := by
  have hlt := hf.made.closed.targets hi htarget
  have hline := getElem?_lines.2 ⟨t.code[target], Array.getElem?_eq_getElem hlt, rfl⟩
  refine ⟨target, ⟨_, hline, (carriesLabel_iff hline).2 hk⟩, ?_⟩
  rintro other ⟨line, hother, hlabel⟩
  exact ((carriesLabel_iff hother).1 hlabel).unique hk

/-- A line of the listing carries a label exactly if its place is a target, and then the label has
the number of the target. A jump is followed by the label of its own target and never by the target
itself. In the listing of a compiled function each label behind a jump stands on one line, and each
line with a label is the target of a jump. -/
theorem labels_resolve (t : Template) :
    t.listing = t.heading ++ String.join t.lines ∧ t.lines.length = t.code.size ∧
    (∀ place line, t.lines[place]? = some line →
      (∀ k, CarriesLabel place k line ↔ t.IsTarget k place) ∧
      ∀ i target, t.code[place]? = some i → i.target? = some target →
        ∃ k, t.IsTarget k target ∧
          (∃ margin, line = margin ++ i.text ++ " (to L" ++ natText k ++ ")\n") ∧
          (∀ m, EndsTo ("L" ++ natText m) line → m = k) ∧ ∀ n, ¬ EndsTo ("@" ++ natText n) line) ∧
    ∀ (ctx : Context) (f : FunDecl) slots last, f.EmittedAs ctx t slots last →
      (∀ (place : Nat) (i : Instr) line k, t.code[place]? = some i → i.target?.isSome →
        t.lines[place]? = some line →
        EndsTo ("L" ++ natText k) line → ∃! other, ∃ line', t.lines[other]? = some line' ∧
          CarriesLabel other k line') ∧
      ∀ place line k, t.lines[place]? = some line → CarriesLabel place k line →
        ∃ (pc : Nat) (i : Instr), t.code[pc]? = some i ∧ i.target? = some place := by
  refine ⟨rfl, ?_, ?_, ?_⟩
  · rw [lines, List.length_map, List.length_zipIdx, Array.length_toList]
  · intro place line hline
    refine ⟨fun k => carriesLabel_iff hline, ?_⟩
    intro i target hi htarget
    obtain ⟨k, hidx, rfl⟩ := exists_number_of_jump hi htarget hline
    refine ⟨k, idxOf?_targets.1 hidx, ⟨margin t.targets place, ?_⟩, ?_, ?_⟩
    · have hopening : " (to " ++ "L" = " (to L" := by decide
      rw [line_of_target htarget, targetName, hidx, ← hopening]
      simp only [String.append_assoc]
    · intro m hm
      exact (endsTo_label htarget hidx).1 hm
    · intro n
      exact not_endsTo_place htarget hidx
  · intro ctx f slots last hf
    refine ⟨?_, ?_⟩
    · intro place i line k hi hsome hline hends
      obtain ⟨target, htarget⟩ := Option.isSome_iff_exists.1 hsome
      obtain ⟨m, hidx, rfl⟩ := exists_number_of_jump hi htarget hline
      obtain rfl := (endsTo_label htarget hidx).1 hends
      exact existsUnique_line_of_target hf hi htarget (idxOf?_targets.1 hidx)
    · intro place line k hline hlabel
      exact jumpsTo_iff.1 ((carriesLabel_iff hline).1 hlabel).1

end Template

/-- A program whose function has two jumps to the same place. -/
def waiting : Program := ⟨[], [⟨"waiting", "void", [⟨"n", "int"⟩], [
  .whileLoop (.path "n" []) [.branch (.path "n" []) [.assign "n" [] (.literal .nil)] .none]]⟩]⟩

/-- The labels of `waiting` are those of the places 1, 8 and 10. The second one is mentioned twice
and stands on one line. -/
theorem waiting_labels :
    ∃ f t slots last, f ∈ waiting.functions ∧ f.EmittedAs waiting.context t slots last ∧
      t.lines = [
        "       0       store 0\n",
        "       1  L0:  load 0\n",
        "       2       jmpf 10 (to L2)\n",
        "       3       load 0\n",
        "       4       jmpf 8 (to L1)\n",
        "       5       push nil\n",
        "       6       store 0\n",
        "       7       jmp 8 (to L1)\n",
        "       8  L1:  nop\n",
        "       9       jmp 1 (to L0)\n",
        "      10  L2:  push nil\n",
        "      11       vret\n"] ∧
      t.IsTarget 1 8 ∧ ∃! other, ∃ line, t.lines[other]? = some line ∧
        Template.CarriesLabel other 1 line := by
  have hok : waiting.compile.isOk = true := by decide +kernel
  obtain ⟨t, slots, last, hf⟩ := Program.exists_emittedAs_of_mem hok List.mem_cons_self
  obtain ⟨-, -, hlabels, hcompiled⟩ := t.labels_resolve
  have hcode : t.code = #[.store 0, .load 0, .jumpUnless 10, .load 0, .jumpUnless 8, .push .nil,
      .store 0, .jump 8, .nop, .jump 1, .push .nil, .ret] := by
    have hlist := congrArg (Option.map Prod.fst) hf.made.code
    exact Array.toList_inj.1 (Option.some.inj hlist).symm
  have hlines : t.lines = (⟨"", 0, t.code, 0⟩ : Template).lines := rfl
  rw [hcode] at hlines
  have hline : t.lines[7]? = some "       7       jmp 8 (to L1)\n" := by
    rw [hlines]
    decide +kernel
  have hjump : t.code[7]? = some (.jump 8) := by
    rw [hcode]
    rfl
  obtain ⟨k, hk, -, hname, -⟩ := (hlabels 7 _ hline).2 _ _ hjump rfl
  have hends : Template.EndsTo ("L" ++ natText 1) "       7       jmp 8 (to L1)\n" :=
    ⟨"       7       jmp 8", by decide +kernel⟩
  obtain rfl := hname 1 hends
  refine ⟨_, t, slots, last, List.mem_cons_self, hf, ?_, hk, ?_⟩
  · rw [hlines]
    decide +kernel
  · exact (hcompiled _ _ slots last hf).1 7 _ _ 1 hjump rfl hline hends

end FrameMachine
