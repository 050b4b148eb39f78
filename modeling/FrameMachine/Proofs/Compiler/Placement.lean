import FrameMachine.Compiler.Layout

/-!
# Code in its place

`Template.Has` says that a function has a list of instructions from a given place on. The targets
of the jumps in the code of a statement are places of its parts, provided that the code stands
where it was made for.
-/

set_option autoImplicit false

namespace FrameMachine

/-- The function has the instructions from the given place on. -/
def Template.Has (t : Template) (place : Nat) (code : List Instr) : Prop :=
  code <+: t.code.toList.drop place

namespace Template

variable {t : Template}

theorem has_all (t : Template) : t.Has 0 t.code.toList := List.prefix_refl _

theorem has_cons {place : Nat} {i : Instr} {code : List Instr} :
    t.Has place (i :: code) ↔ t.code[place]? = some i ∧ t.Has (place + 1) code := by
  rw [Has, Has, ← Array.getElem?_toList]
  constructor
  · intro h
    obtain ⟨rest, hrest⟩ := h
    have hhead : t.code.toList[place]? = some i := by
      rw [← List.head?_drop, ← hrest]
      rfl
    refine ⟨hhead, rest, ?_⟩
    rw [← List.drop_drop, ← hrest]
    rfl
  · rintro ⟨hi, rest, hrest⟩
    refine ⟨rest, ?_⟩
    obtain ⟨hlt, rfl⟩ := List.getElem?_eq_some_iff.1 hi
    rw [List.drop_eq_getElem_cons hlt, List.cons_append, hrest]

theorem Has.head {place : Nat} {i : Instr} {code : List Instr} (h : t.Has place (i :: code)) :
    t.code[place]? = some i := (has_cons.1 h).1

theorem Has.tail {place : Nat} {i : Instr} {code : List Instr} (h : t.Has place (i :: code)) :
    t.Has (place + 1) code := (has_cons.1 h).2

theorem has_append {place : Nat} {a b : List Instr} :
    t.Has place (a ++ b) ↔ t.Has place a ∧ t.Has (place + a.length) b := by
  induction a generalizing place with
  | nil => simp [Has]
  | cons i a ih =>
    rw [List.cons_append, has_cons, has_cons, ih, List.length_cons, and_assoc, Nat.add_right_comm,
      Nat.add_assoc]

theorem Has.left {place : Nat} {a b : List Instr} (h : t.Has place (a ++ b)) : t.Has place a :=
  (has_append.1 h).1

theorem Has.right {place : Nat} {a b : List Instr} (h : t.Has place (a ++ b)) :
    t.Has (place + a.length) b :=
  (has_append.1 h).2

/-- The instructions of the piece are those of the function. -/
theorem Has.getElem? {place : Nat} {code : List Instr} (h : t.Has place code) {k : Nat}
    (hk : k < code.length) :
    t.code[place + k]? = code[k]? := by
  obtain ⟨rest, hrest⟩ := h
  rw [← Array.getElem?_toList, ← List.getElem?_drop, ← hrest, List.getElem?_append_left hk]

end Template

/-! ## Conditions and loops -/

@[simp] theorem length_caseCode (start : Nat) (test block others : List Instr) :
    (caseCode start test block others).length = test.length + block.length + others.length + 2 := by
  simp only [caseCode, List.length_append, List.length_cons]
  omega

@[simp] theorem length_whileCode (start : Nat) (test block : List Instr) :
    (whileCode start test block).length = test.length + block.length + 2 := by
  simp only [whileCode, List.length_append, List.length_cons, List.length_nil]
  omega

@[simp] theorem length_forCode (start slot : Nat) (direction : Direction)
    (first last block : List Instr) :
    (forCode start slot direction first last block).length =
      first.length + last.length + block.length + 9 := by
  simp only [forCode, List.length_append, List.length_cons, List.length_nil]
  omega

theorem add_length_caseCode (start : Nat) (test block others : List Instr) :
    start + (caseCode start test block others).length =
      start + test.length + block.length + 2 + others.length := by
  rw [length_caseCode]
  omega

theorem add_length_whileCode (start : Nat) (test block : List Instr) :
    start + (whileCode start test block).length = start + test.length + block.length + 2 := by
  rw [length_whileCode]
  omega

theorem add_length_forCode (start slot : Nat) (direction : Direction)
    (first last block : List Instr) :
    start + (forCode start slot direction first last block).length =
      forBody start first last + block.length + 5 := by
  rw [length_forCode, forBody]
  omega

namespace Template

/-- Where the parts of a condition with its block and of the others stand. -/
structure HasCase (t : Template) (start : Nat) (test block others : List Instr) : Prop where
  hasTest : t.Has start test
  skip : t.code[start + test.length]? = some (.jumpUnless (start + test.length + block.length + 2))
  hasBlock : t.Has (start + test.length + 1) block
  leave : t.code[start + test.length + 1 + block.length]? =
    some (.jump (start + test.length + block.length + 2 + others.length))
  hasOthers : t.Has (start + test.length + block.length + 2) others

/-- Where the parts of a loop stand. -/
structure HasWhile (t : Template) (start : Nat) (test block : List Instr) : Prop where
  hasTest : t.Has start test
  leave : t.code[start + test.length]? = some (.jumpUnless (start + test.length + block.length + 2))
  hasBlock : t.Has (start + test.length + 1) block
  back : t.code[start + test.length + 1 + block.length]? = some (.jump start)

/-- Where the parts of a `for` loop stand. -/
structure HasFor (t : Template) (start slot : Nat) (direction : Direction)
    (first last block : List Instr) : Prop where
  hasFirst : t.Has start first
  store : t.code[start + first.length]? = some (.store slot)
  load : t.code[start + first.length + 1]? = some (.load slot)
  hasLast : t.Has (start + first.length + 2) last
  compare : t.code[start + first.length + 2 + last.length]? = some (.binary direction.test)
  leave : t.code[start + first.length + 2 + last.length + 1]? =
    some (.jumpUnless (forBody start first last + block.length + 5))
  hasBlock : t.Has (forBody start first last) block
  step : t.Has (forBody start first last + block.length)
    [.load slot, .push (.int 1), .binary direction.advance, .store slot,
      .jump (start + first.length + 1)]

variable {t : Template} {start : Nat} {test block others : List Instr}

theorem has_caseCode (h : t.Has start (caseCode start test block others)) :
    t.HasCase start test block others := by
  rw [caseCode, List.append_assoc, has_append, List.cons_append, has_cons, has_append,
    has_cons] at h
  obtain ⟨htest, hskip, hblock, hleave, hothers⟩ := h
  refine ⟨htest, hskip, hblock, hleave, ?_⟩
  have hplace : start + test.length + 1 + block.length + 1 =
      start + test.length + block.length + 2 := by omega
  rwa [hplace] at hothers

theorem has_whileCode (h : t.Has start (whileCode start test block)) :
    t.HasWhile start test block := by
  rw [whileCode, List.append_assoc, has_append, List.cons_append, has_cons, has_append,
    has_cons] at h
  obtain ⟨htest, hleave, hblock, hback, -⟩ := h
  exact ⟨htest, hleave, hblock, hback⟩

theorem has_forCode {slot : Nat} {direction : Direction} {first last : List Instr}
    (h : t.Has start (forCode start slot direction first last block)) :
    t.HasFor start slot direction first last block := by
  simp only [forCode, List.append_assoc, List.cons_append, List.nil_append] at h
  rw [has_append, has_cons, has_cons, has_append, has_cons, has_cons, has_append] at h
  obtain ⟨hfirst, hstore, hload, hlast, hcompare, hleave, hblock, hstep⟩ := h
  have hbody : start + first.length + 1 + 1 + last.length + 1 + 1 = forBody start first last := by
    rw [forBody]
    omega
  rw [hbody] at hblock hstep
  exact ⟨hfirst, hstore, hload, hlast, hcompare, hleave, hblock, hstep⟩

end Template

end FrameMachine
