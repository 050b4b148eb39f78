import FrameMachine.Proofs.Compiler.Pieces
import FrameMachine.Proofs.Compiler.Placement

/-!
# Where jumps go

What is to be said about all instructions between two places is said of the pieces between them
(`Template.Each`), and so is what is to be said about all jumps (`Template.Jumps`). The jumps of a
statement go to places inside its code or to its end (`Stmt.confined`).
-/

set_option autoImplicit false

namespace FrameMachine

/-- The property holds of each instruction from one place up to another, together with its place. -/
def Template.Each (P : Nat → Instr → Prop) (t : Template) (start stop : Nat) : Prop :=
  ∀ pc i, start ≤ pc → pc < stop → t.code[pc]? = some i → P pc i

namespace Template.Each

variable {P Q : Nat → Instr → Prop} {t : Template} {a b c : Nat}

theorem append (h : t.Each P a b) (h' : t.Each P b c) : t.Each P a c := by
  intro pc i ha hc hi
  by_cases hb : pc < b
  · exact h pc i ha hb hi
  · exact h' pc i (Nat.le_of_not_lt hb) hc hi

theorem mono (h : t.Each P a b) (hPQ : ∀ pc i, a ≤ pc → pc < b → P pc i → Q pc i) : t.Each Q a b :=
  fun pc i ha hb hi => hPQ pc i ha hb (h pc i ha hb hi)

theorem of_mem {code : List Instr} (h : t.Has a code)
    (hcode : ∀ pc i, a ≤ pc → pc < a + code.length → i ∈ code → P pc i) :
    t.Each P a (a + code.length) := by
  intro pc i ha hb hi
  obtain ⟨k, rfl⟩ := Nat.exists_eq_add_of_le ha
  rw [h.getElem? (Nat.lt_of_add_lt_add_left hb)] at hi
  exact hcode _ i ha hb (List.mem_of_getElem? hi)

theorem of_instr {i : Instr} (hi : t.code[a]? = some i) (h : P a i) : t.Each P a (a + 1) := by
  intro pc j ha hb hj
  have hpc : pc = a := by omega
  subst hpc
  rw [hi, Option.some.injEq] at hj
  exact hj ▸ h

end Template.Each

section Pieces

variable {P : Nat → Instr → Prop} {t : Template} {pc : Nat}

/-- The instructions of a condition, its block and the others. -/
theorem Template.HasCase.each {test block others : List Instr} (hc : t.HasCase pc test block others)
    (htest : t.Each P pc (pc + test.length))
    (hskip : P (pc + test.length) (.jumpUnless (pc + test.length + block.length + 2)))
    (hblock : t.Each P (pc + test.length + 1) (pc + test.length + 1 + block.length))
    (hleave : P (pc + test.length + 1 + block.length)
      (.jump (pc + test.length + block.length + 2 + others.length)))
    (hothers : t.Each P (pc + test.length + block.length + 2)
      (pc + test.length + block.length + 2 + others.length)) :
    t.Each P pc (pc + test.length + block.length + 2 + others.length) := by
  have hplace : pc + test.length + 1 + block.length + 1 =
      pc + test.length + block.length + 2 := by omega
  have hleft := Template.Each.of_instr hc.leave hleave
  rw [hplace] at hleft
  exact htest.append <| (Template.Each.of_instr hc.skip hskip).append <| hblock.append <|
    hleft.append hothers

/-- The instructions of a loop. -/
theorem Template.HasWhile.each {test block : List Instr} (hc : t.HasWhile pc test block)
    (htest : t.Each P pc (pc + test.length))
    (hleave : P (pc + test.length) (.jumpUnless (pc + test.length + block.length + 2)))
    (hblock : t.Each P (pc + test.length + 1) (pc + test.length + 1 + block.length))
    (hback : P (pc + test.length + 1 + block.length) (.jump pc)) :
    t.Each P pc (pc + test.length + block.length + 2) := by
  have hplace : pc + test.length + 1 + block.length + 1 =
      pc + test.length + block.length + 2 := by omega
  have hreturned := Template.Each.of_instr hc.back hback
  rw [hplace] at hreturned
  exact htest.append <| (Template.Each.of_instr hc.leave hleave).append <| hblock.append hreturned

/-- The instructions of a `for` loop. -/
theorem Template.HasFor.each {slot : Nat} {direction : Direction} {first last block : List Instr}
    (hc : t.HasFor pc slot direction first last block) (hfirst : t.Each P pc (pc + first.length))
    (hstore : P (pc + first.length) (.store slot)) (hload : P (pc + first.length + 1) (.load slot))
    (hlast : t.Each P (pc + first.length + 2) (pc + first.length + 2 + last.length))
    (hcompare : P (pc + first.length + 2 + last.length) (.binary direction.test))
    (hleave : P (pc + first.length + 2 + last.length + 1)
      (.jumpUnless (forBody pc first last + block.length + 5)))
    (hblock : t.Each P (forBody pc first last) (forBody pc first last + block.length))
    (hadvance : ∀ place, forBody pc first last + block.length ≤ place →
      place < forBody pc first last + block.length + 4 →
      ∀ i ∈ [.load slot, .push (.int 1), .binary direction.advance, .store slot], P place i)
    (hback : P (forBody pc first last + block.length + 4) (.jump (pc + first.length + 1))) :
    t.Each P pc (forBody pc first last + block.length + 5) := by
  have hplace : pc + first.length + 2 + last.length + 1 + 1 = forBody pc first last := by
    rw [forBody]
    omega
  have hleft := Template.Each.of_instr hc.leave hleave
  rw [hplace] at hleft
  have hstep : t.Has (forBody pc first last + block.length)
      ([.load slot, .push (.int 1), .binary direction.advance, .store slot] ++
          [.jump (pc + first.length + 1)]) :=
    hc.step
  have hadvanced : t.Each P (forBody pc first last + block.length)
      (forBody pc first last + block.length + 4) :=
    .of_mem hstep.left fun place i ha hb hi => hadvance place ha hb i hi
  have hreturned : t.Each P (forBody pc first last + block.length + 4)
      (forBody pc first last + block.length + 5) :=
    .of_instr hstep.right.head hback
  exact hfirst.append <| (Template.Each.of_instr hc.store hstore).append <|
    (Template.Each.of_instr hc.load hload).append <| hlast.append <|
    (Template.Each.of_instr hc.compare hcompare).append <| hleft.append <| hblock.append <|
      hadvanced.append hreturned

end Pieces

/-! ## Jumps -/

/-- The relation holds between the place of each jump from one place up to another and the
target of the jump. -/
def Template.Jumps (P : Nat → Nat → Prop) (t : Template) (start stop : Nat) : Prop :=
  t.Each (fun pc i => ∀ target, i.target? = some target → P pc target) start stop

section Jumps

variable {P Q : Nat → Nat → Prop} {ctx : Context} {t : Template} {pc : Nat} {σ : Slots}

namespace Template.Jumps

variable {a b c : Nat}

theorem append (h : t.Jumps P a b) (h' : t.Jumps P b c) : t.Jumps P a c := Each.append h h'

/-- Code without jumps. -/
theorem of_straight {code : List Instr} (h : t.Has a code) (hcode : ∀ i ∈ code, i.target? = none) :
    t.Jumps P a (a + code.length) := by
  refine Each.of_mem h fun pc i _ _ hi target htarget => ?_
  rw [hcode i hi] at htarget
  cases htarget

theorem of_expr {e : Expr} {code : List Instr} (h : t.Has a code) (he : e.code ctx σ = some code) :
    t.Jumps P a (a + code.length) :=
  of_straight h fun i hi => (Expr.plain_code he i hi).target?

end Template.Jumps

/-- The jumps of a condition, its block and the others. -/
theorem Template.HasCase.jumps {condition : Expr} {test block others : List Instr}
    (hc : t.HasCase pc test block others) (htest : condition.code ctx σ = some test)
    (hskip : P (pc + test.length) (pc + test.length + block.length + 2))
    (hblock : t.Jumps P (pc + test.length + 1) (pc + test.length + 1 + block.length))
    (hleave : P (pc + test.length + 1 + block.length)
      (pc + test.length + block.length + 2 + others.length))
    (hothers : t.Jumps P (pc + test.length + block.length + 2)
      (pc + test.length + block.length + 2 + others.length)) :
    t.Jumps P pc (pc + test.length + block.length + 2 + others.length) := by
  refine hc.each (Jumps.of_expr hc.hasTest htest) ?_ hblock ?_ hothers
  · rintro _ ⟨⟩
    exact hskip
  · rintro _ ⟨⟩
    exact hleave

/-- The jumps of a loop. -/
theorem Template.HasWhile.jumps {condition : Expr} {test block : List Instr}
    (hc : t.HasWhile pc test block) (htest : condition.code ctx σ = some test)
    (hleave : P (pc + test.length) (pc + test.length + block.length + 2))
    (hblock : t.Jumps P (pc + test.length + 1) (pc + test.length + 1 + block.length))
    (hback : P (pc + test.length + 1 + block.length) pc) :
    t.Jumps P pc (pc + test.length + block.length + 2) := by
  refine hc.each (Jumps.of_expr hc.hasTest htest) ?_ hblock ?_
  · rintro _ ⟨⟩
    exact hleave
  · rintro _ ⟨⟩
    exact hback

/-- The jumps of a `for` loop. -/
theorem Template.HasFor.jumps {begin limit : Expr} {τ : Slots} {slot : Nat} {direction : Direction}
    {first last block : List Instr} (hc : t.HasFor pc slot direction first last block)
    (hfirst : begin.code ctx σ = some first) (hlast : limit.code ctx τ = some last)
    (hleave : P (pc + first.length + 2 + last.length + 1)
      (forBody pc first last + block.length + 5))
    (hblock : t.Jumps P (forBody pc first last) (forBody pc first last + block.length))
    (hback : P (forBody pc first last + block.length + 4) (pc + first.length + 1)) :
    t.Jumps P pc (forBody pc first last + block.length + 5) := by
  have hnone {i : Instr} {place : Nat} (hi : i.target? = none) :
      ∀ target, i.target? = some target → P place target := by
    intro target htarget
    rw [hi] at htarget
    cases htarget
  refine hc.each (Jumps.of_expr hc.hasFirst hfirst) (hnone rfl) (hnone rfl)
    (Jumps.of_expr hc.hasLast hlast) (hnone rfl) ?_ hblock ?_ ?_
  · rintro _ ⟨⟩
    exact hleave
  · intro place _ _ i hi
    refine hnone ?_
    simp only [List.mem_cons, List.not_mem_nil, or_false] at hi
    rcases hi with rfl | rfl | rfl | rfl <;> rfl
  · rintro _ ⟨⟩
    exact hback

end Jumps

/-- The jumps between two places go to places between them. -/
def Template.Confined (t : Template) (start stop : Nat) : Prop :=
  t.Jumps (fun _ target => start ≤ target ∧ target ≤ stop) start stop

section Confined

variable {ctx : Context} {t : Template}

theorem Template.Confined.widen {a b a' b' : Nat} (h : t.Confined a b) (ha : a' ≤ a) (hb : b ≤ b') :
    t.Jumps (fun _ target => a' ≤ target ∧ target ≤ b') a b :=
  Template.Each.mono h fun _ _ _ _ hjump target htarget =>
    ⟨Nat.le_trans ha (hjump target htarget).1, Nat.le_trans (hjump target htarget).2 hb⟩

/-- A condition, its block and the others. -/
theorem Template.HasCase.confined {condition : Expr} {σ : Slots} {pc : Nat}
    {test block others : List Instr}
    (hc : t.HasCase pc test block others) (htest : condition.code ctx σ = some test)
    (hblock : t.Confined (pc + test.length + 1) (pc + test.length + 1 + block.length))
    (hothers : t.Confined (pc + test.length + block.length + 2)
      (pc + test.length + block.length + 2 + others.length)) :
    t.Confined pc (pc + test.length + block.length + 2 + others.length) :=
  hc.jumps htest ⟨by omega, by omega⟩ (hblock.widen (by omega) (by omega)) ⟨by omega, Nat.le_refl _⟩
    (hothers.widen (by omega) (Nat.le_refl _))

mutual

/-- The jumps of a statement go to places inside its code or to its end. -/
theorem Stmt.confined : ∀ (s : Stmt) {c : List Instr} {pc : Nat} {σ τ : Slots},
    s.code ctx pc σ = some (c, τ) → t.Has pc c → t.Confined pc (pc + c.length)
  | .branch condition body rest, c, pc, σ, τ, h, hc => by
    obtain ⟨test, htest, block, inner, hblock, others, inner', hothers, rfl, -⟩ :=
      Stmt.code_branch.1 h
    have hcase := Template.has_caseCode hc.left
    have hwhole := hcase.confined htest (stmts_confined body hblock hcase.hasBlock)
      (Alternatives.confined rest hothers hcase.hasOthers)
    rw [← add_length_caseCode] at hwhole
    rw [List.length_append, ← Nat.add_assoc]
    exact (hwhole.widen (Nat.le_refl _) (Nat.le_add_right _ _)).append
      (.of_straight hc.right (by simp [Instr.target?]))
  | .whileLoop condition body, c, pc, σ, τ, h, hc => by
    obtain ⟨test, htest, block, inner, hblock, rfl, -⟩ := Stmt.code_whileLoop.1 h
    have hloop := Template.has_whileCode hc
    have hbody := stmts_confined body hblock hloop.hasBlock
    rw [add_length_whileCode]
    exact hloop.jumps htest ⟨by omega, Nat.le_refl _⟩ (hbody.widen (by omega) (by omega))
      ⟨Nat.le_refl _, by omega⟩
  | .forLoop counter first direction last body, c, pc, σ, τ, h, hc => by
    obtain ⟨begin, hbegin, limit, hlimit, block, inner, hblock, rfl, -⟩ := Stmt.code_forLoop.1 h
    have hloop := Template.has_forCode hc
    have hbody := stmts_confined body hblock hloop.hasBlock
    have hle : pc + begin.length + 1 ≤ forBody pc begin limit := by
      rw [forBody]
      omega
    rw [add_length_forCode]
    exact hloop.jumps hbegin hlimit ⟨by omega, Nat.le_refl _⟩ (hbody.widen (by omega) (by omega))
      ⟨by omega, by omega⟩
  | .var _ _, c, pc, σ, τ, h, hc | .assign _ _ _, c, pc, σ, τ, h, hc | .ret _, c, pc, σ, τ, h, hc
  | .delete _, c, pc, σ, τ, h, hc | .call _ _, c, pc, σ, τ, h, hc =>
    Template.Jumps.of_straight hc fun i hi => (Stmt.isStraight_of_isSimple h rfl i hi).target?

theorem stmts_confined : ∀ (ss : List Stmt) {c : List Instr} {pc : Nat} {σ τ : Slots},
    stmtsCode ctx pc σ ss = some (c, τ) → t.Has pc c → t.Confined pc (pc + c.length)
  | [], c, pc, σ, τ, h, hc => by
    obtain ⟨rfl, -⟩ := stmtsCode_nil.1 h
    exact Template.Jumps.of_straight hc (by simp)
  | s :: ss, c, pc, σ, τ, h, hc => by
    obtain ⟨first, middle, hs, rest, hss, rfl⟩ := stmtsCode_cons.1 h
    have hfirst := Stmt.confined s hs hc.left
    have hrest := stmts_confined ss hss hc.right
    rw [List.length_append, ← Nat.add_assoc]
    exact (hfirst.widen (Nat.le_refl _) (Nat.le_add_right _ _)).append
      (hrest.widen (Nat.le_add_right _ _) (Nat.le_refl _))

theorem Alternatives.confined : ∀ (alts : Alternatives) {c : List Instr} {pc : Nat} {σ τ : Slots},
    alts.code ctx pc σ = some (c, τ) → t.Has pc c → t.Confined pc (pc + c.length)
  | .none, c, pc, σ, τ, h, hc => by
    obtain ⟨rfl, -⟩ := Alternatives.code_none.1 h
    exact Template.Jumps.of_straight hc (by simp)
  | .otherwise body, c, pc, σ, τ, h, hc => by
    obtain ⟨inner, hblock, -⟩ := Alternatives.code_otherwise.1 h
    exact stmts_confined body hblock hc
  | .elif condition body rest, c, pc, σ, τ, h, hc => by
    obtain ⟨test, htest, block, inner, hblock, others, inner', hothers, rfl, -⟩ :=
      Alternatives.code_elif.1 h
    have hcase := Template.has_caseCode hc
    rw [add_length_caseCode]
    exact hcase.confined htest (stmts_confined body hblock hcase.hasBlock)
      (Alternatives.confined rest hothers hcase.hasOthers)

end

end Confined

end FrameMachine
