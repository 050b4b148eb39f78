import FrameMachine.Proofs.Stack.Tracking
import FrameMachine.Proofs.Compiler.Jumps
import Mathlib.Algebra.Order.Monoid.Submonoid
import Mathlib.Algebra.Group.Int.Defs

/-!
# Levels of the stack along the code of a function

The level of a place is the height of the stack that is tracked there. Along the order of the
instructions the levels fit the effects of the instructions by construction. At a jump they need
not: the level behind a jump may differ from the level at its target. The differences that occur are
the joints of the statements (`Stmt.level`), so that all of them lie in a submonoid of the integers
if all joints do.
-/

set_option autoImplicit false

namespace FrameMachine

/-- The height of the stack that is tracked in front of a place. -/
def Template.level (ctx : Context) (t : Template) (pc : Nat) : Int :=
  t.arity + growth ctx.arity? (t.code.toList.take pc)

/-- The level behind a jump differs from the level at its target by a member of the submonoid. -/
def Template.Meets (ctx : Context) (S : AddSubmonoid Int) (t : Template) (pc target : Nat) : Prop :=
  t.level ctx (pc + 1) - t.level ctx target ∈ S

section Levels

variable {ctx : Context} {S : AddSubmonoid Int} {t : Template} {pc : Nat}

theorem Template.level_succ (ctx : Context) {i : Instr} (hi : t.code[pc]? = some i) :
    t.level ctx (pc + 1) = t.level ctx pc + i.growth ctx.arity? := by
  have hget : t.code.toList[pc]? = some i := by rw [Array.getElem?_toList, hi]
  rw [level, level, List.take_add_one, hget, growth_append, Option.toList_some, growth_cons,
    growth_nil]
  omega

theorem Template.Has.level_length (ctx : Context) {c : List Instr} (h : t.Has pc c) :
    t.level ctx (pc + c.length) = t.level ctx pc + growth ctx.arity? c := by
  induction c generalizing pc with
  | nil => simp
  | cons i c ih =>
    have hrest := ih h.tail
    rw [List.length_cons, Nat.add_comm c.length, ← Nat.add_assoc, hrest, level_succ ctx h.head,
      growth_cons]
    omega

/-- The level behind an expression. -/
theorem Template.Has.level_expr {σ : Slots} {e : Expr} {c : List Instr} (h : t.Has pc c)
    (he : e.code ctx σ = some c) : t.level ctx (pc + c.length) = t.level ctx pc + e.net ctx := by
  rw [h.level_length ctx, Expr.growth_code he]

/-- The level is the height to which the code climbs. -/
theorem Template.level_of_height? {height : Nat} (h : t.height? ctx.arity? pc = some height) :
    t.level ctx pc = height := (climb_eq_growth h).symm

theorem Template.meets_of_eq {target : Nat} {joint : Int} (hjoint : joint ∈ S)
    (h : t.level ctx (pc + 1) - t.level ctx target = joint) : t.Meets ctx S pc target := by
  rw [Meets, h]
  exact hjoint

/-! ## Statements -/

/-- The levels meet at the jumps of a piece of code, and the level behind it is the level
in front of it. -/
structure Template.Level (ctx : Context) (S : AddSubmonoid Int) (t : Template) (start stop : Nat) :
    Prop where
  jumps : t.Jumps (t.Meets ctx S) start stop
  level : t.level ctx stop = t.level ctx start

theorem Template.Level.append {a b c : Nat} (h : t.Level ctx S a b) (h' : t.Level ctx S b c) :
    t.Level ctx S a c :=
  ⟨h.jumps.append h'.jumps, h'.level.trans h.level⟩

/-- Code without jumps that takes as many values as it leaves. -/
theorem Template.Level.of_straight {c : List Instr} (h : t.Has pc c)
    (hc : ∀ i ∈ c, i.target? = none) (hgrowth : growth ctx.arity? c = 0) :
    t.Level ctx S pc (pc + c.length) where
  jumps := .of_straight h hc
  level := by rw [h.level_length ctx, hgrowth, Int.add_zero]

/-- What an assignment does with the value on top of the stack. -/
theorem growth_assignmentCode {arity? : String → Option Nat} {σ : Slots} {base : String}
    {fields : List String} {c : List Instr} (h : assignmentCode σ base fields = some c) :
    growth arity? c = -1 := by
  obtain ⟨slot, -, ⟨rfl, rfl⟩ | ⟨field, -, rfl⟩⟩ := assignmentCode_eq_some.1 h
  · rfl
  · rw [List.cons_append, growth_cons, growth_append, growth_map_getField]
    rfl

/-- A balanced statement without statements inside takes as many values as it leaves. -/
theorem Stmt.growth_of_isSimple {s : Stmt} {c : List Instr} {σ τ : Slots}
    (h : s.code ctx pc σ = some (c, τ)) (hs : s.isSimple = true) (hbal : s.Balanced ctx) :
    growth ctx.arity? c = 0 := by
  cases s with
  | branch | whileLoop | forLoop => cases hs
  | var name init =>
    obtain ⟨value, hvalue, rfl, -⟩ := Stmt.code_var.1 h
    rw [Stmt.Balanced] at hbal
    rw [growth_append, Expr.growth_code hvalue, hbal]
    rfl
  | assign base fields value =>
    obtain ⟨before, hbefore, assignment, hassignment, rfl, -⟩ := Stmt.code_assign.1 h
    rw [Stmt.Balanced] at hbal
    rw [growth_append, Expr.growth_code hbefore, hbal, growth_assignmentCode hassignment]
    rfl
  | ret value =>
    cases value with
    | none =>
      obtain ⟨rfl, -⟩ := Stmt.code_ret_none.1 h
      rfl
    | some value =>
      obtain ⟨before, hbefore, rfl, -⟩ := Stmt.code_ret_some.1 h
      rw [Stmt.Balanced] at hbal
      rw [growth_append, Expr.growth_code hbefore, hbal]
      rfl
  | delete name =>
    obtain ⟨slot, -, rfl, -⟩ := Stmt.code_delete.1 h
    rfl
  | call function arguments =>
    obtain ⟨before, hbefore, rfl, -⟩ := Stmt.code_call.1 h
    rw [Stmt.Balanced] at hbal
    rw [growth_append, Expr.growth_code hbefore, hbal]
    rfl

/-- The level behind a condition with its block, where the others start. -/
theorem level_case {condition : Expr} {σ : Slots} {test block others : List Instr}
    (htest : condition.code ctx σ = some test) (hc : t.HasCase pc test block others)
    (hblock : t.Level ctx S (pc + test.length + 1) (pc + test.length + 1 + block.length)) :
    t.level ctx (pc + test.length + block.length + 2) =
      t.level ctx pc + (condition.net ctx - 1) := by
  have htestLevel := hc.hasTest.level_expr htest
  have hskip := Template.level_succ ctx hc.skip
  have hleave := Template.level_succ ctx hc.leave
  have hskipGrowth : (Instr.jumpUnless (pc + test.length + block.length + 2)).growth ctx.arity? =
      -1 := rfl
  have hleaveGrowth :
      (Instr.jump (pc + test.length + block.length + 2 + others.length)).growth ctx.arity? = 0 :=
        rfl
  have hblockLevel := hblock.level
  have hplace : pc + test.length + 1 + block.length + 1 =
      pc + test.length + block.length + 2 := by omega
  rw [hplace] at hleave
  omega

/-- A condition, its block and the others. The jump behind the block goes over the others, so that
the levels differ there by what the others leave. -/
theorem meets_case {condition : Expr} {σ : Slots} {test block others : List Instr}
    {rest joint : Int} (htest : condition.code ctx σ = some test)
    (hc : t.HasCase pc test block others)
    (hblock : t.Level ctx S (pc + test.length + 1) (pc + test.length + 1 + block.length))
    (hothers : t.Jumps (t.Meets ctx S) (pc + test.length + block.length + 2)
      (pc + test.length + block.length + 2 + others.length) ∧
      t.level ctx (pc + test.length + block.length + 2 + others.length) =
        t.level ctx (pc + test.length + block.length + 2) + rest)
    (hjoint : joint ∈ S) (hsum : joint + rest = 0) :
    t.Jumps (t.Meets ctx S) pc (pc + test.length + block.length + 2 + others.length) ∧
      t.level ctx (pc + test.length + block.length + 2 + others.length) =
        t.level ctx pc + (condition.net ctx - 1 + rest) := by
  obtain ⟨hmeets, hlevel⟩ := hothers
  have hcase := level_case htest hc hblock
  have hleave := Template.level_succ ctx hc.leave
  have hgrowth : (Instr.jump (pc + test.length + block.length + 2 + others.length)).growth
      ctx.arity? = 0 := rfl
  have hblockLevel := hblock.level
  have hplace : pc + test.length + 1 + block.length + 1 =
      pc + test.length + block.length + 2 := by omega
  rw [hplace] at hleave
  constructor
  · refine hc.jumps htest (Template.meets_of_eq S.zero_mem ?_) hblock.jumps
      (Template.meets_of_eq hjoint ?_) hmeets
    · omega
    · rw [hplace]
      omega
  · omega

/-- A loop whose condition leaves one value. -/
theorem level_while {condition : Expr} {σ : Slots} {test block : List Instr}
    (htest : condition.code ctx σ = some test) (hc : t.HasWhile pc test block)
    (hnet : condition.net ctx = 1)
    (hblock : t.Level ctx S (pc + test.length + 1) (pc + test.length + 1 + block.length)) :
    t.Level ctx S pc (pc + test.length + block.length + 2) := by
  have htestLevel := hc.hasTest.level_expr htest
  have hleave := Template.level_succ ctx hc.leave
  have hback := Template.level_succ ctx hc.back
  have hleaveGrowth : (Instr.jumpUnless (pc + test.length + block.length + 2)).growth ctx.arity? =
      -1 := rfl
  have hbackGrowth : (Instr.jump pc).growth ctx.arity? = 0 := rfl
  have hblockLevel := hblock.level
  have hplace : pc + test.length + 1 + block.length + 1 =
      pc + test.length + block.length + 2 := by omega
  rw [hplace] at hback
  constructor
  · refine hc.jumps htest (Template.meets_of_eq S.zero_mem ?_) hblock.jumps
      (Template.meets_of_eq S.zero_mem ?_)
    · omega
    · rw [hplace]
      omega
  · omega

/-- The level at the body of a `for` loop, behind the two bounds and the test. -/
theorem level_forBody {slot : Nat} {direction : Direction} {begin limit : Expr} {σ τ : Slots}
    {first last block : List Instr} (hfirst : begin.code ctx σ = some first)
    (hlast : limit.code ctx τ = some last) (hc : t.HasFor pc slot direction first last block) :
    t.level ctx (pc + first.length + 1) = t.level ctx pc + (begin.net ctx - 1) ∧
      t.level ctx (forBody pc first last) =
        t.level ctx pc + (begin.net ctx + limit.net ctx - 2) := by
  have hfirstLevel := hc.hasFirst.level_expr hfirst
  have hstore := Template.level_succ ctx hc.store
  have hload : t.level ctx (pc + first.length + 2) = _ := Template.level_succ ctx hc.load
  have hlastLevel := hc.hasLast.level_expr hlast
  have hcompare := Template.level_succ ctx hc.compare
  have hleave := Template.level_succ ctx hc.leave
  have hbody : pc + first.length + 2 + last.length + 1 + 1 = forBody pc first last := by
    rw [forBody]
    omega
  have hgrowth : (Instr.store slot).growth ctx.arity? = -1 ∧
      (Instr.load slot).growth ctx.arity? = 1 ∧
      (Instr.binary direction.test).growth ctx.arity? = -1 ∧
      (Instr.jumpUnless (forBody pc first last + block.length + 5)).growth ctx.arity? = -1 :=
        ⟨rfl, rfl, rfl, rfl⟩
  rw [hbody] at hleave
  constructor
  · omega
  · omega

/-- A `for` loop whose two bounds leave two values. The jump back goes to the test, where the level
is what the first bound leaves above one. -/
theorem level_for {slot : Nat} {direction : Direction} {begin limit : Expr} {σ τ : Slots}
    {first last block : List Instr} (hfirst : begin.code ctx σ = some first)
    (hlast : limit.code ctx τ = some last) (hc : t.HasFor pc slot direction first last block)
    (hnet : begin.net ctx + limit.net ctx = 2)
    (hblock : t.Level ctx S (forBody pc first last) (forBody pc first last + block.length))
    (hjoint : 1 - begin.net ctx ∈ S) :
    t.Level ctx S pc (forBody pc first last + block.length + 5) := by
  obtain ⟨htest, hbody⟩ := level_forBody hfirst hlast hc
  have hstep : t.Has (forBody pc first last + block.length)
      ([.load slot, .push (.int 1), .binary direction.advance, .store slot] ++
          [.jump (pc + first.length + 1)]) :=
    hc.step
  have hback : t.Has (forBody pc first last + block.length + 4) [.jump (pc + first.length + 1)] :=
    hstep.right
  have hstepLevel : t.level ctx (forBody pc first last + block.length + 4) = _ :=
    hstep.left.level_length ctx
  have hbackLevel : t.level ctx (forBody pc first last + block.length + 5) = _ :=
    Template.level_succ ctx hback.head
  have hgrowth : growth ctx.arity?
      [.load slot, .push (.int 1), .binary direction.advance, .store slot] = 0 ∧
      (Instr.jump (pc + first.length + 1)).growth ctx.arity? = 0 := ⟨rfl, rfl⟩
  have hblockLevel := hblock.level
  have hplace : pc + first.length + 2 + last.length + 1 + 1 = forBody pc first last := by
    rw [forBody]
    omega
  -- the only jump in the loop that the order of the instructions says nothing about
  have hjump : t.level ctx (forBody pc first last + block.length + 5) -
      t.level ctx (pc + first.length + 1) = 1 - begin.net ctx := by omega
  constructor
  · refine hc.jumps hfirst hlast (Template.meets_of_eq S.zero_mem ?_) hblock.jumps
      (Template.meets_of_eq hjoint hjump)
    rw [hplace]
    omega
  · omega

mutual

/-- The levels meet at the jumps of a statement up to its joints, and it leaves the
level as it is. -/
theorem Stmt.level : ∀ (s : Stmt) {c : List Instr} {pc : Nat} {σ τ : Slots},
    s.code ctx pc σ = some (c, τ) →
    t.Has pc c → s.Balanced ctx → (∀ joint ∈ s.joints ctx, joint ∈ S) →
      t.Level ctx S pc (pc + c.length)
  | .branch condition body rest, c, pc, σ, τ, h, hc, hbal, hjoints => by
    obtain ⟨test, htest, block, inner, hblock, others, inner', hothers, rfl, -⟩ :=
      Stmt.code_branch.1 h
    rw [Stmt.Balanced] at hbal
    rw [Stmt.joints] at hjoints
    obtain ⟨hsum, hbody, hrest⟩ := hbal
    have hcase := Template.has_caseCode hc.left
    have hbodyLevel :=
      stmts_level body hblock hcase.hasBlock hbody fun j hj => hjoints j (by simp [hj])
    have hothersLevel :=
      Alternatives.level rest (condition.net ctx - 1) hothers hcase.hasOthers hrest
      (fun j hj => hjoints j (by simp [hj])) hsum
    have hwhole := meets_case htest hcase hbodyLevel hothersLevel (hjoints _ (by simp)) hsum
    rw [← add_length_caseCode, hsum, Int.add_zero] at hwhole
    have hnop : t.Level ctx S (pc + (caseCode pc test block others).length)
        (pc + (caseCode pc test block others).length + 1) :=
          .of_straight hc.right (by simp [Instr.target?]) rfl
    rw [List.length_append, ← Nat.add_assoc]
    exact Template.Level.append ⟨hwhole.1, hwhole.2⟩ hnop
  | .whileLoop condition body, c, pc, σ, τ, h, hc, hbal, hjoints => by
    obtain ⟨test, htest, block, inner, hblock, rfl, -⟩ := Stmt.code_whileLoop.1 h
    rw [Stmt.Balanced] at hbal
    rw [Stmt.joints] at hjoints
    have hloop := Template.has_whileCode hc
    have hbody := stmts_level body hblock hloop.hasBlock hbal.2 hjoints
    rw [add_length_whileCode]
    exact level_while htest hloop hbal.1 hbody
  | .forLoop counter first direction last body, c, pc, σ, τ, h, hc, hbal, hjoints => by
    obtain ⟨begin, hbegin, limit, hlimit, block, inner, hblock, rfl, -⟩ := Stmt.code_forLoop.1 h
    rw [Stmt.Balanced] at hbal
    rw [Stmt.joints] at hjoints
    have hloop := Template.has_forCode hc
    have hbody :=
      stmts_level body hblock hloop.hasBlock hbal.2 fun j hj =>
        hjoints j (List.mem_cons_of_mem _ hj)
    rw [add_length_forCode]
    exact level_for hbegin hlimit hloop hbal.1 hbody (hjoints _ (List.mem_cons_self ..))
  | .var _ _, c, pc, σ, τ, h, hc, hbal, _ | .assign _ _ _, c, pc, σ, τ, h, hc, hbal, _
  | .ret _, c, pc, σ, τ, h, hc, hbal, _ | .delete _, c, pc, σ, τ, h, hc, hbal, _
  | .call _ _, c, pc, σ, τ, h, hc, hbal, _ =>
    .of_straight hc (fun i hi => (Stmt.isStraight_of_isSimple h rfl i hi).target?)
      (Stmt.growth_of_isSimple h rfl hbal)

theorem stmts_level : ∀ (ss : List Stmt) {c : List Instr} {pc : Nat} {σ τ : Slots},
    stmtsCode ctx pc σ ss = some (c, τ) → t.Has pc c → BalancedStmts ctx ss →
    (∀ joint ∈ jointsStmts ctx ss, joint ∈ S) → t.Level ctx S pc (pc + c.length)
  | [], c, pc, σ, τ, h, hc, _, _ => by
    obtain ⟨rfl, -⟩ := stmtsCode_nil.1 h
    exact .of_straight hc (by simp) rfl
  | s :: ss, c, pc, σ, τ, h, hc, hbal, hjoints => by
    obtain ⟨first, middle, hs, rest, hss, rfl⟩ := stmtsCode_cons.1 h
    rw [BalancedStmts] at hbal
    rw [jointsStmts] at hjoints
    have hfirst := Stmt.level s hs hc.left hbal.1 fun j hj => hjoints j (List.mem_append_left _ hj)
    have hrest :=
      stmts_level ss hss hc.right hbal.2 fun j hj => hjoints j (List.mem_append_right _ hj)
    rw [List.length_append, ← Nat.add_assoc]
    exact hfirst.append hrest

/-- The same of the alternatives, which together with the conditions before them leave as many
values as they take. -/
theorem Alternatives.level :
    ∀ (alts : Alternatives) (surplus : Int) {c : List Instr} {pc : Nat} {σ τ : Slots},
    alts.code ctx pc σ = some (c, τ) → t.Has pc c → alts.Balanced ctx →
    (∀ joint ∈ alts.joints ctx surplus, joint ∈ S) → surplus + alts.surplus ctx = 0 →
    t.Jumps (t.Meets ctx S) pc (pc + c.length) ∧
      t.level ctx (pc + c.length) = t.level ctx pc + alts.surplus ctx
  | .none, surplus, c, pc, σ, τ, h, hc, _, _, _ => by
    obtain ⟨rfl, -⟩ := Alternatives.code_none.1 h
    rw [Alternatives.surplus]
    exact ⟨.of_straight hc (by simp), hc.level_length ctx⟩
  | .otherwise body, surplus, c, pc, σ, τ, h, hc, hbal, hjoints, _ => by
    obtain ⟨inner, hblock, -⟩ := Alternatives.code_otherwise.1 h
    rw [Alternatives.Balanced] at hbal
    rw [Alternatives.joints] at hjoints
    have hbody := stmts_level body hblock hc hbal hjoints
    rw [Alternatives.surplus, Int.add_zero]
    exact ⟨hbody.jumps, hbody.level⟩
  | .elif condition body rest, surplus, c, pc, σ, τ, h, hc, hbal, hjoints, hsum => by
    obtain ⟨test, htest, block, inner, hblock, others, inner', hothers, rfl, -⟩ :=
      Alternatives.code_elif.1 h
    rw [Alternatives.Balanced] at hbal
    rw [Alternatives.joints] at hjoints
    rw [Alternatives.surplus] at hsum ⊢
    have hcase := Template.has_caseCode hc
    have hbody := stmts_level body hblock hcase.hasBlock hbal.1 fun j hj => hjoints j (by simp [hj])
    have hrest :=
      Alternatives.level rest (surplus + (condition.net ctx - 1)) hothers hcase.hasOthers hbal.2
      (fun j hj => hjoints j (by simp [hj])) (by omega)
    rw [add_length_caseCode]
    exact meets_case htest hcase hbody hrest (hjoints _ (List.mem_cons_self ..)) (by omega)

end

/-! ## Functions -/

section Functions

variable {f : FunDecl} {slots : Nat} {last : Emitter}

/-- The levels meet at all jumps of a function up to its joints. -/
theorem Compiled.Made.jumps (h : Compiled.Made ctx f ⟨t, slots⟩ last)
    (hjoints : ∀ joint ∈ jointsStmts ctx f.body, joint ∈ S) :
    t.Jumps (t.Meets ctx S) 0 t.code.size := by
  obtain ⟨block, inner, hplaced⟩ := h.placed
  have hbody := (stmts_level f.body hplaced.code hplaced.body h.balanced hjoints).jumps
  exact hplaced.each (fun _ _ _ => nofun) hbody fun _ _ => ⟨nofun, nofun⟩

/-- Each instruction of a function has an effect, and takes no more values than are tracked
in front of it. -/
theorem Compiled.Made.effect?_eq_some (h : Compiled.Made ctx f ⟨t, slots⟩ last) {i : Instr}
    (hi : t.code[pc]? = some i) :
    ∃ pops pushes, i.effect? ctx.arity? = some (pops, pushes) ∧ (pops : Int) ≤ t.level ctx pc := by
  have hclimb := h.trail.climb_eq
  rw [h.lastCode, ← h.arity] at hclimb
  have hget : t.code.toList[pc]? = some i := by rw [Array.getElem?_toList, hi]
  obtain ⟨height, pops, pushes, hheight, heffect, hpops, -⟩ := climb_at hclimb hget
  refine ⟨pops, pushes, heffect, ?_⟩
  rw [Template.level_of_height? hheight]
  exact Int.ofNat_le.2 hpops

end Functions

end Levels

end FrameMachine
