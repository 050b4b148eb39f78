import FrameMachine.Proofs.Compiler.Parts

/-!
# Emitted code is code by construction

The instructions of a compiled function are those of `FunDecl.code`, which patches nothing. It is
said here what this means for the jumps of each statement, however deep the statement stands in the
function: the targets are the places of its parts (`Template.HasWhile`, `Template.HasFor`,
`Template.Chain`). A patch changes the target of one jump and nothing else (`EmitM.patch_frame`),
and behind a statement the code in front of it is as it was.
-/

set_option autoImplicit false

namespace FrameMachine

/-! ## The places of all parts -/

/-- The code of a part stands at its place. Nothing is said of expressions, whose code
has no jumps. -/
def Part.Laid (ctx : Context) (t : Template) (pc : Nat) (σ : Slots) : Part → Prop
  | .block ss => ∃ c τ, stmtsCode ctx pc σ ss = some (c, τ) ∧ t.Has pc c
  | .case condition body rest =>
    ∃ test block inner others inner', condition.code ctx σ = some test ∧
      stmtsCode ctx (pc + test.length + 1) σ body = some (block, inner) ∧
      rest.code ctx (pc + test.length + block.length + 2) (σ.leave inner) = some (others, inner') ∧
      t.HasCase pc test block others
  | .alternatives alts => ∃ c τ, alts.code ctx pc σ = some (c, τ) ∧ t.Has pc c
  | .expr _ _ => True

section Laid

variable {ctx : Context} {f : FunDecl} {t : Template} {pc : Nat} {σ : Slots}

namespace Part.Laid

theorem head {s : Stmt} {ss : List Stmt} (h : (Part.block (s :: ss)).Laid ctx t pc σ) :
    ∃ c τ, s.code ctx pc σ = some (c, τ) ∧ t.Has pc c := by
  obtain ⟨_, _, hcode, hhas⟩ := h
  obtain ⟨c, τ, hs, _, -, rfl⟩ := stmtsCode_cons.1 hcode
  exact ⟨c, τ, hs, hhas.left⟩

theorem rest {s : Stmt} {ss : List Stmt} {c : List Instr} {τ : Slots}
    (h : (Part.block (s :: ss)).Laid ctx t pc σ) (hs : s.code ctx pc σ = some (c, τ)) :
    (Part.block ss).Laid ctx t (pc + c.length) τ := by
  obtain ⟨_, _, hcode, hhas⟩ := h
  obtain ⟨first, middle, hfirst, others, hothers, rfl⟩ := stmtsCode_cons.1 hcode
  rw [hs, Option.some.injEq, Prod.mk.injEq] at hfirst
  obtain ⟨rfl, rfl⟩ := hfirst
  exact ⟨others, _, hothers, hhas.right⟩

theorem branch {condition : Expr} {body ss : List Stmt} {rest : Alternatives}
    (h : (Part.block (.branch condition body rest :: ss)).Laid ctx t pc σ) :
    (Part.case condition body rest).Laid ctx t pc σ := by
  obtain ⟨_, _, hfirst, hhas⟩ := h.head
  obtain ⟨test, htest, block, inner, hblock, others, inner', hothers, rfl, -⟩ :=
    Stmt.code_branch.1 hfirst
  exact ⟨test, block, inner, others, inner', htest, hblock, hothers,
    Template.has_caseCode hhas.left⟩

theorem elif {condition : Expr} {body : List Stmt} {rest : Alternatives}
    (h : (Part.alternatives (.elif condition body rest)).Laid ctx t pc σ) :
    (Part.case condition body rest).Laid ctx t pc σ := by
  obtain ⟨_, _, hcode, hhas⟩ := h
  obtain ⟨test, htest, block, inner, hblock, others, inner', hothers, rfl, -⟩ :=
    Alternatives.code_elif.1 hcode
  exact ⟨test, block, inner, others, inner', htest, hblock, hothers, Template.has_caseCode hhas⟩

theorem otherwise {body : List Stmt} (h : (Part.alternatives (.otherwise body)).Laid ctx t pc σ) :
    (Part.block body).Laid ctx t pc σ := by
  obtain ⟨c, _, hcode, hhas⟩ := h
  obtain ⟨inner, hblock, -⟩ := Alternatives.code_otherwise.1 hcode
  exact ⟨c, inner, hblock, hhas⟩

theorem caseBody {condition : Expr} {body : List Stmt} {rest : Alternatives} {test : List Instr}
    (h : (Part.case condition body rest).Laid ctx t pc σ)
    (htest : condition.code ctx σ = some test) :
    (Part.block body).Laid ctx t (pc + test.length + 1) σ := by
  obtain ⟨_, block, inner, _, _, htest', hblock, -, hcase⟩ := h
  rw [htest, Option.some.injEq] at htest'
  subst htest'
  exact ⟨block, inner, hblock, hcase.hasBlock⟩

theorem caseRest {condition : Expr} {body : List Stmt} {rest : Alternatives}
    {test block : List Instr} {inner : Slots} (h : (Part.case condition body rest).Laid ctx t pc σ)
    (htest : condition.code ctx σ = some test)
    (hblock : stmtsCode ctx (pc + test.length + 1) σ body = some (block, inner)) :
    (Part.alternatives rest).Laid ctx t (pc + test.length + block.length + 2) (σ.leave inner) := by
  obtain ⟨_, _, _, others, last, htest', hblock', hothers, hcase⟩ := h
  rw [htest, Option.some.injEq] at htest'
  subst htest'
  rw [hblock, Option.some.injEq, Prod.mk.injEq] at hblock'
  obtain ⟨rfl, rfl⟩ := hblock'
  exact ⟨others, last, hothers, hcase.hasOthers⟩

/-- The parts of a loop stand where the places of its jumps say. -/
theorem whileLoop {condition : Expr} {body ss : List Stmt}
    (h : (Part.block (.whileLoop condition body :: ss)).Laid ctx t pc σ) :
    ∃ test block inner, condition.code ctx σ = some test ∧
      stmtsCode ctx (pc + test.length + 1) σ body = some (block, inner) ∧
        t.HasWhile pc test block := by
  obtain ⟨_, _, hfirst, hhas⟩ := h.head
  obtain ⟨test, htest, block, inner, hblock, rfl, -⟩ := Stmt.code_whileLoop.1 hfirst
  exact ⟨test, block, inner, htest, hblock, Template.has_whileCode hhas⟩

/-- The parts of a `for` loop stand where the places of its jumps say. -/
theorem forLoop {counter : String} {first last : Expr} {direction : Direction} {body ss : List Stmt}
    (h : (Part.block (.forLoop counter first direction last body :: ss)).Laid ctx t pc σ) :
    ∃ begin limit block inner, first.code ctx σ = some begin ∧
      last.code ctx (σ.declare counter) = some limit ∧
      stmtsCode ctx (forBody pc begin limit) (σ.declare counter) body = some (block, inner) ∧
      t.HasFor pc σ.used direction begin limit block := by
  obtain ⟨_, _, hfirst, hhas⟩ := h.head
  obtain ⟨begin, hbegin, limit, hlimit, block, inner, hblock, rfl, -⟩ := Stmt.code_forLoop.1 hfirst
  exact ⟨begin, limit, block, inner, hbegin, hlimit, hblock, Template.has_forCode hhas⟩

theorem whileBody {condition : Expr} {body ss : List Stmt} {test : List Instr}
    (h : (Part.block (.whileLoop condition body :: ss)).Laid ctx t pc σ)
    (htest : condition.code ctx σ = some test) :
    (Part.block body).Laid ctx t (pc + test.length + 1) σ := by
  obtain ⟨test', block, inner, htest', hblock, hloop⟩ := h.whileLoop
  rw [htest, Option.some.injEq] at htest'
  subst htest'
  exact ⟨block, inner, hblock, hloop.hasBlock⟩

theorem forBlock {counter : String} {first last : Expr} {direction : Direction}
    {body ss : List Stmt} {begin limit : List Instr}
    (h : (Part.block (.forLoop counter first direction last body :: ss)).Laid ctx t pc σ)
    (hbegin : first.code ctx σ = some begin)
    (hlimit : last.code ctx (σ.declare counter) = some limit) :
    (Part.block body).Laid ctx t (forBody pc begin limit) (σ.declare counter) := by
  obtain ⟨begin', limit', block, inner, hbegin', hlimit', hblock, hloop⟩ := h.forLoop
  rw [hbegin, Option.some.injEq] at hbegin'
  subst hbegin'
  rw [hlimit, Option.some.injEq] at hlimit'
  subst hlimit'
  exact ⟨block, inner, hblock, hloop.hasBlock⟩

end Part.Laid

/-- The code of each part of a compiled function stands at its place. In contrast to
`FunDecl.HasPart.stands` the calls need not fit. -/
theorem FunDecl.HasPart.laid {slots : Nat} {last : Emitter} {part : Part}
    (hmade : Compiled.Made ctx f ⟨t, slots⟩ last) (h : f.HasPart ctx pc σ part) :
    part.Laid ctx t pc σ := by
  induction h with
  | body =>
    obtain ⟨block, inner, hplaced⟩ := hmade.placed
    exact ⟨block, inner, hplaced.code, hplaced.body⟩
  | rest _ hs ih => exact ih.rest hs
  | branch _ ih => exact ih.branch
  | elif _ ih => exact ih.elif
  | otherwise _ ih => exact ih.otherwise
  | caseBody _ htest ih => exact ih.caseBody htest
  | caseRest _ htest hblock ih => exact ih.caseRest htest hblock
  | whileBody _ htest ih => exact ih.whileBody htest
  | forBlock _ hbegin hlimit ih => exact ih.forBlock hbegin hlimit
  | condition | whileCondition | forFirst | forLast | init | assigned | returned | called | neg
  | not | left | right
  | argument | field => trivial

/-! ## Chains of conditions -/

/-- The conditions from some place on, with their blocks, stand as they should if the whole ends
at `finish`. If a condition does not hold, the code goes on where the next condition or the last
block starts, or at the end if there is neither. Behind each block that has a condition it goes
on at the end. -/
inductive Template.Chain (ctx : Context) (t : Template) (finish : Nat) :
    Nat → Slots → Alternatives → Prop
  | none {σ : Slots} : Chain ctx t finish finish σ .none
  | otherwise {start : Nat} {σ inner : Slots} {body : List Stmt} {block : List Instr} :
      stmtsCode ctx start σ body = some (block, inner) → t.Has start block →
      start + block.length = finish → Chain ctx t finish start σ (.otherwise body)
  | elif {start : Nat} {σ inner : Slots} {condition : Expr} {body : List Stmt} {rest : Alternatives}
      {test block : List Instr} :
      condition.code ctx σ = some test →
      stmtsCode ctx (start + test.length + 1) σ body = some (block, inner) →
      t.Has start test →
      t.code[start + test.length]? =
        some (.jumpUnless (start + test.length + block.length + 2)) →
      t.Has (start + test.length + 1) block →
      t.code[start + test.length + 1 + block.length]? = some (.jump finish) →
      Chain ctx t finish (start + test.length + block.length + 2) (σ.leave inner) rest →
      Chain ctx t finish start σ (.elif condition body rest)

/-- A condition with its block begins a chain if the others go on with it. -/
theorem Template.HasCase.chain {condition : Expr} {body : List Stmt} {rest : Alternatives}
    {test block others : List Instr} {inner : Slots} (h : t.HasCase pc test block others)
    (htest : condition.code ctx σ = some test)
    (hblock : stmtsCode ctx (pc + test.length + 1) σ body = some (block, inner))
    (hrest : t.Chain ctx (pc + test.length + block.length + 2 + others.length)
      (pc + test.length + block.length + 2) (σ.leave inner) rest) :
    t.Chain ctx (pc + test.length + block.length + 2 + others.length) pc σ
    (.elif condition body rest) :=
  .elif htest hblock h.hasTest h.skip h.hasBlock h.leave hrest

/-- The code of alternatives is a chain that ends behind it. -/
theorem Alternatives.chain : ∀ (alts : Alternatives) {start : Nat} {σ τ : Slots} {c : List Instr},
    alts.code ctx start σ = some (c, τ) → t.Has start c →
      t.Chain ctx (start + c.length) start σ alts
  | .none, start, σ, τ, c, hcode, _ => by
    obtain ⟨rfl, -⟩ := Alternatives.code_none.1 hcode
    exact .none
  | .otherwise body, start, σ, τ, c, hcode, hhas => by
    obtain ⟨inner, hblock, -⟩ := Alternatives.code_otherwise.1 hcode
    exact .otherwise hblock hhas rfl
  | .elif condition body rest, start, σ, τ, c, hcode, hhas => by
    obtain ⟨test, htest, block, inner, hblock, others, inner', hothers, rfl, -⟩ :=
      Alternatives.code_elif.1 hcode
    have hcase := Template.has_caseCode hhas
    rw [add_length_caseCode]
    exact hcase.chain htest hblock (rest.chain hothers hcase.hasOthers)

/-- A branching statement is a chain that ends at its last instruction, which does nothing. -/
theorem Part.Laid.chain {condition : Expr} {body ss : List Stmt} {rest : Alternatives}
    (h : (Part.block (.branch condition body rest :: ss)).Laid ctx t pc σ) :
    ∃ c τ finish, (Stmt.branch condition body rest).code ctx pc σ = some (c, τ) ∧
      finish + 1 = pc + c.length ∧
      t.code[finish]? = some .nop ∧ t.Chain ctx finish pc σ (.elif condition body rest) := by
  obtain ⟨c, τ, hfirst, hhas⟩ := h.head
  obtain ⟨test, htest, block, inner, hblock, others, inner', hothers, rfl, -⟩ :=
    Stmt.code_branch.1 hfirst
  have hcase := Template.has_caseCode hhas.left
  have hnop := hhas.right.head
  rw [add_length_caseCode] at hnop
  refine ⟨_, τ, _, hfirst, ?_, hnop, hcase.chain htest hblock (rest.chain hothers hcase.hasOthers)⟩
  rw [List.length_append, ← Nat.add_assoc, add_length_caseCode]
  rfl

end Laid

/-! ## Patches -/

/-- A patch gives the jump at the place another target. All other instructions, and all else that
the emitter keeps, stay as they are. -/
theorem EmitM.patch_frame {target place : Nat} {s t : Emitter}
    (h : patch target place s = .ok () t) :
    (∃ jump, s.code[place]? = some jump ∧ jump.target?.isSome ∧
      t.code[place]? = some (jump.retarget target)) ∧
      (∀ k, k ≠ place → t.code[k]? = s.code[k]?) ∧ t = { s with code := t.code } := by
  rw [patch, get_bind_ok] at h
  cases hi : s.code[place]? with
  | none =>
    simp only [hi] at h
    exact absurd h not_giveUp_ok
  | some i =>
    simp only [hi, Option.bind_some] at h
    cases hj : i.withTarget? target with
    | none =>
      simp only [hj] at h
      exact absurd h not_giveUp_ok
    | some jump =>
      simp only [hj] at h
      cases h
      have hlt := (Array.getElem?_eq_some_iff.1 hi).1
      refine ⟨⟨i, rfl, ?_, ?_⟩, ?_, rfl⟩
      · cases i with
        | jump | jumpUnless => rfl
        | _ => cases hj
      · rw [Array.getElem?_setIfInBounds, if_pos rfl, if_pos hlt, Instr.retarget, hj,
          Option.getD_some]
      · intro k hk
        rw [Array.getElem?_setIfInBounds, if_neg (Ne.symm hk)]

/-! ## Compiled functions -/

/-- A compiled function has the instructions and the number of slots that its code by construction
has. At each loop and each branching statement of it, at whatever depth, the jumps go to the places
of the parts: out of a loop right behind its back jump, back to the first instruction of the
condition or to the load of the counter, and along a chain of conditions to the next one and at last
to its end. A patch changes one target and nothing else, so that each statement only adds its code
by construction to what was emitted before. -/
theorem FunDecl.compile_by_construction {ctx : Context} {f : FunDecl} {s last : Emitter}
    {c : Compiled} (h : f.compile ctx s = .ok c last) :
    f.code ctx = some (c.template.code.toList, c.slots) ∧
    (∀ pc σ condition body ss, f.HasPart ctx pc σ (.block (.whileLoop condition body :: ss)) →
      ∃ test block inner, condition.code ctx σ = some test ∧
        stmtsCode ctx (pc + test.length + 1) σ body = some (block, inner) ∧
          c.template.HasWhile pc test block) ∧
    (∀ pc σ counter first direction limit body ss,
      f.HasPart ctx pc σ (.block (.forLoop counter first direction limit body :: ss)) →
      ∃ begin test block inner, first.code ctx σ = some begin ∧
        limit.code ctx (σ.declare counter) = some test ∧
        stmtsCode ctx (forBody pc begin test) (σ.declare counter) body = some (block, inner) ∧
        c.template.HasFor pc σ.used direction begin test block) ∧
    (∀ pc σ condition body rest ss,
      f.HasPart ctx pc σ (.block (.branch condition body rest :: ss)) →
      ∃ code τ finish, (Stmt.branch condition body rest).code ctx pc σ = some (code, τ) ∧
        finish + 1 = pc + code.length ∧ c.template.code[finish]? = some .nop ∧
        c.template.Chain ctx finish pc σ (.elif condition body rest)) ∧
    (∀ a b target place, EmitM.patch target place a = .ok () b →
      (∃ jump, a.code[place]? = some jump ∧ jump.target?.isSome ∧
        b.code[place]? = some (jump.retarget target)) ∧
      (∀ k, k ≠ place → b.code[k]? = a.code[k]?) ∧ b = { a with code := b.code }) ∧
    ∀ (stmt : Stmt) a b, a.scopes ≠ [] → stmt.emit ctx a = .ok () b →
      ∃ code slots, stmt.code ctx a.code.size a.view = some (code, slots) ∧
        b.code.toList = a.code.toList ++ code := by
  have hmade := FunDecl.compile_ok h
  refine ⟨hmade.code, ?_, ?_, ?_, ?_, ?_⟩
  · intro pc σ condition body ss hpart
    exact (hpart.laid hmade).whileLoop
  · intro pc σ counter first direction limit body ss hpart
    exact (hpart.laid hmade).forLoop
  · intro pc σ condition body rest ss hpart
    exact (hpart.laid hmade).chain
  · intro a b target place hpatch
    exact EmitM.patch_frame hpatch
  · intro stmt a b hscopes hemit
    obtain ⟨code, slots, hcode, hlays, -⟩ := stmt.emit_lays hscopes hemit
    exact ⟨code, slots, hcode, hlays.code⟩

/-- The last two conditions of `chained`. There is no block for the case that none holds. -/
def chainedRest : Alternatives :=
  .elif (.path "i" []) [] (.elif (.path "i" []) [.call "print" [.path "i" []]] .none)

/-- A chain of three conditions in a loop in a `for` loop. -/
def chained : FunDecl := ⟨"chained", "void", [], [
  .forLoop "i" (.literal (.int 1)) .upto (.literal (.int 3)) [
    .whileLoop (.path "i" []) [
      .branch (.path "i" []) [.assign "i" [] (.literal (.int 0))] chainedRest]]]⟩

/-- The program that has only the function `chained`. -/
def chainedOnly : Program := ⟨[], [chained]⟩

/-- In the code of `chained` a condition that does not hold leads from 9 to 13, from 14 to 16 and
from 17 to the end of the chain at 23. The jumps behind the blocks lead to the end at once. -/
theorem chained_by_construction :
    ∃ c s last, chained.compile chainedOnly.context s = .ok c last ∧
      c.template.code.toList = [
        .push (.int 1), .store 0, .load 0, .push (.int 3), .binary .le, .jumpUnless 30,
        .load 0, .jumpUnless 25,
        .load 0, .jumpUnless 13, .push (.int 0), .store 0, .jump 23,
        .load 0, .jumpUnless 16, .jump 23,
        .load 0, .jumpUnless 23, .load 0, .write, .push .nil, .pop, .jump 23,
        .nop, .jump 6,
        .load 0, .push (.int 1), .binary .add, .store 0, .jump 2,
        .push .nil, .ret] ∧
      c.template.Chain chainedOnly.context 23 8 ⟨[("i", 0)], 1⟩
        (.elif (.path "i" []) [.assign "i" [] (.literal (.int 0))] chainedRest) := by
  have hok : chainedOnly.compile.isOk = true := by decide +kernel
  obtain ⟨t, slots, last, s, hcompile⟩ := Program.exists_emittedAs_of_mem hok List.mem_cons_self
  obtain ⟨hcode, -, -, hchains, -, -⟩ := FunDecl.compile_by_construction hcompile
  refine ⟨⟨t, slots⟩, s, last, hcompile, ?_, ?_⟩
  · have hlist := congrArg (Option.map Prod.fst) hcode
    exact (Option.some.inj hlist).symm
  · have hbody : chained.HasPart chainedOnly.context 0 {} (.block chained.body) := .body
    have hloop := hbody.forBlock rfl rfl
    have hchain : chained.HasPart chainedOnly.context 8 ⟨[("i", 0)], 1⟩
        (.block [.branch (.path "i" []) [.assign "i" [] (.literal (.int 0))] chainedRest]) :=
          hloop.whileBody rfl
    obtain ⟨code, τ, finish, hbranch, hfinish, -, hends⟩ := hchains _ _ _ _ _ _ hchain
    have hlength : code.length = 16 := by
      have hmap := congrArg (Option.map fun p => p.1.length) hbranch
      exact (Option.some.inj hmap).symm
    obtain rfl : finish = 23 := by omega
    exact hends

end FrameMachine
