import FrameMachine.Proofs.Compiler.Calls
import FrameMachine.Proofs.Stack.Levels

/-!
# The parts of a function and their places

A part of a function is a block of statements, a condition with what depends on it, or an
expression. It is compiled at a place, with the slots that are visible there. An expression also
occurs in the first contents of the fields of a new object, as often as such an object is made.
`FunDecl.HasPart` follows the tree of the function down to its parts, and with it the places and the
slots. The code of each part stands at its place, and statements stand where the level of the stack
is zero (`FunDecl.HasPart.stands`).
-/

set_option autoImplicit false

namespace FrameMachine

/-- A part of a function. An expression comes with the depth up to which new objects may be
nested in it. -/
inductive Part where
  | block (ss : List Stmt)
  | case (condition : Expr) (body : List Stmt) (rest : Alternatives)
  | alternatives (alts : Alternatives)
  | expr (nesting : Nat) (e : Expr)

/-- The function has a part at a place, with the given slots. -/
inductive FunDecl.HasPart (ctx : Context) (f : FunDecl) : Nat → Slots → Part → Prop
  | body : HasPart ctx f f.arity (paramSlots f.params) (.block f.body)
  | rest {pc : Nat} {σ τ : Slots} {s : Stmt} {ss : List Stmt} {c : List Instr} :
      HasPart ctx f pc σ (.block (s :: ss)) → s.code ctx pc σ = some (c, τ) →
      HasPart ctx f (pc + c.length) τ (.block ss)
  | branch {pc : Nat} {σ : Slots} {condition : Expr} {body ss : List Stmt} {rest : Alternatives} :
      HasPart ctx f pc σ (.block (.branch condition body rest :: ss)) →
        HasPart ctx f pc σ (.case condition body rest)
  | elif {pc : Nat} {σ : Slots} {condition : Expr} {body : List Stmt} {rest : Alternatives} :
      HasPart ctx f pc σ (.alternatives (.elif condition body rest)) →
        HasPart ctx f pc σ (.case condition body rest)
  | otherwise {pc : Nat} {σ : Slots} {body : List Stmt} :
      HasPart ctx f pc σ (.alternatives (.otherwise body)) → HasPart ctx f pc σ (.block body)
  | condition {pc : Nat} {σ : Slots} {condition : Expr} {body : List Stmt} {rest : Alternatives} :
      HasPart ctx f pc σ (.case condition body rest) →
        HasPart ctx f pc σ (.expr ctx.nesting condition)
  | caseBody {pc : Nat} {σ : Slots} {condition : Expr} {body : List Stmt} {rest : Alternatives}
      {test : List Instr} :
      HasPart ctx f pc σ (.case condition body rest) → condition.code ctx σ = some test →
      HasPart ctx f (pc + test.length + 1) σ (.block body)
  | caseRest {pc : Nat} {σ inner : Slots} {condition : Expr} {body : List Stmt}
      {rest : Alternatives}
      {test block : List Instr} :
      HasPart ctx f pc σ (.case condition body rest) → condition.code ctx σ = some test →
      stmtsCode ctx (pc + test.length + 1) σ body = some (block, inner) →
      HasPart ctx f (pc + test.length + block.length + 2) (σ.leave inner) (.alternatives rest)
  | whileCondition {pc : Nat} {σ : Slots} {condition : Expr} {body ss : List Stmt} :
      HasPart ctx f pc σ (.block (.whileLoop condition body :: ss)) →
        HasPart ctx f pc σ (.expr ctx.nesting condition)
  | whileBody {pc : Nat} {σ : Slots} {condition : Expr} {body ss : List Stmt} {test : List Instr} :
      HasPart ctx f pc σ (.block (.whileLoop condition body :: ss)) →
      condition.code ctx σ = some test → HasPart ctx f (pc + test.length + 1) σ (.block body)
  | forFirst {pc : Nat} {σ : Slots} {counter : String} {first last : Expr} {direction : Direction}
      {body ss : List Stmt} :
      HasPart ctx f pc σ (.block (.forLoop counter first direction last body :: ss)) →
      HasPart ctx f pc σ (.expr ctx.nesting first)
  | forLast {pc : Nat} {σ : Slots} {counter : String} {first last : Expr} {direction : Direction}
      {body ss : List Stmt} {begin : List Instr} :
      HasPart ctx f pc σ (.block (.forLoop counter first direction last body :: ss)) →
      first.code ctx σ = some begin →
      HasPart ctx f (pc + begin.length + 2) (σ.declare counter) (.expr ctx.nesting last)
  | forBlock {pc : Nat} {σ : Slots} {counter : String} {first last : Expr} {direction : Direction}
      {body ss : List Stmt} {begin limit : List Instr} :
      HasPart ctx f pc σ (.block (.forLoop counter first direction last body :: ss)) →
      first.code ctx σ = some begin → last.code ctx (σ.declare counter) = some limit →
      HasPart ctx f (forBody pc begin limit) (σ.declare counter) (.block body)
  | init {pc : Nat} {σ : Slots} {name : String} {init : Expr} {ss : List Stmt} :
      HasPart ctx f pc σ (.block (.var name init :: ss)) →
        HasPart ctx f pc σ (.expr ctx.nesting init)
  | assigned {pc : Nat} {σ : Slots} {base : String} {fields : List String} {value : Expr}
      {ss : List Stmt} :
      HasPart ctx f pc σ (.block (.assign base fields value :: ss)) →
        HasPart ctx f pc σ (.expr ctx.nesting value)
  | returned {pc : Nat} {σ : Slots} {value : Expr} {ss : List Stmt} :
      HasPart ctx f pc σ (.block (.ret (some value) :: ss)) →
        HasPart ctx f pc σ (.expr ctx.nesting value)
  | called {pc : Nat} {σ : Slots} {function : String} {arguments : List Expr} {ss : List Stmt} :
      HasPart ctx f pc σ (.block (.call function arguments :: ss)) →
      HasPart ctx f pc σ (.expr ctx.nesting (.call function arguments))
  | neg {pc nesting : Nat} {σ : Slots} {operand : Expr} :
      HasPart ctx f pc σ (.expr nesting (.neg operand)) → HasPart ctx f pc σ (.expr nesting operand)
  | not {pc nesting : Nat} {σ : Slots} {operand : Expr} :
      HasPart ctx f pc σ (.expr nesting (.not operand)) → HasPart ctx f pc σ (.expr nesting operand)
  | left {pc nesting : Nat} {σ : Slots} {op : BinaryOp} {left right : Expr} :
      HasPart ctx f pc σ (.expr nesting (.binary op left right)) →
        HasPart ctx f pc σ (.expr nesting left)
  | right {pc nesting : Nat} {σ : Slots} {op : BinaryOp} {left right : Expr} {c : List Instr} :
      HasPart ctx f pc σ (.expr nesting (.binary op left right)) →
      left.codeWith ctx σ (newCode ctx σ nesting) = some c →
      HasPart ctx f (pc + c.length) σ (.expr nesting right)
  | argument {pc nesting : Nat} {σ : Slots} {function : String} {before after : List Expr}
      {e : Expr}
      {c : List Instr} :
      HasPart ctx f pc σ (.expr nesting (.call function (before ++ e :: after))) →
      argumentsCode ctx σ (newCode ctx σ nesting) before = some c →
      HasPart ctx f (pc + c.length) σ (.expr nesting e)
  | field {pc nesting : Nat} {σ : Slots} {type : String} {decl : TypeDecl}
      {before after : List Field} {field : Field}
      {c : List Instr} :
      HasPart ctx f pc σ (.expr (nesting + 1) (.new type)) → ctx.type? type = some decl →
      decl.fields = before ++ field :: after →
      fieldsCode (Expr.codeWith ctx σ (newCode ctx σ nesting)) before = some c →
      HasPart ctx f (pc + 1 + c.length + 1) σ (.expr nesting field.init)

/-- What is known of a part at its place: its calls fit, its code stands there, and the level of the
stack is zero unless it is an expression. -/
def Part.Stands (ctx : Context) (t : Template) (pc : Nat) (σ : Slots) : Part → Prop
  | .block ss => callsFitStmts ctx ss = true ∧ BalancedStmts ctx ss ∧ t.level ctx pc = 0 ∧
      ∃ c τ, stmtsCode ctx pc σ ss = some (c, τ) ∧ t.Has pc c
  | .case condition body rest =>
      (condition.callsFit ctx = true ∧ callsFitStmts ctx body = true ∧ rest.callsFit ctx = true) ∧
      (BalancedStmts ctx body ∧ rest.Balanced ctx) ∧ t.level ctx pc = 0 ∧
      ∃ test block inner others inner', condition.code ctx σ = some test ∧
        stmtsCode ctx (pc + test.length + 1) σ body = some (block, inner) ∧
        rest.code ctx (pc + test.length + block.length + 2) (σ.leave inner) =
          some (others, inner') ∧
        t.HasCase pc test block others
  | .alternatives alts => alts.callsFit ctx = true ∧ alts.Balanced ctx ∧ t.level ctx pc = 0 ∧
      ∃ c τ, alts.code ctx pc σ = some (c, τ) ∧ t.Has pc c
  | .expr nesting e =>
    e.callsFit ctx = true ∧ ∃ c, e.codeWith ctx σ (newCode ctx σ nesting) = some c ∧ t.Has pc c

section Stands

variable {ctx : Context} {f : FunDecl} {t : Template} {pc : Nat} {σ : Slots}

namespace Part.Stands

/-- At the place of a block stands its first statement. -/
theorem head {s : Stmt} {ss : List Stmt} (h : (Part.block (s :: ss)).Stands ctx t pc σ) :
    s.callsFit ctx = true ∧ s.Balanced ctx ∧ t.level ctx pc = 0 ∧
      ∃ c τ, s.code ctx pc σ = some (c, τ) ∧ t.Has pc c := by
  obtain ⟨hfit, hbal, hlevel, _, _, hcode, hhas⟩ := h
  obtain ⟨c, τ, hs, _, -, rfl⟩ := stmtsCode_cons.1 hcode
  rw [callsFitStmts, Bool.and_eq_true] at hfit
  rw [BalancedStmts] at hbal
  exact ⟨hfit.1, hbal.1, hlevel, c, τ, hs, hhas.left⟩

/-- Behind a statement stand the statements that follow it. -/
theorem rest {s : Stmt} {ss : List Stmt} {c : List Instr} {τ : Slots}
    (h : (Part.block (s :: ss)).Stands ctx t pc σ) (hs : s.code ctx pc σ = some (c, τ)) :
    (Part.block ss).Stands ctx t (pc + c.length) τ := by
  obtain ⟨hfit, hbal, hlevel, _, _, hcode, hhas⟩ := h
  obtain ⟨first, middle, hfirst, others, hothers, rfl⟩ := stmtsCode_cons.1 hcode
  rw [hs, Option.some.injEq, Prod.mk.injEq] at hfirst
  obtain ⟨rfl, rfl⟩ := hfirst
  rw [callsFitStmts, Bool.and_eq_true] at hfit
  rw [BalancedStmts] at hbal
  have hsame : t.Level ctx ⊤ pc (pc + c.length) := s.level hs hhas.left hbal.1 fun _ _ => trivial
  exact ⟨hfit.2, hbal.2, hsame.level.trans hlevel, others, _, hothers, hhas.right⟩

theorem branch {condition : Expr} {body ss : List Stmt} {rest : Alternatives}
    (h : (Part.block (.branch condition body rest :: ss)).Stands ctx t pc σ) :
    (Part.case condition body rest).Stands ctx t pc σ := by
  obtain ⟨hfit, hbal, hlevel, _, _, hfirst, hhas⟩ := h.head
  obtain ⟨test, htest, block, inner, hblock, others, inner', hothers, rfl, -⟩ :=
    Stmt.code_branch.1 hfirst
  rw [Stmt.callsFit, Bool.and_eq_true, Bool.and_eq_true] at hfit
  rw [Stmt.Balanced] at hbal
  exact ⟨⟨hfit.1.1, hfit.1.2, hfit.2⟩, hbal.2, hlevel, test, block, inner, others, inner', htest,
    hblock, hothers, Template.has_caseCode hhas.left⟩

theorem elif {condition : Expr} {body : List Stmt} {rest : Alternatives}
    (h : (Part.alternatives (.elif condition body rest)).Stands ctx t pc σ) :
    (Part.case condition body rest).Stands ctx t pc σ := by
  obtain ⟨hfit, hbal, hlevel, _, _, hcode, hhas⟩ := h
  obtain ⟨test, htest, block, inner, hblock, others, inner', hothers, rfl, -⟩ :=
    Alternatives.code_elif.1 hcode
  rw [Alternatives.callsFit, Bool.and_eq_true, Bool.and_eq_true] at hfit
  rw [Alternatives.Balanced] at hbal
  exact ⟨⟨hfit.1.1, hfit.1.2, hfit.2⟩, hbal, hlevel, test, block, inner, others, inner', htest,
    hblock, hothers, Template.has_caseCode hhas⟩

theorem otherwise {body : List Stmt} (h : (Part.alternatives (.otherwise body)).Stands ctx t pc σ) :
    (Part.block body).Stands ctx t pc σ := by
  obtain ⟨hfit, hbal, hlevel, c, _, hcode, hhas⟩ := h
  obtain ⟨inner, hblock, -⟩ := Alternatives.code_otherwise.1 hcode
  rw [Alternatives.callsFit] at hfit
  rw [Alternatives.Balanced] at hbal
  exact ⟨hfit, hbal, hlevel, c, inner, hblock, hhas⟩

theorem caseBody {condition : Expr} {body : List Stmt} {rest : Alternatives} {test : List Instr}
    (hctx : ctx.TypesFit) (h : (Part.case condition body rest).Stands ctx t pc σ)
    (htest : condition.code ctx σ = some test) :
    (Part.block body).Stands ctx t (pc + test.length + 1) σ := by
  obtain ⟨⟨hcondition, hbody, -⟩, hbal, hlevel, test', block, inner, others, inner', htest',
      hblock, -, hcase⟩ := h
  rw [htest, Option.some.injEq] at htest'
  subst htest'
  have htestLevel := hcase.hasTest.level_expr htest
  have hskip := Template.level_succ ctx hcase.skip
  have hgrowth : (Instr.jumpUnless (pc + test.length + block.length + 2)).growth ctx.arity? = -1 :=
    rfl
  rw [Expr.net_of_callsFit hctx hcondition] at htestLevel
  exact ⟨hbody, hbal.1, by omega, block, inner, hblock, hcase.hasBlock⟩

theorem caseRest {condition : Expr} {body : List Stmt} {rest : Alternatives}
    {test block : List Instr} {inner : Slots} (hctx : ctx.TypesFit)
    (h : (Part.case condition body rest).Stands ctx t pc σ)
    (htest : condition.code ctx σ = some test)
    (hblock : stmtsCode ctx (pc + test.length + 1) σ body = some (block, inner)) :
    (Part.alternatives rest).Stands ctx t (pc + test.length + block.length + 2)
      (σ.leave inner) := by
  obtain ⟨⟨hcondition, hbody, hrest⟩, hbal, hlevel, test', block', inner', others, last, htest',
    hblock', hothers, hcase⟩ := h
  rw [htest, Option.some.injEq] at htest'
  subst htest'
  rw [hblock, Option.some.injEq, Prod.mk.injEq] at hblock'
  obtain ⟨rfl, rfl⟩ := hblock'
  have hblockLevel : t.Level ctx ⊤ (pc + test.length + 1) (pc + test.length + 1 + block.length) :=
    stmts_level body hblock hcase.hasBlock hbal.1 fun _ _ => trivial
  have hcaseLevel := level_case htest hcase hblockLevel
  rw [Expr.net_of_callsFit hctx hcondition] at hcaseLevel
  exact ⟨hrest, hbal.2, by omega, others, last, hothers, hcase.hasOthers⟩

theorem whileBody {condition : Expr} {body ss : List Stmt} {test : List Instr} (hctx : ctx.TypesFit)
    (h : (Part.block (.whileLoop condition body :: ss)).Stands ctx t pc σ)
    (htest : condition.code ctx σ = some test) :
    (Part.block body).Stands ctx t (pc + test.length + 1) σ := by
  obtain ⟨hfit, hbal, hlevel, _, _, hfirst, hhas⟩ := h.head
  obtain ⟨test', htest', block, inner, hblock, rfl, -⟩ := Stmt.code_whileLoop.1 hfirst
  rw [htest, Option.some.injEq] at htest'
  subst htest'
  rw [Stmt.callsFit, Bool.and_eq_true] at hfit
  rw [Stmt.Balanced] at hbal
  have hloop := Template.has_whileCode hhas
  have htestLevel := hloop.hasTest.level_expr htest
  have hleave := Template.level_succ ctx hloop.leave
  have hgrowth : (Instr.jumpUnless (pc + test.length + block.length + 2)).growth ctx.arity? = -1 :=
    rfl
  rw [Expr.net_of_callsFit hctx hfit.1] at htestLevel
  exact ⟨hfit.2, hbal.2, by omega, block, inner, hblock, hloop.hasBlock⟩

/-- The parts of a `for` loop. -/
theorem forLoop {counter : String} {first last : Expr} {direction : Direction} {body ss : List Stmt}
    {begin : List Instr}
    (h : (Part.block (.forLoop counter first direction last body :: ss)).Stands ctx t pc σ)
    (hbegin : first.code ctx σ = some begin) :
    (first.callsFit ctx = true ∧ last.callsFit ctx = true ∧ callsFitStmts ctx body = true) ∧
    (first.net ctx + last.net ctx = 2 ∧ BalancedStmts ctx body) ∧ t.level ctx pc = 0 ∧
      ∃ limit block inner, last.code ctx (σ.declare counter) = some limit ∧
        stmtsCode ctx (forBody pc begin limit) (σ.declare counter) body = some (block, inner) ∧
        t.HasFor pc σ.used direction begin limit block := by
  obtain ⟨hfit, hbal, hlevel, _, _, hfirst, hhas⟩ := h.head
  obtain ⟨begin', hbegin', limit, hlimit, block, inner, hblock, rfl, -⟩ :=
    Stmt.code_forLoop.1 hfirst
  rw [hbegin, Option.some.injEq] at hbegin'
  subst hbegin'
  rw [Stmt.callsFit, Bool.and_eq_true, Bool.and_eq_true] at hfit
  rw [Stmt.Balanced] at hbal
  exact ⟨⟨hfit.1.1, hfit.1.2, hfit.2⟩, hbal, hlevel, limit, block, inner, hlimit, hblock,
    Template.has_forCode hhas⟩

theorem argument {nesting : Nat} {function : String} {before after : List Expr} {e : Expr}
    {c : List Instr}
    (h : (Part.expr nesting (.call function (before ++ e :: after))).Stands ctx t pc σ)
    (hc : argumentsCode ctx σ (newCode ctx σ nesting) before = some c) :
    (Part.expr nesting e).Stands ctx t (pc + c.length) σ := by
  obtain ⟨hfit, _, hcode, hhas⟩ := h
  obtain ⟨_, harguments, call, -, rfl⟩ := Expr.codeWith_call.1 hcode
  obtain ⟨first, hfirst, _, hrest, rfl⟩ := argumentsCode_append.1 harguments
  obtain ⟨d, hd, rest, -, rfl⟩ := argumentsCode_cons.1 hrest
  rw [hc, Option.some.injEq] at hfirst
  subst hfirst
  rw [Expr.callsFit, Bool.and_eq_true, callsFitAll_eq_all, List.all_eq_true] at hfit
  exact ⟨hfit.2 e (by simp), d, hd, hhas.left.right.left⟩

theorem field {nesting : Nat} {type : String} {decl : TypeDecl} {before after : List Field}
    {field : Field} {c : List Instr} (hctx : ctx.TypesFit)
    (h : (Part.expr (nesting + 1) (.new type)).Stands ctx t pc σ)
    (hdecl : ctx.type? type = some decl) (hfields : decl.fields = before ++ field :: after)
    (hc : fieldsCode (Expr.codeWith ctx σ (newCode ctx σ nesting)) before = some c) :
    (Part.expr nesting field.init).Stands ctx t (pc + 1 + c.length + 1) σ := by
  obtain ⟨-, code, hcode, hhas⟩ := h
  rw [Expr.codeWith] at hcode
  obtain ⟨decl', hdecl', fill, hfill, rfl⟩ := newCode_succ.1 hcode
  rw [hdecl, Option.some.injEq] at hdecl'
  subst hdecl'
  rw [hfields] at hfill
  obtain ⟨first, hfirst, _, hrest, rfl⟩ := fieldsCode_append.1 hfill
  obtain ⟨d, hd, rest, -, rfl⟩ := fieldsCode_cons.1 hrest
  rw [hc, Option.some.injEq] at hfirst
  subst hfirst
  have hfit := hctx type decl hdecl
  rw [TypeDecl.callsFit, List.all_eq_true] at hfit
  exact ⟨hfit field (by simp [hfields]), d, hd, hhas.tail.right.left.tail⟩

end Part.Stands

/-- The entry of a function takes the arguments from the stack. -/
theorem FunDecl.Placed.level_body {slots : Nat} {block : List Instr} {inner : Slots}
    (h : f.Placed ctx t slots block inner) (harity : t.arity = f.arity) :
    t.level ctx f.arity = 0 := by
  have hgrowth (indices : List Nat) :
      growth ctx.arity? (indices.map Instr.store) = -indices.length := by
    induction indices with
    | nil => rfl
    | cons index indices ih =>
      have hone : (Instr.store index).growth ctx.arity? = -1 := rfl
      rw [List.map_cons, growth_cons, ih, hone, List.length_cons]
      omega
  have hlevel := h.entry.level_length ctx
  rw [hgrowth, List.length_map, List.length_range, Nat.zero_add, Template.level, Template.level,
    List.take_zero, growth_nil, harity] at hlevel
  rw [Template.level, harity]
  omega

/-- The code of each part of a function stands at its place, its calls fit if all of them do, and
the level in front of statements is zero. -/
theorem FunDecl.HasPart.stands {slots : Nat} {last : Emitter} {part : Part} (hctx : ctx.TypesFit)
    (hmade : Compiled.Made ctx f ⟨t, slots⟩ last) (hfit : callsFitStmts ctx f.body = true)
    (h : f.HasPart ctx pc σ part) : part.Stands ctx t pc σ := by
  induction h with
  | body =>
    obtain ⟨block, inner, hplaced⟩ := hmade.placed
    exact ⟨hfit, hmade.balanced, hplaced.level_body hmade.arity, block, inner, hplaced.code,
      hplaced.body⟩
  | rest _ hs ih => exact ih.rest hs
  | branch _ ih => exact ih.branch
  | elif _ ih => exact ih.elif
  | otherwise _ ih => exact ih.otherwise
  | condition _ ih =>
    obtain ⟨⟨hcondition, -⟩, -, -, test, _, _, _, _, htest, -, -, hcase⟩ := ih
    exact ⟨hcondition, test, htest, hcase.hasTest⟩
  | caseBody _ htest ih => exact ih.caseBody hctx htest
  | caseRest _ htest hblock ih => exact ih.caseRest hctx htest hblock
  | whileCondition _ ih =>
    obtain ⟨hfit, -, -, _, _, hfirst, hhas⟩ := ih.head
    obtain ⟨test, htest, _, _, -, rfl, -⟩ := Stmt.code_whileLoop.1 hfirst
    rw [Stmt.callsFit, Bool.and_eq_true] at hfit
    exact ⟨hfit.1, test, htest, (Template.has_whileCode hhas).hasTest⟩
  | whileBody _ htest ih => exact ih.whileBody hctx htest
  | forFirst _ ih =>
    obtain ⟨hfit, -, -, _, _, hfirst, hhas⟩ := ih.head
    obtain ⟨begin, hbegin, _, -, _, _, -, rfl, -⟩ := Stmt.code_forLoop.1 hfirst
    rw [Stmt.callsFit, Bool.and_eq_true, Bool.and_eq_true] at hfit
    exact ⟨hfit.1.1, begin, hbegin, (Template.has_forCode hhas).hasFirst⟩
  | forLast _ hbegin ih =>
    obtain ⟨⟨-, hlast, -⟩, -, -, limit, _, _, hlimit, -, hloop⟩ := ih.forLoop hbegin
    exact ⟨hlast, limit, hlimit, hloop.hasLast⟩
  | forBlock _ hbegin hlimit ih =>
    obtain ⟨⟨-, -, hbody⟩, ⟨hnet, hbal⟩, hlevel, limit, block, inner, hlimit', hblock, hloop⟩ :=
      ih.forLoop hbegin
    rw [hlimit, Option.some.injEq] at hlimit'
    subst hlimit'
    have hbodyLevel := (level_forBody hbegin hlimit hloop).2
    exact ⟨hbody, hbal, by omega, block, inner, hblock, hloop.hasBlock⟩
  | init _ ih =>
    obtain ⟨hfit, -, -, _, _, hfirst, hhas⟩ := ih.head
    obtain ⟨value, hvalue, rfl, -⟩ := Stmt.code_var.1 hfirst
    rw [Stmt.callsFit] at hfit
    exact ⟨hfit, value, hvalue, hhas.left⟩
  | assigned _ ih =>
    obtain ⟨hfit, -, -, _, _, hfirst, hhas⟩ := ih.head
    obtain ⟨value, hvalue, _, -, rfl, -⟩ := Stmt.code_assign.1 hfirst
    rw [Stmt.callsFit] at hfit
    exact ⟨hfit, value, hvalue, hhas.left⟩
  | returned _ ih =>
    obtain ⟨hfit, -, -, _, _, hfirst, hhas⟩ := ih.head
    obtain ⟨value, hvalue, rfl, -⟩ := Stmt.code_ret_some.1 hfirst
    rw [Stmt.callsFit] at hfit
    exact ⟨hfit, value, hvalue, hhas.left⟩
  | called _ ih =>
    obtain ⟨hfit, -, -, _, _, hfirst, hhas⟩ := ih.head
    obtain ⟨value, hvalue, rfl, -⟩ := Stmt.code_call.1 hfirst
    rw [Stmt.callsFit] at hfit
    exact ⟨hfit, value, hvalue, hhas.left⟩
  | neg _ ih =>
    obtain ⟨hfit, _, hcode, hhas⟩ := ih
    obtain ⟨before, hbefore, rfl⟩ := Expr.codeWith_neg.1 hcode
    rw [Expr.callsFit] at hfit
    exact ⟨hfit, before, hbefore, hhas.left⟩
  | not _ ih =>
    obtain ⟨hfit, _, hcode, hhas⟩ := ih
    obtain ⟨before, hbefore, rfl⟩ := Expr.codeWith_not.1 hcode
    rw [Expr.callsFit] at hfit
    exact ⟨hfit, before, hbefore, hhas.left⟩
  | left _ ih =>
    obtain ⟨hfit, _, hcode, hhas⟩ := ih
    obtain ⟨leftCode, hleft, _, -, rfl⟩ := Expr.codeWith_binary.1 hcode
    rw [Expr.callsFit, Bool.and_eq_true] at hfit
    exact ⟨hfit.1, leftCode, hleft, hhas.left.left⟩
  | right _ hleft ih =>
    obtain ⟨hfit, _, hcode, hhas⟩ := ih
    obtain ⟨leftCode, hleft', rightCode, hright, rfl⟩ := Expr.codeWith_binary.1 hcode
    rw [hleft, Option.some.injEq] at hleft'
    subst hleft'
    rw [Expr.callsFit, Bool.and_eq_true] at hfit
    exact ⟨hfit.2, rightCode, hright, hhas.left.right⟩
  | argument _ hc ih => exact ih.argument hc
  | field _ hdecl hfields hc ih => exact ih.field hctx hdecl hfields hc

end Stands

end FrameMachine
