import FrameMachine.Proofs.Names.Outcome

/-!
# The bound on the nesting of new objects

The emission of new objects gives up when they are nested too deeply. If a bound is never reached,
it does not matter: with every greater bound the emitter does the same (`emitNew_of_nests`), and so
does compiling (`Context.compileInto_congr`).
-/

set_option autoImplicit false

namespace FrameMachine

section Emission

variable {ctx ctx' : Context}

/-! ## Expressions -/

mutual

/-- What is emitted for an expression depends on the new objects that are made in it. -/
theorem Expr.emitWith_congr (harity : ctx.arity? = ctx'.arity?) {new new' : String → EmitM Unit} :
    ∀ e : Expr,
    (∀ type, .type type ∈ e.uses → new type = new' type) → e.emitWith ctx new = e.emitWith ctx' new'
  | .literal _, _ => by rw [Expr.emitWith, Expr.emitWith]
  | .path _ _, _ => by rw [Expr.emitWith, Expr.emitWith]
  | .new type, h => by
    rw [Expr.emitWith, Expr.emitWith]
    exact h type (Expr.mem_uses_new.2 rfl)
  | .call function arguments, h => by
    simp only [Expr.uses, List.mem_append] at h
    rw [Expr.emitWith, Expr.emitWith, emitArguments_congr harity arguments fun type htype =>
      h type (Or.inl htype), emitCallOf, emitCallOf, harity]
  | .neg operand, h => by
    rw [Expr.uses] at h
    rw [Expr.emitWith, Expr.emitWith, Expr.emitWith_congr harity operand h]
  | .not operand, h => by
    rw [Expr.uses] at h
    rw [Expr.emitWith, Expr.emitWith, Expr.emitWith_congr harity operand h]
  | .binary _ left right, h => by
    simp only [Expr.uses, List.mem_append] at h
    rw [Expr.emitWith, Expr.emitWith, Expr.emitWith_congr harity left fun type htype =>
      h type (Or.inl htype),
      Expr.emitWith_congr harity right fun type htype => h type (Or.inr htype)]

theorem emitArguments_congr (harity : ctx.arity? = ctx'.arity?) {new new' : String → EmitM Unit} :
    ∀ es : List Expr, (∀ type, .type type ∈ usesAll es → new type = new' type) →
      emitArguments ctx new es = emitArguments ctx' new' es
  | [], _ => by rw [emitArguments, emitArguments]
  | e :: es, h => by
    simp only [usesAll, List.mem_append] at h
    rw [emitArguments, emitArguments, Expr.emitWith_congr harity e fun type htype =>
      h type (Or.inl htype), emitArguments_congr harity es fun type htype => h type (Or.inr htype)]

end

theorem emitFields_congr {emitExpr emitExpr' : Expr → EmitM Unit} {fields : List Field}
    (h : ∀ field ∈ fields, emitExpr field.init = emitExpr' field.init) :
    emitFields emitExpr fields = emitFields emitExpr' fields := by
  induction fields with
  | nil => rfl
  | cons field fields ih =>
    obtain ⟨hfield, hrest⟩ := List.forall_mem_cons.1 h
    rw [emitFields, emitFields, hfield, ih hrest]

/-- A bound that is never reached may be raised. -/
theorem emitNew_of_nests (htype : ctx.type? = ctx'.type?) (harity : ctx.arity? = ctx'.arity?)
    {bound bound' : Nat} (hle : bound ≤ bound') {type : String} (h : ctx.nests bound type = true) :
    emitNew ctx bound type = emitNew ctx' bound' type := by
  induction bound generalizing type bound' with
  | zero =>
    cases hdecl : ctx.type? type with
    | some decl =>
      rw [Context.nests_zero hdecl] at h
      cases h
    | none =>
      have hdecl' : ctx'.type? type = none := by rw [← htype, hdecl]
      cases bound' with
      | zero => rw [emitNew, emitNew, hdecl, hdecl']
      | succ bound' => rw [emitNew, emitNew, hdecl, hdecl']
  | succ bound ih =>
    obtain ⟨bound', rfl⟩ := Nat.exists_eq_add_of_le' (Nat.lt_of_lt_of_le (Nat.succ_pos bound) hle)
    rw [emitNew, emitNew, ← htype]
    cases hdecl : ctx.type? type with
    | some decl =>
      have hfields : emitFields (Expr.emitWith ctx (emitNew ctx bound)) decl.fields =
          emitFields (Expr.emitWith ctx' (emitNew ctx' bound')) decl.fields := by
        refine emitFields_congr fun field hfield =>
          Expr.emitWith_congr harity field.init fun other hother => ?_
        exact ih (Nat.le_of_succ_le_succ hle)
          (Context.nests_succ.1 h other ⟨decl, hdecl, field, hfield, hother⟩)
      simp only [hfields]
    | none => rfl

/-- Expressions are emitted alike by two contexts that differ in the bound, if it is
never reached. -/
theorem Expr.emit_of_nests (htype : ctx.type? = ctx'.type?) (harity : ctx.arity? = ctx'.arity?)
    (hle : ctx.nesting ≤ ctx'.nesting) (h : ∀ type, ctx.nests ctx.nesting type = true) (e : Expr) :
    e.emit ctx = e.emit ctx' :=
  Expr.emitWith_congr harity e fun type _ => emitNew_of_nests htype harity hle (h type)

/-! ## Statements and functions -/

mutual

theorem Stmt.emit_congr (h : ∀ e : Expr, e.emit ctx = e.emit ctx') :
    ∀ s : Stmt, s.emit ctx = s.emit ctx'
  | .var _ init => by rw [Stmt.emit, Stmt.emit, h init]
  | .assign _ _ value => by rw [Stmt.emit, Stmt.emit, h value]
  | .branch condition body rest => by
    rw [Stmt.emit, Stmt.emit, h condition, emitStmts_congr h body]
    simp only [rest.emit_congr h]
  | .whileLoop condition body => by rw [Stmt.emit, Stmt.emit, h condition, emitStmts_congr h body]
  | .forLoop _ first _ last body => by rw [Stmt.emit, Stmt.emit, h first, h last,
      emitStmts_congr h body]
  | .ret none => by rw [Stmt.emit, Stmt.emit]
  | .ret (some value) => by simp only [Stmt.emit, h value]
  | .delete _ => by rw [Stmt.emit, Stmt.emit]
  | .call function arguments => by rw [Stmt.emit, Stmt.emit, h]

theorem emitStmts_congr (h : ∀ e : Expr, e.emit ctx = e.emit ctx') :
    ∀ ss : List Stmt, emitStmts ctx ss = emitStmts ctx' ss
  | [] => by rw [emitStmts, emitStmts]
  | s :: ss => by rw [emitStmts, emitStmts, s.emit_congr h, emitStmts_congr h ss]

theorem Alternatives.emit_congr (h : ∀ e : Expr, e.emit ctx = e.emit ctx') :
    ∀ (alts : Alternatives) (skip : Nat), alts.emit ctx skip = alts.emit ctx' skip
  | .none, _ => by rw [Alternatives.emit, Alternatives.emit]
  | .otherwise body, _ => by rw [Alternatives.emit, Alternatives.emit, emitStmts_congr h body]
  | .elif condition body rest, _ => by
    rw [Alternatives.emit, Alternatives.emit, h condition, emitStmts_congr h body]
    simp only [rest.emit_congr h]

end

theorem FunDecl.outcome_congr (h : ∀ e : Expr, e.emit ctx = e.emit ctx') (f : FunDecl)
    (s : Emitter) :
    f.outcome ctx s = f.outcome ctx' s := by
  rw [FunDecl.outcome, FunDecl.outcome, FunDecl.compile, FunDecl.compile, FunDecl.emitBody,
    FunDecl.emitBody, emitStmts_congr h f.body]

theorem Context.compileInto_congr (h : ∀ e : Expr, e.emit ctx = e.emit ctx') (fs : List FunDecl)
    (s : Emitter) (code : Code) :
    ctx.compileInto fs s code = ctx'.compileInto fs s code := by
  induction fs generalizing s code with
  | nil => rfl
  | cons f fs ih =>
    rw [Context.compileInto_cons, Context.compileInto_cons, FunDecl.outcome_congr h]
    cases f.outcome ctx' {} with
    | ok c => exact ih {} (code.add c.template)
    | error e => rfl

end Emission

/-! ## Programs without cycles -/

namespace Program

variable {p : Program}

/-- In a program without cycles no bound is reached that is not less than the number of types. -/
theorem nests_within_of_acyclic (h : p.Acyclic) {bound : Nat} (hle : p.types.length ≤ bound)
    (type : String) :
    (p.contextWithin bound).nests bound type = true := by
  rw [p.nests_contextWithin]
  exact Context.nests_mono hle (p.nests_of_acyclic h type)

theorem emit_contextWithin (h : p.Acyclic) {bound : Nat} (hle : p.types.length ≤ bound) (e : Expr) :
    e.emit p.context = e.emit (p.contextWithin bound) := by
  have htype : p.context.type? = (p.contextWithin bound).type? := rfl
  exact Expr.emit_of_nests htype rfl hle (p.nests_of_acyclic h) e

end Program

end FrameMachine
