import FrameMachine.Proofs.Names.Defects

/-!
# When compiling ends

The first contents of a new object may need further objects. Compiling has a result if some bound on
the nesting is enough (`Program.Yields`). It has one for every program in which no record type comes
back to itself, and none if a function makes an object of a type that comes to a cycle
(`Program.compiling_terminates`). The result need not be code or a name that stands for nothing: a
call with a wrong number of arguments can bring the stack out of balance (`printing_gives_up`).
-/

set_option autoImplicit false

namespace FrameMachine

/-! ## Names under other bounds -/

/-- The names that evaluation meets do not depend on the bound. -/
theorem Context.Meets.of_type? {ctx ctx' : Context} (htype : ctx.type? = ctx'.type?) {e : Expr}
    {u : Use} (h : ctx.Meets e u) : ctx'.Meets e u := by
  induction h with
  | here hu => exact .here hu
  | inside hnew hdecl hfield _ ih =>
    rw [htype] at hdecl
    exact .inside hnew hdecl hfield ih

namespace Program

variable {p : Program}

theorem WellScoped.contextWithin (h : p.WellScoped) {f : FunDecl} (hf : f ∈ p.functions)
    (bound : Nat) :
    f.WellScoped (p.contextWithin bound) := by
  intro site hsite u hmeets
  have htype : (p.contextWithin bound).type? = p.context.type? := rfl
  have hknown := h f hf site hsite u (hmeets.of_type? htype)
  cases u with
  | var name => exact hknown
  | type name => exact hknown
  | function name arguments => exact hknown

/-! ## Programs without cycles -/

/-- Compiling the program ends with the outcome: it is the same with all bounds on the nesting of
new objects from some bound on, and the bound is not reached. -/
def Yields (p : Program) (outcome : Except CompileFailure Code) : Prop :=
  (∃ bound, ∀ bound', bound ≤ bound' → p.compileWithin bound' = outcome) ∧
    ∀ failure, outcome = .error failure → ¬ failure.IsEndless

theorem compileWithin_eq_compile (h : p.Acyclic) {bound : Nat} (hle : p.types.length ≤ bound) :
    p.compileWithin bound = p.compile :=
  (Context.compileInto_congr (p.emit_contextWithin h hle) p.functions {} .empty).symm

/-- The reasons to fail are names that stand for nothing and, if some call does not
fit, the stack. -/
theorem error_or_ofStack_of_compile (h : p.Acyclic) {failure : CompileFailure}
    (hp : p.compile = .error failure) :
    (∃ e, failure = .error e) ∨ p.countsFit = false ∧ failure.OfStack := by
  cases failure with
  | error e => exact Or.inl ⟨e, rfl⟩
  | defect d =>
    have hcause := cause_of_compile hp
    cases d with
    | stackUnderflow | unbalanced => exact Or.inr ⟨hcause, trivial⟩
    | endlessType => exact absurd h hcause
    | unknownEffect | notAJump | noScope => exact hcause.elim

theorem yields_compile (h : p.Acyclic) : p.Yields p.compile := by
  refine ⟨⟨p.types.length, fun _ hle => compileWithin_eq_compile h hle⟩, ?_⟩
  rintro _ hp ⟨type, rfl⟩
  rcases error_or_ofStack_of_compile h hp with ⟨e, he⟩ | ⟨-, hstack⟩
  · cases he
  · exact hstack

/-! ## Programs that make an object of a type that comes to a cycle -/

/-- Some function makes an object of a type that comes to a cycle. -/
def MakesEndless (p : Program) : Prop :=
  ∃ f ∈ p.functions, ∃ site ∈ f.sites, ∃ type other, .type type ∈ site.expr.uses ∧
    Relation.ReflTransGen p.context.Refers type other ∧
      Relation.TransGen p.context.Refers other other

/-- Whatever the bound, it is reached, if nothing else is wrong. -/
theorem compileWithin_of_makesEndless (hscoped : p.WellScoped) (hfit : p.countsFit = true)
    (h : p.MakesEndless) (bound : Nat) :
    ∃ type, p.compileWithin bound = .error (.defect (.endlessType type)) := by
  obtain ⟨f, hf, site, hsite, type, other, htype, hreach, hcycle⟩ := h
  cases hr : p.compileWithin bound with
  | error failure =>
    obtain ⟨_, g, _, hfunctions, -, hg⟩ := Context.compileInto_eq_error.1 hr
    have hgmem : g ∈ p.functions := by simp [hfunctions]
    have hhead :=
      (FunDecl.outcome_eq_error_iff_head? (p.fieldsFit hfit bound) (p.sitesFit hfit hgmem bound)
        {}).1 hg
    obtain ⟨type, rfl⟩ := (hscoped.contextWithin hgmem bound).isEndless (List.mem_of_head? hhead)
    exact ⟨type, rfl⟩
  | ok code =>
    have hok := Context.isOk_compileInto.1 (congrArg Except.isOk hr) f hf
    have hnone :=
      (FunDecl.exists_outcome_eq_ok (p.fieldsFit hfit bound) (p.sitesFit hfit hf bound) {}).1 hok
    have hdeep : (p.contextWithin bound).nests bound type = false := by
      rw [p.nests_contextWithin]
      exact Context.not_nests_of_cycle hreach hcycle bound
    exact absurd hnone (FunDecl.failures_ne_nil hsite htype hdeep)

/-- Compiling ends for every program in which no record type comes back to itself. It ends with
the code, with a name that stands for nothing, or, if some call does not fit, with a stack that
does not fit. Where all names stand for something and all calls fit, but some function makes an
object of a type that comes to a cycle, compiling has no outcome: it reaches every bound on the
nesting of new objects. -/
theorem compiling_terminates (p : Program) :
    (p.Acyclic → p.Yields p.compile ∧
      ∀ failure, p.compile = .error failure →
        (∃ e, failure = .error e) ∨ p.countsFit = false ∧ failure.OfStack) ∧
    (p.WellScoped → p.countsFit = true → p.MakesEndless →
      (∀ bound, ∃ type, p.compileWithin bound = .error (.defect (.endlessType type))) ∧
        ¬ ∃ outcome, p.Yields outcome) := by
  constructor
  · intro hacyclic
    exact ⟨yields_compile hacyclic, fun failure => error_or_ofStack_of_compile hacyclic⟩
  · intro hscoped hfit hendless
    have hreached := compileWithin_of_makesEndless hscoped hfit hendless
    refine ⟨hreached, ?_⟩
    rintro ⟨outcome, ⟨bound, hbound⟩, hends⟩
    obtain ⟨type, htype⟩ := hreached bound
    rw [hbound bound (Nat.le_refl bound)] at htype
    exact hends _ htype ⟨type, rfl⟩

/-- What evaluation meets stands in the expression or in the first contents of some field. -/
theorem mem_uses_of_meets {e : Expr} {u : Use} (h : p.context.Meets e u) :
    u ∈ e.uses ∨ ∃ decl ∈ p.types, ∃ field ∈ decl.fields, u ∈ field.init.uses := by
  induction h with
  | here hu => exact Or.inl hu
  | @inside _ _ _ decl field _ hdecl hfield _ ih =>
    rcases ih with hinit | hother
    · exact Or.inr ⟨decl, (mem_of_type? hdecl).1, field, hfield, hinit⟩
    · exact Or.inr hother

end Program

/-- A box for a ring, whose only link makes the ring again. -/
def rings : Program where
  types := [
    ⟨"Ring", [⟨"link", .new "Link"⟩]⟩,
    ⟨"Link", [⟨"ring", .new "Ring"⟩]⟩,
    ⟨"Box", [⟨"size", .path "n" []⟩, ⟨"content", .new "Ring"⟩]⟩]
  functions := [⟨"pack", "Box", [⟨"n", "int"⟩], [.ret (some (.new "Box"))]⟩]

theorem rings_wellScoped : rings.WellScoped := by
  intro f hf site hsite u hmeets
  simp only [rings, List.mem_singleton] at hf
  subst hf
  simp only [FunDecl.sites, sitesOf, Stmt.sites, List.append_nil, List.mem_singleton] at hsite
  subst hsite
  have hu : u = .type "Box" ∨ u = .type "Link" ∨ u = .type "Ring" ∨ u = .var "n" := by
    have huses := Program.mem_uses_of_meets hmeets
    simp only [rings, Expr.uses, List.mem_cons, List.not_mem_nil, or_false, exists_eq_or_imp,
      exists_eq_left] at huses
    tauto
  rcases hu with rfl | rfl | rfl | rfl
  · exact rfl
  · exact rfl
  · exact rfl
  · exact List.mem_cons_self

theorem rings_makesEndless : rings.MakesEndless := by
  have hlink : rings.context.Refers "Ring" "Link" :=
    ⟨_, rfl, _, List.mem_cons_self, by simp [Expr.uses]⟩
  have hring : rings.context.Refers "Link" "Ring" :=
    ⟨_, rfl, _, List.mem_cons_self, by simp [Expr.uses]⟩
  have hbox : rings.context.Refers "Box" "Ring" :=
    ⟨_, rfl, _, List.mem_cons_of_mem _ List.mem_cons_self, by simp [Expr.uses]⟩
  refine ⟨_, List.mem_cons_self, _, List.mem_cons_self, "Box", "Ring", by simp [Expr.uses],
    .single hbox, ?_⟩
  exact .tail (.single hlink) hring

/-- Compiling ends for segments and not for rings. -/
theorem segments_rings_terminate :
    (segments.Acyclic ∧ segments.Yields segments.compile) ∧
      rings.WellScoped ∧ rings.countsFit = true ∧ rings.MakesEndless ∧
        ¬ ∃ outcome, rings.Yields outcome := by
  have hacyclic : segments.Acyclic := Program.acyclic_of_nests 2 (by decide +kernel)
  have hfit : rings.countsFit = true := by decide +kernel
  refine ⟨⟨hacyclic, ((Program.compiling_terminates segments).1 hacyclic).1⟩, rings_wellScoped,
    hfit, rings_makesEndless, ?_⟩
  exact ((Program.compiling_terminates rings).2 rings_wellScoped hfit rings_makesEndless).2

/-- A program that only prints, with the given arguments. -/
def printing (arguments : List Expr) : Program where
  types := []
  functions := [⟨"main", "void", [], [.call "print" arguments]⟩]

/-- There is no record type in `printing`, so compiling ends. But with no argument, or with two, it
ends neither with the code nor with a name that stands for nothing: the stack does not fit. -/
theorem printing_gives_up :
    (printing []).Acyclic ∧
    (printing []).Yields (.error (.defect (.stackUnderflow 1 0))) ∧
    (¬ ∃ code, (printing []).compile = .ok code) ∧
    (¬ ∃ e, (printing []).compile = .error (.error e)) ∧
    (printing [.literal .nil, .literal .nil]).Acyclic ∧
    (printing [.literal .nil, .literal .nil]).Yields (.error (.defect (.unbalanced 0 1))) := by
  have hnone : (printing []).compile = .error (.defect (.stackUnderflow 1 0)) := rfl
  have htwo : (printing [.literal .nil, .literal .nil]).compile =
      .error (.defect (.unbalanced 0 1)) := rfl
  have hacyclic : (printing []).Acyclic := Program.acyclic_of_nests 0 (by decide +kernel)
  have hacyclic' : (printing [.literal .nil, .literal .nil]).Acyclic :=
    Program.acyclic_of_nests 0 (by decide +kernel)
  have hends := Program.yields_compile hacyclic
  have hends' := Program.yields_compile hacyclic'
  rw [hnone] at hends
  rw [htwo] at hends'
  simp only [hnone]
  exact ⟨hacyclic, hends, by simp, by simp, hacyclic', hends'⟩

end FrameMachine
