import FrameMachine.Proofs.Names.Uses

/-!
# What stands in the way of compiling a function

`FunDecl.failures` lists what evaluation meets in a function that has no code: names that stand for
nothing, and objects that are nested as deeply as the bound allows. It does so name by name, so that
what is known of names carries over. If the bound is never reached, the list is that of the
unresolved names (`FunDecl.failures_eq_unresolved`), and it is empty if and only if all names stand
for something (`FunDecl.failures_eq_nil_iff`).
-/

set_option autoImplicit false

namespace FrameMachine

/-! ## The failures of names, expressions and functions -/

/-- What is wrong with a name, given what is wrong with new objects. -/
def Use.failures (ctx : Context) (visible : List String) (new : String → List CompileFailure) :
    Use → List CompileFailure
  | .var name => (unknownVariable visible name).map .error
  | .type name => new name
  | .function name _ => (unknownFunction ctx name).map .error

/-- What is wrong with an expression, given what is wrong with new objects. -/
def Expr.failuresWith (ctx : Context) (visible : List String) (new : String → List CompileFailure)
    (e : Expr) : List CompileFailure :=
  e.uses.flatMap (Use.failures ctx visible new)

/-- What is wrong with a new object, in which new objects may be nested up to the given depth. -/
def newFailures (ctx : Context) (visible : List String) : Nat → String → List CompileFailure
  | 0, type =>
    match ctx.type? type with
    | some _ => [.defect (.endlessType type)]
    | none => [.error (.undefinedType type)]
  | depth + 1, type =>
    match ctx.type? type with
    | some decl => decl.fields.flatMap fun field =>
      field.init.failuresWith ctx visible (newFailures ctx visible depth)
    | none => [.error (.undefinedType type)]

/-- What is wrong with an expression where it stands. -/
def Site.failures (ctx : Context) (site : Site) : List CompileFailure :=
  site.expr.failuresWith ctx site.visible (newFailures ctx site.visible ctx.nesting)

/-- What is wrong with a function. -/
def FunDecl.failures (ctx : Context) (f : FunDecl) : List CompileFailure :=
  f.sites.flatMap (Site.failures ctx)

section Failures

variable {ctx : Context} {visible : List String} {e : Expr}

/-! ## Names that stand for nothing -/

theorem Context.isSome_parameters? (ctx : Context) (name : String) :
    (ctx.parameters? name).isSome =
      ((Builtin.ofName? name).isSome || (ctx.arity? name).isSome) := by
  rw [Context.parameters?]
  cases Builtin.ofName? name with
  | some builtin => rfl
  | none => simp

theorem Use.failures_var (new : String → List CompileFailure) (name : String) :
    Use.failures ctx visible new (.var name) = [] ↔ Use.Known ctx visible (.var name) := by
  rw [Use.failures, Use.Known, unknownVariable]
  by_cases h : name ∈ visible
  · simp [h]
  · simp [h]

theorem Use.failures_function (new : String → List CompileFailure) (name : String)
    (arguments : Nat) :
    Use.failures ctx visible new (.function name arguments) = [] ↔
      Use.Known ctx visible (.function name arguments) := by
  rw [Use.failures, Use.Known, unknownFunction, ctx.isSome_parameters?]
  cases (Builtin.ofName? name).isSome || (ctx.arity? name).isSome with
  | true => simp
  | false => simp

/-- What a new object meets is met by every expression in which it is made. -/
theorem Context.Meets.of_new {type : String} {u : Use} (h : ctx.Meets (.new type) u)
    (htype : .type type ∈ e.uses) :
    ctx.Meets e u := by
  cases h with
  | here hu =>
    rw [Expr.mem_uses_new] at hu
    exact .here (hu ▸ htype)
  | inside hnew hdecl hfield hmeets =>
    rw [Expr.mem_uses_new] at hnew
    cases hnew
    exact .inside htype hdecl hfield hmeets

/-- The failure is that the bound on the nesting of new objects has been reached. -/
def CompileFailure.IsEndless (failure : CompileFailure) : Prop :=
  ∃ type, failure = .defect (.endlessType type)

/-- The failure is the report of a name, and the expression comes to one that stands for nothing. -/
def CompileFailure.IsUnknown (ctx : Context) (visible : List String) (e : Expr)
    (failure : CompileFailure) : Prop :=
  (∃ error, failure = .error error) ∧ ∃ u, ctx.Meets e u ∧ ¬ u.Known ctx visible

/-- What is wrong with an expression other than that the bound is reached comes from a name that
stands for nothing, if this is so for new objects. -/
theorem Expr.exists_of_mem_failuresWith {new : String → List CompileFailure}
    {failure : CompileFailure}
    (hnew : ∀ type, failure ∈ new type → failure.IsEndless ∨
      failure.IsUnknown ctx visible (.new type))
    (h : failure ∈ e.failuresWith ctx visible new) :
    failure.IsEndless ∨ failure.IsUnknown ctx visible e := by
  obtain ⟨u, hu, hfailure⟩ := List.mem_flatMap.1 h
  cases u with
  | var name =>
    obtain ⟨error, -, herror⟩ := List.mem_map.1 hfailure
    refine Or.inr ⟨⟨error, herror.symm⟩, .var name, .here hu, fun hknown => ?_⟩
    rw [(Use.failures_var new name).2 hknown] at hfailure
    cases hfailure
  | type name =>
    rcases hnew name hfailure with hendless | ⟨herror, u, hmeets, hunknown⟩
    · exact Or.inl hendless
    · exact Or.inr ⟨herror, u, hmeets.of_new hu, hunknown⟩
  | function name arguments =>
    obtain ⟨error, -, herror⟩ := List.mem_map.1 hfailure
    refine Or.inr ⟨⟨error, herror.symm⟩, .function name arguments, .here hu, fun hknown => ?_⟩
    rw [(Use.failures_function new name arguments).2 hknown] at hfailure
    cases hfailure

theorem isUnknown_undefinedType {type : String} (h : ctx.type? type = none) :
    CompileFailure.IsUnknown ctx visible (.new type) (.error (.undefinedType type)) :=
  ⟨⟨_, rfl⟩, .type type, .here (Expr.mem_uses_new.2 rfl), by simp [Use.Known, h]⟩

theorem exists_of_mem_newFailures {failure : CompileFailure} {depth : Nat} {type : String}
    (h : failure ∈ newFailures ctx visible depth type) :
    failure.IsEndless ∨ failure.IsUnknown ctx visible (.new type) := by
  induction depth generalizing type with
  | zero =>
    rw [newFailures] at h
    cases hdecl : ctx.type? type with
    | some decl =>
      simp only [hdecl, List.mem_singleton] at h
      exact Or.inl ⟨type, h⟩
    | none =>
      simp only [hdecl, List.mem_singleton] at h
      exact Or.inr (h ▸ isUnknown_undefinedType hdecl)
  | succ depth ih =>
    rw [newFailures] at h
    cases hdecl : ctx.type? type with
    | some decl =>
      simp only [hdecl] at h
      obtain ⟨field, hfield, hinit⟩ := List.mem_flatMap.1 h
      rcases Expr.exists_of_mem_failuresWith
        (fun _ => ih) hinit with hendless | ⟨herror, u, hmeets, hunknown⟩
      · exact Or.inl hendless
      · exact Or.inr ⟨herror, u, .inside (Expr.mem_uses_new.2 rfl) hdecl hfield hmeets, hunknown⟩
    | none =>
      simp only [hdecl, List.mem_singleton] at h
      exact Or.inr (h ▸ isUnknown_undefinedType hdecl)

/-- If nothing is wrong with an expression, all names that it comes to stand for something. -/
theorem Context.Meets.known {u : Use} (h : ctx.Meets e u) {depth : Nat}
    (hnone : e.failuresWith ctx visible (newFailures ctx visible depth) = []) :
    u.Known ctx visible := by
  induction h generalizing depth with
  | @here e u hu =>
    have hu' := List.flatMap_eq_nil_iff.1 hnone u hu
    cases u with
    | var name => exact (Use.failures_var _ name).1 hu'
    | type name =>
      cases hdecl : ctx.type? name with
      | some decl => simp [Use.Known, hdecl]
      | none =>
        cases depth with
        | zero => simp [Use.failures, newFailures, hdecl] at hu'
        | succ depth => simp [Use.failures, newFailures, hdecl] at hu'
    | function name arguments => exact (Use.failures_function _ name arguments).1 hu'
  | @inside e u type decl field htype hdecl hfield _ ih =>
    have hnew : newFailures ctx visible depth type = [] := List.flatMap_eq_nil_iff.1 hnone _ htype
    cases depth with
    | zero => simp [newFailures, hdecl] at hnew
    | succ depth =>
      simp only [newFailures, hdecl] at hnew
      exact ih (List.flatMap_eq_nil_iff.1 hnew field hfield)

/-! ## The bound on the nesting of new objects -/

/-- If objects are nested too deeply, something is wrong. -/
theorem newFailures_ne_nil {depth : Nat} {type : String} (h : ctx.nests depth type = false) :
    newFailures ctx visible depth type ≠ [] := by
  induction depth generalizing type with
  | zero =>
    rw [newFailures]
    cases ctx.type? type with
    | some decl => simp
    | none => simp
  | succ depth ih =>
    have hdeep : ¬ ∀ other, ctx.Refers type other → ctx.nests depth other = true := by
      rw [← Context.nests_succ, h]
      exact Bool.false_ne_true
    simp only [not_forall, Bool.not_eq_true] at hdeep
    obtain ⟨other, ⟨decl, hdecl, field, hfield, huse⟩, hother⟩ := hdeep
    rw [newFailures, hdecl]
    intro hnone
    have hinit := List.flatMap_eq_nil_iff.1 hnone field hfield
    exact ih hother (List.flatMap_eq_nil_iff.1 hinit _ huse)

mutual

theorem Expr.map_unresolvedWith (new : String → List CompileError) :
    ∀ e : Expr, (e.unresolvedWith ctx visible new).map .error =
      e.failuresWith ctx visible fun type => (new type).map .error
  | .literal _ => by rw [Expr.unresolvedWith, Expr.failuresWith, Expr.uses]; rfl
  | .path base _ => by
    rw [Expr.unresolvedWith, Expr.failuresWith, Expr.uses, List.flatMap_singleton, Use.failures]
  | .new type => by
    rw [Expr.unresolvedWith, Expr.failuresWith, Expr.uses, List.flatMap_singleton, Use.failures]
  | .call function arguments => by
    rw [Expr.unresolvedWith, List.map_append, map_unresolvedArguments new arguments,
      Expr.failuresWith, Expr.uses, List.flatMap_append, List.flatMap_singleton, Use.failures]
  | .neg operand => by
    rw [Expr.unresolvedWith, Expr.map_unresolvedWith new operand, Expr.failuresWith,
      Expr.failuresWith, Expr.uses]
  | .not operand => by
    rw [Expr.unresolvedWith, Expr.map_unresolvedWith new operand, Expr.failuresWith,
      Expr.failuresWith, Expr.uses]
  | .binary _ left right => by
    rw [Expr.unresolvedWith, List.map_append, Expr.map_unresolvedWith new left,
      Expr.map_unresolvedWith new right,
      Expr.failuresWith, Expr.failuresWith, Expr.failuresWith, Expr.uses, List.flatMap_append]

theorem map_unresolvedArguments (new : String → List CompileError) :
    ∀ es : List Expr, (unresolvedArguments ctx visible new es).map .error =
      (usesAll es).flatMap (Use.failures ctx visible fun type => (new type).map .error)
  | [] => by rw [unresolvedArguments, usesAll]; rfl
  | e :: es => by
    rw [unresolvedArguments, List.map_append, Expr.map_unresolvedWith new e,
      map_unresolvedArguments new es, Expr.failuresWith, usesAll, List.flatMap_append]

end

/-- Only the new objects of an expression count. -/
theorem Expr.failuresWith_congr {new new' : String → List CompileFailure}
    (h : ∀ type, .type type ∈ e.uses → new type = new' type) :
    e.failuresWith ctx visible new = e.failuresWith ctx visible new' := by
  refine List.flatMap_congr fun u hu => ?_
  cases u with
  | var name => rfl
  | type name => exact h name hu
  | function name arguments => rfl

/-- If objects are not nested too deeply, only unresolved names are wrong with a new object. -/
theorem newFailures_eq_map {depth : Nat} {type : String} (h : ctx.nests depth type = true) :
    newFailures ctx visible depth type = (unresolvedNew ctx visible depth type).map .error := by
  induction depth generalizing type with
  | zero =>
    cases hdecl : ctx.type? type with
    | some decl =>
      rw [Context.nests_zero hdecl] at h
      cases h
    | none => simp [newFailures, unresolvedNew, hdecl]
  | succ depth ih =>
    cases hdecl : ctx.type? type with
    | some decl =>
      rw [newFailures, unresolvedNew.eq_def]
      simp only [hdecl, List.map_flatMap]
      refine List.flatMap_congr fun field hfield => ?_
      rw [Expr.map_unresolvedWith]
      refine Expr.failuresWith_congr fun other hother => ih ?_
      exact Context.nests_succ.1 h other ⟨decl, hdecl, field, hfield, hother⟩
    | none => simp [newFailures, unresolvedNew, hdecl]

/-! ## Functions -/

mutual

theorem Stmt.unresolved_eq_flatMap : ∀ (s : Stmt) (visible : List String),
    s.unresolved ctx visible = (s.sites visible).flatMap fun site =>
      site.expr.unresolved ctx site.visible
  | .var _ init, visible => by
    rw [Stmt.unresolved, Stmt.sites, List.flatMap_singleton]
  | .assign base _ value, visible => by
    rw [Stmt.unresolved, Stmt.sites, List.flatMap_cons, List.flatMap_singleton, Expr.unresolved,
      Expr.unresolved, Expr.unresolvedWith]
  | .branch condition body rest, visible => by
    rw [Stmt.unresolved, Stmt.sites, List.flatMap_append, List.flatMap_cons,
      unresolvedStmts_eq_flatMap body, rest.unresolved_eq_flatMap]
  | .whileLoop condition body, visible => by
    rw [Stmt.unresolved, Stmt.sites, List.flatMap_cons, unresolvedStmts_eq_flatMap body]
  | .forLoop counter first _ last body, visible => by
    rw [Stmt.unresolved, Stmt.sites, List.flatMap_cons, List.flatMap_cons,
      unresolvedStmts_eq_flatMap body, List.append_assoc]
  | .ret none, visible => by
    rw [Stmt.unresolved, Stmt.sites, List.flatMap_nil]
  | .ret (some value), visible => by
    rw [Stmt.unresolved, Stmt.sites, List.flatMap_singleton]
  | .delete name, visible => by
    rw [Stmt.unresolved, Stmt.sites, List.flatMap_singleton, Expr.unresolved, Expr.unresolvedWith]
  | .call function arguments, visible => by
    rw [Stmt.unresolved, Stmt.sites, List.flatMap_singleton]

theorem unresolvedStmts_eq_flatMap : ∀ (ss : List Stmt) (visible : List String),
    unresolvedStmts ctx visible ss = (sitesOf visible ss).flatMap fun site =>
      site.expr.unresolved ctx site.visible
  | [], visible => by rw [unresolvedStmts, sitesOf, List.flatMap_nil]
  | s :: ss, visible => by
    rw [unresolvedStmts, sitesOf, List.flatMap_append, s.unresolved_eq_flatMap,
      unresolvedStmts_eq_flatMap ss]

theorem Alternatives.unresolved_eq_flatMap : ∀ (alts : Alternatives) (visible : List String),
    alts.unresolved ctx visible = (alts.sites visible).flatMap fun site =>
      site.expr.unresolved ctx site.visible
  | .none, visible => by rw [Alternatives.unresolved, Alternatives.sites, List.flatMap_nil]
  | .otherwise body, visible => by
    rw [Alternatives.unresolved, Alternatives.sites, unresolvedStmts_eq_flatMap body]
  | .elif condition body rest, visible => by
    rw [Alternatives.unresolved, Alternatives.sites, List.flatMap_append, List.flatMap_cons,
      unresolvedStmts_eq_flatMap body, rest.unresolved_eq_flatMap]

end

variable {f : FunDecl}

/-- If the bound is never reached, the failures of a function are its unresolved names. -/
theorem FunDecl.failures_eq_unresolved (h : ∀ type, ctx.nests ctx.nesting type = true) :
    f.failures ctx = (f.unresolved ctx).map .error := by
  rw [FunDecl.unresolved, unresolvedStmts_eq_flatMap, List.map_flatMap, FunDecl.failures,
    FunDecl.sites]
  refine List.flatMap_congr fun site _ => ?_
  rw [Site.failures, Expr.unresolved, Expr.map_unresolvedWith]
  exact Expr.failuresWith_congr fun type _ => newFailures_eq_map (h type)

/-- What is wrong with a function is that the bound is reached, or a name in one of its
expressions. -/
theorem FunDecl.exists_of_mem_failures {failure : CompileFailure} (h : failure ∈ f.failures ctx) :
    failure.IsEndless ∨ ∃ site ∈ f.sites, failure.IsUnknown ctx site.visible site.expr := by
  obtain ⟨site, hsite, hfailure⟩ := List.mem_flatMap.1 h
  rcases Expr.exists_of_mem_failuresWith
    (fun _ => exists_of_mem_newFailures) hfailure with hendless | hunknown
  · exact Or.inl hendless
  · exact Or.inr ⟨site, hsite, hunknown⟩

/-- In a function whose names all stand for something, nothing can be wrong but that the
bound is reached. -/
theorem FunDecl.WellScoped.isEndless (h : f.WellScoped ctx) {failure : CompileFailure}
    (hf : failure ∈ f.failures ctx) :
    failure.IsEndless := by
  rcases FunDecl.exists_of_mem_failures hf with hendless | ⟨site, hsite, -, u, hmeets, hunknown⟩
  · exact hendless
  · exact absurd (h site hsite u hmeets) hunknown

/-- If the bound is never reached, nothing is wrong with a function exactly if all names in it stand
for something. -/
theorem FunDecl.failures_eq_nil_iff (h : ∀ type, ctx.nests ctx.nesting type = true) :
    f.failures ctx = [] ↔ f.WellScoped ctx := by
  constructor
  · intro hnone site hsite u hmeets
    exact hmeets.known (List.flatMap_eq_nil_iff.1 hnone site hsite)
  · intro hscoped
    refine List.eq_nil_iff_forall_not_mem.2 fun failure hfailure => ?_
    obtain ⟨type, rfl⟩ := hscoped.isEndless hfailure
    rw [FunDecl.failures_eq_unresolved h] at hfailure
    obtain ⟨e, -, he⟩ := List.mem_map.1 hfailure
    cases he

/-- Something is wrong with a function in which an object is made whose first contents are
nested too deeply. -/
theorem FunDecl.failures_ne_nil {site : Site} {type : String} (hsite : site ∈ f.sites)
    (htype : .type type ∈ site.expr.uses) (h : ctx.nests ctx.nesting type = false) :
    f.failures ctx ≠ [] := by
  intro hnone
  have hexpr := List.flatMap_eq_nil_iff.1 hnone site hsite
  exact newFailures_ne_nil h (List.flatMap_eq_nil_iff.1 hexpr _ htype)

end Failures

end FrameMachine
