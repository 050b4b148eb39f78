import FrameMachine.Proofs.Names.Bound

/-!
# Which functions compile

Compiling a function accepts exactly the functions in which all names stand for something, and
otherwise reports the first name in the order of evaluation that does not
(`Program.compileFunction_accepts`). This holds if no record type comes back to itself, so that no
bound on the nesting of new objects is reached, and if every known function gets as many arguments
as it takes, so that the stack fits.
-/

set_option autoImplicit false

namespace FrameMachine

namespace Program

variable {p : Program} {f : FunDecl}

/-! ## Calls that fit -/

theorem fieldsFit (h : p.countsFit = true) (bound : Nat) : (p.contextWithin bound).FieldsFit := by
  intro type decl hdecl field hfield
  rw [countsFit, Bool.and_eq_true, List.all_eq_true] at h
  exact List.all_eq_true.1 (h.1 decl (mem_of_type? hdecl).1) field hfield

theorem sitesFit (h : p.countsFit = true) (hf : f ∈ p.functions) (bound : Nat) :
    ∀ site ∈ f.sites, site.expr.countsFit (p.contextWithin bound) = true := by
  rw [countsFit, Bool.and_eq_true, List.all_eq_true, List.all_eq_true] at h
  exact List.all_eq_true.1 (h.2 f hf)

/-! ## Functions of a program without cycles -/

/-- Every bound that is not less than the number of types will do. -/
theorem compileFunction_eq_outcome (h : p.Acyclic) {bound : Nat} (hle : p.types.length ≤ bound)
    (f : FunDecl) :
    p.compileFunction f = f.outcome (p.contextWithin bound) {} :=
  FunDecl.outcome_congr (p.emit_contextWithin h hle) f {}

theorem exists_compileFunction_eq_ok (hacyclic : p.Acyclic) (hfit : p.countsFit = true)
    (hf : f ∈ p.functions) :
    (∃ c, p.compileFunction f = .ok c) ↔ f.WellScoped p.context := by
  have hctx : p.context.FieldsFit := p.fieldsFit hfit _
  rw [compileFunction, FunDecl.exists_outcome_eq_ok hctx (p.sitesFit hfit hf _)]
  exact FunDecl.failures_eq_nil_iff (p.nests_of_acyclic hacyclic)

theorem compileFunction_eq_error (hacyclic : p.Acyclic) (hfit : p.countsFit = true)
    (hf : f ∈ p.functions) {bound : Nat} (hle : p.types.length ≤ bound) {e : CompileFailure} :
    p.compileFunction f = .error e ↔
      ∃ first, (f.unresolved (p.contextWithin bound)).head? = some first ∧ e = .error first := by
  have hnests : ∀ type, (p.contextWithin bound).nests (p.contextWithin bound).nesting type = true :=
    p.nests_within_of_acyclic hacyclic hle
  rw [p.compileFunction_eq_outcome hacyclic hle,
    FunDecl.outcome_eq_error_iff_head? (p.fieldsFit hfit bound) (p.sitesFit hfit hf bound),
    FunDecl.failures_eq_unresolved hnests, List.head?_map, Option.map_eq_some_iff]
  simp only [eq_comm]

/-- In a program without cycles in which every known function gets as many arguments as it
takes, a function compiles if and only if all names in it stand for something. If not, the
failure is the first name that stands for nothing, in the order in which evaluation would meet
the names, with new objects nested as deeply as one likes. The program fails like the first of
its functions that fails. -/
theorem compileFunction_accepts (hacyclic : p.Acyclic) (hfit : p.countsFit = true) :
    (∀ f ∈ p.functions,
      ((∃ c, p.compileFunction f = .ok c) ↔ f.WellScoped p.context) ∧
      ∀ bound, p.types.length ≤ bound → ∀ e, p.compileFunction f = .error e ↔
        ∃ first, (f.unresolved (p.contextWithin bound)).head? = some first ∧ e = .error first) ∧
    ∀ e, p.compile = .error e ↔ ∃ before f after, p.functions = before ++ f :: after ∧
      (∀ g ∈ before, ∃ c, p.compileFunction g = .ok c) ∧ p.compileFunction f = .error e := by
  refine ⟨fun f hf => ⟨exists_compileFunction_eq_ok hacyclic hfit hf, ?_⟩, fun e =>
    Context.compileInto_eq_error⟩
  intro bound hle e
  exact compileFunction_eq_error hacyclic hfit hf hle

end Program

/-- A function that makes segments in a loop. The last value of the counter depends on the counter
itself, and the contents of the points depend on the parameter. -/
def drawSegments : FunDecl where
  name := "draw"
  result := "void"
  params := [⟨"origin", "int"⟩]
  body := [
    .forLoop "i" (.path "origin" []) .upto (.binary .add (.path "i" []) (.literal (.int 1))) [
      .var "s" (.new "Segment"),
      .assign "s" ["start", "x"] (.path "i" []),
      .delete "s"]]

/-- A function that makes a segment where the variable for the contents of its points is not
visible, and assigns it to a variable that is not visible either. -/
def drawNowhere : FunDecl where
  name := "nowhere"
  result := "void"
  params := []
  body := [
    .branch (.literal (.bool true)) [.var "origin" (.literal (.int 0))] .none,
    .assign "s" [] (.new "Segment")]

/-- A segment has two points, and the first contents of a point use a variable. -/
def segments : Program where
  types := [
    ⟨"Point", [⟨"x", .literal (.int 0)⟩, ⟨"y", .path "origin" []⟩]⟩,
    ⟨"Segment", [⟨"start", .new "Point"⟩, ⟨"end", .new "Point"⟩]⟩]
  functions := [drawSegments, drawNowhere]

theorem segments_accepts :
    segments.Acyclic ∧ segments.countsFit = true ∧ drawSegments.WellScoped segments.context ∧
      segments.compileFunction drawNowhere = .error (.error (.undefinedVariable "origin")) ∧
      segments.compile = .error (.error (.undefinedVariable "origin")) := by
  have hacyclic : segments.Acyclic := Program.acyclic_of_nests 2 (by decide +kernel)
  have hfit : segments.countsFit = true := by decide +kernel
  obtain ⟨hfunctions, hprogram⟩ := Program.compileFunction_accepts hacyclic hfit
  obtain ⟨hdraw, hdraw'⟩ := hfunctions drawSegments (by simp [segments])
  obtain ⟨-, hnowhere⟩ := hfunctions drawNowhere (by simp [segments])
  have hok : ∃ c, segments.compileFunction drawSegments = .ok c := by
    cases hr : segments.compileFunction drawSegments with
    | ok c => exact ⟨c, rfl⟩
    | error e =>
      obtain ⟨first, hfirst, -⟩ := (hdraw' 2 (Nat.le_refl 2) e).1 hr
      have hnone : (drawSegments.unresolved (segments.contextWithin 2)).head? =
          none := by decide +kernel
      rw [hnone] at hfirst
      cases hfirst
  have herror : segments.compileFunction drawNowhere =
      .error (.error (.undefinedVariable "origin")) :=
    (hnowhere 2 (Nat.le_refl 2) _).2 ⟨.undefinedVariable "origin", by decide +kernel, rfl⟩
  refine ⟨hacyclic, hfit, hdraw.1 hok, herror,
    (hprogram _).2 ⟨[drawSegments], drawNowhere, [], rfl, ?_, herror⟩⟩
  simpa using hok

end FrameMachine
