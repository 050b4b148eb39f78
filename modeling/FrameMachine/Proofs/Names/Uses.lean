import FrameMachine.Proofs.Compiler.Balance
import FrameMachine.Scoping
import Mathlib.Data.Finset.Dedup
import Mathlib.Data.Finset.Card
import Mathlib.Logic.Relation

/-!
# The names that a program uses

`Expr.uses` lists the names in an expression, and `Stmt.sites` the expressions in a statement with
the variables that are visible there, both in the order of evaluation. A `new` stands for the first
contents of its fields as well, in which other objects may be made, and so evaluation meets names
that do not stand in the function itself (`Context.Meets`).

In this way the record types refer to each other (`Context.Refers`). If no type comes back to
itself, new objects are nested no deeper than there are types (`Program.nests_of_acyclic`). From a
type that comes to a cycle they are nested without end (`Context.not_nests_of_cycle`).
-/

set_option autoImplicit false

namespace FrameMachine

/-! ## Expressions and statements -/

/-- A name in an expression. -/
inductive Use where
  /-- A variable, at the beginning of a path of fields. -/
  | var (name : String)
  /-- A record type of which an object is made. -/
  | type (name : String)
  /-- A function that is called with so many arguments. -/
  | function (name : String) (arguments : Nat)

mutual

/-- The names in an expression. A function comes behind its arguments. -/
def Expr.uses : Expr → List Use
  | .literal _ => []
  | .path base _ => [.var base]
  | .new type => [.type type]
  | .call function arguments => usesAll arguments ++ [.function function arguments.length]
  | .neg operand => operand.uses
  | .not operand => operand.uses
  | .binary _ left right => left.uses ++ right.uses

/-- The names in several expressions. -/
def usesAll : List Expr → List Use
  | [] => []
  | e :: es => e.uses ++ usesAll es

end

theorem Expr.mem_uses_new {type : String} {u : Use} :
    u ∈ (Expr.new type).uses ↔ u = .type type := by
  rw [Expr.uses, List.mem_singleton]

/-- An expression where it stands. -/
structure Site where
  /-- The variables that can be used there. -/
  visible : List String
  expr : Expr

mutual

/-- The expressions in a statement. A variable that is assigned or deleted counts as an
expression of its own. -/
def Stmt.sites (visible : List String) : Stmt → List Site
  | .var _ init => [⟨visible, init⟩]
  | .assign base _ value => [⟨visible, value⟩, ⟨visible, .path base []⟩]
  | .branch condition body rest =>
    ⟨visible, condition⟩ :: sitesOf visible body ++ rest.sites visible
  | .whileLoop condition body => ⟨visible, condition⟩ :: sitesOf visible body
  | .forLoop counter first _ last body =>
    ⟨visible, first⟩ :: ⟨counter :: visible, last⟩ :: sitesOf (counter :: visible) body
  | .ret none => []
  | .ret (some value) => [⟨visible, value⟩]
  | .delete name => [⟨visible, .path name []⟩]
  | .call function arguments => [⟨visible, .call function arguments⟩]

/-- The expressions in several statements. -/
def sitesOf (visible : List String) : List Stmt → List Site
  | [] => []
  | s :: ss => s.sites visible ++ sitesOf (s.declares visible) ss

/-- The expressions in what is done if no condition so far holds. -/
def Alternatives.sites (visible : List String) : Alternatives → List Site
  | .none => []
  | .otherwise body => sitesOf visible body
  | .elif condition body rest => ⟨visible, condition⟩ :: sitesOf visible body ++ rest.sites visible

end

/-- The expressions in a function. -/
def FunDecl.sites (f : FunDecl) : List Site := sitesOf (f.params.map Param.name) f.body

/-! ## Names that stand for something -/

/-- The name stands for something where the given variables are visible. -/
def Use.Known (ctx : Context) (visible : List String) : Use → Prop
  | .var name => name ∈ visible
  | .type name => (ctx.type? name).isSome
  | .function name _ => (ctx.parameters? name).isSome

/-- A function gets as many arguments as it takes, if it is known at all. -/
def Use.countFits (ctx : Context) : Use → Bool
  | .var _ => true
  | .type _ => true
  | .function name arguments => (ctx.parameters? name).all (· == arguments)

/-- Every known function that is called in the expression gets as many arguments as it takes. -/
def Expr.countsFit (ctx : Context) (e : Expr) : Bool := e.uses.all (Use.countFits ctx)

/-- Evaluation of the expression meets the name: it stands in the expression or in the first
contents of a field of an object that is made on the way. -/
inductive Context.Meets (ctx : Context) : Expr → Use → Prop
  | here {e : Expr} {u : Use} : u ∈ e.uses → Meets ctx e u
  | inside {e : Expr} {u : Use} {type : String} {decl : TypeDecl} {field : Field} :
      .type type ∈ e.uses →
      ctx.type? type = some decl → field ∈ decl.fields → Meets ctx field.init u → Meets ctx e u

/-- All names that the expression comes to stand for something, also those in the first contents of
new objects, for which the variables count that are visible where the object is made. -/
def Site.WellScoped (ctx : Context) (site : Site) : Prop :=
  ∀ u, ctx.Meets site.expr u → u.Known ctx site.visible

/-- All names that the function comes to stand for something. -/
def FunDecl.WellScoped (ctx : Context) (f : FunDecl) : Prop := ∀ site ∈ f.sites, site.WellScoped ctx

namespace Program

/-- All names that the functions of the program come to stand for something. -/
def WellScoped (p : Program) : Prop := ∀ f ∈ p.functions, f.WellScoped p.context

/-- Every known function that is called in the program gets as many arguments as it takes. -/
def countsFit (p : Program) : Bool :=
  (p.types.all fun decl => decl.fields.all fun field => field.init.countsFit p.context) &&
    p.functions.all fun f => f.sites.all fun site => site.expr.countsFit p.context

end Program

/-! ## References between record types -/

namespace Context

/-- An object of the second type is made among the first contents of one of the first type. -/
def Refers (ctx : Context) (type other : String) : Prop :=
  ∃ decl, ctx.type? type = some decl ∧ ∃ field ∈ decl.fields, .type other ∈ field.init.uses

/-- The objects among the first contents of one of this type are nested less deeply than
the bound says. -/
def nests (ctx : Context) : Nat → String → Bool
  | 0, type => (ctx.type? type).isNone
  | bound + 1, type => (ctx.type? type).all fun decl => decl.fields.all fun field =>
    field.init.uses.all fun
    | .type other => nests ctx bound other
    | _ => true

variable {ctx : Context} {type other : String}

theorem Refers.exists_decl (h : ctx.Refers type other) : ∃ decl, ctx.type? type = some decl := by
  obtain ⟨decl, hdecl, -⟩ := h
  exact ⟨decl, hdecl⟩

theorem nests_zero {decl : TypeDecl} (h : ctx.type? type = some decl) :
    ctx.nests 0 type = false := by
  rw [nests, h]
  rfl

theorem nests_succ {bound : Nat} :
    ctx.nests (bound + 1) type = true ↔ ∀ other, ctx.Refers type other →
      ctx.nests bound other = true := by
  rw [nests, Option.all_eq_true]
  constructor
  · rintro h other ⟨decl, hdecl, field, hfield, huse⟩
    exact List.all_eq_true.1 (List.all_eq_true.1 (h decl hdecl) field hfield) _ huse
  · intro h decl hdecl
    refine List.all_eq_true.2 fun field hfield => List.all_eq_true.2 fun u hu => ?_
    cases u with
    | type other => exact h other ⟨decl, hdecl, field, hfield, hu⟩
    | var name => rfl
    | function name arguments => rfl

/-- How deeply objects are nested depends on the record types only. -/
theorem nests_congr {ctx' : Context} (h : ctx.type? = ctx'.type?) (bound : Nat) (type : String) :
    ctx.nests bound type = ctx'.nests bound type := by
  induction bound generalizing type with
  | zero => rw [nests, nests, h]
  | succ bound ih =>
    rw [nests, nests, h]
    simp only [ih]

theorem nests_mono {bound bound' : Nat} (hle : bound ≤ bound') (h : ctx.nests bound type = true) :
    ctx.nests bound' type = true := by
  induction bound generalizing type bound' with
  | zero =>
    cases bound' with
    | zero => exact h
    | succ bound' =>
      refine nests_succ.2 fun other hrefers => ?_
      obtain ⟨decl, hdecl⟩ := hrefers.exists_decl
      rw [nests_zero hdecl] at h
      cases h
  | succ bound ih =>
    obtain ⟨bound'', rfl⟩ := Nat.exists_eq_add_of_le hle
    rw [Nat.add_right_comm]
    exact nests_succ.2 fun other hrefers => ih (Nat.le_add_right _ _) (nests_succ.1 h other hrefers)

/-- A type on a cycle refers to another one on it, so no bound is enough for any of them. -/
theorem not_nests_of_transGen (h : Relation.TransGen ctx.Refers type type) (bound : Nat) :
    ctx.nests bound type = false := by
  induction bound generalizing type with
  | zero =>
    obtain ⟨other, hrefers, -⟩ := Relation.TransGen.head'_iff.1 h
    obtain ⟨decl, hdecl⟩ := hrefers.exists_decl
    exact nests_zero hdecl
  | succ bound ih =>
    obtain ⟨other, hrefers, hback⟩ := Relation.TransGen.head'_iff.1 h
    refine Bool.eq_false_iff.2 fun hnests => ?_
    have hother := nests_succ.1 hnests other hrefers
    rw [ih (Relation.TransGen.tail' hback hrefers)] at hother
    cases hother

/-- No bound is enough for a type that comes to a cycle. -/
theorem not_nests_of_cycle (h : Relation.ReflTransGen ctx.Refers type other)
    (hcycle : Relation.TransGen ctx.Refers other other) (bound : Nat) :
    ctx.nests bound type = false := by
  induction h using Relation.ReflTransGen.head_induction_on generalizing bound with
  | refl => exact not_nests_of_transGen hcycle bound
  | @head type next hrefers _ ih =>
    refine Bool.eq_false_iff.2 fun hnests => ?_
    have hnext := nests_succ.1 (nests_mono (Nat.le_succ bound) hnests) next hrefers
    rw [ih bound] at hnext
    cases hnext

/-- A bound is enough if there are no more declared types to come to, and none of them comes
back to itself. -/
theorem nests_of_card_le (hacyclic : ∀ type, ¬ Relation.TransGen ctx.Refers type type) {bound : Nat}
    (names : Finset String) (hcard : names.card ≤ bound)
    (hnames : ∀ other decl, Relation.ReflTransGen ctx.Refers type other →
      ctx.type? other = some decl → other ∈ names) :
    ctx.nests bound type = true := by
  induction bound generalizing type names with
  | zero =>
    rw [nests, Option.isNone_iff_eq_none, Option.eq_none_iff_forall_ne_some]
    intro decl hdecl
    have hmem := hnames type decl .refl hdecl
    rw [Finset.card_eq_zero.1 (Nat.le_zero.1 hcard)] at hmem
    cases hmem
  | succ bound ih =>
    refine nests_succ.2 fun other hrefers => ?_
    obtain ⟨decl, hdecl⟩ := hrefers.exists_decl
    have hmem := hnames type decl .refl hdecl
    -- the type itself is not among those to which the other one comes
    refine ih (names.erase type) ?_ ?_
    · rw [Finset.card_erase_of_mem hmem]
      omega
    · intro last decl' hreach hlast
      refine Finset.mem_erase.2 ⟨?_, hnames last decl' (.head hrefers hreach) hlast⟩
      rintro rfl
      exact hacyclic last (Relation.TransGen.head' hrefers hreach)

end Context

namespace Program

/-- No record type comes back to itself. -/
def Acyclic (p : Program) : Prop := ∀ type, ¬ Relation.TransGen p.context.Refers type type

variable {p : Program}

theorem mem_of_type? {name : String} {decl : TypeDecl} (h : p.type? name = some decl) :
    decl ∈ p.types ∧ decl.name = name := by
  refine ⟨List.mem_reverse.1 (List.mem_of_find?_eq_some h), ?_⟩
  have hname := List.find?_some h
  simpa using hname

theorem nests_contextWithin (p : Program) (nesting bound : Nat) (type : String) :
    (p.contextWithin nesting).nests bound type = p.context.nests bound type := by
  have htype : (p.contextWithin nesting).type? = p.context.type? := rfl
  exact Context.nests_congr htype bound type

/-- New objects are nested no deeper than there are types. -/
theorem nests_of_acyclic (h : p.Acyclic) (type : String) :
    p.context.nests p.types.length type = true := by
  refine Context.nests_of_card_le h (p.types.map TypeDecl.name).toFinset ?_ ?_
  · have hcard := List.toFinset_card_le (p.types.map TypeDecl.name)
    rwa [List.length_map] at hcard
  · intro other decl _ hdecl
    obtain ⟨hmem, rfl⟩ := mem_of_type? hdecl
    exact List.mem_toFinset.2 (List.mem_map_of_mem hmem)

/-- No type comes back to itself if some bound is enough for all of them. -/
theorem acyclic_of_nests (bound : Nat)
    (h : p.types.all (fun decl => p.context.nests bound decl.name) = true) :
    p.Acyclic := by
  intro type hcycle
  obtain ⟨other, hrefers, -⟩ := Relation.TransGen.head'_iff.1 hcycle
  obtain ⟨decl, hdecl⟩ := hrefers.exists_decl
  obtain ⟨hmem, rfl⟩ := mem_of_type? hdecl
  have hnests := List.all_eq_true.1 h decl hmem
  rw [Context.not_nests_of_transGen hcycle bound] at hnests
  cases hnests

end Program

end FrameMachine
