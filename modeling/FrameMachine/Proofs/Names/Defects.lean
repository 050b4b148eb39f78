import FrameMachine.Proofs.Names.Resolution

/-!
# Where defects come from

Beside names that stand for nothing, compiling may fail with a defect. A defect says something about
the program (`Defect.Cause`): a call does not fit, or a record type comes back to itself. The
emitter itself is used as it is meant to be, whatever the program: only jumps are patched, only
instructions of a known effect are emitted, and every scope that is closed has been opened. So there
are no defects in a program without cycles in which the calls fit
(`Program.compile_free_of_defects`).
-/

set_option autoImplicit false

namespace FrameMachine

/-- What a defect says about the program. Those that come with no program say that the emitter has
been misused. -/
def Defect.Cause (p : Program) : Defect → Prop
  | .stackUnderflow _ _ => p.countsFit = false
  | .unbalanced _ _ => p.countsFit = false
  | .endlessType _ => ¬ p.Acyclic
  | .unknownEffect _ => False
  | .notAJump _ => False
  | .noScope => False

section Defects

variable {p : Program} {f : FunDecl} {d : Defect}

/-- A defect of the stack says that some call does not fit. -/
theorem CompileFailure.OfStack.cause (h : (CompileFailure.defect d).OfStack)
    (hfit : ¬ p.countsFit = true) : d.Cause p := by
  cases d with
  | stackUnderflow | unbalanced => exact Bool.eq_false_iff.2 hfit
  | endlessType | unknownEffect | notAJump | noScope => exact h.elim

/-- Of what `FunDecl.failures` lists, only objects without end are a defect, and only a cycle
brings them about. -/
theorem FunDecl.cause_of_mem_failures (h : .defect d ∈ f.failures p.context) : d.Cause p := by
  rcases FunDecl.exists_of_mem_failures h with ⟨type, hendless⟩ | ⟨_, _, ⟨error, herror⟩, _⟩
  · cases hendless
    intro hacyclic
    -- without a cycle the bound is never reached, and then only names are listed
    have hnests : ∀ type, p.context.nests p.context.nesting type = true :=
      p.nests_of_acyclic hacyclic
    rw [FunDecl.failures_eq_unresolved hnests] at h
    obtain ⟨error, -, herror⟩ := List.mem_map.1 h
    cases herror
  · cases herror

/-- Whatever the emitter did before, a function of the program meets only defects that the program
brings about. -/
theorem FunDecl.cause_of_outcome (hf : f ∈ p.functions) {s : Emitter}
    (h : f.outcome p.context s = .error (.defect d)) :
    d.Cause p := by
  have hends := f.outcome_ends (fun hfit : p.countsFit = true => p.fieldsFit hfit p.types.length)
    (fun hfit => p.sitesFit hfit hf p.types.length) s
  have houtcome : f.outcome (p.contextWithin p.types.length) s = .error (.defect d) := h
  rw [houtcome] at hends
  rcases hends with hhead | ⟨hfit, hstack⟩
  · exact FunDecl.cause_of_mem_failures (List.mem_of_head? hhead)
  · exact hstack.cause hfit

theorem Program.cause_of_compile (h : p.compile = .error (.defect d)) : d.Cause p := by
  obtain ⟨_, f, _, hfunctions, -, hf⟩ := Context.compileInto_eq_error.1 h
  exact FunDecl.cause_of_outcome (by simp [hfunctions]) hf

/-- Nothing brings about a defect in a program without cycles in which the calls fit. -/
theorem Defect.not_cause (hacyclic : p.Acyclic) (hfit : p.countsFit = true) : ¬ d.Cause p := by
  intro hcause
  cases d with
  | stackUnderflow | unbalanced =>
    rw [Defect.Cause, hfit] at hcause
    cases hcause
  | endlessType => exact hcause hacyclic
  | unknownEffect | notAJump | noScope => exact hcause

end Defects

/-- Compiling a function meets only the defects that its program brings about, whatever the emitter
did before. Whatever the program, only jumps are patched, only instructions of a known effect are
emitted, and no scope is closed that has not been opened.

Now let no record type come back to itself and every known function get as many arguments as it
takes. Names may be declared as often as one likes. Then the stack is as high as every instruction
needs it, every statement leaves it as it was, and there is no defect at all: compiling gives the
code of the program or reports a name that stands for nothing. -/
theorem Program.compile_free_of_defects (p : Program) :
    (∀ f ∈ p.functions, ∀ (s : Emitter) (d : Defect), f.outcome p.context s = .error (.defect d) →
      d.Cause p) ∧
    (p.Acyclic → p.countsFit = true →
      (∀ f ∈ p.functions, ∀ (s : Emitter) (d : Defect),
        f.outcome p.context s ≠ .error (.defect d)) ∧
      ((∃ code, p.compile = .ok code) ∨ ∃ e, p.compile = .error (.error e))) := by
  refine ⟨fun f hf s d h => FunDecl.cause_of_outcome hf h, ?_⟩
  intro hacyclic hfit
  constructor
  · intro f hf s d h
    exact Defect.not_cause hacyclic hfit (FunDecl.cause_of_outcome hf h)
  · cases hcompile : p.compile with
    | ok code => exact Or.inl ⟨code, rfl⟩
    | error failure =>
      cases failure with
      | error e => exact Or.inr ⟨e, rfl⟩
      | defect d => exact absurd (cause_of_compile hcompile) (Defect.not_cause hacyclic hfit)

/-- Types, functions, parameters and variables that have names in common. The type `pair` that
counts is the second one, which does not come back to itself. -/
def namesakes : Program where
  types := [
    ⟨"pair", [⟨"first", .new "pair"⟩]⟩,
    ⟨"pair", [⟨"first", .call "pick" [.literal (.int 1), .literal (.int 2)]⟩]⟩,
    ⟨"box", [⟨"pair", .new "pair"⟩]⟩]
  functions := [
    ⟨"pick", "int", [⟨"a", "int"⟩], [.ret (some (.path "a" []))]⟩,
    ⟨"main", "void", [], [
      .var "a" (.new "box"),
      .var "a" (.path "a" ["pair", "first"]),
      .forLoop "a" (.path "a" []) .upto (.literal (.int 3)) [
        .branch (.binary .lt (.path "a" []) (.literal (.int 2)))
          [.var "a" (.new "box"), .delete "a"]
          (.elif (.binary .eq (.path "a" []) (.literal (.int 2))) [.call "print" [.path "a" []]]
            (.otherwise [.assign "a" [] (.call "pick" [.path "a" [], .literal (.int 4)])]))]]⟩,
    ⟨"pick", "int", [⟨"a", "int"⟩, ⟨"a", "int"⟩], [.ret (some (.path "a" []))]⟩]

theorem namesakes_free_of_defects :
    namesakes.Acyclic ∧ namesakes.countsFit = true ∧ (∃ code, namesakes.compile = .ok code) ∧
      ∀ f ∈ namesakes.functions, ∀ (s : Emitter) (d : Defect),
        f.outcome namesakes.context s ≠ .error (.defect d) := by
  have hacyclic : namesakes.Acyclic := Program.acyclic_of_nests 2 (by decide +kernel)
  have hfit : namesakes.countsFit = true := by decide +kernel
  have hok : namesakes.compile.isOk = true := by decide +kernel
  obtain ⟨hfunctions, hcode | ⟨e, he⟩⟩ :=
    (Program.compile_free_of_defects namesakes).2 hacyclic hfit
  · exact ⟨hacyclic, hfit, hcode, hfunctions⟩
  · rw [he] at hok
    cases hok

end FrameMachine
