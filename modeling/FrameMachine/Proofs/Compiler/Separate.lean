import FrameMachine.Proofs.Compiler.Calls
import FrameMachine.Proofs.Compiler.Registry
import FrameMachine.Proofs.Machine.Frames
import Mathlib.Data.List.Find
import Mathlib.Data.List.Nodup

/-!
# Functions are compiled on their own

What compiling a function comes to does not depend on what the emitter did before, be it that it
failed in the middle of another function (`FunDecl.compile_restarts`). Of the program it depends on
the record types and on the names and the numbers of parameters of the functions
(`Program.context_of_signatures`).

Of a program that has compiled, a run depends on what is registered under each name
(`State.run_of_agree`). So the order of the declarations matters only where a name is declared
twice.
-/

set_option autoImplicit false

namespace FrameMachine

/-! ## One emitter for many functions -/

/-- What compiling a function comes to, from some state of the emitter. -/
def FunDecl.outcome (ctx : Context) (f : FunDecl) (s : Emitter) : Except CompileFailure Compiled :=
  match f.compile ctx s with
  | .ok compiled _ => .ok compiled
  | .error e _ => .error e

/-- What compiling a function of a program comes to with an emitter that has not been used. -/
def Program.compileFunction (p : Program) (f : FunDecl) : Except CompileFailure Compiled :=
  f.outcome p.context {}

section Emitters

variable {ctx : Context}

/-- The parts that are cleared at the beginning of a function are all that the emitter has. -/
theorem Emitter.restart_eq_begin (arity : Nat) (s : Emitter) : s.restart arity = .begin arity := rfl

/-- The state in which the emitter is when it comes to a function plays no role. -/
theorem FunDecl.compile_restarts (f : FunDecl) (s s' : Emitter) :
    f.compile ctx s = f.compile ctx s' := by
  have hstart (s : Emitter) : f.compile ctx s = (do
      EmitM.openScope
      emitParams f.params
      f.emitBody ctx
      EmitM.closeScope
      let s ← get
      pure ⟨{ name := f.name, arity := f.arity, code := s.code, maxStack := s.peak }, s.slots⟩ :
        EmitM Compiled) (s.restart f.arity) := rfl
  rw [hstart s, hstart s', Emitter.restart_eq_begin, Emitter.restart_eq_begin]

theorem FunDecl.outcome_restarts (f : FunDecl) (s s' : Emitter) :
    f.outcome ctx s = f.outcome ctx s' := by
  rw [outcome, outcome, f.compile_restarts s s']

theorem FunDecl.outcome_eq_ok {f : FunDecl} {s : Emitter} {c : Compiled} :
    f.outcome ctx s = .ok c ↔ ∃ t, f.compile ctx s = .ok c t := by
  rw [outcome]
  cases f.compile ctx s with
  | ok compiled t => simp
  | error e t => simp

/-- Only the outcome for the first function counts, not the emitter. -/
theorem Context.compileInto_cons (f : FunDecl) (fs : List FunDecl) (s : Emitter) (code : Code) :
    ctx.compileInto (f :: fs) s code =
      match f.outcome ctx {} with
      | .ok c => ctx.compileInto fs {} (code.add c.template)
      | .error e => .error e := by
  have hrest (s : Emitter) (code : Code) :
      ctx.compileInto fs s code = ctx.compileInto fs {} code := by
    cases fs with
    | nil => rfl
    | cons g fs => rw [Context.compileInto, Context.compileInto, g.compile_restarts s {}]
  rw [Context.compileInto, f.outcome_restarts {} s, FunDecl.outcome]
  cases f.compile ctx s with
  | ok c t => exact hrest t (code.add c.template)
  | error e t => rfl

/-- Functions are registered up to the first one that fails, and its failure is that of the
whole. -/
theorem Context.compileInto_eq_error {fs : List FunDecl} {s : Emitter} {code : Code}
    {e : CompileFailure} :
    ctx.compileInto fs s code = .error e ↔
      ∃ before f after, fs = before ++ f :: after ∧ (∀ g ∈ before, ∃ c, g.outcome ctx {} = .ok c) ∧
        f.outcome ctx {} = .error e := by
  induction fs generalizing s code with
  | nil => simp [Context.compileInto]
  | cons f fs ih =>
    rw [Context.compileInto_cons]
    constructor
    · intro h
      cases hf : f.outcome ctx {} with
      | ok c =>
        rw [hf] at h
        obtain ⟨before, g, after, rfl, hbefore, hg⟩ := ih.1 h
        exact ⟨f :: before, g, after, rfl, List.forall_mem_cons.2 ⟨⟨c, hf⟩, hbefore⟩, hg⟩
      | error e' =>
        rw [hf] at h
        cases h
        exact ⟨[], f, fs, rfl, by simp, hf⟩
    · rintro ⟨before, g, after, heq, hbefore, hg⟩
      cases before with
      | nil =>
        obtain ⟨rfl, rfl⟩ := List.cons.inj heq
        rw [hg]
      | cons f' before =>
        obtain ⟨rfl, rfl⟩ := List.cons.inj heq
        obtain ⟨⟨c, hc⟩, hbefore⟩ := List.forall_mem_cons.1 hbefore
        rw [hc]
        exact ih.2 ⟨before, g, after, rfl, hbefore, hg⟩

/-- Functions are registered if and only if each of them compiles. -/
theorem Context.isOk_compileInto {fs : List FunDecl} {s : Emitter} {code : Code} :
    (ctx.compileInto fs s code).isOk = true ↔ ∀ f ∈ fs, ∃ c, f.outcome ctx {} = .ok c := by
  cases h : ctx.compileInto fs s code with
  | ok code' =>
    simp only [Except.isOk, Except.toBool, true_iff]
    intro f hf
    obtain ⟨s', t, slots, last, hc⟩ := Context.compile_of_compileInto h hf
    exact ⟨⟨t, slots⟩, FunDecl.outcome_eq_ok.2 ⟨last, (f.compile_restarts {} s').trans hc⟩⟩
  | error e =>
    simp only [Except.isOk, Except.toBool, Bool.false_eq_true, false_iff]
    intro hall
    obtain ⟨before, f, after, rfl, -, hf⟩ := Context.compileInto_eq_error.1 h
    obtain ⟨c, hc⟩ := hall f (List.mem_append_right _ List.mem_cons_self)
    rw [hf] at hc
    cases hc

/-- The template of a function is determined by the function. -/
theorem FunDecl.CompilesTo.unique {f : FunDecl} {t t' : Template} (h : f.CompilesTo ctx t)
    (h' : f.CompilesTo ctx t') :
    t = t' := by
  obtain ⟨c, s, r, hc, rfl⟩ := h
  obtain ⟨c', s', r', hc', rfl⟩ := h'
  rw [f.compile_restarts s s', hc'] at hc
  cases hc
  rfl

end Emitters

/-- Functions of a program are compiled one after the other by the same emitter, in any order and
any number of times. For each of them the outcome is that of an unused emitter, be it a template or
a failure, whatever became of the functions before it. It would be so as well if the emitter had
already been in use, in whatever state that had left it. -/
theorem Program.compileFunctions_as_fresh (p : Program) (fs : List FunDecl) :
    p.compileFunctions fs = fs.map p.compileFunction ∧
      ∀ s, p.context.compileEach fs s = p.compileFunctions fs := by
  have hany : ∀ s, p.context.compileEach fs s = fs.map p.compileFunction := by
    induction fs with
    | nil => exact fun _ => rfl
    | cons f fs ih =>
      intro s
      rw [Context.compileEach, List.map_cons, Program.compileFunction, f.outcome_restarts {} s,
        FunDecl.outcome]
      -- a failure leaves the emitter in the middle of the function, and the next one
      -- starts from there
      cases f.compile p.context s with
      | ok compiled t => exact congrArg (List.cons _) (ih t)
      | error e t => exact congrArg (List.cons _) (ih t)
  exact ⟨hany {}, fun s => (hany s).trans (hany {}).symm⟩

/-- A function that fails inside two blocks of its body. -/
def tangled : FunDecl where
  name := "tangled"
  result := "void"
  params := [⟨"a", "int"⟩]
  body := [.whileLoop (.path "a" []) [.branch (.path "a" []) [.var "b" (.path "c" [])] .none]]

/-- When `tangled` fails, three scopes are open and two jumps have no target yet. -/
example : (match tangled.compile ⟨fun _ => none, fun _ => none, 0⟩ {} with
    | .ok _ _ => none
    | .error e s => some (e, s.scopes.length, s.code.toList.filterMap Instr.target?)) =
    some (.error (.undefinedVariable "c"), 3,
      [EmitM.pendingTarget, EmitM.pendingTarget]) := by decide +kernel

/-! ## What a function needs of its program -/

/-- What a call of a function depends on. -/
def FunDecl.signature (f : FunDecl) : String × Nat := (f.name, f.arity)

namespace Program

variable {p q : Program}

theorem arity?_eq_find? (p : Program) (name : String) :
    p.arity? name =
      ((p.functions.map FunDecl.signature).reverse.find? fun s => s.1 = name).map Prod.snd := by
  rw [← List.map_reverse, List.find?_map, Option.map_map]
  rfl

/-- Types and signatures are all that counts. -/
theorem context_of_signatures (htypes : q.types = p.types)
    (hfunctions : q.functions.map FunDecl.signature = p.functions.map FunDecl.signature) :
    q.context = p.context := by
  have harity : q.arity? = p.arity? := by
    funext name
    rw [arity?_eq_find?, arity?_eq_find?, hfunctions]
  have htype : q.type? = p.type? := by
    funext name
    rw [type?, type?, htypes]
  rw [context, context, contextWithin, contextWithin, harity, htype, htypes]

end Program

/-- A name stands for the same declaration, in whatever order the declarations stand, if each name
is declared once. -/
theorem find?_reverse_of_perm {α : Type} {key : α → String} {l l' : List α} (hperm : l.Perm l')
    (hnodup : (l.map key).Nodup) (name : String) :
    (l'.reverse.find? fun x => key x = name) = l.reverse.find? fun x => key x = name := by
  have hreverse : l.reverse.Perm l'.reverse :=
    (l.reverse_perm.trans hperm).trans l'.reverse_perm.symm
  refine (List.find?_eq_find?_of_perm hreverse ?_).symm
  rintro x ⟨hx, hxname⟩ y ⟨hy, hyname⟩
  apply List.inj_on_of_nodup_map hnodup (List.mem_reverse.1 hx) (List.mem_reverse.1 hy)
  exact (of_decide_eq_true hxname).trans (of_decide_eq_true hyname).symm

namespace Program

variable {p q : Program}

theorem function?_of_perm (hperm : p.functions.Perm q.functions)
    (hnodup : (p.functions.map FunDecl.name).Nodup) (name : String) :
    q.function? name = p.function? name :=
  find?_reverse_of_perm hperm hnodup name

theorem context_of_perm (hfunctions : p.functions.Perm q.functions) (htypes : p.types.Perm q.types)
    (hnodup : (p.functions.map FunDecl.name).Nodup) (hnodup' : (p.types.map TypeDecl.name).Nodup) :
    q.context = p.context := by
  have harity : q.arity? = p.arity? := by
    funext name
    rw [arity?, arity?, function?_of_perm hfunctions hnodup]
  have htype : q.type? = p.type? := by
    funext name
    exact find?_reverse_of_perm htypes hnodup' name
  rw [context, context, contextWithin, contextWithin, harity, htype, htypes.length_eq]

end Program

/-! ## What a run needs of the code -/

/-- Under each name the same function is registered, if any. -/
def Code.Agree (code code' : Code) : Prop := ∀ name, code'.get? name = code.get? name

section Agree

variable {code code' : Code} {maxDepth : Option Nat}

theorem Instr.execute_of_agree (h : code.Agree code') (i : Instr) (f : Frame) (w : World) :
    i.execute code' f w = i.execute code f w := by
  cases i with
  | call name =>
    change f.call code' w name = f.call code w name
    rw [Frame.call, Frame.call, h name]
  | _ => rfl

theorem Machine.step_of_agree (h : code.Agree code') (m : Machine) :
    m.step code' maxDepth = m.step code maxDepth := by
  rw [Machine.step, Machine.step]
  cases m.top.fetch? with
  | none => rfl
  | some i =>
    simp only
    rw [i.execute_of_agree h]

theorem State.run_of_agree (h : code.Agree code') (n : Nat) (s : State) :
    s.run code' maxDepth n = s.run code maxDepth n := by
  induction n generalizing s with
  | zero => rfl
  | succ n ih =>
    rw [State.run, State.run, ih]
    cases s with
    | running m => rw [State.step, State.step, m.step_of_agree h]
    | halted result w => rfl

theorem Code.start_of_agree (h : code.Agree code') (w : World) : code'.start w = code.start w := by
  rw [Code.start, Code.start, h "main"]

theorem Code.after_of_agree (h : code.Agree code') (w : World) (n : Nat) :
    code'.after maxDepth w n = code.after maxDepth w n := by
  rw [Code.after, Code.after, Code.start_of_agree h]
  cases code.start w with
  | error e => rfl
  | ok start => exact congrArg some (State.run_of_agree h n _)

end Agree

/-- Programs with the same declarations in different orders register the same functions. -/
theorem Program.agree_of_perm {p q : Program} {code code' : Code}
    (hperm : p.functions.Perm q.functions) (hnodup : (p.functions.map FunDecl.name).Nodup)
    (hcontext : q.context = p.context) (hp : p.compile = .ok code) (hq : q.compile = .ok code') :
    code.Agree code' := by
  intro name
  have hfunction := Program.function?_of_perm hperm hnodup name
  rcases Program.get?_compile hp name with ⟨f, t, hf, hft, hget⟩ | ⟨hf, hget⟩
  · rcases Program.get?_compile hq name with ⟨f', t', hf', hft', hget'⟩ | ⟨hf', -⟩
    · rw [hfunction, hf, Option.some.injEq] at hf'
      subst hf'
      rw [hcontext] at hft'
      rw [hget, hget', hft.unique hft']
    · rw [hfunction, hf] at hf'
      cases hf'
  · rcases Program.get?_compile hq name with ⟨f', t', hf', -, -⟩ | ⟨-, hget'⟩
    · rw [hfunction, hf] at hf'
      cases hf'
    · rw [hget, hget']

/-- Separate compilation. What a function of a program compiles to stays the same when the other
functions are replaced by any others of the same names and numbers of parameters.

If no two functions and no two record types of a program have the same name, the declarations can
stand in any order: the program compiles or not, each name stands for the same template, and runs
from the same streams with the same limit go through the same states, if they start at all. -/
theorem Program.compiled_separately (p q : Program) :
    (q.types = p.types → q.functions.map FunDecl.signature = p.functions.map FunDecl.signature →
      ∀ f, q.compileFunction f = p.compileFunction f) ∧
    (p.functions.Perm q.functions → p.types.Perm q.types → (p.functions.map FunDecl.name).Nodup →
      (p.types.map TypeDecl.name).Nodup →
      q.compile.isOk = p.compile.isOk ∧
      ∀ code code', p.compile = .ok code → q.compile = .ok code' →
        (∀ name, code'.get? name = code.get? name) ∧ (∀ w, code'.start w = code.start w) ∧
        ∀ maxDepth w n, code'.after maxDepth w n = code.after maxDepth w n) := by
  constructor
  · intro htypes hfunctions f
    rw [compileFunction, compileFunction, context_of_signatures htypes hfunctions]
  · intro hfunctions htypes hnodup hnodup'
    have hcontext := context_of_perm hfunctions htypes hnodup hnodup'
    constructor
    · have hall : q.compile.isOk = true ↔ p.compile.isOk = true := by
        have hq : q.compile.isOk = true ↔ ∀ f ∈ q.functions, ∃ c, f.outcome q.context {} = .ok c :=
          Context.isOk_compileInto
        have hp : p.compile.isOk = true ↔ ∀ f ∈ p.functions, ∃ c, f.outcome p.context {} = .ok c :=
          Context.isOk_compileInto
        rw [hq, hp, hcontext]
        simp only [hfunctions.mem_iff]
      exact Bool.eq_iff_iff.2 hall
    · intro code code' hp hq
      have hagree := agree_of_perm hfunctions hnodup hcontext hp hq
      exact ⟨hagree, Code.start_of_agree hagree, fun maxDepth w n => Code.after_of_agree hagree w n⟩

/-- A program in which one type makes objects of another, and one function calls another. -/
def ledger : Program where
  types := [⟨"Entry", [⟨"amount", .literal (.int 7)⟩]⟩, ⟨"Book", [⟨"first", .new "Entry"⟩]⟩]
  functions := [
    ⟨"amount", "int", [⟨"book", "Book"⟩], [.ret (some (.path "book" ["first", "amount"]))]⟩,
    ⟨"main", "int", [],
      [.var "book" (.new "Book"), .ret (some (.call "amount" [.path "book" []]))]⟩]

/-- The program `ledger` with another function `amount`, which does not even compile. -/
def ledgerChanged : Program where
  types := ledger.types
  functions := [
    ⟨"amount", "void", [⟨"b", "Entry"⟩], [.delete "book"]⟩,
    ⟨"main", "int", [],
      [.var "book" (.new "Book"), .ret (some (.call "amount" [.path "book" []]))]⟩]

/-- The declarations of `ledger` in the opposite order. -/
def ledgerReversed : Program := ⟨ledger.types.reverse, ledger.functions.reverse⟩

/-- The function `main` compiles to the same template in `ledger` and in `ledgerChanged`, and
`ledgerReversed` does what `ledger` does. -/
theorem ledger_compiled_separately :
    (ledgerChanged.functions.map FunDecl.signature = ledger.functions.map FunDecl.signature ∧
      ∀ f, ledgerChanged.compileFunction f = ledger.compileFunction f) ∧
    ledger.functions.Perm ledgerReversed.functions ∧ ledger.types.Perm ledgerReversed.types ∧
    (ledger.functions.map FunDecl.name).Nodup ∧ (ledger.types.map TypeDecl.name).Nodup ∧
    ∃ code code', ledger.compile = .ok code ∧ ledgerReversed.compile = .ok code' ∧
      (∀ name, code'.get? name = code.get? name) ∧
      ∀ maxDepth w n, code'.after maxDepth w n = code.after maxDepth w n := by
  have hfunctions : ledger.functions.Perm ledgerReversed.functions := (List.reverse_perm _).symm
  have htypes : ledger.types.Perm ledgerReversed.types := (List.reverse_perm _).symm
  have hnodup : (ledger.functions.map FunDecl.name).Nodup := by decide
  have hnodup' : (ledger.types.map TypeDecl.name).Nodup := by decide
  have hchanged := (Program.compiled_separately ledger ledgerChanged).1 rfl rfl
  obtain ⟨hok, hruns⟩ :=
    (Program.compiled_separately ledger ledgerReversed).2 hfunctions htypes hnodup hnodup'
  obtain ⟨code, hcode⟩ := Program.exists_compile (p := ledger) (by decide +kernel)
  obtain ⟨code', hcode'⟩ := Program.exists_compile (p := ledgerReversed) (by rw [hok, hcode]; rfl)
  obtain ⟨hget, -, hafter⟩ := hruns code code' hcode hcode'
  exact ⟨⟨rfl, hchanged⟩, hfunctions, htypes, hnodup, hnodup', code, code', hcode, hcode', hget,
    hafter⟩

end FrameMachine
