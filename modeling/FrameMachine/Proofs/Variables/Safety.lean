import FrameMachine.Proofs.Compiler.Calls
import FrameMachine.Proofs.Simulation.Variables
import FrameMachine.Proofs.Stack.Activations
import FrameMachine.Proofs.Variables.Assignment
import FrameMachine.Proofs.Variables.Declarations

/-!
# Variables are set and functions are registered

An activation follows a path through its function and has set every slot in which something is
stored on the path (`Code.paths_invariant`). Since a slot that is loaded has been stored on the path
before, no run finds a slot unset. Nor does a run find a function missing, since a call is compiled
only if the program declares a function of the name (`Program.variables_and_calls_resolved`).
-/

set_option autoImplicit false

namespace FrameMachine

/-- The activation has come to its place on a path, and has set the slots in which something is
stored on the path. -/
structure Frame.OnPath (code : Code) (f : Frame) : Prop where
  registered : ∃ name, code.get? name = some f.template
  path : ∃ trace, f.template.Path trace f.pc ∧ ∀ place ∈ trace, ∀ slot,
    f.template.code[place]? = some (.store slot) → ∃ v, f.locals.get? slot = some v

/-- The declarations of a function have slots of their own, what it loads has been stored before on
the same path, and what it calls is registered with the number of parameters that the call was
compiled with. -/
structure FunDecl.Resolves (ctx : Context) (code : Code) (f : FunDecl) (t : Template) (slots : Nat)
    (last : Emitter) : Prop where
  declared : ∃ ds : List Declaration, f.declarations ctx = some ds ∧
    t.Declares 0 t.code.size 0 slots ds ∧
    ∀ (k : Nat) (param : Param), f.params[k]? = some param → ds[k]? = some ⟨param.name, k, k⟩
  loads : ∀ {trace : List Nat} {pc slot : Nat}, t.Path trace pc → t.code[pc]? = some (.load slot) →
    ∃ place ∈ trace, t.code[place]? = some (.store slot)
  calls : ∀ {pc : Nat} {callee : String}, t.code[pc]? = some (.call callee) →
    ∃ u, code.get? callee = some u ∧ ctx.arity? callee = some u.arity ∧
      (∃ e e', Emitter.Emits ctx.arity? f.arity last pc e e') ∧
      ∀ e e', Emitter.Emits ctx.arity? f.arity last pc e e' → u.arity ≤ e.depth ∧
        e'.depth = e.depth - u.arity + 1

/-! ## Paths of activations -/

section Paths

variable {code : Code}

/-- An instruction that goes on sets the slot in which it stores, and unsets none. -/
theorem Instr.Turns.get?_locals {i : Instr} {f g : Frame} (h : i.Turns f g) {slot : Nat}
    (hslot : i = .store slot ∨ ∃ v, f.locals.get? slot = some v) :
    ∃ v, g.locals.get? slot = some v := by
  cases hstored : i.stored? with
  | none =>
    rw [h.kept hstored]
    rcases hslot with rfl | hslot
    · cases hstored
    · exact hslot
  | some other =>
    obtain ⟨v, hv⟩ := h.stored other hstored
    rw [hv, Locals.get?_set]
    by_cases heq : slot = other
    · exact ⟨v, if_pos heq⟩
    · rw [if_neg heq]
      rcases hslot with rfl | hslot
      · cases hstored
        exact absurd rfl heq
      · exact hslot

/-- Every activation is on a path, whatever it calls meanwhile. -/
theorem Code.paths_invariant (code : Code) :
    code.Invariant (Frame.OnPath code) (Frame.OnPath code) where
  enter := by
    intro name t arguments ht _
    exact ⟨⟨name, ht⟩, [], .start, by simp⟩
  next := by
    rintro f g i ⟨⟨name, ht⟩, trace, hpath, hset⟩ hi hturns
    have htemplate : g.template = f.template := hturns.template
    refine ⟨⟨name, htemplate ▸ ht⟩, f.pc :: trace, ?_, ?_⟩
    · rw [htemplate]
      exact hpath.step hi hturns.pc
    · intro place hplace slot hstore
      rw [htemplate] at hstore
      apply hturns.get?_locals
      rcases List.mem_cons.1 hplace with rfl | hplace
      · exact Or.inl (Option.some.inj (hi.symm.trans hstore))
      · exact Or.inr (hset place hplace slot hstore)
  call := by
    -- the activation waits with its counter behind the call, so the call is on its path already
    rintro f name t ⟨hregistered, trace, hpath, hset⟩ hi _ _
    refine ⟨hregistered, f.pc :: trace, hpath.step hi (List.mem_singleton_self _), ?_⟩
    intro place hplace slot hstore
    rcases List.mem_cons.1 hplace with rfl | hplace
    · cases hi.symm.trans hstore
    · exact hset place hplace slot hstore
  resume := fun _ h => ⟨h.registered, h.path⟩

end Paths

/-! ## Calls -/

section Calls

variable {p : Program} {code : Code} {f : FunDecl} {t : Template} {slots : Nat} {last : Emitter}

/-- What a function of a program calls is registered. -/
theorem Compiled.Made.registered_of_call (hp : p.compile = .ok code)
    (h : Compiled.Made p.context f ⟨t, slots⟩ last) {pc : Nat} {callee : String}
    (hcall : t.code[pc]? = some (.call callee)) : ∃ u, code.get? callee = some u := by
  obtain ⟨pops, pushes, heffect, -⟩ := h.effect?_eq_some hcall
  rw [Instr.effect?_call] at heffect
  obtain ⟨arity, harity, -⟩ := Option.map_eq_some_iff.1 heffect
  have hdeclared : (p.function? callee).map FunDecl.arity = some arity := harity
  rcases Program.get?_compile hp callee with ⟨g, u, -, -, hu⟩ | ⟨hnone, -⟩
  · exact ⟨u, hu⟩
  · rw [hnone] at hdeclared
    cases hdeclared

theorem Compiled.Made.resolves (hp : p.compile = .ok code)
    (h : Compiled.Made p.context f ⟨t, slots⟩ last) :
    f.Resolves p.context code t slots last where
  declared := h.declared
  loads := h.stored_of_load
  calls := by
    intro pc callee hcall
    obtain ⟨u, hu⟩ := h.registered_of_call hp hcall
    have harity := Program.arity?_of_get? hp hu
    refine ⟨u, hu, harity, h.exists_emits (Array.getElem?_eq_some_iff.1 hcall).1, fun e e' he => ?_⟩
    rw [← h.lastCode] at hcall
    exact he.depth_eq hcall (by rw [Instr.effect?_call, harity, Option.map_some])

end Calls

/-! ## Runs -/

section Runs

variable {p : Program} {code : Code} {f : Frame} {i : Instr} {w w' : World}

/-- An activation on a path does not find a slot unset. -/
theorem Frame.OnPath.not_unset (hp : p.compile = .ok code) (h : f.OnPath code)
    (hi : f.fetch? = some i) (slot : Nat) :
    ¬ i.Acts code f.advance w (.fail (.invalidOperand (.unsetSlot slot)) w') := by
  obtain ⟨name, ht⟩ := h.registered
  obtain ⟨d, slots, last, -, -, hemitted⟩ := Program.exists_emittedAs hp ht
  obtain ⟨trace, hpath, hset⟩ := h.path
  intro hacts
  cases hacts with
  | lacks _ _ hcause => rcases hcause with hcause | hcause <;> cases hcause
  | unset hload hnone =>
    rw [hload] at hi
    obtain ⟨place, hplace, hstore⟩ := hemitted.made.stored_of_load hpath hi
    obtain ⟨v, hv⟩ := hset place hplace slot hstore
    cases hv.symm.trans hnone
  | fault hshape => cases hshape

/-- An activation of a function of a program does not find a function missing. -/
theorem Frame.OnPath.not_unknown (hp : p.compile = .ok code) (h : f.OnPath code)
    (hi : f.fetch? = some i) (callee : String) :
    ¬ i.Acts code f.advance w (.fail (.unknownFunction callee) w') := by
  obtain ⟨name, ht⟩ := h.registered
  obtain ⟨d, slots, last, -, -, hemitted⟩ := Program.exists_emittedAs hp ht
  intro hacts
  cases hacts with
  | unknown hcall hnone =>
    rw [hcall] at hi
    obtain ⟨u, hu⟩ := hemitted.made.registered_of_call hp hi
    cases hu.symm.trans hnone
  | fault hshape => cases hshape

/-- In a program that compiles, all functions are compiled, and what they declare, load and call is
resolved. Activations follow the paths through the registered functions, and no run finds a slot
unset or a function missing. -/
theorem Program.variables_and_calls_resolved (hp : p.compile = .ok code) :
    (∀ f ∈ p.functions, ∃ t slots last, f.EmittedAs p.context t slots last) ∧
    (∀ (f : FunDecl) t slots last, f.EmittedAs p.context t slots last →
      f.Resolves p.context code t slots last) ∧
    (∀ name t, code.get? name = some t → ∃ f slots last, p.function? name = some f ∧
      f.EmittedAs p.context t slots last) ∧
    ∀ maxDepth w,
      (∀ m, code.Reaches maxDepth w m → ∀ frame, frame = m.top ∨ frame ∈ m.callers →
        frame.OnPath code) ∧
      (∀ slot function w',
        ¬ code.EndsWith maxDepth w (.fault (.invalidOperand (.unsetSlot slot)) function w')) ∧
      ∀ callee function w',
        ¬ code.EndsWith maxDepth w (.fault (.unknownFunction callee) function w') := by
  refine ⟨?_, fun f t slots last h => h.made.resolves hp, ?_, fun maxDepth w => ⟨?_, ?_, ?_⟩⟩
  · intro f hf
    obtain ⟨s, t, slots, last, hcompile⟩ := Context.compile_of_compileInto hp hf
    exact ⟨t, slots, last, s, hcompile⟩
  · intro name t ht
    obtain ⟨f, slots, last, hf, -, hemitted⟩ := exists_emittedAs hp ht
    exact ⟨f, slots, last, hf, hemitted⟩
  · intro m hm frame hframe
    obtain ⟨htop, hcallers⟩ := code.paths_invariant.reaches hm
    rcases hframe with rfl | hframe
    · exact htop
    · exact hcallers frame hframe
  · intro slot function w'
    exact code.paths_invariant.not_endsWith fun f i w h _ hi => h.not_unset hp hi slot
  · intro callee function w'
    exact code.paths_invariant.not_endsWith fun f i w h _ hi => h.not_unknown hp hi callee

end Runs

/-- A program in which types, functions, parameters and variables of the same name replace or
hide one another. -/
def shadowing : Program where
  types :=
    [⟨"pair", []⟩, ⟨"pair", [⟨"first", .call "pick" [.literal (.int 1), .literal (.int 2)]⟩]⟩]
  functions := [
    ⟨"pick", "int", [⟨"a", "int"⟩], [.ret (some (.path "a" []))]⟩,
    ⟨"main", "void", [], [
      .var "a" (.new "pair"),
      .var "a" (.path "a" ["first"]),
      .forLoop "a" (.path "a" []) .upto (.literal (.int 3)) [
        .branch (.binary .lt (.path "a" []) (.literal (.int 3))) [.var "a" (.path "a" [])]
          (.otherwise [.var "b" (.path "a" []), .assign "a" [] (.path "b" [])])]]⟩,
    ⟨"pick", "int", [⟨"a", "int"⟩, ⟨"a", "int"⟩], [.ret (some (.path "a" []))]⟩]

/-- The declarations of `shadowing` have slots of their own, and no run of it finds a slot unset or
a function missing, although they have their names in common. -/
theorem shadowing_resolved :
    ∃ code, shadowing.compile = .ok code ∧
      (∀ f ∈ shadowing.functions, ∃ t slots last, f.EmittedAs shadowing.context t slots last ∧
        f.Resolves shadowing.context code t slots last) ∧
      ∀ maxDepth w function w',
        (∀ slot, ¬ code.EndsWith maxDepth w
          (.fault (.invalidOperand (.unsetSlot slot)) function w')) ∧
        ∀ callee, ¬ code.EndsWith maxDepth w (.fault (.unknownFunction callee) function w') := by
  obtain ⟨code, hcode⟩ := Program.exists_compile (p := shadowing) (by decide +kernel)
  obtain ⟨hemitted, hresolves, -, hruns⟩ := Program.variables_and_calls_resolved hcode
  refine ⟨code, hcode, fun f hf => ?_, fun maxDepth w function w' =>
    ⟨fun slot => ?_, fun callee => ?_⟩⟩
  · obtain ⟨t, slots, last, h⟩ := hemitted f hf
    exact ⟨t, slots, last, h, hresolves f t slots last h⟩
  · exact (hruns maxDepth w).2.1 slot function w'
  · exact (hruns maxDepth w).2.2 callee function w'

end FrameMachine
