import FrameMachine.Proofs.Compiler.Registry

/-!
# The height that the emitter tracks

On its way from the beginning of a function to its end the emitter only ever appends an instruction,
or does something that changes neither the effects of the instructions nor the tracked height
(`Emitter.Step.kinds`). So the height that it tracks right before it appends an instruction is that
to which the instructions before it climb in the finished code (`Emitter.Trail.height?_eq`), and its
peak is the greatest of these heights (`Emitter.Trail.exists_peak`).
-/

set_option autoImplicit false

namespace FrameMachine

/-- The height of the stack in front of a place in the code of a function, in the order of the
instructions. -/
def Template.height? (arity? : String → Option Nat) (t : Template) (pc : Nat) : Option Nat :=
  climb arity? t.arity (t.code.toList.take pc)

namespace Emitter

variable {arity? : String → Option Nat} {s t u : Emitter}

/-- A jump to another place has the same effect on the stack. -/
theorem effect?_retarget (target : Nat) (i : Instr) :
    (i.retarget target).effect? arity? = i.effect? arity? := by
  cases i <;> rfl

theorem Step.kinds (h : Step arity? s t) :
    (∃ i pops pushes, i.effect? arity? = some (pops, pushes) ∧ pops ≤ s.depth ∧
      t.code = s.code.push i ∧ t.depth = s.depth - pops + pushes ∧ t.peak = max s.peak t.depth) ∨
    (t.code.toList.map (Instr.effect? arity?) = s.code.toList.map (Instr.effect? arity?) ∧
      t.depth = s.depth ∧ t.peak = s.peak) := by
  cases h with
  | @append i pops pushes he h =>
    obtain ⟨hp, rfl⟩ := EmitM.append_ok.1 h
    exact Or.inl ⟨i, pops, pushes, he, hp, rfl, rfl, rfl⟩
  | allocate h =>
    cases h
    exact Or.inr ⟨rfl, rfl, rfl⟩
  | openScope h =>
    cases h
    exact Or.inr ⟨rfl, rfl, rfl⟩
  | closeScope h =>
    rw [EmitM.closeScope, EmitM.get_bind_ok] at h
    cases hscopes : s.scopes with
    | nil =>
      simp only [hscopes] at h
      exact absurd h EmitM.not_giveUp_ok
    | cons scope outer =>
      simp only [hscopes] at h
      cases h
      exact Or.inr ⟨rfl, rfl, rfl⟩
  | @patch target place h =>
    obtain ⟨hcode, -, -, hdepth, -⟩ := EmitM.patch_ok arity? h
    refine Or.inr ⟨?_, hdepth, EmitM.patch_peak h⟩
    rw [hcode]
    apply List.ext_getElem?
    intro k
    rw [List.getElem?_map, List.getElem?_map, List.getElem?_modify]
    cases s.code.toList[k]? with
    | none => rfl
    | some i =>
      by_cases hk : place = k
      · simp [hk, effect?_retarget]
      · simp [hk]

theorem Step.size (h : Step arity? s t) :
    t.code.size = s.code.size ∨ t.code.size = s.code.size + 1 := by
  rcases h.kinds with ⟨i, pops, pushes, -, -, hcode, -⟩ | ⟨heffects, -⟩
  · exact Or.inr (by rw [hcode, Array.size_push])
  · exact Or.inl (by simpa using congrArg List.length heffects)

/-- The effects of the instructions stay when further instructions are appended. -/
theorem Step.effects (h : Step arity? s t) :
    s.code.toList.map (Instr.effect? arity?) <+: t.code.toList.map (Instr.effect? arity?) := by
  rcases h.kinds with ⟨i, pops, pushes, -, -, hcode, -⟩ | ⟨heffects, -⟩
  · rw [hcode, Array.toList_push, List.map_append]
    exact List.prefix_append _ _
  · exact ⟨[], by rw [List.append_nil, heffects]⟩

namespace Trail

theorem effects (h : Trail arity? s t) :
    s.code.toList.map (Instr.effect? arity?) <+: t.code.toList.map (Instr.effect? arity?) := by
  induction h with
  | refl => exact List.prefix_refl _
  | tail _ hstep ih => exact ih.trans hstep.effects

/-- The tracked height is that to which the code so far climbs. -/
theorem climb_eq {arity : Nat} (h : Trail arity? (.begin arity) s) :
    climb arity? arity s.code.toList = some s.depth := by
  induction h with
  | refl => rfl
  | tail _ hstep ih =>
    rcases hstep.kinds with ⟨i, pops, pushes, he, hp, hcode, hdepth, -⟩ | ⟨heffects, hdepth, -⟩
    · rw [hcode, Array.toList_push, climb_append, ih, hdepth]
      exact climb_cons_eq_some.2 ⟨pops, pushes, he, hp, climb_nil _⟩
    · rw [climb_congr heffects, ih, hdepth]

/-- The tracked height at some point of the emission is that in front of the place to which the code
has grown by then, in the finished code. -/
theorem height?_eq {f : Template} (h : Trail arity? (.begin f.arity) s) (h' : Trail arity? s t)
    (ht : t.code = f.code) : f.height? arity? s.code.size = some s.depth := by
  rw [Template.height?, ← h.climb_eq]
  apply climb_congr
  have htake := List.prefix_iff_eq_take.1 h'.effects
  rw [htake, ← List.map_take, List.length_map, Array.length_toList, ht]

/-- Every instruction is appended at some point. -/
theorem exists_step {pc : Nat} (h : Trail arity? s t) (hs : s.code.size ≤ pc)
    (ht : pc < t.code.size) :
    ∃ e e', Trail arity? s e ∧ Step arity? e e' ∧ Trail arity? e' t ∧ e.code.size = pc ∧
      e'.code.size = pc + 1 := by
  induction h with
  | refl => omega
  | @tail e e' hbefore hstep ih =>
    by_cases hlt : pc < e.code.size
    · obtain ⟨a, a', ha, hstep', ha', hpc, hpc'⟩ := ih hlt
      exact ⟨a, a', ha, hstep', ha'.tail hstep, hpc, hpc'⟩
    · -- the code grows by one instruction at a time, so this step has appended the one at `pc`
      have hsize := hstep.size
      exact ⟨e, e', hbefore, hstep, .refl, by omega, by omega⟩

theorem peak_le (h : Trail arity? s t) : s.peak ≤ t.peak := by
  induction h with
  | refl => exact Nat.le_refl _
  | tail _ hstep ih =>
    rcases hstep.kinds with ⟨i, pops, pushes, -, -, -, -, hpeak⟩ | ⟨-, -, hpeak⟩
    · omega
    · omega

/-- The tracked height never exceeds the peak. -/
theorem depth_le {arity : Nat} (h : Trail arity? (.begin arity) s) : s.depth ≤ s.peak := by
  induction h with
  | refl => exact Nat.le_refl _
  | tail _ hstep ih =>
    rcases hstep.kinds with ⟨i, pops, pushes, -, -, -, -, hpeak⟩ | ⟨-, hdepth, hpeak⟩
    · omega
    · omega

/-- The peak is reached. -/
theorem exists_peak {arity : Nat} (h : Trail arity? (.begin arity) t) :
    ∃ e, Trail arity? (.begin arity) e ∧ Trail arity? e t ∧ e.depth = t.peak := by
  induction h with
  | refl => exact ⟨_, .refl, .refl, rfl⟩
  | @tail e e' hbefore hstep ih =>
    obtain ⟨a, ha, ha', hpeak⟩ := ih
    rcases hstep.kinds with ⟨i, pops, pushes, -, -, -, -, hmax⟩ | ⟨-, -, hsame⟩
    · by_cases hle : e'.depth ≤ e.peak
      · exact ⟨a, ha, ha'.tail hstep, by omega⟩
      · exact ⟨e', hbefore.tail hstep, .refl, by omega⟩
    · exact ⟨a, ha, ha'.tail hstep, hpeak.trans hsame.symm⟩

end Trail

/-- On the way from the beginning of a function to its end, the emitter appends the
instruction at a place. -/
structure Emits (arity? : String → Option Nat) (arity : Nat) (last : Emitter) (pc : Nat)
    (e e' : Emitter) : Prop where
  begun : Trail arity? (.begin arity) e
  step : Step arity? e e'
  rest : Trail arity? e' last
  place : e.code.size = pc
  next : e'.code.size = pc + 1

/-- What the emitter does to the tracked height when it appends an instruction is the effect of the
instruction that stands at the place in the end. -/
theorem Emits.depth_eq {arity pc pops pushes : Nat} {last e e' : Emitter} {i : Instr}
    (h : Emits arity? arity last pc e e') (hi : last.code[pc]? = some i)
    (heffect : i.effect? arity? = some (pops, pushes)) :
    pops ≤ e.depth ∧ e'.depth = e.depth - pops + pushes := by
  rcases h.step.kinds with ⟨j, pops', pushes', hj, hpops, hcode, hdepth, -⟩ | ⟨heffects, -⟩
  · -- a later jump may be given its target, so it is the effects that agree and not the
    -- instructions
    have hlt : pc < (e'.code.toList.map (Instr.effect? arity?)).length := by
      rw [List.length_map, Array.length_toList, h.next]
      exact Nat.lt_succ_self pc
    have hhere : (e'.code.toList.map (Instr.effect? arity?))[pc]? =
        some (some (pops', pushes')) := by
      rw [List.getElem?_map, Array.getElem?_toList, hcode, ← h.place, Array.getElem?_push_size,
        Option.map_some, hj]
    have hlast : (last.code.toList.map (Instr.effect? arity?))[pc]? =
        some (some (pops, pushes)) := by
      rw [List.getElem?_map, Array.getElem?_toList, hi, Option.map_some, heffect]
    obtain ⟨more, hmore⟩ := h.rest.effects
    rw [← hmore, List.getElem?_append_left hlt, hhere] at hlast
    cases hlast
    exact ⟨hpops, hdepth⟩
  · have hsize : e'.code.size = e.code.size := by simpa using congrArg List.length heffects
    have hplace := h.place
    have hnext := h.next
    omega

end Emitter

/-- The function is compiled to a template with a number of slots, and the given emitter is
left at its end. -/
def FunDecl.EmittedAs (ctx : Context) (f : FunDecl) (t : Template) (slots : Nat) (last : Emitter) :
    Prop :=
  ∃ s, f.compile ctx s = .ok ⟨t, slots⟩ last

theorem FunDecl.EmittedAs.made {ctx : Context} {f : FunDecl} {t : Template} {slots : Nat}
    {last : Emitter} (h : f.EmittedAs ctx t slots last) : Compiled.Made ctx f ⟨t, slots⟩ last := by
  obtain ⟨s, hs⟩ := h
  exact FunDecl.compile_ok hs

theorem Program.exists_emittedAs {p : Program} {code : Code} (hp : p.compile = .ok code)
    {name : String} {t : Template} (ht : code.get? name = some t) :
    ∃ f slots last, p.function? name = some f ∧ t.name = name ∧
      f.EmittedAs p.context t slots last := by
  obtain ⟨f, hf, ⟨⟨_, slots⟩, s, last, hcompile, rfl⟩⟩ := exists_of_get?_compile hp ht
  exact ⟨f, slots, last, hf, (FunDecl.compile_ok hcompile).name.trans (name_of_function? hf), s,
    hcompile⟩

/-- All functions of a program that compiles are compiled. -/
theorem Program.exists_emittedAs_of_mem {p : Program} (hp : p.compile.isOk = true) {f : FunDecl}
    (hf : f ∈ p.functions) :
    ∃ t slots last, f.EmittedAs p.context t slots last := by
  cases hcode : p.compile with
  | error e =>
    rw [hcode] at hp
    cases hp
  | ok code =>
    obtain ⟨s, t, slots, last, hcompile⟩ := Context.compile_of_compileInto hcode hf
    exact ⟨t, slots, last, s, hcompile⟩

/-- Each instruction was appended at some point. -/
theorem Compiled.Made.exists_emits {ctx : Context} {f : FunDecl} {t : Template} {slots : Nat}
    {last : Emitter} (h : Compiled.Made ctx f ⟨t, slots⟩ last) {pc : Nat} (hlt : pc < t.code.size) :
    ∃ e e', Emitter.Emits ctx.arity? f.arity last pc e e' := by
  rw [← h.lastCode] at hlt
  obtain ⟨e, e', hbegun, hstep, hrest, hplace, hplace'⟩ := h.trail.exists_step (Nat.zero_le _) hlt
  exact ⟨e, e', hbegun, hstep, hrest, hplace, hplace'⟩

end FrameMachine
