import FrameMachine.Proofs.Compiler.Patching
import FrameMachine.Proofs.Compiler.Jumps
import Std.Data.TreeMap.Lemmas

/-!
# Compiled functions and where they are registered

A function that compiles has the code by construction, and its statements are balanced
(`FunDecl.compile_ok`). A program that compiles registers, for each name, the code of the last
function of that name and nothing else (`Program.get?_compile`), so the number of parameters that a
call site is compiled with is that of the function it reaches.
-/

set_option autoImplicit false

namespace FrameMachine

/-! ## Functions -/

section Functions

variable {ctx : Context}

theorem paramSlots_foldl (params : List Param) (slots : Slots) :
    (params.foldl (fun slots param => slots.declare param.name) slots).used =
      slots.used + params.length := by
  induction params generalizing slots with
  | nil => rfl
  | cons param params ih =>
    rw [List.foldl_cons, ih]
    simp only [Slots.declare, List.length_cons]
    omega

theorem paramSlots_used (params : List Param) : (paramSlots params).used = params.length := by
  rw [paramSlots, paramSlots_foldl]
  exact Nat.zero_add _

/-- Each parameter gets the next slot and is stored there. -/
theorem emitParams_ok (arity? : String → Option Nat) (params : List Param) {s t : Emitter}
    (hs : s.scopes ≠ []) (h : emitParams params s = .ok () t) :
    t.code.toList = s.code.toList ++ (List.range' s.slots params.length).map Instr.store ∧
      t.view = params.foldl (fun slots param => slots.declare param.name) s.view ∧
      t.scopes ≠ [] ∧ Emitter.Trail arity? s t := by
  induction params generalizing s with
  | nil =>
    obtain ⟨-, rfl⟩ := EmitM.pure_ok.1 h
    exact ⟨by simp, rfl, hs, .refl⟩
  | cons param params ih =>
    rw [emitParams] at h
    obtain ⟨slot, a, halloc, h⟩ := EmitM.bind_ok.1 h
    obtain ⟨_, b, hstore, hrest⟩ := EmitM.bind_ok.1 h
    obtain ⟨rfl, hacode, haview, -, hascopes, -, hatrail⟩ := EmitM.allocate_ok arity? hs halloc
    have hstore' : Emitter.Appends arity? a [.store s.slots] b := EmitM.emit_appends hstore
    have hbscopes : b.scopes ≠ [] := by
      rw [hstore'.scopes]
      exact hascopes
    obtain ⟨hcode, hview, hscopes, htrail⟩ := ih hbscopes hrest
    have hbslots : b.slots = s.slots + 1 := by
      have hused := congrArg Slots.used (hstore'.view.trans haview)
      exact hused
    refine ⟨?_, ?_, hscopes, (hatrail.trans hstore'.trail).trans htrail⟩
    · rw [hcode, hstore'.code, hacode, hbslots, List.length_cons, List.range'_succ]
      simp
    · rw [hview, hstore'.view, haview, List.foldl_cons]

/-- What is known of a compiled function and of the emitter at its end. The code and the slots are
those by construction, the statements are balanced, and the emitter got from the beginning of the
function to its end by primitive actions. -/
structure Compiled.Made (ctx : Context) (f : FunDecl) (c : Compiled) (last : Emitter) : Prop where
  code : f.code ctx = some (c.template.code.toList, c.slots)
  name : c.template.name = f.name
  arity : c.template.arity = f.arity
  balanced : BalancedStmts ctx f.body
  trail : Emitter.Trail ctx.arity? (.begin f.arity) last
  lastCode : last.code = c.template.code
  lastPeak : last.peak = c.template.maxStack

/-- Where the parts of a function stand. -/
structure FunDecl.Placed (ctx : Context) (f : FunDecl) (t : Template) (slots : Nat)
    (block : List Instr) (inner : Slots) : Prop where
  code : stmtsCode ctx f.arity (paramSlots f.params) f.body = some (block, inner)
  used : inner.used = slots
  entry : t.Has 0 ((List.range f.arity).map Instr.store)
  body : t.Has f.arity block
  ending : t.code.size = f.arity + block.length ∨
    t.Has (f.arity + block.length) [.push .nil, .ret] ∧ t.code.size = f.arity + block.length + 2

/-- The instructions of a function are those of its entry, of its body and of its ending. -/
theorem FunDecl.Placed.each {P : Nat → Instr → Prop} {f : FunDecl} {t : Template} {slots : Nat}
    {block : List Instr} {inner : Slots} (h : f.Placed ctx t slots block inner)
    (hentry : ∀ k < f.arity, ∀ slot, P k (.store slot))
    (hbody : t.Each P f.arity (f.arity + block.length))
    (hending : ∀ k, f.arity + block.length ≤ k → P k (.push .nil) ∧ P k .ret) :
    t.Each P 0 t.code.size := by
  have hstores : t.Each P 0 (0 + ((List.range f.arity).map Instr.store).length) := by
    refine .of_mem h.entry fun pc i _ hlt hi => ?_
    obtain ⟨slot, -, rfl⟩ := List.mem_map.1 hi
    exact hentry pc (by simpa using hlt) slot
  rw [List.length_map, List.length_range, Nat.zero_add] at hstores
  rcases h.ending with hsize | ⟨hend, hsize⟩
  · rw [hsize]
    exact hstores.append hbody
  · rw [hsize]
    refine (hstores.append hbody).append (.of_mem hend fun pc i hle _ hi => ?_)
    simp only [List.mem_cons, List.not_mem_nil, or_false] at hi
    rcases hi with rfl | rfl
    · exact (hending pc hle).1
    · exact (hending pc hle).2

theorem Compiled.Made.placed {f : FunDecl} {t : Template} {slots : Nat} {last : Emitter}
    (h : Compiled.Made ctx f ⟨t, slots⟩ last) :
    ∃ block inner, f.Placed ctx t slots block inner := by
  obtain ⟨block, inner, hblock, hcode, hused⟩ := FunDecl.code_eq_some.1 h.code
  have hlen := congrArg List.length hcode
  have hall := t.has_all
  rw [hcode, List.append_assoc, Template.has_append, Template.has_append, List.length_map,
    List.length_range, Nat.zero_add] at hall
  obtain ⟨hentry, hbody, hend⟩ := hall
  refine ⟨block, inner, hblock, hused.symm, hentry, hbody, ?_⟩
  by_cases hret : f.endsInReturn
  · refine Or.inl ?_
    simpa [hret] using hlen
  · refine Or.inr ⟨?_, ?_⟩
    · simpa [hret] using hend
    · simpa [hret, Nat.add_assoc] using hlen

theorem FunDecl.compile_ok {f : FunDecl} {s t : Emitter} {c : Compiled}
    (h : f.compile ctx s = .ok c t) :
    c.Made ctx f t := by
  rw [FunDecl.compile] at h
  obtain ⟨_, a, hset, h⟩ := EmitM.bind_ok.1 h
  obtain ⟨_, b, hopen, h⟩ := EmitM.bind_ok.1 h
  obtain ⟨_, d, hparams, h⟩ := EmitM.bind_ok.1 h
  obtain ⟨_, e, hbody, h⟩ := EmitM.bind_ok.1 h
  obtain ⟨_, g, hclose, h⟩ := EmitM.bind_ok.1 h
  rw [EmitM.get_bind_ok] at h
  obtain ⟨rfl, rfl⟩ := EmitM.pure_ok.1 h
  have hopenTrail : Emitter.Trail ctx.arity? a b := Relation.ReflTransGen.single (.openScope hopen)
  have hcloseTrail : Emitter.Trail ctx.arity? e g :=
    Relation.ReflTransGen.single (.closeScope hclose)
  cases hset
  cases hopen
  obtain ⟨hdcode, hdview, hdscopes, hdtrail⟩ := emitParams_ok ctx.arity? f.params (by simp) hparams
  rw [FunDecl.emitBody] at hbody
  obtain ⟨_, i, hstmts, hend⟩ := EmitM.bind_ok.1 hbody
  obtain ⟨body, slots, hcode, hlays, hbal⟩ := emitStmts_lays f.body hdscopes hstmts
  have hdcode' : d.code.toList = (List.range f.arity).map Instr.store := by
    rw [hdcode, List.range_eq_range']
    rfl
  have hdsize : d.code.size = f.arity := by
    have hlen := congrArg List.length hdcode'
    simpa using hlen
  have hdview' : d.view = paramSlots f.params := hdview
  rw [hdsize, hdview'] at hcode
  have hlast : Emitter.Appends ctx.arity? i
      (if f.endsInReturn then [] else [.push .nil, .ret]) e := by
    by_cases hret : f.endsInReturn
    · simp only [hret, if_true] at hend ⊢
      obtain ⟨-, rfl⟩ := EmitM.pure_ok.1 hend
      exact .refl i
    · simp only [hret] at hend ⊢
      exact EmitM.emitAll_appends hend
  have hg : g.code = e.code ∧ g.slots = e.slots ∧ g.peak = e.peak := by
    rw [EmitM.closeScope, EmitM.get_bind_ok] at hclose
    cases hscopes : e.scopes with
    | nil =>
      simp only [hscopes] at hclose
      exact absurd hclose EmitM.not_giveUp_ok
    | cons scope outer =>
      simp only [hscopes] at hclose
      cases hclose
      exact ⟨rfl, rfl, rfl⟩
  refine ⟨?_, rfl, rfl, hbal, ?_, rfl, rfl⟩
  · rw [FunDecl.code, hcode]
    have hslots : g.slots = slots.used := by
      rw [hg.2.1, hlast.slots, ← hlays.view]
      rfl
    simp only [Option.bind_eq_bind, Option.bind_some, hg.1, hlast.code, hlays.code, hdcode', hslots]
  · exact ((((hopenTrail.trans hdtrail).trans hlays.trail).trans hlast.trail).trans hcloseTrail)

end Functions

/-! ## Registered functions -/

namespace Code

/-- The place of a name holds a function of that name. -/
def WellFormed (code : Code) : Prop :=
  ∀ name place, code.places[name]? = some place →
    ∃ t : Template, code.templates[place]? = some t ∧ t.name = name

theorem empty_wellFormed : empty.WellFormed := by
  intro name place h
  cases h

theorem places_insert (code : Code) (name other : String) (place : Nat) :
    (code.places.insert name place)[other]? =
      if name = other then some place else code.places[other]? := by
  rw [Std.TreeMap.getElem?_insert]
  simp only [Std.LawfulEqCmp.compare_eq_iff_eq]

theorem add_wellFormed {code : Code} (h : code.WellFormed) (t : Template) :
    (code.add t).WellFormed := by
  intro name place hplace
  rw [add] at hplace ⊢
  cases ht : code.places[t.name]? with
  | some own =>
    simp only [ht] at hplace ⊢
    obtain ⟨u, hu, hname⟩ := h name place hplace
    have hlt := (Array.getElem?_eq_some_iff.1 hu).1
    rw [Array.getElem?_setIfInBounds]
    by_cases heq : own = place
    · subst heq
      obtain ⟨v, hv, hvname⟩ := h t.name own ht
      refine ⟨t, by simp [hlt], ?_⟩
      rw [hu, Option.some.injEq] at hv
      rw [← hvname, ← hv, hname]
    · exact ⟨u, by simp [heq, hu], hname⟩
  | none =>
    simp only [ht, places_insert] at hplace ⊢
    by_cases heq : t.name = name
    · rw [if_pos heq, Option.some.injEq] at hplace
      exact ⟨t, by simp [← hplace], heq⟩
    · rw [if_neg heq] at hplace
      obtain ⟨u, hu, hname⟩ := h name place hplace
      have hlt := (Array.getElem?_eq_some_iff.1 hu).1
      refine ⟨u, ?_, hname⟩
      rw [Array.getElem?_push, if_neg (by omega)]
      exact hu

/-- Whatever is registered, and in whatever order, each name leads to a function of that name. -/
theorem ofTemplates_wellFormed (ts : List Template) : (ofTemplates ts).WellFormed := by
  have hfold : ∀ code : Code, code.WellFormed → (ts.foldl add code).WellFormed := by
    induction ts with
    | nil => exact fun _ hcode => hcode
    | cons t ts ih => exact fun code hcode => ih (code.add t) (add_wellFormed hcode t)
  exact hfold empty empty_wellFormed

theorem WellFormed.name_of_get? {code : Code} (h : code.WellFormed) {name : String} {t : Template}
    (ht : code.get? name = some t) : t.name = name := by
  obtain ⟨place, hplace, htemplate⟩ := Option.bind_eq_some_iff.1 ht
  obtain ⟨u, hu, hname⟩ := h name place hplace
  rw [hu, Option.some.injEq] at htemplate
  rw [← htemplate, hname]

/-- A registered function is found under its name, and the other names stand for what
they stood for. -/
theorem get?_add {code : Code} (h : code.WellFormed) (t : Template) (name : String) :
    (code.add t).get? name = if t.name = name then some t else code.get? name := by
  rw [get?, add]
  cases ht : code.places[t.name]? with
  | some own =>
    obtain ⟨u, hu, huname⟩ := h t.name own ht
    have hlt := (Array.getElem?_eq_some_iff.1 hu).1
    by_cases heq : t.name = name
    · rw [if_pos heq]
      rw [heq] at ht
      simp only [ht, Option.bind_some]
      rw [Array.getElem?_setIfInBounds]
      simp [hlt]
    · rw [if_neg heq, get?]
      simp only []
      cases hother : code.places[name]? with
      | none => rfl
      | some place =>
        obtain ⟨v, hv, hvname⟩ := h name place hother
        have hne : own ≠ place := by
          intro hsame
          rw [hsame, hv, Option.some.injEq] at hu
          exact heq (by rw [← huname, ← hu, hvname])
        simp only [Option.bind_some]
        rw [Array.getElem?_setIfInBounds, if_neg hne]
  | none =>
    simp only [places_insert]
    by_cases heq : t.name = name
    · simp [heq]
    · rw [if_neg heq, if_neg heq, get?]
      cases hother : code.places[name]? with
      | none => rfl
      | some place =>
        obtain ⟨v, hv, -⟩ := h name place hother
        have hlt := (Array.getElem?_eq_some_iff.1 hv).1
        simp only [Option.bind_some]
        rw [Array.getElem?_push, if_neg (by omega)]

end Code

/-- The template is the code of a function. -/
def FunDecl.CompilesTo (ctx : Context) (f : FunDecl) (t : Template) : Prop :=
  ∃ c s s', f.compile ctx s = .ok c s' ∧ c.template = t

theorem FunDecl.CompilesTo.made {ctx : Context} {f : FunDecl} {t : Template}
    (h : f.CompilesTo ctx t) :
    ∃ slots last, Compiled.Made ctx f ⟨t, slots⟩ last := by
  obtain ⟨⟨_, slots⟩, s, last, hc, rfl⟩ := h
  exact ⟨slots, last, FunDecl.compile_ok hc⟩

theorem Context.get?_compileInto {ctx : Context} {fs : List FunDecl} {s : Emitter}
    {code code' : Code} (hcode : code.WellFormed) (h : ctx.compileInto fs s code = .ok code')
    (name : String) :
    (∃ f t, fs.reverse.find? (fun f => f.name = name) = some f ∧ f.CompilesTo ctx t ∧
      code'.get? name = some t) ∨
    (fs.reverse.find? (fun f => f.name = name) = none ∧ code'.get? name = code.get? name) := by
  induction fs generalizing s code with
  | nil =>
    cases h
    exact Or.inr ⟨rfl, rfl⟩
  | cons f fs ih =>
    rw [Context.compileInto] at h
    cases hf : f.compile ctx s with
    | error e r =>
      simp only [hf] at h
      cases h
    | ok c r =>
      simp only [hf] at h
      have hname := (FunDecl.compile_ok hf).name
      rcases ih (Code.add_wellFormed hcode c.template) h with ⟨g, t, hg, hgt, hget⟩ | ⟨hnone, hget⟩
      · refine Or.inl ⟨g, t, ?_, hgt, hget⟩
        rw [List.reverse_cons, List.find?_append, hg]
        rfl
      · rw [Code.get?_add hcode, hname] at hget
        rw [List.reverse_cons, List.find?_append, hnone]
        by_cases heq : f.name = name
        · rw [if_pos heq] at hget
          exact Or.inl ⟨f, c.template, by simp [heq], ⟨c, s, r, hf, rfl⟩, hget⟩
        · rw [if_neg heq] at hget
          exact Or.inr ⟨by simp [heq], hget⟩

/-- All functions are compiled, also those that another of the same name replaces. -/
theorem Context.compile_of_compileInto {ctx : Context} {fs : List FunDecl} {s : Emitter}
    {code code' : Code} (h : ctx.compileInto fs s code = .ok code') {f : FunDecl} (hf : f ∈ fs) :
    ∃ s t slots last, f.compile ctx s = .ok ⟨t, slots⟩ last := by
  induction fs generalizing s code with
  | nil => cases hf
  | cons g fs ih =>
    rw [Context.compileInto] at h
    cases hg : g.compile ctx s with
    | error e r =>
      simp only [hg] at h
      cases h
    | ok c r =>
      simp only [hg] at h
      rcases List.mem_cons.1 hf with rfl | hf
      · exact ⟨s, c.template, c.slots, r, hg⟩
      · exact ih h hf

/-- A program that compiles registers the last function of each name, and nothing else. -/
theorem Program.get?_compile {p : Program} {code : Code} (h : p.compile = .ok code)
    (name : String) :
    (∃ f t, p.function? name = some f ∧ f.CompilesTo p.context t ∧ code.get? name = some t) ∨
    (p.function? name = none ∧ code.get? name = none) :=
  Context.get?_compileInto Code.empty_wellFormed h name

theorem Program.name_of_function? {p : Program} {name : String} {f : FunDecl}
    (h : p.function? name = some f) : f.name = name := by
  have hname := List.find?_some h
  simpa using hname

/-- A registered function is the code of the last function of its name. -/
theorem Program.exists_of_get?_compile {p : Program} {code : Code} (h : p.compile = .ok code)
    {name : String} {t : Template} (ht : code.get? name = some t) :
    ∃ f, p.function? name = some f ∧ f.CompilesTo p.context t := by
  rcases Program.get?_compile h name with ⟨f, u, hf, hfu, hget⟩ | ⟨-, hget⟩
  · rw [hget, Option.some.injEq] at ht
    exact ⟨f, hf, ht ▸ hfu⟩
  · rw [hget] at ht
    cases ht

end FrameMachine
