import FrameMachine.Compiler.Layout
import FrameMachine.Proofs.Compiler.Height
import Mathlib.Logic.Relation

/-!
# What the emitter appends for an expression

An action of the emitter that succeeds and does not touch the scopes appends a piece of code
(`Emitter.Appends`). For an expression this is the code by construction (`Expr.emit_appends`). The
height that the emitter tracks grows by the growth of the code, and the emitter gets there by
primitive actions only (`Emitter.Trail`).
-/

set_option autoImplicit false

namespace FrameMachine

/-! ## Actions one after the other -/

namespace EmitM

theorem bind_ok {α β : Type} {x : EmitM α} {f : α → EmitM β} {s t : Emitter} {b : β} :
    (x >>= f) s = .ok b t ↔ ∃ a r, x s = .ok a r ∧ f a r = .ok b t := by
  change EStateM.bind x f s = .ok b t ↔ _
  rw [EStateM.bind]
  cases x s with
  | ok a r => simp
  | error e r => simp

theorem pure_ok {α : Type} {a b : α} {s t : Emitter} :
    (pure a : EmitM α) s = .ok b t ↔ a = b ∧ s = t := by
  change EStateM.Result.ok a s = .ok b t ↔ _
  simp

theorem get_bind_ok {β : Type} {f : Emitter → EmitM β} {s t : Emitter} {b : β} :
    ((get : EmitM Emitter) >>= f) s = .ok b t ↔ f s s = .ok b t := Iff.rfl

theorem not_reject_ok {α : Type} {e : CompileError} {a : α} {s t : Emitter} :
    ¬ reject e s = .ok a t := by
  intro h
  cases h

theorem not_giveUp_ok {α : Type} {d : Defect} {a : α} {s t : Emitter} :
    ¬ giveUp d s = .ok a t := by
  intro h
  cases h

/-- An instruction is appended if the stack is high enough for it. -/
theorem append_ok {i : Instr} {pops pushes : Nat} {s t : Emitter} :
    append i pops pushes s = .ok () t ↔ pops ≤ s.depth ∧
      t = { s with
        code := s.code.push i
        depth := s.depth - pops + pushes
        peak := max s.peak (s.depth - pops + pushes) } := by
  rw [append, get_bind_ok]
  by_cases hp : s.depth < pops
  · simp only [if_pos hp]
    constructor
    · intro h
      exact absurd h not_giveUp_ok
    · intro h
      omega
  · simp only [if_neg hp]
    constructor
    · intro h
      cases h
      exact ⟨by omega, rfl⟩
    · rintro ⟨-, rfl⟩
      rfl

end EmitM

/-! ## Primitive actions -/

/-- The variables that the emitter has in scope, and the slots given out. -/
def Emitter.view (s : Emitter) : Slots := ⟨s.scopes.flatten, s.slots⟩

/-- The emitter does one primitive action: it appends an instruction with its effect, gives a slot
to a variable, opens or closes a scope, or patches a jump. -/
inductive Emitter.Step (arity? : String → Option Nat) : Emitter → Emitter → Prop
  | append {s t : Emitter} {i : Instr} {pops pushes : Nat} :
      i.effect? arity? = some (pops, pushes) → EmitM.append i pops pushes s = .ok () t →
        Step arity? s t
  | allocate {s t : Emitter} {name : String} {slot : Nat} :
      EmitM.allocate name s = .ok slot t → Step arity? s t
  | openScope {s t : Emitter} : EmitM.openScope s = .ok () t → Step arity? s t
  | closeScope {s t : Emitter} : EmitM.closeScope s = .ok () t → Step arity? s t
  | patch {s t : Emitter} {target place : Nat} : EmitM.patch target place s = .ok () t →
      Step arity? s t

/-- The emitter gets from one state to another by primitive actions. -/
abbrev Emitter.Trail (arity? : String → Option Nat) : Emitter → Emitter → Prop :=
  Relation.ReflTransGen (Emitter.Step arity?)

/-- The emitter has appended a piece of code and left the scopes as they were. -/
structure Emitter.Appends (arity? : String → Option Nat) (s : Emitter) (added : List Instr)
    (t : Emitter) : Prop where
  code : t.code.toList = s.code.toList ++ added
  slots : t.slots = s.slots
  scopes : t.scopes = s.scopes
  depth : (t.depth : Int) = s.depth + growth arity? added
  trail : Emitter.Trail arity? s t

section Emission

variable {arity? : String → Option Nat}

theorem Emitter.Appends.refl (s : Emitter) : Emitter.Appends arity? s [] s where
  code := by simp
  slots := rfl
  scopes := rfl
  depth := by simp
  trail := .refl

theorem Emitter.Appends.trans {s t u : Emitter} {a b : List Instr}
    (h : Emitter.Appends arity? s a t) (h' : Emitter.Appends arity? t b u) :
    Emitter.Appends arity? s (a ++ b) u where
  code := by rw [h'.code, h.code, List.append_assoc]
  slots := h'.slots.trans h.slots
  scopes := h'.scopes.trans h.scopes
  depth := by rw [h'.depth, h.depth, growth_append, Int.add_assoc]
  trail := h.trail.trans h'.trail

theorem Emitter.Appends.view {s t : Emitter} {code : List Instr}
    (h : Emitter.Appends arity? s code t) :
    t.view = s.view := by
  rw [Emitter.view, Emitter.view, h.scopes, h.slots]

theorem EmitM.append_appends {i : Instr} {pops pushes : Nat} {s t : Emitter}
    (he : i.effect? arity? = some (pops, pushes)) (h : EmitM.append i pops pushes s = .ok () t) :
    Emitter.Appends arity? s [i] t := by
  have htrail : Emitter.Trail arity? s t := Relation.ReflTransGen.single (.append he h)
  obtain ⟨hp, rfl⟩ := EmitM.append_ok.1 h
  refine ⟨by simp, rfl, rfl, ?_, htrail⟩
  rw [growth_cons, growth_nil, Instr.growth_of_effect? he]
  simp only []
  omega

theorem EmitM.emit_appends {i : Instr} {s t : Emitter} (h : EmitM.emit i s = .ok () t) :
    Emitter.Appends arity? s [i] t := by
  rw [EmitM.emit] at h
  cases he : i.stackEffect? with
  | none =>
    rw [he] at h
    exact absurd h EmitM.not_giveUp_ok
  | some effect =>
    rw [he] at h
    exact EmitM.append_appends (Instr.effect?_of_stackEffect? he) h

theorem EmitM.emitAll_appends {code : List Instr} {s t : Emitter}
    (h : EmitM.emitAll code s = .ok () t) :
    Emitter.Appends arity? s code t := by
  induction code generalizing s with
  | nil =>
    obtain ⟨-, rfl⟩ := EmitM.pure_ok.1 h
    exact .refl s
  | cons i code ih =>
    obtain ⟨_, r, hi, hrest⟩ := EmitM.bind_ok.1 h
    exact (EmitM.emit_appends hi).trans (ih hrest)

/-- Seeking a variable from scope to scope is seeking it in all scopes at once. -/
theorem findSome?_lookup_eq (scopes : List Scope) (name : String) :
    (scopes.findSome? fun scope => scope.lookup name) = scopes.flatten.lookup name := by
  induction scopes with
  | nil => rfl
  | cons scope scopes ih =>
    rw [List.findSome?_cons, List.flatten_cons, List.lookup_append, ← ih]
    cases scope.lookup name <;> rfl

theorem EmitM.lookup_ok {name : String} {slot : Nat} {s t : Emitter}
    (h : EmitM.lookup name s = .ok slot t) :
    t = s ∧ s.view.slot? name = some slot := by
  rw [EmitM.lookup, EmitM.get_bind_ok] at h
  rw [findSome?_lookup_eq] at h
  cases hl : s.scopes.flatten.lookup name with
  | none =>
    rw [hl] at h
    exact absurd h EmitM.not_reject_ok
  | some found =>
    rw [hl] at h
    obtain ⟨rfl, rfl⟩ := EmitM.pure_ok.1 h
    exact ⟨rfl, hl⟩

/-- What needs the slot of a variable is done in the same state. -/
theorem EmitM.lookup_bind_ok {β : Type} {name : String} {f : Nat → EmitM β} {s t : Emitter} {b : β}
    (h : (EmitM.lookup name >>= f) s = .ok b t) :
    ∃ slot, s.view.slot? name = some slot ∧ f slot s = .ok b t := by
  obtain ⟨slot, r, hl, hf⟩ := EmitM.bind_ok.1 h
  obtain ⟨rfl, hslot⟩ := EmitM.lookup_ok hl
  exact ⟨slot, hslot, hf⟩

end Emission

/-! ## Expressions -/

section Expressions

variable {ctx : Context}

theorem emitCallOf_appends {function : String} {s t : Emitter}
    (h : emitCallOf ctx function s = .ok () t) :
    ∃ code, callCode ctx function = some code ∧ Emitter.Appends ctx.arity? s code t := by
  rw [emitCallOf] at h
  rw [callCode]
  cases hb : Builtin.ofName? function with
  | some builtin =>
    rw [hb] at h
    exact ⟨builtin.code, rfl, EmitM.emitAll_appends h⟩
  | none =>
    rw [hb] at h
    cases ha : ctx.arity? function with
    | none =>
      simp only [ha] at h
      exact absurd h EmitM.not_reject_ok
    | some arity =>
      simp only [ha] at h
      refine ⟨[.call function], rfl, EmitM.append_appends ?_ h⟩
      rw [Instr.effect?_call, ha]
      rfl

/-- New objects are emitted as their code says, as long as the variables in scope are
the given ones. -/
def EmitsNew (ctx : Context) (slots : Slots) (new : String → EmitM Unit)
    (newCode : String → Option (List Instr)) : Prop :=
  ∀ type s t, s.view = slots → new type s = .ok () t →
    ∃ code, newCode type = some code ∧ Emitter.Appends ctx.arity? s code t

mutual

theorem Expr.emitWith_appends {slots : Slots} {new : String → EmitM Unit}
    {newCode : String → Option (List Instr)} (hnew : EmitsNew ctx slots new newCode) :
    ∀ (e : Expr) {s t : Emitter}, s.view = slots → e.emitWith ctx new s = .ok () t →
      ∃ code, e.codeWith ctx slots newCode = some code ∧ Emitter.Appends ctx.arity? s code t
  | .literal value, s, t, _, h => by
    rw [Expr.emitWith] at h
    exact ⟨[.push value], by rw [Expr.codeWith], EmitM.emit_appends h⟩
  | .path base fields, s, t, hs, h => by
    rw [Expr.emitWith] at h
    obtain ⟨slot, hslot, hrest⟩ := EmitM.lookup_bind_ok h
    obtain ⟨_, r, hload, hfields⟩ := EmitM.bind_ok.1 hrest
    rw [hs] at hslot
    refine ⟨.load slot :: fields.map .getField, ?_, ?_⟩
    · rw [Expr.codeWith, hslot]
      rfl
    · exact (EmitM.emit_appends hload).trans (EmitM.emitAll_appends hfields)
  | .new type, s, t, hs, h => by
    rw [Expr.emitWith] at h
    obtain ⟨code, hcode, happ⟩ := hnew type s t hs h
    exact ⟨code, by rw [Expr.codeWith, hcode], happ⟩
  | .call function arguments, s, t, hs, h => by
    rw [Expr.emitWith] at h
    obtain ⟨_, r, hargs, hcall⟩ := EmitM.bind_ok.1 h
    obtain ⟨before, hbefore, happ⟩ := emitArguments_appends hnew arguments hs hargs
    obtain ⟨call, hcallCode, happ'⟩ := emitCallOf_appends hcall
    refine ⟨before ++ call, ?_, happ.trans happ'⟩
    rw [Expr.codeWith, hbefore, hcallCode]
    rfl
  | .neg operand, s, t, hs, h => by
    rw [Expr.emitWith] at h
    obtain ⟨_, r, hop, hneg⟩ := EmitM.bind_ok.1 h
    obtain ⟨code, hcode, happ⟩ := Expr.emitWith_appends hnew operand hs hop
    refine ⟨code ++ [.unary .neg], ?_, happ.trans (EmitM.emit_appends hneg)⟩
    rw [Expr.codeWith, hcode]
    rfl
  | .not operand, s, t, hs, h => by
    rw [Expr.emitWith] at h
    obtain ⟨_, r, hop, hnot⟩ := EmitM.bind_ok.1 h
    obtain ⟨code, hcode, happ⟩ := Expr.emitWith_appends hnew operand hs hop
    refine ⟨code ++ [.unary .not], ?_, happ.trans (EmitM.emit_appends hnot)⟩
    rw [Expr.codeWith, hcode]
    rfl
  | .binary op left right, s, t, hs, h => by
    rw [Expr.emitWith] at h
    obtain ⟨_, r, hleft, hrest⟩ := EmitM.bind_ok.1 h
    obtain ⟨_, q, hright, hop⟩ := EmitM.bind_ok.1 hrest
    obtain ⟨leftCode, hl, happ⟩ := Expr.emitWith_appends hnew left hs hleft
    obtain ⟨rightCode, hr, happ'⟩ := Expr.emitWith_appends hnew right (happ.view.trans hs) hright
    refine ⟨leftCode ++ rightCode ++ [.binary op], ?_,
      (happ.trans happ').trans (EmitM.emit_appends hop)⟩
    rw [Expr.codeWith, hl, hr]
    rfl

theorem emitArguments_appends {slots : Slots} {new : String → EmitM Unit}
    {newCode : String → Option (List Instr)} (hnew : EmitsNew ctx slots new newCode) :
    ∀ (es : List Expr) {s t : Emitter}, s.view = slots → emitArguments ctx new es s = .ok () t →
      ∃ code, argumentsCode ctx slots newCode es = some code ∧ Emitter.Appends ctx.arity? s code t
  | [], s, t, _, h => by
    rw [emitArguments] at h
    obtain ⟨-, rfl⟩ := EmitM.pure_ok.1 h
    exact ⟨[], by rw [argumentsCode], .refl s⟩
  | e :: es, s, t, hs, h => by
    rw [emitArguments] at h
    obtain ⟨_, r, he, hes⟩ := EmitM.bind_ok.1 h
    obtain ⟨code, hcode, happ⟩ := Expr.emitWith_appends hnew e hs he
    obtain ⟨rest, hrest, happ'⟩ := emitArguments_appends hnew es (happ.view.trans hs) hes
    refine ⟨code ++ rest, ?_, happ.trans happ'⟩
    rw [argumentsCode, hcode, hrest]
    rfl

end

theorem emitFields_appends {slots : Slots} {emitExpr : Expr → EmitM Unit}
    {exprCode : Expr → Option (List Instr)}
    (hexpr : ∀ e s t, s.view = slots → emitExpr e s = .ok () t →
      ∃ code, exprCode e = some code ∧ Emitter.Appends ctx.arity? s code t) :
    ∀ (fields : List Field) {s t : Emitter}, s.view = slots → emitFields emitExpr fields s = .ok
    () t →
      ∃ code, fieldsCode exprCode fields = some code ∧ Emitter.Appends ctx.arity? s code t := by
  intro fields
  induction fields with
  | nil =>
    intro s t _ h
    obtain ⟨-, rfl⟩ := EmitM.pure_ok.1 h
    exact ⟨[], rfl, .refl s⟩
  | cons field fields ih =>
    intro s t hs h
    rw [emitFields] at h
    obtain ⟨_, r, hdup, h⟩ := EmitM.bind_ok.1 h
    obtain ⟨_, q, hinit, h⟩ := EmitM.bind_ok.1 h
    obtain ⟨_, p, hset, hfields⟩ := EmitM.bind_ok.1 h
    have hdup' : Emitter.Appends ctx.arity? s [.dup] r := EmitM.emit_appends hdup
    obtain ⟨code, hcode, happ⟩ := hexpr field.init r q (hdup'.view.trans hs) hinit
    have hset' : Emitter.Appends ctx.arity? q [.setField field.name] p := EmitM.emit_appends hset
    have hview : p.view = slots := by rw [hset'.view, happ.view, hdup'.view, hs]
    obtain ⟨rest, hrest, happ'⟩ := ih hview hfields
    refine ⟨.dup :: code ++ .setField field.name :: rest, ?_, ?_⟩
    · rw [fieldsCode, hcode, hrest]
      rfl
    · have hall := ((hdup'.trans happ).trans hset').trans happ'
      simpa using hall

theorem emitNew_emitsNew (slots : Slots) : ∀ depth : Nat,
    EmitsNew ctx slots (emitNew ctx depth) (newCode ctx slots depth)
  | 0 => by
    intro type s t _ h
    rw [emitNew] at h
    cases hd : ctx.type? type with
    | none =>
      simp only [hd] at h
      exact absurd h EmitM.not_reject_ok
    | some decl =>
      simp only [hd] at h
      exact absurd h EmitM.not_giveUp_ok
  | depth + 1 => by
    intro type s t hs h
    rw [emitNew] at h
    cases hd : ctx.type? type with
    | none =>
      simp only [hd] at h
      exact absurd h EmitM.not_reject_ok
    | some decl =>
      simp only [hd] at h
      obtain ⟨_, r, halloc, hfields⟩ := EmitM.bind_ok.1 h
      have happ : Emitter.Appends ctx.arity? s [.alloc (decl.fields.map Field.name)] r :=
        EmitM.emit_appends halloc
      have hexpr : ∀ e s t, s.view = slots → Expr.emitWith ctx (emitNew ctx depth) e s = .ok () t →
          ∃ code, Expr.codeWith ctx slots (newCode ctx slots depth) e = some code ∧
            Emitter.Appends ctx.arity? s code t :=
        fun e _ _ hs h => Expr.emitWith_appends (emitNew_emitsNew slots depth) e hs h
      obtain ⟨fill, hfill, happ'⟩ :=
        emitFields_appends hexpr decl.fields (happ.view.trans hs) hfields
      refine ⟨.alloc (decl.fields.map Field.name) :: fill, ?_, happ.trans happ'⟩
      rw [newCode, hd]
      simp only [Option.bind_eq_bind, Option.bind_some, hfill]

/-- The emitter appends the code of an expression. -/
theorem Expr.emit_appends (e : Expr) {s t : Emitter} (h : e.emit ctx s = .ok () t) :
    ∃ code, e.code ctx s.view = some code ∧ Emitter.Appends ctx.arity? s code t :=
  Expr.emitWith_appends (emitNew_emitsNew s.view ctx.nesting) e rfl h

end Expressions

end FrameMachine
