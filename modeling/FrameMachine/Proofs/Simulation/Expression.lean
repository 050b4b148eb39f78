import FrameMachine.Evaluation.Expression
import FrameMachine.Proofs.Compiler.Calls
import FrameMachine.Proofs.Simulation.Basic
import FrameMachine.Proofs.Simulation.Variables

/-!
# The code of an expression realises its value

The run of the code of an expression leaves the value of the expression on top of the stack and
everything below it and the slots as they were (`Expr.eval_realises`). Calls of declared functions
are taken to be realised (`Setting.Realised`); that they are follows once whole functions are.
-/

set_option autoImplicit false

namespace FrameMachine

/-- The activation of a function can realise what evaluation depends on: the calls of
declared functions. -/
structure Setting.Realised (s : Setting) (code : Code) (maxDepth : Option Nat) (n : Nat)
    (t : Template) (callers : Array Frame) : Prop where
  function : s.function = t.name
  types : s.context.TypesFit
  call : ∀ {name : String} {arguments : List Value} {pc : Nat} (L : Locals) (S : List Value)
    (w : World), t.code[pc]? = some (.call name) → s.context.arity? name = some arguments.length →
    Realises code maxDepth n (t.Pushed callers (pc + 1) L S)
      (t.point callers pc L (arguments.reverse ++ S) w) (s.call name arguments w)

section Expressions

variable {code : Code} {maxDepth : Option Nat} {n : Nat} {t : Template} {callers : Array Frame}
  {L : Locals}

/-- The code of a built-in function realises it. -/
theorem Builtin.apply_realises {builtin : Builtin} {arguments : List Value} {pc : Nat}
    {S : List Value} {w : World} (hlen : arguments.length = builtin.arity)
    (hc : t.Has pc builtin.code) :
    Realises code maxDepth n (t.Pushed callers (pc + builtin.code.length) L S)
      (t.point callers pc L (arguments.reverse ++ S) w) (builtin.apply t.name arguments w) := by
  have hone : builtin.arity = 1 → ∃ v, arguments = [v] :=
    fun h => List.length_eq_one_iff.1 (hlen.trans h)
  cases builtin with
  | print =>
    obtain ⟨v, rfl⟩ := hone rfl
    refine (Realises.write hc.head).bind ?_
    rintro - w' s rfl
    exact .next hc.tail.head rfl rfl
  | read =>
    obtain rfl := List.length_eq_zero_iff.1 hlen
    exact .readLine hc.head
  | get =>
    obtain ⟨index, string, rfl⟩ := List.length_eq_two.1 hlen
    exact .pushing hc.head rfl
  | length | stoi | dtoi | stod | itod | itos | dtos =>
    obtain ⟨v, rfl⟩ := hone rfl
    exact .pushing hc.head rfl

variable {s : Setting} {vars : Bindings} {σ : Slots}

/-- The code of a call realises it once the arguments are on the stack. -/
theorem Setting.callNamed_realises (hs : s.Realised code maxDepth n t callers) {function : String}
    {arguments : List Value} {call : List Instr} {pc : Nat} {S : List Value} {w : World}
    (hcall : callCode s.context function = some call)
    (hlen : s.context.parameters? function = some arguments.length) (hc : t.Has pc call) :
    Realises code maxDepth n (t.Pushed callers (pc + call.length) L S)
      (t.point callers pc L (arguments.reverse ++ S) w) (s.callNamed function arguments w) := by
  rw [callCode] at hcall
  rw [Context.parameters?] at hlen
  rw [callNamed]
  cases hb : Builtin.ofName? function with
  | some builtin =>
    rw [hb] at hcall hlen
    cases hcall
    rw [hs.function]
    exact Builtin.apply_realises (Option.some.inj hlen).symm hc
  | none =>
    rw [hb] at hcall hlen
    obtain ⟨arity, -, rfl⟩ := Option.map_eq_some_iff.1 hcall
    exact hs.call L S w hc.head hlen

/-- A variable is read from its slot. -/
theorem Realises.lookup (hvars : Agree L vars σ.visible) {name : String} {slot pc : Nat}
    {S : List Value} {w : World} (hslot : σ.slot? name = some slot)
    (hi : t.code[pc]? = some (.load slot)) :
    Realises code maxDepth n (t.Pushed callers (pc + 1) L S) (t.point callers pc L S w)
      (EvalM.lookup vars name w) := by
  obtain ⟨v, hv, hget⟩ := hvars.lookup hslot
  rw [EvalM.lookup, hv]
  refine .next (f := ⟨t, pc + 1, L, v :: S⟩) hi ?_ rfl
  rw [Instr.execute, Frame.load, hget]
  rfl

/-- The making of new objects is realised by its code. -/
def RealisesNew (code : Code) (maxDepth : Option Nat) (n : Nat) (t : Template)
    (callers : Array Frame) (L : Locals) (newCode : String → Option (List Instr))
    (new : String → EvalM Value) : Prop :=
  ∀ {type : String} {c : List Instr} {pc : Nat} (S : List Value) (w : World),
    newCode type = some c → t.Has pc c →
    Realises code maxDepth n (t.Pushed callers (pc + c.length) L S) (t.point callers pc L S w)
      (new type w)

mutual

theorem Expr.evalWith_realises (hs : s.Realised code maxDepth n t callers)
    (hvars : Agree L vars σ.visible) {newCode : String → Option (List Instr)}
    {new : String → EvalM Value} (hnew : RealisesNew code maxDepth n t callers L newCode new) :
    ∀ (e : Expr) {c : List Instr} {pc : Nat} (S : List Value) (w : World),
      e.codeWith s.context σ newCode = some c → e.callsFit s.context = true → t.Has pc c →
      Realises code maxDepth n (t.Pushed callers (pc + c.length) L S) (t.point callers pc L S w)
        (e.evalWith s vars new w)
  | .literal value, c, pc, S, w, h, _, hc => by
    obtain rfl := Expr.codeWith_literal.1 h
    rw [Expr.evalWith]
    exact .next hc.head rfl rfl
  | .path base fields, c, pc, S, w, h, _, hc => by
    obtain ⟨slot, hslot, rfl⟩ := Expr.codeWith_path.1 h
    rw [Expr.evalWith, hs.function, List.length_cons, List.length_map, Nat.add_comm fields.length,
      ← Nat.add_assoc]
    refine (Realises.lookup hvars hslot hc.head).bind ?_
    rintro v w' _ rfl
    exact .followPath hc.tail
  | .new type, c, pc, S, w, h, _, hc => by
    rw [Expr.evalWith]
    exact hnew S w (Expr.codeWith_new.1 h) hc
  | .call function arguments, c, pc, S, w, h, hfit, hc => by
    obtain ⟨before, hbefore, call, hcall, rfl⟩ := Expr.codeWith_call.1 h
    rw [Expr.callsFit, Bool.and_eq_true, decide_eq_true_eq] at hfit
    rw [Expr.evalWith, List.length_append, ← Nat.add_assoc]
    refine (evalArguments_realises hs hvars hnew arguments S w hbefore hfit.2 hc.left).bind ?_
    rintro values w' _ ⟨hlen, rfl⟩
    exact s.callNamed_realises hs hcall (hlen ▸ hfit.1) hc.right
  | .neg operand, c, pc, S, w, h, hfit, hc => by
    obtain ⟨before, hbefore, rfl⟩ := Expr.codeWith_neg.1 h
    rw [Expr.callsFit] at hfit
    rw [Expr.evalWith, hs.function, List.length_append, ← Nat.add_assoc]
    refine (Expr.evalWith_realises hs hvars hnew operand S w hbefore hfit hc.left).bind ?_
    rintro v w' _ rfl
    exact .pushing hc.right.head rfl
  | .not operand, c, pc, S, w, h, hfit, hc => by
    obtain ⟨before, hbefore, rfl⟩ := Expr.codeWith_not.1 h
    rw [Expr.callsFit] at hfit
    rw [Expr.evalWith, hs.function, List.length_append, ← Nat.add_assoc]
    refine (Expr.evalWith_realises hs hvars hnew operand S w hbefore hfit hc.left).bind ?_
    rintro v w' _ rfl
    exact .pushing hc.right.head rfl
  | .binary op left right, c, pc, S, w, h, hfit, hc => by
    obtain ⟨leftCode, hleft, rightCode, hright, rfl⟩ := Expr.codeWith_binary.1 h
    rw [Expr.callsFit, Bool.and_eq_true] at hfit
    rw [Expr.evalWith, hs.function, List.length_append, List.length_append, ← Nat.add_assoc,
      ← Nat.add_assoc]
    refine (Expr.evalWith_realises hs hvars hnew left S w hleft hfit.1 hc.left.left).bind ?_
    rintro l w' _ rfl
    refine (Expr.evalWith_realises hs hvars hnew right (l :: S) w' hright hfit.2 hc.left.right).bind
      ?_
    rintro r w'' _ rfl
    have hop := hc.right.head
    rw [List.length_append, ← Nat.add_assoc] at hop
    exact .pushing hop rfl

theorem evalArguments_realises (hs : s.Realised code maxDepth n t callers)
    (hvars : Agree L vars σ.visible) {newCode : String → Option (List Instr)}
    {new : String → EvalM Value} (hnew : RealisesNew code maxDepth n t callers L newCode new) :
    ∀ (es : List Expr) {c : List Instr} {pc : Nat} (S : List Value) (w : World),
      argumentsCode s.context σ newCode es = some c → callsFitAll s.context es = true → t.Has pc c →
      Realises code maxDepth n
        (fun vs w' s' => vs.length = es.length ∧
          s' = t.point callers (pc + c.length) L (vs.reverse ++ S) w')
        (t.point callers pc L S w) (evalArguments s vars new es w)
  | [], c, pc, S, w, h, _, hc => by
    obtain rfl := argumentsCode_nil.1 h
    rw [evalArguments]
    exact .ok ⟨rfl, rfl⟩
  | e :: es, c, pc, S, w, h, hfit, hc => by
    obtain ⟨first, hfirst, rest, hrest, rfl⟩ := argumentsCode_cons.1 h
    rw [callsFitAll, Bool.and_eq_true] at hfit
    rw [evalArguments, List.length_append, ← Nat.add_assoc]
    refine (Expr.evalWith_realises hs hvars hnew e S w hfirst hfit.1 hc.left).bind ?_
    rintro v w' _ rfl
    refine (evalArguments_realises hs hvars hnew es (v :: S) w' hrest hfit.2 hc.right).map ?_
    rintro vs w'' _ ⟨hlen, rfl⟩
    refine ⟨congrArg Nat.succ hlen, ?_⟩
    rw [List.reverse_cons, List.append_assoc]
    rfl

end

/-- The code that fills the fields of an object realises it. The object stays on top of the
stack. -/
theorem fillFields_realises (hs : s.Realised code maxDepth n t callers)
    {exprCode : Expr → Option (List Instr)} {expression : Expr → EvalM Value} {object : Value}
    (hexpr : ∀ (e : Expr) {c : List Instr} {pc : Nat} (S : List Value) (w : World),
      exprCode e = some c → e.callsFit s.context = true → t.Has pc c →
      Realises code maxDepth n (t.Pushed callers (pc + c.length) L S) (t.point callers pc L S w)
      (expression e w))
    (fields : List Field) {c : List Instr} {pc : Nat} (S : List Value) (w : World)
    (h : fieldsCode exprCode fields = some c)
    (hfit : ∀ field ∈ fields, field.init.callsFit s.context = true) (hc : t.Has pc c) :
    Realises code maxDepth n (t.Arrived callers (pc + c.length) L (object :: S))
      (t.point callers pc L (object :: S) w) (fillFields s object expression fields w) := by
  induction fields generalizing c pc w with
  | nil =>
    obtain rfl := fieldsCode_nil.1 h
    exact .ok rfl
  | cons field fields ih =>
    obtain ⟨init, hinit, rest, hrest, rfl⟩ := fieldsCode_cons.1 h
    rw [List.cons_append] at hc
    have hdup : (t.point callers pc L (object :: S) w).step code maxDepth =
        t.point callers (pc + 1) L (object :: object :: S) w := Template.step_next hc.head rfl
    have hend : pc + (Instr.dup :: init ++ Instr.setField field.name :: rest).length =
        pc + 1 + init.length + 1 + rest.length := by
      simp only [List.cons_append, List.length_cons, List.length_append]
      omega
    rw [fillFields, hend]
    refine (Realises.after_step hdup ?_).mono (Nat.le_succ n)
    refine (hexpr field.init (object :: object :: S) w hinit
      (hfit field List.mem_cons_self) hc.tail.left).bind ?_
    rintro v w' _ rfl
    rw [hs.function]
    refine (Realises.setField hc.tail.right.head).bind ?_
    rintro - w'' _ rfl
    exact ih w'' hrest (fun field hfield => hfit field (List.mem_cons_of_mem _ hfield))
      hc.tail.right.tail

theorem evalNew_realises (hs : s.Realised code maxDepth n t callers)
    (hvars : Agree L vars σ.visible) :
    ∀ depth : Nat, RealisesNew code maxDepth n t callers L (newCode s.context σ depth)
      (evalNew s vars depth)
  | 0, type, c, pc, S, w, h, _ => absurd h newCode_zero
  | depth + 1, type, c, pc, S, w, h, hc => by
    obtain ⟨decl, hdecl, fill, hfill, rfl⟩ := newCode_succ.1 h
    have hfields := List.all_eq_true.1 (hs.types type decl hdecl)
    rw [evalNew, hdecl, List.length_cons, Nat.add_comm fill.length, ← Nat.add_assoc]
    refine (Realises.alloc hc.head).bind ?_
    rintro object w' _ rfl
    refine Realises.map (fillFields_realises hs ?_ decl.fields S w' hfill hfields hc.tail) ?_
    · intro e c pc S w
      exact Expr.evalWith_realises hs hvars (evalNew_realises hs hvars depth) e S w
    · rintro - w'' _ rfl
      exact rfl

/-- The code of an expression realises its value. -/
theorem Expr.eval_realises (hs : s.Realised code maxDepth n t callers)
    (hvars : Agree L vars σ.visible) {e : Expr} {c : List Instr} {pc : Nat} (S : List Value)
    (w : World) (h : e.code s.context σ = some c) (hfit : e.callsFit s.context = true)
    (hc : t.Has pc c) :
    Realises code maxDepth n (t.Pushed callers (pc + c.length) L S) (t.point callers pc L S w)
      (e.eval s vars w) :=
  Expr.evalWith_realises hs hvars (evalNew_realises hs hvars s.context.nesting) e S w h hfit hc

end Expressions

end FrameMachine
