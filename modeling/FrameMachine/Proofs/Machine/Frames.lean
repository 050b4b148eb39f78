import FrameMachine.Proofs.Machine.Effects
import FrameMachine.Proofs.Machine.Runs

/-!
# Invariants of activations

A run only ever does three things that do not end it: the activation at work executes an
instruction, it calls a function and waits, or it ends and the innermost of those that wait goes on
(`Machine.Moves`). A property of the activation at work, together with one of those that wait,
therefore holds in every state that a run comes to, if it survives these three
(`Code.Invariant.reaches`). A fault is excluded if no activation with the property can cause it
(`Code.Invariant.not_endsWith`). The same can be said of one activation, from a state on in which it
is at work, as long as it does not return (`Machine.Amid.step`).
-/

set_option autoImplicit false

namespace FrameMachine

/-- The activation with its instruction counter behind the next instruction. -/
def Frame.advance (f : Frame) : Frame := { f with pc := f.pc + 1 }

/-- What a step of a run can do without ending the run. -/
inductive Machine.Moves (code : Code) (m : Machine) : Machine → Prop
  | next {i : Instr} {g : Frame} {w : World} : m.top.fetch? = some i → i.Turns m.top.advance g →
      Moves code m ⟨g, m.callers, w⟩
  | call {name : String} {t : Template} : m.top.fetch? = some (.call name) →
      code.get? name = some t → t.arity ≤ m.top.stack.length →
      Moves code m ⟨.enter t (m.top.stack.take t.arity).reverse,
        m.callers.push { m.top.advance with stack := m.top.stack.drop t.arity }, m.world⟩
  | resume {caller : Frame} {v : Value} : (∀ i, m.top.fetch? = some i → i = .ret) →
      m.callers.back? = some caller → Moves code m ⟨caller.push v, m.callers.pop, m.world⟩

/-- A run from the start of the program comes to a state. -/
def Code.Reaches (code : Code) (maxDepth : Option Nat) (w : World) (m : Machine) : Prop :=
  ∃ start n, code.start w = .ok start ∧ (State.running start).run code maxDepth n = .running m

/-- A run starts with one activation, that of `main`, and with an empty heap. -/
theorem Code.start_eq_ok {code : Code} {w : World} {start : Machine}
    (h : code.start w = .ok start) :
    ∃ t, code.get? "main" = some t ∧ t.arity = 0 ∧
      start = { top := .enter t [], world := { w with heap := .empty } } := by
  rw [Code.start] at h
  cases ht : code.get? "main" with
  | none =>
    rw [ht] at h
    cases h
  | some t =>
    rw [ht] at h
    by_cases harity : t.arity = 0
    · simp only [if_pos harity] at h
      cases h
      exact ⟨t, rfl, harity, rfl⟩
    · simp only [if_neg harity] at h
      cases h

/-- The state to which a run from the start of the program has come after a number of steps, if it
starts at all. -/
def Code.after (code : Code) (maxDepth : Option Nat) (w : World) (n : Nat) : Option State :=
  (code.start w).toOption.map fun start => (State.running start).run code maxDepth n

theorem Code.after_eq_some {code : Code} {maxDepth : Option Nat} {w : World} {n : Nat} {s : State} :
    code.after maxDepth w n = some s ↔
      ∃ start, code.start w = .ok start ∧ (State.running start).run code maxDepth n = s := by
  rw [after]
  cases code.start w with
  | error e => simp [Except.toOption]
  | ok start => simp [Except.toOption]

/-- What is tested of the state after a number of steps holds of the run. -/
theorem Code.run_of_after {code : Code} {maxDepth : Option Nat} {w : World} {n : Nat}
    {start : Machine} {test : State → Bool} (hs : code.start w = .ok start)
    (h : (code.after maxDepth w n).any test = true) :
    test ((State.running start).run code maxDepth n) = true := by
  rw [after, hs] at h
  exact h

section Steps

variable {code : Code} {maxDepth : Option Nat} {m m' : Machine} {w : World}

theorem Machine.step_eq {i : Instr} (hi : m.top.fetch? = some i) :
    m.step code maxDepth = perform maxDepth m.top.template.name m.top.pc i m.callers
      (i.execute code m.top.advance m.world) := by
  rw [step]
  simp only [hi]
  rfl

theorem Machine.finish_eq_running {callers : Array Frame} {v : Value}
    (h : finish callers w v = .running m') :
    ∃ caller, callers.back? = some caller ∧ m' = ⟨caller.push v, callers.pop, w⟩ := by
  rw [finish] at h
  cases hc : callers.back? with
  | none =>
    rw [hc] at h
    cases h
  | some caller =>
    rw [hc] at h
    cases h
    exact ⟨caller, rfl, rfl⟩

/-- A call goes on in a new activation or ends the run at its limit. -/
theorem Machine.perform_call (maxDepth : Option Nat) (function : String) (pc : Nat) (i : Instr)
    (callers : Array Frame) (callee : Template) (arguments : List Value) (caller : Frame)
    (w : World) :
    perform maxDepth function pc i callers (.call callee arguments caller w) =
        .running ⟨.enter callee arguments, callers.push caller, w⟩ ∨
      ∃ limit, perform maxDepth function pc i callers (.call callee arguments caller w) =
        .halted (.error (.stackOverflow (callers.size + 2) limit)) w := by
  rw [perform]
  cases exceeded? maxDepth (callers.size + 2) with
  | none => exact Or.inl rfl
  | some limit => exact Or.inr ⟨limit, rfl⟩

theorem Machine.step_moves (h : m.step code maxDepth = .running m') : m.Moves code m' := by
  cases hi : m.top.fetch? with
  | none =>
    have hstep : m.step code maxDepth = finish m.callers m.world .nil := by
      rw [step]
      simp only [hi]
    rw [hstep] at h
    obtain ⟨caller, hcaller, rfl⟩ := finish_eq_running h
    exact .resume (by simp [hi]) hcaller
  | some i =>
    rw [step_eq hi] at h
    have hacts := i.execute_acts code m.top.advance m.world
    generalize i.execute code m.top.advance m.world = effect at h hacts
    cases hacts with
    | next hturns =>
      cases h
      exact .next hi hturns
    | call hname ht hle =>
      subst hname
      rcases perform_call .. with hgo | ⟨limit, hover⟩
      · rw [hgo] at h
        cases h
        exact .call hi ht hle
      · rw [hover] at h
        cases h
    | ret hname hs =>
      obtain ⟨caller, hcaller, rfl⟩ := finish_eq_running h
      exact .resume (by simp [hi, hname]) hcaller
    | lacks | unset | unknown | tooFew | fault => cases h

theorem Machine.finish_ne_fault {callers : Array Frame} {v : Value} {w w' : World}
    {e : LocatedFault} :
    finish callers w v ≠ .halted (.error (.fault e)) w' := by
  rw [finish]
  cases callers.back? with
  | none => simp
  | some caller => simp

/-- A run that ends with a fault does so at the instruction that the fault names, and this
instruction fails. -/
theorem Machine.step_eq_fault {e : LocatedFault}
    (h : m.step code maxDepth = .halted (.error (.fault e)) w) :
    m.top.template.name = e.function ∧ m.top.pc = e.pc ∧ m.top.fetch? = some e.instruction ∧
      e.instruction.execute code m.top.advance m.world = .fail e.fault w := by
  cases hi : m.top.fetch? with
  | none =>
    rw [step] at h
    simp only [hi] at h
    exact absurd h finish_ne_fault
  | some i =>
    rw [step_eq hi] at h
    cases heffect : i.execute code m.top.advance m.world with
    | next g w' =>
      rw [heffect] at h
      cases h
    | call callee arguments caller w' =>
      rw [heffect] at h
      rcases perform_call .. with hgo | ⟨limit, hover⟩
      · rw [hgo] at h
        cases h
      · rw [hover] at h
        cases h
    | ret v w' =>
      rw [heffect] at h
      exact absurd h finish_ne_fault
    | fail fault w' =>
      rw [heffect] at h
      cases h
      exact ⟨rfl, rfl, rfl, heffect⟩

/-- What holds at the start and survives every step holds in every state that a run comes to. -/
theorem Code.Reaches.induct {P : Machine → Prop} (hm : code.Reaches maxDepth w m)
    (hstart : ∀ start, code.start w = .ok start → P start)
    (hstep : ∀ m m', code.Reaches maxDepth w m → P m → m.Moves code m' → P m') : P m := by
  obtain ⟨start, n, hs, hrun⟩ := hm
  induction n generalizing m with
  | zero =>
    cases hrun
    exact hstart _ hs
  | succ n ih =>
    rw [State.run_add] at hrun
    cases hn : (State.running start).run code maxDepth n with
    | halted result w' =>
      rw [hn, State.run_halted] at hrun
      cases hrun
    | running middle =>
      rw [hn] at hrun
      exact hstep middle m ⟨start, n, hs, hn⟩ (ih hn) (Machine.step_moves hrun)

/-- A program that ends with a fault comes to a state in which the activation at work
can cause it. -/
theorem Code.EndsWith.fault {fault : Fault} {function : String} {w' : World}
    (h : code.EndsWith maxDepth w (.fault fault function w')) :
    ∃ m i, code.Reaches maxDepth w m ∧ m.top.template.name = function ∧ m.top.fetch? = some i ∧
      i.Acts code m.top.advance m.world (.fail fault w') := by
  rw [Code.EndsWith] at h
  cases hs : code.start w with
  | error e =>
    rw [hs] at h
    cases h
  | ok start =>
    rw [hs] at h
    obtain ⟨n, hn⟩ := h
    obtain ⟨e, hrun, rfl, rfl⟩ := State.outcome?_eq_fault hn
    obtain ⟨k, m, hk, hstep⟩ := State.exists_last_step hrun
    obtain ⟨hname, -, hi, hexecute⟩ := Machine.step_eq_fault hstep
    have hacts := e.instruction.execute_acts code m.top.advance m.world
    rw [hexecute] at hacts
    exact ⟨m, e.instruction, ⟨start, k, hs, hk⟩, hname, hi, hacts⟩

end Steps

/-- A property of the activation at work and one of those that wait, which survive
whatever a run does. -/
structure Code.Invariant (code : Code) (atWork waiting : Frame → Prop) : Prop where
  enter : ∀ {name : String} {t : Template} {arguments : List Value}, code.get? name = some t →
    arguments.length = t.arity → atWork (.enter t arguments)
  next : ∀ {f g : Frame} {i : Instr}, atWork f → f.fetch? = some i → i.Turns f.advance g → atWork g
  call : ∀ {f : Frame} {name : String} {t : Template}, atWork f → f.fetch? = some (.call name) →
    code.get? name = some t → t.arity ≤ f.stack.length →
    waiting { f.advance with stack := f.stack.drop t.arity }
  resume : ∀ {f : Frame} (v : Value), waiting f → atWork (f.push v)

namespace Code.Invariant

variable {code : Code} {maxDepth : Option Nat} {w : World} {atWork waiting : Frame → Prop}

/-- The properties hold in every state that a run comes to. -/
theorem reaches (h : code.Invariant atWork waiting) {m : Machine} (hm : code.Reaches maxDepth w m) :
    atWork m.top ∧ ∀ f ∈ m.callers, waiting f := by
  refine hm.induct (P := fun m => atWork m.top ∧ ∀ f ∈ m.callers, waiting f) ?_ ?_
  · intro start hs
    obtain ⟨t, ht, harity, rfl⟩ := Code.start_eq_ok hs
    exact ⟨h.enter ht harity.symm, by simp⟩
  · rintro m m' - ⟨htop, hcallers⟩ hmoves
    cases hmoves with
    | next hi hturns => exact ⟨h.next htop hi hturns, hcallers⟩
    | @call name t hi ht hle =>
      refine ⟨h.enter ht ?_, ?_⟩
      · rw [List.length_reverse, List.length_take, Nat.min_eq_left hle]
      · intro f hf
        rcases Array.mem_push.1 hf with hf | rfl
        · exact hcallers f hf
        · exact h.call htop hi ht hle
    | @resume caller v _ hcaller =>
      refine ⟨h.resume v (hcallers caller (Array.mem_of_back? hcaller)), ?_⟩
      intro f hf
      rw [← Array.mem_toList_iff, Array.toList_pop] at hf
      exact hcallers f (Array.mem_toList_iff.1 (List.dropLast_subset _ hf))

/-- No run ends in a function with a fault that no activation of the function with the
property can cause. -/
theorem not_endsWith (h : code.Invariant atWork waiting) {fault : Fault} {function : String}
    {w' : World}
    (hcause : ∀ f i w, atWork f → f.template.name = function → f.fetch? = some i →
      ¬ i.Acts code f.advance w (.fail fault w')) :
    ¬ code.EndsWith maxDepth w (.fault fault function w') := by
  intro hend
  obtain ⟨m, i, hm, hname, hi, hacts⟩ := hend.fault
  exact hcause m.top i m.world (h.reaches hm).1 hname hi hacts

end Code.Invariant

/-! ## One activation in a run -/

/-- The activation at work of an earlier state is at work and has the first property, or it waits
for a call and has the second one. -/
inductive Machine.Amid (atWork waiting : Frame → Prop) (m m' : Machine) : Prop
  | own : m'.callers = m.callers → atWork m'.top → Amid atWork waiting m m'
  | called (caller : Frame) (deeper : List Frame) :
      m'.callers.toList = m.callers.toList ++ caller :: deeper →
      waiting caller → Amid atWork waiting m m'

section Amid

variable {atWork waiting : Frame → Prop} {code : Code} {m m' m'' : Machine}

/-- A step, provided that the activation does not return. -/
theorem Machine.Amid.step (h : m.Amid atWork waiting m') (hmoves : m'.Moves code m'')
    (hnext : ∀ i g, m'.callers = m.callers → atWork m'.top → m'.top.fetch? = some i →
      i.Turns m'.top.advance g → atWork g)
    (hcall : ∀ name t, m'.callers = m.callers → atWork m'.top → m'.top.fetch? = some (.call name) →
      code.get? name = some t → waiting { m'.top.advance with stack := m'.top.stack.drop t.arity })
    (hresume : ∀ f v, waiting f → atWork (f.push v))
    (hstays : m'.callers = m.callers → atWork m'.top → ∃ i, m'.top.fetch? = some i ∧ i ≠ .ret) :
    m.Amid atWork waiting m'' := by
  cases h with
  | own hcallers hwork =>
    cases hmoves with
    | next hi hturns => exact .own hcallers (hnext _ _ hcallers hwork hi hturns)
    | @call name t hi ht hle =>
      refine .called _ [] ?_ (hcall name t hcallers hwork hi ht)
      rw [Array.toList_push, hcallers]
    | resume hret hback =>
      obtain ⟨i, hi, hne⟩ := hstays hcallers hwork
      exact absurd (hret i hi) hne
  | called caller deeper hcallers hwaiting =>
    cases hmoves with
    | next hi hturns => exact .called caller deeper hcallers hwaiting
    | @call name t hi ht hle =>
      refine .called caller (deeper ++ [{ m'.top.advance with stack := m'.top.stack.drop t.arity }])
        ?_ hwaiting
      rw [Array.toList_push, hcallers, List.append_assoc, List.cons_append]
    | @resume inner v hret hback =>
      rw [← Array.getLast?_toList, hcallers] at hback
      rcases List.eq_nil_or_concat deeper with rfl | ⟨between, last, rfl⟩
      · -- the function that ends was called in the piece itself
        rw [List.getLast?_concat, Option.some.injEq] at hback
        subst hback
        refine .own ?_ (hresume caller v hwaiting)
        apply Array.toList_inj.1
        rw [Array.toList_pop, hcallers, List.dropLast_concat]
      · refine .called caller between ?_ hwaiting
        rw [Array.toList_pop, hcallers, List.concat_eq_append, ← List.cons_append,
          ← List.append_assoc, List.dropLast_concat]

/-- In a call there are more activations than before. -/
theorem Machine.Amid.own_of_size (h : m.Amid atWork waiting m')
    (hsize : m'.callers.size ≤ m.callers.size) :
    m'.callers = m.callers ∧ atWork m'.top := by
  cases h with
  | own hcallers hwork => exact ⟨hcallers, hwork⟩
  | called caller deeper hcallers _ =>
    have hlength := congrArg List.length hcallers
    simp only [Array.length_toList, List.length_append, List.length_cons] at hlength
    omega

end Amid

end FrameMachine
