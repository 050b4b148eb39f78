import FrameMachine.Evaluation.Basic
import FrameMachine.Proofs.Compiler.Placement
import FrameMachine.Proofs.Machine.Runs

/-!
# Runs that realise evaluations

A run realises the result of an evaluation (`Realises`) if it comes to a state that fits the
value, or ends with the same fault or overflow in the same world. If the evaluation used up its
bound, the run is still at work after as many steps as the bound says: every round of a loop and
every call takes at least one step. This is what lets a run that ends be turned back into an
evaluation that ends.

The effects from which evaluation is built are realised by single instructions.
-/

set_option autoImplicit false

namespace FrameMachine

/-- The run from a state realises the result of an evaluation. A value and the world are to
fit the state that the run comes to. A name without meaning or a wrong number of arguments is
never realised. -/
def Realises (code : Code) (maxDepth : Option Nat) (bound : Nat) {α : Type}
    (fits : α → World → State → Prop) (s : State) : EStateM.Result Stop World α → Prop
  | .ok a w => ∃ n, fits a w (s.run code maxDepth n)
  | .error (.fault fault function) w =>
    ∃ n pc i, s.run code maxDepth n = .halted (.error (.fault ⟨fault, function, pc, i⟩)) w
  | .error (.stackOverflow depth limit) w =>
    ∃ n, s.run code maxDepth n = .halted (.error (.stackOverflow depth limit)) w
  | .error .outOfFuel _ => (s.run code maxDepth bound).isHalted = false
  | .error (.unresolved _) _ => False
  | .error .wrongCount _ => False

namespace Realises

variable {code : Code} {maxDepth : Option Nat} {α β : Type} {fits : α → World → State → Prop}
  {fits' : β → World → State → Prop}

/-- A run that realises a result for a bound does so for every smaller bound. -/
theorem mono {m n : Nat} {s : State} {r : EStateM.Result Stop World α}
    (h : Realises code maxDepth n fits s r) (hmn : m ≤ n) : Realises code maxDepth m fits s r := by
  cases r with
  | ok a w => exact h
  | error stop w =>
    cases stop with
    | outOfFuel => exact State.not_isHalted_run_of_le hmn h
    | fault fault function => exact h
    | stackOverflow depth limit => exact h
    | unresolved name => exact h
    | wrongCount => exact h

/-- Steps in front of a run count toward the bound. -/
theorem after_run {m n : Nat} {s : State} {r : EStateM.Result Stop World α}
    (h : Realises code maxDepth n fits (s.run code maxDepth m) r) :
    Realises code maxDepth (m + n) fits s r := by
  cases r with
  | ok a w =>
    obtain ⟨k, hk⟩ := h
    exact ⟨m + k, by rwa [State.run_add]⟩
  | error stop w =>
    cases stop with
    | fault fault function =>
      obtain ⟨k, pc, i, hk⟩ := h
      exact ⟨m + k, pc, i, by rwa [State.run_add]⟩
    | stackOverflow depth limit =>
      obtain ⟨k, hk⟩ := h
      exact ⟨m + k, by rwa [State.run_add]⟩
    | outOfFuel =>
      change (s.run code maxDepth (m + n)).isHalted = false
      rw [State.run_add]
      exact h
    | unresolved name => exact h
    | wrongCount => exact h

/-- One step in front of a run. -/
theorem after_step {n : Nat} {s t : State} {r : EStateM.Result Stop World α}
    (hs : s.step code maxDepth = t) (h : Realises code maxDepth n fits t r) :
    Realises code maxDepth (n + 1) fits s r := by
  rw [Nat.add_comm]
  exact after_run (m := 1) (by rwa [State.run, State.run, hs])

theorem ok {n : Nat} {s : State} {a : α} {w : World} (h : fits a w s) :
    Realises code maxDepth n fits s (.ok a w) := ⟨0, h⟩

/-- Evaluations one after the other are realised by runs one after the other. -/
theorem bind {n : Nat} {s : State} {x : EvalM α} {f : α → EvalM β} {w : World}
    (hx : Realises code maxDepth n fits s (x w))
    (hf : ∀ a w' s', fits a w' s' → Realises code maxDepth n fits' s' (f a w')) :
    Realises code maxDepth n fits' s ((x >>= f) w) := by
  change Realises code maxDepth n fits' s (EStateM.bind x f w)
  rw [EStateM.bind]
  cases hr : x w with
  | ok a w' =>
    rw [hr] at hx
    obtain ⟨k, hk⟩ := hx
    exact (after_run (hf a w' _ hk)).mono (Nat.le_add_left n k)
  | error stop w' =>
    rw [hr] at hx
    cases stop with
    | fault fault function => exact hx
    | stackOverflow depth limit => exact hx
    | outOfFuel => exact hx
    | unresolved name => exact hx
    | wrongCount => exact hx

/-- What is done with the value takes no step. -/
theorem map {n : Nat} {s : State} {x : EvalM α} {f : α → β} {w : World}
    (hx : Realises code maxDepth n fits s (x w))
    (hf : ∀ a w' s', fits a w' s' → fits' (f a) w' s') :
    Realises code maxDepth n fits' s ((do let a ← x; pure (f a)) w) :=
  hx.bind fun a w' s' h => .ok (hf a w' s' h)

end Realises

/-! ## Single instructions -/

/-- A run in which an activation of the function is at work. -/
def Template.point (t : Template) (callers : Array Frame) (pc : Nat) (locals : Locals)
    (stack : List Value) (w : World) : State := .running ⟨⟨t, pc, locals, stack⟩, callers, w⟩

/-- The activation has come to a place with one value more on the stack. -/
def Template.Pushed (t : Template) (callers : Array Frame) (pc : Nat) (locals : Locals)
    (stack : List Value) (v : Value) (w : World) (s : State) : Prop :=
  s = t.point callers pc locals (v :: stack) w

/-- The activation has come to a place without a value. -/
def Template.Arrived (t : Template) (callers : Array Frame) (pc : Nat) (locals : Locals)
    (stack : List Value) (_ : Unit) (w : World) (s : State) : Prop :=
  s = t.point callers pc locals stack w

section Instructions

variable {code : Code} {maxDepth : Option Nat} {n : Nat} {t : Template} {callers : Array Frame}
  {pc : Nat} {i : Instr}
  {L : Locals} {S S' : List Value} {w w' : World}

theorem Template.step_point (hi : t.code[pc]? = some i) :
    (t.point callers pc L S w).step code maxDepth =
      Machine.perform maxDepth t.name pc i callers (i.execute code ⟨t, pc + 1, L, S⟩ w) := by
  have hf : Frame.fetch? ⟨t, pc, L, S⟩ = some i := hi
  rw [point, State.step, Machine.step, hf]

/-- An instruction is executed and the activation goes on. -/
theorem Template.step_next {f : Frame} (hi : t.code[pc]? = some i)
    (he : i.execute code ⟨t, pc + 1, L, S⟩ w = .next f w') :
    (t.point callers pc L S w).step code maxDepth = .running ⟨f, callers, w'⟩ := by
  rw [step_point hi, he, Machine.perform]

namespace Realises

variable {α : Type} {fits : α → World → State → Prop}

theorem next {a : α} {f : Frame} (hi : t.code[pc]? = some i)
    (he : i.execute code ⟨t, pc + 1, L, S⟩ w = .next f w')
    (hfits : fits a w' (.running ⟨f, callers, w'⟩)) :
    Realises code maxDepth n fits (t.point callers pc L S w) (.ok a w') := by
  refine ⟨1, ?_⟩
  rw [State.run, State.run, Template.step_next hi he]
  exact hfits

theorem fail {fault : Fault} (hi : t.code[pc]? = some i)
    (he : i.execute code ⟨t, pc + 1, L, S⟩ w = .fail fault w') :
    Realises code maxDepth n fits (t.point callers pc L S w) (.error (.fault fault t.name) w') := by
  refine ⟨1, pc, i, ?_⟩
  rw [State.run, State.run, Template.step_point hi, he, Machine.perform]

/-- An instruction that puts the result of an operation on the stack. -/
theorem pushing {result : Except Fault Value} (hi : t.code[pc]? = some i)
    (he : i.execute code ⟨t, pc + 1, L, S⟩ w = .pushing ⟨t, pc + 1, L, S'⟩ w' result) :
    Realises code maxDepth n (t.Pushed callers (pc + 1) L S') (t.point callers pc L S w)
      (EvalM.lift t.name result w') := by
  cases result with
  | ok v => exact next hi he rfl
  | error fault => exact fail hi he

/-- An instruction that does an operation without a result. -/
theorem after {result : Except Fault Unit} (hi : t.code[pc]? = some i)
    (he : i.execute code ⟨t, pc + 1, L, S⟩ w = .after ⟨t, pc + 1, L, S'⟩ w' result) :
    Realises code maxDepth n (t.Arrived callers (pc + 1) L S') (t.point callers pc L S w)
      (EvalM.lift t.name result w') := by
  cases result with
  | ok v => exact next hi he rfl
  | error fault => exact fail hi he

theorem getField {v : Value} {field : String} (hi : t.code[pc]? = some (.getField field)) :
    Realises code maxDepth n (t.Pushed callers (pc + 1) L S) (t.point callers pc L (v :: S) w)
      (EvalM.getField t.name v field w) := by
  have he : EvalM.getField t.name v field w =
      EvalM.lift t.name (v.object.bind (w.heap.get · field)) w := by
    rw [EvalM.getField]
    cases v.object with
    | ok id => rfl
    | error fault => rfl
  rw [he]
  exact pushing hi rfl

/-- A path of fields is followed by one instruction for each field. -/
theorem followPath {fields : List String} {v : Value} (h : t.Has pc (fields.map .getField)) :
    Realises code maxDepth n (t.Pushed callers (pc + fields.length) L S)
      (t.point callers pc L (v :: S) w) (EvalM.followPath t.name fields v w) := by
  induction fields generalizing pc v w with
  | nil => exact .ok rfl
  | cons field fields ih =>
    rw [List.map_cons] at h
    rw [EvalM.followPath, List.length_cons, Nat.add_comm fields.length, ← Nat.add_assoc]
    refine (getField h.head).bind ?_
    rintro next w' s rfl
    exact ih h.tail

/-- An instruction that changes the heap at an object. -/
theorem change {v : Value} (operation : Heap → Nat → Except Fault Unit × Heap)
    (hi : t.code[pc]? = some i)
    (he : i.execute code ⟨t, pc + 1, L, S⟩ w = Frame.change ⟨t, pc + 1, L, S'⟩ w v operation) :
    Realises code maxDepth n (t.Arrived callers (pc + 1) L S') (t.point callers pc L S w)
      ((do
        let id ← EvalM.lift t.name v.object
        let (result, heap) := operation (← get).heap id
        modify fun w => { w with heap := heap }
        EvalM.lift t.name result : EvalM Unit) w) := by
  rw [Frame.change] at he
  cases hv : v.object with
  | error fault =>
    rw [hv] at he
    exact fail hi he
  | ok id =>
    rw [hv] at he
    exact after hi he

theorem setField {v value : Value} {field : String} (hi : t.code[pc]? = some (.setField field)) :
    Realises code maxDepth n (t.Arrived callers (pc + 1) L S)
      (t.point callers pc L (value :: v :: S) w)
      (EvalM.setField t.name v field value w) := change (Heap.set · · field value) hi rfl

theorem free {v : Value} (hi : t.code[pc]? = some .free) :
    Realises code maxDepth n (t.Arrived callers (pc + 1) L S) (t.point callers pc L (v :: S) w)
      (EvalM.free t.name v w) := change Heap.free hi rfl

theorem alloc {fields : List String} (hi : t.code[pc]? = some (.alloc fields)) :
    Realises code maxDepth n (t.Pushed callers (pc + 1) L S) (t.point callers pc L S w)
      (EvalM.alloc fields w) := next hi rfl rfl

theorem write {v : Value} (hi : t.code[pc]? = some .write) :
    Realises code maxDepth n (t.Arrived callers (pc + 1) L S) (t.point callers pc L (v :: S) w)
      (EvalM.write t.name v w) := after hi rfl

theorem readLine (hi : t.code[pc]? = some .read) :
    Realises code maxDepth n (t.Pushed callers (pc + 1) L S) (t.point callers pc L S w)
      (EvalM.readLine t.name w) := pushing hi rfl

/-- A conditional jump takes the truth of a condition to one of two places. -/
theorem truth {v : Value} {target : Nat} (hi : t.code[pc]? = some (.jumpUnless target)) :
    Realises code maxDepth n (fun b w s => s = t.point callers (if b then pc + 1 else target) L S w)
      (t.point callers pc L (v :: S) w) (EvalM.truth t.name v w) := by
  cases v with
  | bool b =>
    cases b with
    | true => exact next hi rfl rfl
    | false => exact next hi rfl rfl
  | nil => exact fail hi rfl
  | int value => exact fail hi rfl
  | double value => exact fail hi rfl
  | char value => exact fail hi rfl
  | str value => exact fail hi rfl
  | ref id => exact fail hi rfl

end Realises

end Instructions

end FrameMachine
