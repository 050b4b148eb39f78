import FrameMachine.Machine.Run

/-!
# Runs and their pieces

A run of `m + n` steps is a run of `m` steps and then one of `n` steps, and a run that has ended
stays as it is. The end of a program (`Outcome`) leaves out the place of a fault inside its
function, which the tree of the program does not know.
-/

set_option autoImplicit false

namespace FrameMachine

namespace State

variable {code : Code} {maxDepth : Option Nat}

theorem run_add (m n : Nat) (s : State) :
    run code maxDepth (m + n) s = run code maxDepth n (run code maxDepth m s) := by
  induction m generalizing s with
  | zero => rw [Nat.zero_add, run]
  | succ m ih => rw [Nat.succ_add, run, run, ih]

/-- A run that has ended stays as it is. -/
@[simp] theorem run_halted (n : Nat) (result : Except RunError Value) (w : World) :
    run code maxDepth n (.halted result w) = .halted result w := by
  induction n with
  | zero => rfl
  | succ n ih => rw [run, step, ih]

theorem eq_running_of_not_isHalted {s : State} (h : s.isHalted = false) : ∃ m, s = .running m := by
  cases s with
  | running m => exact ⟨m, rfl⟩
  | halted result w => cases h

/-- The run is at work, in a state that passes a test. -/
def atWork (test : Machine → Bool) : State → Bool
  | .running m => test m
  | .halted _ _ => false

theorem atWork_eq_true {test : Machine → Bool} {s : State} (h : s.atWork test = true) :
    ∃ m, s = .running m ∧ test m = true := by
  cases s with
  | running m => exact ⟨m, rfl, h⟩
  | halted result w => cases h

/-- More steps change nothing once the run has ended. -/
theorem run_of_le {m n : Nat} {s : State} {result : Except RunError Value} {w : World}
    (h : run code maxDepth m s = .halted result w) (hmn : m ≤ n) :
    run code maxDepth n s = .halted result w := by
  obtain ⟨k, rfl⟩ := Nat.exists_eq_add_of_le hmn
  rw [run_add, h, run_halted]

/-- A run that is still at work was so all the time. -/
theorem not_isHalted_run_of_le {m n : Nat} {s : State} (hmn : m ≤ n)
    (h : (run code maxDepth n s).isHalted = false) : (run code maxDepth m s).isHalted = false := by
  cases hm : run code maxDepth m s with
  | running machine => rfl
  | halted result w =>
    rw [run_of_le hm hmn] at h
    cases h

/-- A run ends in one way only. -/
theorem halted_unique {m n : Nat} {s : State} {result result' : Except RunError Value}
    {w w' : World} (h : run code maxDepth m s = .halted result w)
    (h' : run code maxDepth n s = .halted result' w') :
    result = result' ∧ w = w' := by
  have hm := run_of_le h (Nat.le_max_left m n)
  rw [run_of_le h' (Nat.le_max_right m n)] at hm
  cases hm
  exact ⟨rfl, rfl⟩

/-- A run that has ended was at work right before. -/
theorem exists_last_step {start : Machine} {n : Nat} {result : Except RunError Value} {w : World}
    (h : run code maxDepth n (.running start) = .halted result w) :
    ∃ k m, run code maxDepth k (.running start) = .running m ∧
      m.step code maxDepth = .halted result w := by
  induction n with
  | zero => cases h
  | succ n ih =>
    cases hn : run code maxDepth n (.running start) with
    | running m =>
      rw [run_add, hn] at h
      exact ⟨n, m, hn, h⟩
    | halted result' w' =>
      rw [run_add, hn, run_halted] at h
      exact ih (hn.trans h)

/-- A run is at work only before it has ended. -/
theorem lt_of_run_running {k n : Nat} {s : State} {m : Machine} {result : Except RunError Value}
    {w : World} (hk : run code maxDepth k s = .running m)
    (hn : run code maxDepth n s = .halted result w) : k < n := by
  rcases Nat.lt_or_ge k n with hlt | hge
  · exact hlt
  · rw [run_of_le hn hge] at hk
    cases hk

end State

/-! ## The end of a program -/

/-- The end of a program, in the terms that trees and machines have in common. -/
inductive Outcome where
  /-- The program does not even start. -/
  | refused (error : StartError)
  /-- It ends with a value. -/
  | value (v : Value) (w : World)
  /-- Something goes wrong in a function. -/
  | fault (fault : Fault) (function : String) (w : World)
  /-- A call would be nested deeper than is allowed. -/
  | stackOverflow (depth limit : Nat) (w : World)
  /-- It comes to something that has no meaning: a name that stands for nothing, or a call with a
  wrong number of arguments. -/
  | stuck (w : World)

/-- The end to which a run has come, if it has. -/
def State.outcome? : State → Option Outcome
  | .running _ => none
  | .halted (.ok v) w => some (.value v w)
  | .halted (.error (.fault e)) w => some (.fault e.fault e.function w)
  | .halted (.error (.stackOverflow depth limit)) w => some (.stackOverflow depth limit w)

theorem State.outcome?_eq_fault {s : State} {fault : Fault} {function : String} {w : World}
    (h : s.outcome? = some (.fault fault function w)) :
    ∃ e : LocatedFault, s = .halted (.error (.fault e)) w ∧ e.fault = fault ∧
      e.function = function := by
  cases s with
  | running m => cases h
  | halted result w' =>
    cases result with
    | ok v => cases h
    | error e =>
      cases e with
      | stackOverflow depth limit => cases h
      | fault e =>
        cases h
        exact ⟨e, rfl, rfl, rfl⟩

/-- The fault with which the run has ended and where it is located, if it has ended with one. -/
def State.located? : State → Option LocatedFault
  | .halted (.error (.fault e)) _ => some e
  | _ => none

theorem State.located?_eq_some {s : State} {e : LocatedFault} (h : s.located? = some e) :
    ∃ w, s = .halted (.error (.fault e)) w := by
  unfold located? at h
  split at h
  · cases h
    exact ⟨_, rfl⟩
  · cases h

/-- The run of a program in the form that the machine runs comes to an end. -/
def Code.EndsWith (code : Code) (maxDepth : Option Nat) (w : World) (o : Outcome) : Prop :=
  match code.start w with
  | .error e => o = .refused e
  | .ok m => ∃ n, ((State.running m).run code maxDepth n).outcome? = some o

/-- A run has one end at most. -/
theorem State.outcome_unique {code : Code} {maxDepth : Option Nat} {s : State} {m n : Nat}
    {o o' : Outcome} (h : (s.run code maxDepth m).outcome? = some o)
    (h' : (s.run code maxDepth n).outcome? = some o') : o = o' := by
  cases hm : s.run code maxDepth m with
  | running machine =>
    rw [hm] at h
    cases h
  | halted result w =>
    cases hn : s.run code maxDepth n with
    | running machine =>
      rw [hn] at h'
      cases h'
    | halted result' w' =>
      obtain ⟨rfl, rfl⟩ := halted_unique hm hn
      rw [hm] at h
      rw [hn, h, Option.some.injEq] at h'
      exact h'

end FrameMachine
