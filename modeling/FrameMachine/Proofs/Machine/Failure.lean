import FrameMachine.Proofs.Machine.Depth

/-!
# Failures leave no trace

An instruction that fails leaves the heap as it was, although some instructions have taken values
from the stack or have looked at the heap by then. It leaves the streams as they were as well,
except that a failed `read` has used up a line and a failed `write` may have written the beginning
of its text (`Instr.Spares`). The activations that wait have no part in it.

A run that has ended with an error has therefore left the heap that was there before its last step
(`Code.failures_leave_no_trace`).
-/

set_option autoImplicit false

namespace FrameMachine

/-! ## Lines -/

namespace Input

/-- The bytes are one line in front of the rest of the input: they end with their only newline, or
they have none and nothing is behind them. -/
def IsLine (line rest : List UInt8) : Prop :=
  (∃ body, newline ∉ body ∧ line = body ++ [newline]) ∨ newline ∉ line ∧ rest = []

theorem splitLine_newline (bytes : List UInt8) :
    splitLine (newline :: bytes) = ([newline], bytes) := by
  simp [splitLine]

theorem splitLine_cons {b : UInt8} (hb : b ≠ newline) (bytes : List UInt8) :
    splitLine (b :: bytes) = (b :: (splitLine bytes).1, (splitLine bytes).2) := by
  have htest : (b != newline) = true := by simpa using hb
  simp only [splitLine, List.takeWhile_cons, List.dropWhile_cons, htest, if_true]
  cases bytes.dropWhile (· != newline) with
  | nil => rfl
  | cons c rest => rfl

/-- The first line and the rest are the whole input. -/
theorem splitLine_append (bytes : List UInt8) :
    (splitLine bytes).1 ++ (splitLine bytes).2 = bytes := by
  induction bytes with
  | nil => rfl
  | cons b bytes ih =>
    by_cases hb : b = newline
    · rw [hb, splitLine_newline]
      rfl
    · rw [splitLine_cons hb, List.cons_append, ih]

theorem isLine_splitLine (bytes : List UInt8) : IsLine (splitLine bytes).1 (splitLine bytes).2 := by
  induction bytes with
  | nil => exact Or.inr ⟨by simp [splitLine], rfl⟩
  | cons b bytes ih =>
    by_cases hb : b = newline
    · rw [hb, splitLine_newline]
      exact Or.inl ⟨[], by simp, rfl⟩
    · rw [splitLine_cons hb]
      have hne : newline ≠ b := Ne.symm hb
      rcases ih with ⟨body, hbody, hline⟩ | ⟨hline, hrest⟩
      · refine Or.inl ⟨b :: body, by simp [hne, hbody], ?_⟩
        rw [hline, List.cons_append]
      · exact Or.inr ⟨by simp [hne, hline], hrest⟩

theorem readLine_rest (input : List UInt8) : (readLine input).2 = (splitLine input).2 := by
  rw [readLine]
  simp only
  split <;> rfl

/-- The end of the input is read as an empty text, so reading fails only if there is
something to be read. -/
theorem splitLine_ne_nil {input : List UInt8} {e : StreamFault}
    (h : (readLine input).1 = .error e) :
    (splitLine input).1 ≠ [] := by
  intro hempty
  have hdecode : decode? [] = some "" := by decide +kernel
  rw [readLine] at h
  simp only [hempty, hdecode] at h
  cases h

end Input

/-! ## Instructions -/

/-- What an instruction that fails may have done to the world, given the stack that it has found. -/
structure Instr.Spares (i : Instr) (stack : List Value) (w w' : World) : Prop where
  heap : w'.heap = w.heap
  input : i ≠ .read → w'.input = w.input
  /-- A line has been used up. -/
  line : i = .read → ∃ line, line ≠ [] ∧ Input.IsLine line w'.input ∧ w.input = line ++ w'.input
  output : i ≠ .write → w'.output = w.output
  /-- The beginning of a text has been written, if there was a value to be printed at all. The
  output has given the answer that it was to give next, if there was one. -/
  text : i = .write → (stack = [] ∧ w'.output = w.output) ∨ ∃ v rest, stack = v :: rest ∧
    ∃ bytes : Array UInt8, bytes.toList <+: v.text.toUTF8.data.toList ∧
      w'.output = { w.output with
        written := w.output.written ++ bytes, answers := w.output.answers.tail }

section Instructions

variable {code : Code} {i : Instr} {f : Frame} {w w' : World} {fault : Fault}

/-- An instruction that has nothing to do with the streams and leaves the world as it is. -/
theorem Instr.Spares.same {stack : List Value} (hread : i ≠ .read) (hwrite : i ≠ .write) :
    i.Spares stack w w where
  heap := rfl
  input := fun _ => rfl
  line := fun h => absurd h hread
  output := fun _ => rfl
  text := fun h => absurd h hwrite

theorem Heap.free_eq_of_error {h : Heap} {id : Nat} {e : Fault}
    (herror : (h.free id).1 = .error e) :
    (h.free id).2 = h := by
  cases hobject : h.object? id with
  | some fields =>
    simp only [free, hobject] at herror
    cases herror
  | none => simp only [free, hobject]

theorem Heap.set_eq_of_error {h : Heap} {id : Nat} {field : String} {v : Value} {e : Fault}
    (herror : (h.set id field v).1 = .error e) : (h.set id field v).2 = h := by
  cases hobject : h.object? id with
  | none => simp only [set, hobject]
  | some fields =>
    cases hset : fields.set? field v with
    | none => simp only [set, hobject, hset]
    | some fields' =>
      simp only [set, hobject, hset] at herror
      cases herror

/-- A change of an object that fails leaves the world as it is, if it leaves the heap. -/
theorem Frame.change_eq_fail {v : Value} {operation : Heap → Nat → Except Fault Unit × Heap}
    (hkept : ∀ id e, (operation w.heap id).1 = .error e → (operation w.heap id).2 = w.heap)
    (h : f.change w v operation = .fail fault w') : w' = w := by
  cases w with
  | mk heap input output =>
    rw [change] at h
    cases hobject : v.object with
    | error e =>
      simp only [hobject] at h
      cases h
      rfl
    | ok id =>
      simp only [hobject] at h
      cases hresult : (operation heap id).1 with
      | ok _ =>
        rw [hresult] at h
        cases h
      | error e =>
        rw [hresult, hkept id e hresult] at h
        cases h
        rfl

theorem Frame.pop1_eq_fail {use : Value → Frame → Effect}
    (huse : ∀ v g, use v g = .fail fault w' → w' = w) (h : f.pop1 w use = .fail fault w') :
    w' = w := by
  rw [pop1] at h
  cases hstack : f.stack with
  | nil =>
    rw [hstack] at h
    cases h
    rfl
  | cons v rest =>
    rw [hstack] at h
    exact huse v _ h

theorem Frame.pop2_eq_fail {use : Value → Value → Frame → Effect}
    (huse : ∀ v u g, use v u g = .fail fault w' → w' = w) (h : f.pop2 w use = .fail fault w') :
    w' = w := by
  unfold pop2 at h
  split at h
  · exact huse _ _ _ h
  · cases h
    rfl

theorem Instr.world_of_fail (h : i.execute code f w = .fail fault w') :
    w' = i.worldAfter f.stack w := by
  rw [← Instr.world_execute code, h]
  rfl

theorem Frame.spares_write (h : Instr.write.execute code f w = .fail fault w') :
    Instr.write.Spares f.stack w w' := by
  have hworld := Instr.world_of_fail h
  cases hstack : f.stack with
  | nil =>
    rw [hstack] at hworld
    subst hworld
    exact ⟨rfl, fun _ => rfl, fun h => absurd h (by simp), fun _ => rfl, fun _ => Or.inl ⟨rfl, rfl⟩⟩
  | cons v rest =>
    rw [hstack] at hworld
    subst hworld
    obtain ⟨bytes, hbytes, hwrite⟩ := w.output.write_appends v.text
    refine ⟨rfl, fun _ => rfl, fun h => absurd h (by simp), fun h => absurd rfl h, fun _ =>
      Or.inr ?_⟩
    exact ⟨v, rest, rfl, bytes, hbytes, hwrite⟩

theorem Frame.spares_read (h : Instr.read.execute code f w = .fail fault w') :
    Instr.read.Spares f.stack w w' := by
  have hworld := Instr.world_of_fail h
  have hinput : w'.input = (Input.splitLine w.input).2 := by
    rw [hworld, ← Input.readLine_rest]
    rfl
  have hfails : ∃ e, (Input.readLine w.input).1 = .error e := by
    cases hresult : (Input.readLine w.input).1 with
    | error e => exact ⟨e, rfl⟩
    | ok text =>
      rw [Instr.execute, Frame.read] at h
      simp only [hresult] at h
      cases h
  obtain ⟨e, he⟩ := hfails
  refine ⟨by rw [hworld]; rfl, fun h => absurd rfl h, fun _ => ?_, fun _ => by rw [hworld]; rfl,
    fun h => absurd h (by simp)⟩
  refine ⟨(Input.splitLine w.input).1, Input.splitLine_ne_nil he, ?_, ?_⟩
  · rw [hinput]
    exact Input.isLine_splitLine w.input
  · rw [hinput, Input.splitLine_append]

theorem Instr.spares_of_fail (h : i.execute code f w = .fail fault w') : i.Spares f.stack w w' := by
  have hworld := Instr.world_of_fail h
  cases i with
  | read => exact f.spares_read h
  | write => exact f.spares_write h
  | alloc fields => cases h
  | free =>
    -- the object is looked for before anything is changed
    rw [execute] at h
    have hsame : w' = w := by
      apply Frame.pop1_eq_fail _ h
      intro v g hfail
      exact Frame.change_eq_fail (fun id e => Heap.free_eq_of_error) hfail
    rw [hsame]
    exact .same (by simp) (by simp)
  | setField field =>
    rw [execute] at h
    have hsame : w' = w := by
      apply Frame.pop2_eq_fail _ h
      intro value v g hfail
      exact Frame.change_eq_fail (fun id e => Heap.set_eq_of_error) hfail
    rw [hsame]
    exact .same (by simp) (by simp)
  | _ =>
    -- no other instruction changes the world at all, whether it fails or not
    rw [hworld]
    exact .same (by simp) (by simp)

end Instructions

/-! ## Steps -/

section Steps

variable {code : Code} {maxDepth : Option Nat} {m : Machine} {w' : World}

/-- A step that fails is due to the activation at work and to the world. It fails in the same way,
and leaves the same, whichever activations wait. -/
theorem Machine.step_fault_of_callers {e : LocatedFault}
    (h : m.step code maxDepth = .halted (.error (.fault e)) w') (callers : Array Frame) :
    Machine.step code maxDepth { m with callers := callers } = .halted (.error (.fault e)) w' := by
  obtain ⟨hname, hpc, hfetch, hexecute⟩ := step_eq_fault h
  have hother : (Machine.mk m.top callers m.world).top.fetch? = some e.instruction := hfetch
  rw [step_eq hother]
  simp only [hexecute, hname, hpc]
  rfl

/-- A call that is nested too deeply changes nothing. -/
theorem Machine.world_of_overflow {depth limit : Nat}
    (h : m.step code maxDepth = .halted (.error (.stackOverflow depth limit)) w') :
    w' = m.world := by
  rcases m.step_by_limit code with ⟨s, hover, hs⟩ | ⟨callee, -, hcall⟩
  · rw [hs] at h
    rw [h] at hover
    cases hover
  · rw [hcall] at h
    cases hlimit : exceeded? maxDepth (m.depth + 1) with
    | some limit' =>
      simp only [hlimit] at h
      cases h
      rfl
    | none =>
      simp only [hlimit] at h
      cases h

theorem Machine.heap_of_step_error {e : RunError}
    (h : m.step code maxDepth = .halted (.error e) w') :
    w'.heap = m.world.heap := by
  cases e with
  | fault e =>
    obtain ⟨-, -, -, hexecute⟩ := step_eq_fault h
    exact (Instr.spares_of_fail hexecute).heap
  | stackOverflow depth limit => rw [world_of_overflow h]

end Steps

/-- Whether a program starts depends on its code alone. -/
theorem Code.start_error_of_world {code : Code} {w : World} {e : StartError}
    (h : code.start w = .error e) (w' : World) :
    code.start w' = .error e := by
  rw [start] at h ⊢
  cases hmain : code.get? "main" with
  | none =>
    simp only [hmain] at h ⊢
    exact h
  | some t =>
    simp only [hmain] at h ⊢
    by_cases harity : t.arity = 0
    · simp only [if_pos harity] at h
      cases h
    · simp only [if_neg harity] at h ⊢
      exact h

/-- An instruction that fails, in whatever activation and world, leaves the heap as it is and the
streams as `Instr.Spares` says. The activations that wait are not even handed to it. A step that
fails is the same whichever they are, and leaves nothing else behind than its fault and the world.

After a run that has ended with an error, the heap is the one that was there before the last step,
up to which all steps have succeeded. A program that does not start in one world starts in none, so
there no instruction has ever been executed. -/
theorem Code.failures_leave_no_trace (code : Code) :
    (∀ (i : Instr) f w fault w', i.execute code f w = .fail fault w' → i.Spares f.stack w w') ∧
    (∀ maxDepth (m : Machine) e w', m.step code maxDepth = .halted (.error (.fault e)) w' →
      e.instruction.Spares m.top.stack m.world w' ∧
      ∀ callers, Machine.step code maxDepth { m with callers := callers } =
        .halted (.error (.fault e)) w') ∧
    (∀ maxDepth w n e w', code.after maxDepth w n = some (.halted (.error e) w') →
      ∃ k m, k < n ∧ code.after maxDepth w k = some (.running m) ∧
        m.step code maxDepth = .halted (.error e) w' ∧ w'.heap = m.world.heap) ∧
    ∀ w e, code.start w = .error e → ∀ w', code.start w' = .error e := by
  refine ⟨fun i f w fault w' h => Instr.spares_of_fail h, ?_, ?_, fun w e h =>
    Code.start_error_of_world h⟩
  · intro maxDepth m e w' h
    obtain ⟨-, -, -, hexecute⟩ := Machine.step_eq_fault h
    have hspares : e.instruction.Spares m.top.advance.stack m.world w' :=
      Instr.spares_of_fail hexecute
    exact ⟨hspares, Machine.step_fault_of_callers h⟩
  · intro maxDepth w n e w' h
    obtain ⟨start, hstart, hrun⟩ := Code.after_eq_some.1 h
    obtain ⟨k, m, hk, hstep⟩ := State.exists_last_step hrun
    refine ⟨k, m, State.lt_of_run_running hk hrun, ?_, hstep, Machine.heap_of_step_error hstep⟩
    exact Code.after_eq_some.2 ⟨start, hstart, hk⟩

/-- Code that makes an object, fills its field and then reads a line. -/
def reader : Code := .ofTemplates [
  { name := "main", arity := 0,
    code := #[.alloc ["a"], .dup, .push (.int 1), .setField "a", .read, .ret] }]

/-- On a line that is no text, `reader` fails. The object that it has made is still there, and the
line is used up. -/
theorem reader_leaves_no_trace :
    ∃ k m e w', reader.after none { input := [255, 10, 65] } 5 =
      some (.halted (.error (.fault e)) w') ∧
      reader.after none { input := [255, 10, 65] } k = some (.running m) ∧ w'.heap = m.world.heap ∧
      w'.heap.object? 0 = some [("a", .int 1)] ∧ e.instruction = .read ∧ w'.input = [65] ∧
      e.instruction.Spares m.top.stack m.world w' := by
  obtain ⟨-, hsteps, hruns, -⟩ := Code.failures_leave_no_trace reader
  have hends : (reader.after none { input := [255, 10, 65] } 5).any (fun s =>
      s.located? = some ⟨.stream .invalidText, "main", 4, .read⟩ ∧ s.world.input = [65] ∧
      s.world.heap.object? 0 = some [("a", .int 1)]) = true := by decide +kernel
  obtain ⟨s, hs, htest⟩ := (Option.any_eq_true _ _).1 hends
  obtain ⟨hfault, hinput, hobject⟩ := of_decide_eq_true htest
  obtain ⟨w', rfl⟩ := State.located?_eq_some hfault
  obtain ⟨k, m, -, hk, hstep, hheap⟩ := hruns none _ 5 _ w' hs
  exact ⟨k, m, _, w', hs, hk, hheap, hobject, rfl, hinput, (hsteps none m _ w' hstep).1⟩

end FrameMachine
