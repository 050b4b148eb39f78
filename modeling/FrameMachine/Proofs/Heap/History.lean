import FrameMachine.Machine.Trace
import FrameMachine.Proofs.Machine.Frames
import FrameMachine.Proofs.Machine.Worlds

/-!
# The heap and the report of a run

A step does one thing to the heap at most, and reports it when an object is made or given up
(`Heap.Changes`). The report of a run therefore tells how many objects have been made and which of
them are gone (`Heap.Recorded`), starting from the empty heap with which every run starts.
-/

set_option autoImplicit false

namespace FrameMachine

/-! ## Operations on the heap -/

namespace Heap

variable {h : Heap} {id : Nat}

@[simp] theorem allocated_alloc (h : Heap) (fields : List String) :
    (h.alloc fields).2.allocated = h.allocated + 1 := by
  simp [alloc, allocated]

@[simp] theorem allocated_free (h : Heap) (id : Nat) : (h.free id).2.allocated = h.allocated := by
  unfold free
  split
  · simp [allocated]
  · rfl

@[simp] theorem allocated_set (h : Heap) (id : Nat) (field : String) (v : Value) :
    (h.set id field v).2.allocated = h.allocated := by
  unfold set
  split
  · rfl
  · split
    · simp [allocated]
    · rfl

theorem object?_alloc (h : Heap) (fields : List String) (id : Nat) :
    (h.alloc fields).2.object? id =
      if id = h.allocated then some (Fields.blank fields) else h.object? id := by
  rw [alloc, object?, object?, allocated, Array.getElem?_push]
  split <;> rfl

theorem lt_allocated_of_object? {fields : Fields} (hobject : h.object? id = some fields) :
    id < h.allocated := by
  rcases Nat.lt_or_ge id h.allocated with hlt | hge
  · exact hlt
  · rw [object?, Array.getElem?_eq_none hge] at hobject
    cases hobject

theorem object?_free (h : Heap) (id other : Nat) :
    (h.free id).2.object? other = if other = id then none else h.object? other := by
  unfold free
  cases hobject : h.object? id with
  | none =>
    by_cases heq : other = id
    · rw [if_pos heq, heq]
      exact hobject
    · rw [if_neg heq]
  | some fields =>
    have hlt : id < h.cells.size := lt_allocated_of_object? hobject
    simp only [object?, Array.getElem?_setIfInBounds]
    by_cases heq : other = id
    · simp [heq, hlt]
    · simp [heq, Ne.symm heq]

/-- An object that is changed stays where it is, with one field changed; all the others
stay as they are. -/
theorem object?_set (h : Heap) (id : Nat) (field : String) (v : Value) (other : Nat) :
    (h.set id field v).2.object? other = h.object? other ∨
      ∃ fields fields', h.object? other = some fields ∧ fields.set? field v = some fields' ∧
        (h.set id field v).2.object? other = some fields' := by
  unfold set
  cases hobject : h.object? id with
  | none => exact Or.inl rfl
  | some fields =>
    cases hset : fields.set? field v with
    | none => exact Or.inl (by simp only [hset])
    | some fields' =>
      have hlt : id < h.cells.size := lt_allocated_of_object? hobject
      by_cases heq : other = id
      · subst heq
        refine Or.inr ⟨fields, fields', hobject, hset, ?_⟩
        simp [hset, object?, hlt]
      · refine Or.inl ?_
        simp [hset, object?, Ne.symm heq]

theorem contains_set (h : Heap) (id : Nat) (field : String) (v : Value) (other : Nat) :
    (h.set id field v).2.contains other = h.contains other := by
  rw [contains, contains]
  rcases h.object?_set id field v other with hsame | ⟨fields, fields', hold, -, hnew⟩
  · rw [hsame]
  · rw [hold, hnew]
    rfl

end Heap

/-! ## Steps -/

/-- The event is about the heap. -/
def Event.ofHeap : Event → Bool
  | .allocated _ _ => true
  | .freed _ => true
  | _ => false

/-- An object has been made. -/
def Event.isAllocation : Event → Bool
  | .allocated _ _ => true
  | _ => false

/-- What a step can do to the heap, and what it reports of this. -/
inductive Heap.Changes (h : Heap) : List Event → Heap → Prop
  | kept : Changes h [] h
  | alloc (fields : List String) : Changes h [.allocated h.allocated fields] (h.alloc fields).2
  | free {id : Nat} : h.contains id = true → Changes h [.freed id] (h.free id).2
  | set (id : Nat) (field : String) (v : Value) : Changes h [] (h.set id field v).2

section Steps

variable {code : Code} {maxDepth : Option Nat} {h h' : Heap} {events : List Event}

theorem Heap.Changes.allocated_le (hc : h.Changes events h') : h.allocated ≤ h'.allocated := by
  cases hc with
  | kept => exact Nat.le_refl _
  | alloc fields => simp
  | free => simp
  | set => simp

/-- What an instruction reports of the heap if it does not fail. -/
def Instr.reported (code : Code) (i : Instr) (f : Frame) (w : World) : List Event :=
  match i.execute code f w with
  | .next _ _ => i.heapEvents f.stack w.heap
  | _ => []

/-- An instruction that has nothing to report reports nothing. -/
theorem Instr.reported_eq_nil {i : Instr} {f : Frame} {w : World}
    (hnone : i.heapEvents f.stack w.heap = []) :
    i.reported code f w = [] := by
  unfold reported
  split
  · exact hnone
  · rfl

theorem Instr.filter_heapEvents (i : Instr) (stack : List Value) (h : Heap) :
    (i.heapEvents stack h).filter Event.ofHeap = i.heapEvents stack h := by
  unfold heapEvents
  split <;> rfl

theorem Instr.changes_free (code : Code) (f : Frame) (w : World) :
    w.heap.Changes (Instr.free.reported code f w) (Instr.free.worldAfter f.stack w).heap := by
  rw [reported, execute, Frame.pop1]
  cases hs : f.stack with
  | nil => exact .kept
  | cons v rest =>
    cases v with
    | ref id =>
      cases hobject : w.heap.object? id with
      | none =>
        -- nothing is there to be given up
        have hfree : w.heap.free id =
            (.error (.missingObject id), w.heap) := by rw [Heap.free, hobject]
        simp only [Frame.change, Value.object, hfree, Effect.after, worldAfter]
        exact .kept
      | some fields =>
        have hcontains : w.heap.contains id = true := by rw [Heap.contains, hobject]; rfl
        have hfree : (w.heap.free id).1 = .ok () := by rw [Heap.free, hobject]
        simp only [Frame.change, Value.object, hfree, Effect.after, worldAfter]
        exact .free hcontains
    | nil | int | double | bool | char | str => exact .kept

/-- What an instruction does to the heap is what it reports. -/
theorem Instr.changes_execute (code : Code) (i : Instr) (f : Frame) (w : World) :
    w.heap.Changes (i.reported code f w) (i.worldAfter f.stack w).heap := by
  -- only making and giving up an object is reported, and only these change which objects are there
  cases i with
  | alloc fields => exact .alloc fields
  | free => exact changes_free code f w
  | setField field =>
    rw [reported_eq_nil rfl]
    match f.stack with
    | [] => exact .kept
    | [value] => exact .kept
    | value :: v :: rest =>
      cases v with
      | ref id => exact .set id field value
      | nil | int | double | bool | char | str => exact .kept
  | write =>
    rw [reported_eq_nil rfl]
    cases f.stack with
    | nil => exact .kept
    | cons v rest => exact .kept
  | _ =>
    rw [reported_eq_nil rfl]
    exact .kept

theorem Machine.filter_events {m : Machine} {i : Instr} (hi : m.top.fetch? = some i) :
    (m.events code maxDepth).filter Event.ofHeap = i.reported code m.top.advance m.world := by
  rw [events, Instr.reported, Frame.advance]
  simp only [hi]
  rw [List.filter_cons_of_neg (by simp [Event.ofHeap])]
  cases i.execute code { m.top with pc := m.top.pc + 1 } m.world with
  | next g w => exact i.filter_heapEvents m.top.stack m.world.heap
  | call callee arguments caller w =>
    cases exceeded? maxDepth (m.depth + 1) with
    | some limit => rfl
    | none => rfl
  | ret | fail => rfl

/-- What a step does to the heap is what it reports. -/
theorem Machine.step_changes (m : Machine) :
    m.world.heap.Changes ((m.events code maxDepth).filter Event.ofHeap)
      (m.step code maxDepth).world.heap := by
  rw [world_step]
  cases hi : m.top.fetch? with
  | none =>
    rw [events]
    simp only [hi]
    exact .kept
  | some i =>
    rw [filter_events hi]
    exact i.changes_execute code m.top.advance m.world

end Steps

/-! ## Runs -/

/-- What a run reports in the given number of steps. -/
def State.history (code : Code) (maxDepth : Option Nat) : Nat → State → List Event
  | 0, _ => []
  | n + 1, s => s.events code maxDepth ++ history code maxDepth n (s.step code maxDepth)

/-- What a run from the start of the program reports in the given number of steps. -/
def Code.history (code : Code) (maxDepth : Option Nat) (w : World) (n : Nat) : List Event :=
  match code.start w with
  | .error _ => []
  | .ok start => (State.running start).history code maxDepth n

/-- The events tell how many objects have been made, and that those which are gone have been given
up after they were made. -/
structure Heap.Recorded (h : Heap) (events : List Event) : Prop where
  count : h.allocated = events.countP Event.isAllocation
  made : ∀ id < h.allocated, ∃ fields, .allocated id fields ∈ events
  gone : ∀ id < h.allocated, h.contains id = false →
    ∃ fields, [Event.allocated id fields, .freed id].Sublist events

section Runs

variable {code : Code} {maxDepth : Option Nat} {h h' : Heap} {earlier reported : List Event}

theorem Heap.recorded_empty : Heap.empty.Recorded [] where
  count := rfl
  made := fun id hid => absurd hid (Nat.not_lt_zero id)
  gone := fun id hid => absurd hid (Nat.not_lt_zero id)

theorem Heap.Recorded.alloc (hr : h.Recorded earlier) (fields : List String) :
    (h.alloc fields).2.Recorded (earlier ++ [.allocated h.allocated fields]) where
  count := by
    rw [allocated_alloc, List.countP_append, ← hr.count]
    rfl
  made := by
    intro id hid
    rw [allocated_alloc] at hid
    rcases Nat.lt_succ_iff_lt_or_eq.1 hid with hlt | rfl
    · obtain ⟨names, hmade⟩ := hr.made id hlt
      exact ⟨names, List.mem_append_left _ hmade⟩
    · exact ⟨fields, List.mem_append_right _ (List.mem_singleton_self _)⟩
  gone := by
    intro id hid hgone
    rw [contains, object?_alloc] at hgone
    by_cases heq : id = h.allocated
    · rw [if_pos heq] at hgone
      cases hgone
    · rw [if_neg heq] at hgone
      rw [allocated_alloc] at hid
      obtain ⟨names, hsub⟩ := hr.gone id (by omega) hgone
      exact ⟨names, hsub.trans (List.sublist_append_left _ _)⟩

theorem Heap.Recorded.free (hr : h.Recorded earlier) (id : Nat) :
    (h.free id).2.Recorded (earlier ++ [.freed id]) where
  count := by
    rw [allocated_free, List.countP_append, ← hr.count]
    rfl
  made := by
    intro other hother
    rw [allocated_free] at hother
    obtain ⟨names, hmade⟩ := hr.made other hother
    exact ⟨names, List.mem_append_left _ hmade⟩
  gone := by
    intro other hother hgone
    rw [allocated_free] at hother
    rw [contains, object?_free] at hgone
    by_cases heq : other = id
    · -- it has just been given up, and it was made before
      subst heq
      obtain ⟨names, hmade⟩ := hr.made other hother
      exact ⟨names, (List.singleton_sublist.2 hmade).append (List.Sublist.refl [Event.freed other])⟩
    · rw [if_neg heq] at hgone
      obtain ⟨names, hsub⟩ := hr.gone other hother hgone
      exact ⟨names, hsub.trans (List.sublist_append_left _ _)⟩

theorem Heap.Recorded.set (hr : h.Recorded earlier) (id : Nat) (field : String) (v : Value) :
    (h.set id field v).2.Recorded earlier where
  count := by rw [allocated_set, hr.count]
  made := by
    rw [allocated_set]
    exact hr.made
  gone := by
    intro other hother hgone
    rw [allocated_set] at hother
    rw [contains_set] at hgone
    exact hr.gone other hother hgone

/-- The record goes on as the heap changes. -/
theorem Heap.Recorded.changes (hr : h.Recorded earlier) (hc : h.Changes reported h') :
    h'.Recorded (earlier ++ reported) := by
  cases hc with
  | kept =>
    rw [List.append_nil]
    exact hr
  | alloc fields => exact hr.alloc fields
  | free => exact hr.free _
  | set id field v =>
    rw [List.append_nil]
    exact hr.set id field v

theorem State.step_changes (s : State) :
    s.world.heap.Changes ((s.events code maxDepth).filter Event.ofHeap)
      (s.step code maxDepth).world.heap := by
  cases s with
  | running m => exact m.step_changes
  | halted result w => exact .kept

/-- A run that goes on from a record goes on with it. -/
theorem State.recorded_run (n : Nat) (s : State) (hr : s.world.heap.Recorded earlier) :
    (s.run code maxDepth n).world.heap.Recorded
      (earlier ++ (s.history code maxDepth n).filter Event.ofHeap) := by
  -- what was recorded before grows by the report of the first step
  induction n generalizing s earlier with
  | zero =>
    rw [history, List.filter_nil, List.append_nil]
    exact hr
  | succ n ih =>
    rw [run, history, List.filter_append, ← List.append_assoc]
    exact ih _ (hr.changes s.step_changes)

/-- The report of a run tells what has become of the objects that were made in it, whatever was
there before. -/
theorem Code.recorded_after {w : World} {n : Nat} {s : State}
    (hs : code.after maxDepth w n = some s) :
    s.world.heap.Recorded ((code.history maxDepth w n).filter Event.ofHeap) := by
  obtain ⟨start, hstart, rfl⟩ := Code.after_eq_some.1 hs
  have hempty : (State.running start).world.heap.Recorded [] := by
    obtain ⟨t, -, -, rfl⟩ := Code.start_eq_ok hstart
    exact Heap.recorded_empty
  rw [Code.history, hstart]
  exact State.recorded_run n (.running start) hempty

/-- The allocations in a history are those of its events about the heap. -/
theorem countP_isAllocation_filter (events : List Event) :
    (events.filter Event.ofHeap).countP Event.isAllocation = events.countP Event.isAllocation := by
  rw [List.countP_filter]
  apply List.countP_congr
  intro event _
  cases event <;> simp [Event.isAllocation, Event.ofHeap]

end Runs

end FrameMachine
