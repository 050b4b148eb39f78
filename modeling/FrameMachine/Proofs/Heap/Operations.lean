import FrameMachine.Proofs.Heap.History
import FrameMachine.Proofs.Machine.Failure

/-!
# The law of heap operations

Operations on a heap that was empty in the beginning are written down in a log, each with its reply,
be it a failure. What the heap replies to the next operation follows from the log alone
(`Heap.operations_follow_log`): whether an object is there from what happened to it last, and the
contents of a field from the last time that something was put into it. Neither places nor cells
occur in the log, so it does not matter where the heap keeps its objects.

A log and a heap agree (`LoggedHeap.Agrees`) if they do so on every object. Each operation keeps up
the agreement (`LoggedHeap.Agrees.perform`).
-/

set_option autoImplicit false

namespace FrameMachine

/-! ## Operations and their log -/

/-- An operation on the heap. -/
inductive HeapOp where
  | alloc (fields : List String)
  | free (id : Nat)
  | set (id : Nat) (field : String) (value : Value)
  | get (id : Nat) (field : String)
deriving DecidableEq

/-- What the heap replies to an operation. -/
inductive HeapReply where
  /-- An object of this number has been made. -/
  | made (id : Nat)
  | done
  | contents (value : Value)
  | failed (fault : Fault)
deriving DecidableEq

/-- The reply of an operation that has no result. -/
def HeapReply.ofDone : Except Fault Unit → HeapReply
  | .ok () => .done
  | .error e => .failed e

/-- The reply of an operation that looks something up. -/
def HeapReply.ofContents : Except Fault Value → HeapReply
  | .ok v => .contents v
  | .error e => .failed e

/-- The reply to an operation and the heap after it. -/
def Heap.perform (h : Heap) : HeapOp → HeapReply × Heap
  | .alloc fields => (.made (h.alloc fields).1, (h.alloc fields).2)
  | .free id => (.ofDone (h.free id).1, (h.free id).2)
  | .set id field value => (.ofDone (h.set id field value).1, (h.set id field value).2)
  | .get id field => (.ofContents (h.get id field), h)

/-- Operations with the replies to them, the latest first. -/
abbrev HeapLog := List (HeapOp × HeapReply)

namespace HeapLog

/-- The number of objects that have been made. -/
def made (log : HeapLog) : Nat :=
  log.countP fun
    | (.alloc _, _) => true
    | _ => false

/-- The number of objects that have been given up, attempts that failed left out. -/
def givenUp (log : HeapLog) : Nat :=
  log.countP fun
    | (.free _, .done) => true
    | _ => false

/-- The object has been made and has not been given up since. -/
def has (log : HeapLog) (id : Nat) : Bool :=
  (log.findSome? fun
    | (.alloc _, .made n) => if n = id then some true else none
    | (.free n, .done) => if n = id then some false else none
    | _ => none).getD false

/-- The names with which the object has been made. -/
def names (log : HeapLog) (id : Nat) : List String :=
  (log.findSome? fun
    | (.alloc fields, .made n) => if n = id then some fields else none
    | _ => none).getD []

/-- Nothing is changed: the operation has failed, or it is a look into an object. -/
def isIdle : HeapOp × HeapReply → Bool
  | (.alloc _, _) => false
  | (.get _ _, _) => true
  | (_, .failed _) => true
  | _ => false

/-- What has been put into the field last, attempts that failed left out, or nil if nothing has. -/
def latest (log : HeapLog) (id : Nat) (field : String) : Value :=
  (log.findSome? fun
    | (.set n name v, .done) => if n = id ∧ name = field then some v else none
    | _ => none).getD .nil

end HeapLog

/-- A heap with the log of what has been done on it. -/
structure LoggedHeap where
  heap : Heap := .empty
  log : HeapLog := []

namespace LoggedHeap

/-- An operation is done and written down. -/
def perform (s : LoggedHeap) (op : HeapOp) : LoggedHeap :=
  ⟨(s.heap.perform op).2, (op, (s.heap.perform op).1) :: s.log⟩

/-- Operations are done one after the other, beginning with an empty heap. -/
def after (ops : List HeapOp) : LoggedHeap := ops.foldl perform {}

end LoggedHeap

/-! ## Fields -/

namespace Fields

theorem get?_blank (names : List String) (field : String) :
    (blank names).get? field = if field ∈ names then some Value.nil else none := by
  have hlookup : ∀ fields : List String, (fields.map fun name => (name, Value.nil)).lookup field =
      if field ∈ fields then some Value.nil else none := by
    intro fields
    induction fields with
    | nil => rfl
    | cons name fields ih =>
      rw [List.map_cons, List.lookup_cons, ih]
      by_cases heq : field = name
      · simp [heq]
      · have htest : (field == name) = false := by simpa using heq
        simp [heq, htest]
  rw [get?, blank, hlookup]
  simp only [List.mem_eraseDups]

/-- Filling a field changes its contents, if it is there, and those of no other. -/
theorem lookup_fill (fields : Fields) (name field : String) (v : Value) :
    (fields.map fun (other, old) => if other = name then (other, v) else (other, old)).lookup
      field =
      if field = name then (fields.lookup name).map fun _ => v else fields.lookup field := by
  induction fields with
  | nil => simp
  | cons entry fields ih =>
    obtain ⟨other, old⟩ := entry
    by_cases hother : other = name
    · subst hother
      by_cases hfield : field = other
      · simp [hfield]
      · have htest : (field == other) = false := by simpa using hfield
        simp [List.lookup_cons, htest, ih, hfield]
    · have hname : (name == other) = false := by simpa using Ne.symm hother
      by_cases hfield : field = other
      · subst hfield
        simp [hother]
      · have htest : (field == other) = false := by simpa using hfield
        simp [List.lookup_cons, hother, htest, hname, ih]

theorem get?_set? {fields fields' : Fields} {name : String} {v : Value}
    (h : fields.set? name v = some fields') (field : String) :
    fields'.get? field = if field = name then some v else fields.get? field := by
  rw [set?] at h
  split at h
  · rename_i hthere
    cases h
    obtain ⟨old, hold⟩ := Option.isSome_iff_exists.1 hthere
    rw [get?, get?, lookup_fill, hold]
    rfl
  · cases h

theorem set?_eq_none_iff {fields : Fields} {name : String} {v : Value} :
    fields.set? name v = none ↔ fields.get? name = none := by
  rw [set?, get?]
  cases fields.lookup name with
  | none => simp
  | some old => simp

end Fields

/-! ## Cells -/

namespace Heap

variable {h : Heap} {id : Nat} {field : String} {v : Value} {fields fields' : Fields}

theorem free_eq_ok (hobject : h.object? id = some fields) :
    h.free id = (.ok (), ⟨h.cells.setIfInBounds id none⟩) := by
  rw [free, hobject]

theorem free_eq_error (hobject : h.object? id = none) :
    h.free id = (.error (.missingObject id), h) := by
  rw [free, hobject]

theorem set_eq_ok (hobject : h.object? id = some fields)
    (hset : fields.set? field v = some fields') :
    h.set id field v = (.ok (), ⟨h.cells.setIfInBounds id (some fields')⟩) := by
  simp only [set, hobject, hset]

theorem set_eq_missingField (hobject : h.object? id = some fields)
    (hset : fields.set? field v = none) :
    h.set id field v = (.error (.missingField id field), h) := by
  simp only [set, hobject, hset]

theorem set_eq_missingObject (hobject : h.object? id = none) :
    h.set id field v = (.error (.missingObject id), h) := by
  simp only [set, hobject]

theorem allocated_setIfInBounds (h : Heap) (id : Nat) (cell : Option Fields) :
    (⟨h.cells.setIfInBounds id cell⟩ : Heap).allocated = h.allocated := Array.size_setIfInBounds ..

theorem object?_setIfInBounds (hobject : h.object? id = some fields) (cell : Option Fields)
    (other : Nat) :
    (⟨h.cells.setIfInBounds id cell⟩ : Heap).object? other =
      if other = id then cell else h.object? other := by
  have hlt : id < h.cells.size := lt_allocated_of_object? hobject
  simp only [object?, Array.getElem?_setIfInBounds]
  by_cases heq : other = id
  · simp [heq, hlt]
  · simp [heq, Ne.symm heq]

/-- One object less is there if a cell has been emptied, and as many as before if it has
been filled anew. -/
theorem live_setIfInBounds (hobject : h.object? id = some fields) (cell : Option Fields) :
    (⟨h.cells.setIfInBounds id cell⟩ : Heap).live + 1 = h.live + if cell.isSome then 1 else 0 := by
  have hlt : id < h.cells.toList.length := lt_allocated_of_object? hobject
  have hcell : h.cells.toList[id] = some fields := by
    rw [object?, Option.join_eq_some_iff, Array.getElem?_eq_some_iff] at hobject
    obtain ⟨_, hcell⟩ := hobject
    rw [Array.getElem_toList, hcell]
  have hpositive : 0 < h.cells.toList.countP Option.isSome := by
    rw [List.countP_pos_iff]
    exact ⟨some fields, hcell ▸ List.getElem_mem hlt, rfl⟩
  rw [live, live, Array.toList_setIfInBounds, List.countP_set hlt, hcell]
  simp only [Option.isSome_some, if_true]
  omega

@[simp] theorem live_alloc (h : Heap) (names : List String) :
    (h.alloc names).2.live = h.live + 1 := by
  simp [alloc, live]

end Heap

/-! ## Logs -/

namespace HeapLog

variable (log : HeapLog) (fields : List String) (n id : Nat) (name field : String) (v : Value)

@[simp] theorem made_alloc (reply : HeapReply) :
    made ((.alloc fields, reply) :: log) = log.made + 1 := by
  simp [made]

@[simp] theorem givenUp_free : givenUp ((.free n, .done) :: log) = log.givenUp + 1 := by
  simp [givenUp]

@[simp] theorem has_alloc :
    has ((.alloc fields, .made n) :: log) id = if n = id then true else log.has id := by
  rw [has, List.findSome?_cons]
  by_cases h : n = id
  · simp [h]
  · simp [h, has]

@[simp] theorem has_free :
    has ((.free n, .done) :: log) id = if n = id then false else log.has id := by
  rw [has, List.findSome?_cons]
  by_cases h : n = id
  · simp [h]
  · simp [h, has]

@[simp] theorem names_alloc :
    names ((.alloc fields, .made n) :: log) id = if n = id then fields else log.names id := by
  rw [names, List.findSome?_cons]
  by_cases h : n = id
  · simp [h]
  · simp [h, names]

@[simp] theorem latest_set :
    latest ((.set n name v, .done) :: log) id field =
      if n = id ∧ name = field then v else log.latest id field := by
  rw [latest, List.findSome?_cons]
  by_cases h : n = id ∧ name = field
  · simp [h]
  · simp [h, latest]

end HeapLog

/-! ## Agreement -/

/-- The heap is as its log says. -/
structure LoggedHeap.Agrees (s : LoggedHeap) : Prop where
  made : s.heap.allocated = s.log.made
  there : ∀ id, s.heap.contains id = s.log.has id
  contents : ∀ id fields, s.heap.object? id = some fields → ∀ field,
    fields.get? field = if field ∈ s.log.names id then some (s.log.latest id field) else none
  /-- Nothing has been put into an object that has not been made. -/
  untouched : ∀ id field, s.heap.allocated ≤ id → s.log.latest id field = .nil
  live : s.heap.live + s.log.givenUp = s.heap.allocated

namespace LoggedHeap.Agrees

variable {s : LoggedHeap}

theorem empty : LoggedHeap.Agrees {} where
  made := rfl
  there := fun _ => rfl
  contents := fun _ _ h => nomatch h
  untouched := fun _ _ _ => rfl
  live := rfl

/-- An object that is made has a number that nothing in the log is about, and all its
fields are nil. -/
theorem alloc (h : s.Agrees) (names : List String) : (s.perform (.alloc names)).Agrees := by
  have hperform : s.perform (.alloc names) =
      ⟨(s.heap.alloc names).2, (.alloc names, .made s.heap.allocated) :: s.log⟩ := rfl
  rw [hperform]
  refine ⟨?_, ?_, ?_, ?_, ?_⟩
  · simp [h.made]
  · intro id
    rw [HeapLog.has_alloc, Heap.contains, Heap.object?_alloc]
    by_cases heq : id = s.heap.allocated
    · simp [heq]
    · simp only [heq, Ne.symm heq, if_false]
      exact h.there id
  · intro id fields hobject field
    rw [Heap.object?_alloc] at hobject
    have hlatest : HeapLog.latest ((.alloc names, .made s.heap.allocated) :: s.log) id field =
        s.log.latest id field := rfl
    rw [HeapLog.names_alloc, hlatest]
    by_cases heq : id = s.heap.allocated
    · rw [if_pos heq] at hobject
      cases hobject
      rw [if_pos heq.symm, Fields.get?_blank, h.untouched id field (Nat.le_of_eq heq.symm)]
    · rw [if_neg heq] at hobject
      rw [if_neg (Ne.symm heq)]
      exact h.contents id fields hobject field
  · intro id field hle
    rw [Heap.allocated_alloc] at hle
    exact h.untouched id field (Nat.le_of_succ_le hle)
  · have hgone : HeapLog.givenUp ((.alloc names, .made s.heap.allocated) :: s.log) =
        s.log.givenUp := rfl
    rw [Heap.live_alloc, Heap.allocated_alloc, hgone, ← h.live]
    omega

/-- What has failed, and a look into an object, is written down and makes no difference. -/
theorem idle (h : s.Agrees) {op : HeapOp} {reply : HeapReply}
    (hidle : HeapLog.isIdle (op, reply) = true) :
    Agrees ⟨s.heap, (op, reply) :: s.log⟩ := by
  cases op with
  | alloc names => cases hidle
  | get id field => exact ⟨h.made, h.there, h.contents, h.untouched, h.live⟩
  | free id =>
    cases reply with
    | failed e => exact ⟨h.made, h.there, h.contents, h.untouched, h.live⟩
    | made | done | contents => cases hidle
  | set id field v =>
    cases reply with
    | failed e => exact ⟨h.made, h.there, h.contents, h.untouched, h.live⟩
    | made | done | contents => cases hidle

/-- An object is given up, and all others stay as they are. -/
theorem emptied (h : s.Agrees) {id : Nat} {fields : Fields}
    (hobject : s.heap.object? id = some fields) :
    Agrees ⟨⟨s.heap.cells.setIfInBounds id none⟩, (.free id, .done) :: s.log⟩ := by
  have hcells := Heap.object?_setIfInBounds hobject none
  have hsize := s.heap.allocated_setIfInBounds id none
  refine ⟨hsize.trans h.made, ?_, ?_, ?_, ?_⟩
  · intro other
    rw [HeapLog.has_free, Heap.contains, hcells]
    by_cases heq : other = id
    · simp [heq]
    · simp only [heq, Ne.symm heq, if_false]
      exact h.there other
  · intro other fields' hother field
    rw [hcells] at hother
    by_cases heq : other = id
    · rw [if_pos heq] at hother
      cases hother
    · rw [if_neg heq] at hother
      exact h.contents other fields' hother field
  · intro other field hle
    exact h.untouched other field (hsize ▸ hle)
  · have hlive := Heap.live_setIfInBounds hobject none
    have hbefore := h.live
    simp only [Option.isSome_none, Bool.false_eq_true, if_false, Nat.add_zero] at hlive
    simp only [HeapLog.givenUp_free, hsize]
    omega

/-- A field can be filled if and only if the object has been made with it. -/
theorem set?_eq_none_iff (h : s.Agrees) {id : Nat} {fields : Fields}
    (hobject : s.heap.object? id = some fields) (name : String) (v : Value) :
    fields.set? name v = none ↔ name ∉ s.log.names id := by
  rw [Fields.set?_eq_none_iff, h.contents id fields hobject name]
  simp

theorem mem_names_of_set? (h : s.Agrees) {id : Nat} {fields fields' : Fields} {name : String}
    {v : Value} (hobject : s.heap.object? id = some fields)
    (hset : fields.set? name v = some fields') : name ∈ s.log.names id := by
  apply Decidable.of_not_not
  intro hmem
  rw [(h.set?_eq_none_iff hobject name v).2 hmem] at hset
  cases hset

/-- A field of an object is filled, and all other fields and objects stay as they are. -/
theorem filled (h : s.Agrees) {id : Nat} {name : String} {v : Value} {fields fields' : Fields}
    (hobject : s.heap.object? id = some fields) (hset : fields.set? name v = some fields') :
    Agrees ⟨⟨s.heap.cells.setIfInBounds id (some fields')⟩, (.set id name v, .done) :: s.log⟩ := by
  have hcells := Heap.object?_setIfInBounds hobject (some fields')
  have hsize := s.heap.allocated_setIfInBounds id (some fields')
  have hnames (other : Nat) : HeapLog.names ((.set id name v, .done) :: s.log) other =
      s.log.names other := rfl
  have hgone : HeapLog.givenUp ((.set id name v, .done) :: s.log) = s.log.givenUp := rfl
  refine ⟨hsize.trans h.made, ?_, ?_, ?_, ?_⟩
  · intro other
    refine Eq.trans ?_ (h.there other)
    rw [Heap.contains, Heap.contains, hcells]
    by_cases heq : other = id
    · simp [heq, hobject]
    · simp [heq]
  · intro other contents hother field
    rw [hcells] at hother
    rw [HeapLog.latest_set]
    simp only [hnames]
    by_cases heq : other = id
    · subst heq
      rw [if_pos rfl] at hother
      cases hother
      rw [Fields.get?_set? hset]
      have hbefore := h.contents other fields hobject field
      by_cases hfield : field = name
      · -- the field is one of the object's, for otherwise it could not have been filled
        have hmem : name ∈ s.log.names other := h.mem_names_of_set? hobject hset
        simp [hfield, hmem]
      · simp only [hfield, Ne.symm hfield, and_false, if_false]
        exact hbefore
    · rw [if_neg heq] at hother
      have hdifferent : ¬ (id = other ∧ name = field) := fun hsame => heq hsame.1.symm
      simp only [hdifferent, if_false]
      exact h.contents other contents hother field
  · intro other field hle
    rw [hsize] at hle
    have hlt : id < s.heap.allocated := Heap.lt_allocated_of_object? hobject
    have hdifferent : ¬ (id = other ∧ name = field) := by omega
    rw [HeapLog.latest_set, if_neg hdifferent]
    exact h.untouched other field hle
  · have hlive := Heap.live_setIfInBounds hobject (some fields')
    have hbefore := h.live
    simp only [Option.isSome_some, if_true] at hlive
    simp only [hgone, hsize]
    omega

/-- Every operation keeps up the agreement. -/
theorem perform (h : s.Agrees) (op : HeapOp) : (s.perform op).Agrees := by
  cases op with
  | alloc names => exact h.alloc names
  | free id =>
    rw [LoggedHeap.perform, Heap.perform]
    cases hobject : s.heap.object? id with
    | none =>
      rw [Heap.free_eq_error hobject]
      exact h.idle rfl
    | some fields =>
      rw [Heap.free_eq_ok hobject]
      exact h.emptied hobject
  | set id name v =>
    rw [LoggedHeap.perform, Heap.perform]
    cases hobject : s.heap.object? id with
    | none =>
      rw [Heap.set_eq_missingObject hobject]
      exact h.idle rfl
    | some fields =>
      cases hset : fields.set? name v with
      | none =>
        rw [Heap.set_eq_missingField hobject hset]
        exact h.idle rfl
      | some fields' =>
        rw [Heap.set_eq_ok hobject hset]
        exact h.filled hobject hset
  | get id field => exact h.idle rfl

/-- The heap is as its log says after every sequence of operations. -/
theorem after (ops : List HeapOp) : (LoggedHeap.after ops).Agrees := by
  have hall : ∀ s : LoggedHeap, s.Agrees → (ops.foldl LoggedHeap.perform s).Agrees := by
    induction ops with
    | nil => exact fun _ hs => hs
    | cons op ops ih => exact fun s hs => ih (s.perform op) (hs.perform op)
  exact hall {} empty

/-! ### Replies -/

/-- An object that the log has is there. -/
theorem exists_object (h : s.Agrees) {id : Nat} (hhas : s.log.has id = true) :
    ∃ fields, s.heap.object? id = some fields := by
  rw [← h.there, Heap.contains] at hhas
  exact Option.isSome_iff_exists.1 hhas

/-- An object that the log has not is not there. -/
theorem object?_eq_none (h : s.Agrees) {id : Nat} (hhas : s.log.has id = false) :
    s.heap.object? id = none := by
  rw [← h.there, Heap.contains] at hhas
  simpa using hhas

theorem get_eq (h : s.Agrees) (id : Nat) (field : String) :
    s.heap.get id field =
      if s.log.has id then
        if field ∈ s.log.names id then .ok (s.log.latest id field)
        else .error (.missingField id field)
      else .error (.missingObject id) := by
  cases hhas : s.log.has id with
  | false => simp [Heap.get, h.object?_eq_none hhas]
  | true =>
    obtain ⟨fields, hobject⟩ := h.exists_object hhas
    have hcontents := h.contents id fields hobject field
    by_cases hmem : field ∈ s.log.names id
    · rw [if_pos hmem] at hcontents
      simp [Heap.get, hobject, hcontents, hmem]
    · rw [if_neg hmem] at hcontents
      simp [Heap.get, hobject, hcontents, hmem]

theorem set_eq (h : s.Agrees) (id : Nat) (field : String) (v : Value) :
    (s.heap.set id field v).1 =
      if s.log.has id then
        if field ∈ s.log.names id then .ok () else .error (.missingField id field)
      else .error (.missingObject id) := by
  cases hhas : s.log.has id with
  | false => simp [Heap.set_eq_missingObject (h.object?_eq_none hhas)]
  | true =>
    obtain ⟨fields, hobject⟩ := h.exists_object hhas
    cases hset : fields.set? field v with
    | none =>
      have hmem : field ∉ s.log.names id := (h.set?_eq_none_iff hobject field v).1 hset
      simp [Heap.set_eq_missingField hobject hset, hmem]
    | some fields' =>
      have hmem : field ∈ s.log.names id := h.mem_names_of_set? hobject hset
      simp [Heap.set_eq_ok hobject hset, hmem]

theorem free_eq (h : s.Agrees) (id : Nat) :
    (s.heap.free id).1 = if s.log.has id then .ok () else .error (.missingObject id) := by
  cases hhas : s.log.has id with
  | false => simp [Heap.free_eq_error (h.object?_eq_none hhas)]
  | true =>
    obtain ⟨fields, hobject⟩ := h.exists_object hhas
    simp [Heap.free_eq_ok hobject]

end LoggedHeap.Agrees

/-! ## What an operation leaves as it is -/

section Frame

variable {h : Heap}

theorem HeapReply.ofDone_eq_failed {r : Except Fault Unit} {e : Fault} (hr : ofDone r = .failed e) :
    r = .error e := by
  cases r with
  | ok _ => cases hr
  | error e' =>
    cases hr
    rfl

theorem Heap.perform_failed {op : HeapOp} {e : Fault} (hfailed : (h.perform op).1 = .failed e) :
    (h.perform op).2 = h := by
  cases op with
  | alloc names => cases hfailed
  | free id => exact Heap.free_eq_of_error (HeapReply.ofDone_eq_failed hfailed)
  | set id field v => exact Heap.set_eq_of_error (HeapReply.ofDone_eq_failed hfailed)
  | get id field => rfl

theorem Heap.object?_set_of_ne {id other : Nat} (hne : other ≠ id) (field : String) (v : Value) :
    (h.set id field v).2.object? other = h.object? other := by
  cases hobject : h.object? id with
  | none => rw [set_eq_missingObject hobject]
  | some fields =>
    cases hset : fields.set? field v with
    | none => rw [set_eq_missingField hobject hset]
    | some fields' => rw [set_eq_ok hobject hset, object?_setIfInBounds hobject, if_neg hne]

/-- Filling a field makes no difference to another field of the same object. -/
theorem Heap.get_set_of_ne {field other : String} (hne : other ≠ field) (id : Nat) (v : Value) :
    (h.set id field v).2.get id other = h.get id other := by
  cases hobject : h.object? id with
  | none => rw [set_eq_missingObject hobject]
  | some fields =>
    cases hset : fields.set? field v with
    | none => rw [set_eq_missingField hobject hset]
    | some fields' =>
      rw [set_eq_ok hobject hset, get, get, object?_setIfInBounds hobject, if_pos rfl, hobject]
      simp only [Fields.get?_set? hset, if_neg hne]

end Frame

/-- After any operations on a heap that was empty in the beginning, be they successful or not, the
heap replies to the next operation as the log of the earlier ones demands. A new object gets as its
number how many objects have been made before, whether or not they are still there. An object is
there if and only if it has been made and not been given up since. A field holds what has been put
into it last, or nil. An operation fails if the object is not there, and otherwise if the object has
not been made with the field.

An operation that fails changes nothing, and one that succeeds changes one object or one field and
no other. As many objects are there as have been made, less those that have been given up. -/
theorem Heap.operations_follow_log (ops : List HeapOp) :
    let h := (LoggedHeap.after ops).heap
    let log := (LoggedHeap.after ops).log
    (∀ fields, (h.alloc fields).1 = log.made) ∧
    (∀ id, h.contains id = log.has id) ∧
    (∀ id field, h.get id field =
      if log.has id then
        if field ∈ log.names id then .ok (log.latest id field) else .error (.missingField id field)
      else .error (.missingObject id)) ∧
    (∀ id field v, (h.set id field v).1 =
      if log.has id then
        if field ∈ log.names id then .ok () else .error (.missingField id field)
      else .error (.missingObject id)) ∧
    (∀ id, (h.free id).1 = if log.has id then .ok () else .error (.missingObject id)) ∧
    (∀ op e, (h.perform op).1 = .failed e → (h.perform op).2 = h) ∧
    (∀ fields other, other ≠ h.allocated → (h.alloc fields).2.object? other = h.object? other) ∧
    (∀ id other, other ≠ id → (h.free id).2.object? other = h.object? other ∧
      ∀ field v, (h.set id field v).2.object? other = h.object? other) ∧
    (∀ id field other v, other ≠ field → (h.set id field v).2.get id other = h.get id other) ∧
    h.allocated = log.made ∧ h.live + log.givenUp = h.allocated := by
  intro h log
  have hagrees : (LoggedHeap.after ops).Agrees := .after ops
  refine ⟨fun _ => hagrees.made, hagrees.there, hagrees.get_eq, hagrees.set_eq, hagrees.free_eq,
    fun op e => Heap.perform_failed, ?_, ?_, ?_, hagrees.made, hagrees.live⟩
  · intro fields other hne
    rw [Heap.object?_alloc, if_neg hne]
  · intro id other hne
    refine ⟨?_, Heap.object?_set_of_ne hne⟩
    rw [Heap.object?_free, if_neg hne]
  · intro id field other v hne
    exact Heap.get_set_of_ne hne id v

/-- Operations on two objects, some of which fail: an object is given up twice, a field is filled
that the object has not, and one of an object that is gone. -/
def untidy : List HeapOp :=
  [.alloc ["a", "b", "a"], .alloc [], .set 0 "a" (.int 1), .free 1, .free 1, .set 1 "a" (.int 2),
  .set 0 "c" (.int 3), .set 0 "a" (.ref 1), .get 0 "c"]

/-- After these operations the next object has the number 2, one of the first two objects is there,
and its field `a` has what has been put into it last. A failed operation leaves the heap as it is,
and filling `b` makes no difference to `a`. -/
theorem untidy_follows_log :
    let h := (LoggedHeap.after untidy).heap
    (h.alloc ["d"]).1 = 2 ∧ h.get 0 "a" = .ok (.ref 1) ∧ h.get 0 "b" = .ok .nil ∧
      h.get 0 "c" = .error (.missingField 0 "c") ∧ (h.free 1).1 = .error (.missingObject 1) ∧
      (h.free 1).2 = h ∧ (h.set 0 "b" .nil).2.get 0 "a" = .ok (.ref 1) ∧ h.live + 1 = 2 := by
  intro h
  obtain ⟨halloc, -, hget, -, hfree, hfailed, -, -, hfields, hmade, hlive⟩ :=
    Heap.operations_follow_log untidy
  have hcounts : (LoggedHeap.after untidy).log.made = 2 ∧
      (LoggedHeap.after untidy).log.givenUp = 1 := by decide +kernel
  have hhas : (LoggedHeap.after untidy).log.has 0 = true ∧
      (LoggedHeap.after untidy).log.has 1 = false := by
    decide +kernel
  have hnames : (LoggedHeap.after untidy).log.names 0 = ["a", "b", "a"] := by decide +kernel
  have hlatest : (LoggedHeap.after untidy).log.latest 0 "a" = .ref 1 ∧
      (LoggedHeap.after untidy).log.latest 0 "b" = .nil := by decide +kernel
  have ha : h.get 0 "a" = .ok (.ref 1) := by
    rw [hget]
    simp [hhas, hnames, hlatest]
  have hgone : (h.free 1).1 = .error (.missingObject 1) := by
    rw [hfree]
    simp [hhas]
  refine ⟨(halloc ["d"]).trans hcounts.1, ha, ?_, ?_, hgone, ?_, ?_, ?_⟩
  · rw [hget]
    simp [hhas, hnames, hlatest]
  · rw [hget]
    simp [hhas, hnames]
  · apply hfailed (.free 1) (.missingObject 1)
    rw [Heap.perform, hgone]
    rfl
  · rw [hfields 0 "b" "a" .nil (by decide), ha]
  · rw [hmade, hcounts.1, hcounts.2] at hlive
    exact hlive

end FrameMachine
