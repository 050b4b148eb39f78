import FrameMachine.Proofs.Heap.History
import FrameMachine.Proofs.Simulation.Variables

/-!
# References cannot be forged

The only way to come by a reference is to make an object. All other instructions pass on values that
are already there, or compute values that are not references (`Instr.within_execute`). So whatever
the code, all references that a run holds are to objects that were made in this run, and an object
that is found missing was made and given up before (`Code.references_unforgeable`). No typing of the
code is needed for this, and nothing is left over from an earlier run.
-/

set_option autoImplicit false

namespace FrameMachine

/-! ## References to the first objects -/

/-- If the value is a reference, it is to one of the first `n` objects. -/
def Value.Within (n : Nat) : Value → Prop
  | .ref id => id < n
  | _ => True

/-- All references in the activation are to the first `n` objects. -/
structure Frame.Within (n : Nat) (f : Frame) : Prop where
  stack : ∀ v ∈ f.stack, v.Within n
  locals : ∀ slot v, f.locals.get? slot = some v → v.Within n

/-- All references in objects are to the first `n` objects. -/
def Heap.Within (n : Nat) (h : Heap) : Prop :=
  ∀ id fields, h.object? id = some fields → ∀ field ∈ fields, field.2.Within n

/-- If the fault is that an object is missing, it is one of the first `n` objects and
is not there. -/
def Fault.Within (n : Nat) (h : Heap) (e : Fault) : Prop :=
  ∀ id, e = .missingObject id → id < n ∧ h.contains id = false

/-- The fault is that an object is missing. -/
def Fault.isMissing : Fault → Bool
  | .missingObject _ => true
  | _ => false

/-- All references that an effect passes on are to the first `n` objects. -/
def Effect.Within (n : Nat) : Effect → Prop
  | .next f w => f.Within n ∧ w.heap.Within n
  | .call _ arguments caller w => (∀ v ∈ arguments, v.Within n) ∧ caller.Within n ∧ w.heap.Within n
  | .ret v w => v.Within n ∧ w.heap.Within n
  | .fail e w => e.Within n w.heap ∧ w.heap.Within n

/-- All references in a state are to the first `n` objects. -/
def State.Within (n : Nat) : State → Prop
  | .running m => m.top.Within n ∧ (∀ f ∈ m.callers, f.Within n) ∧ m.world.heap.Within n
  | .halted (.ok v) w => v.Within n ∧ w.heap.Within n
  | .halted (.error (.fault e)) w => e.fault.Within n w.heap ∧ w.heap.Within n
  | .halted (.error (.stackOverflow _ _)) w => w.heap.Within n

section Within

variable {n n' : Nat} {f : Frame} {h : Heap} {v : Value}

theorem Value.Within.mono (hv : v.Within n) (hn : n ≤ n') : v.Within n' := by
  cases v with
  | ref id => exact Nat.lt_of_lt_of_le hv hn
  | nil | int | double | bool | char | str => trivial

theorem Frame.Within.mono (hf : f.Within n) (hn : n ≤ n') : f.Within n' where
  stack := fun v hv => (hf.stack v hv).mono hn
  locals := fun slot v hv => (hf.locals slot v hv).mono hn

theorem Heap.Within.mono (hh : h.Within n) (hn : n ≤ n') : h.Within n' :=
  fun id fields hobject field hfield => (hh id fields hobject field hfield).mono hn

theorem State.Within.mono {s : State} (hs : s.Within n) (hn : n ≤ n') : s.Within n' := by
  match s with
  | .running m => exact ⟨hs.1.mono hn, fun f hf => (hs.2.1 f hf).mono hn, hs.2.2.mono hn⟩
  | .halted (.ok v) w => exact ⟨hs.1.mono hn, hs.2.mono hn⟩
  | .halted (.error (.fault e)) w =>
    refine ⟨?_, hs.2.mono hn⟩
    intro id hid
    obtain ⟨hlt, hgone⟩ := hs.1 id hid
    exact ⟨Nat.lt_of_lt_of_le hlt hn, hgone⟩
  | .halted (.error (.stackOverflow depth limit)) w => exact Heap.Within.mono hs hn

theorem Frame.Within.push (hf : f.Within n) (hv : v.Within n) : (f.push v).Within n where
  stack := List.forall_mem_cons.2 ⟨hv, hf.stack⟩
  locals := hf.locals

theorem Frame.Within.withStack {stack : List Value} (hf : f.Within n)
    (hstack : ∀ v ∈ stack, v.Within n) :
    Frame.Within n { f with stack := stack } where
  stack := hstack
  locals := hf.locals

theorem Frame.Within.store (hf : f.Within n) (slot : Nat) (hv : v.Within n) :
    Frame.Within n { f with locals := f.locals.set slot v } where
  stack := hf.stack
  locals := by
    intro place u hu
    rw [Locals.get?_set] at hu
    by_cases hplace : place = slot
    · rw [if_pos hplace] at hu
      cases hu
      exact hv
    · rw [if_neg hplace] at hu
      exact hf.locals place u hu

end Within

/-! ## Operators -/

/-- The result of an operation that has nothing to do with objects. -/
def ObjectFree : Except Fault Value → Bool
  | .ok (.ref _) => false
  | .error (.missingObject _) => false
  | _ => true

section Operators

theorem UnaryOp.objectFree_converted {α : Type} (text : String) (target : NumberType)
    {number : α → Value} (hnumber : ∀ a, ObjectFree (.ok (number a)) = true) (a? : Option α) :
    ObjectFree (converted text target (a?.map number)) = true := by
  cases a? with
  | some a => exact hnumber a
  | none => rfl

theorem UnaryOp.objectFree_apply (op : UnaryOp) (v : Value) : ObjectFree (op.apply v) = true := by
  unfold UnaryOp.apply
  split
  -- the conversions come first: `rfl` would have to read their texts
  all_goals first
    | exact objectFree_converted _ _ (fun _ => rfl) _
    | rfl

theorem BinaryOp.objectFree_arithmetic (op : BinaryOp) (left right : Value) :
    ObjectFree (op.arithmetic left right) = true := by
  unfold BinaryOp.arithmetic
  split
  · rfl
  · rfl
  · split
    · rename_i result hresult
      unfold BinaryOp.onInts? at hresult
      split at hresult <;> grind [ObjectFree, Except.map]
    · rfl
  · split
    · rename_i result hresult
      unfold BinaryOp.onDoubles? at hresult
      split at hresult <;> grind [ObjectFree, Except.map]
    · rfl
  · rfl

theorem BinaryOp.objectFree_comparison (op : BinaryOp) (left right : Value) :
    ObjectFree (op.comparison left right) = true := by
  unfold BinaryOp.comparison
  extract_lets truth
  cases truth with
  | some b => rfl
  | none => rfl

theorem BinaryOp.objectFree_connective (op : BinaryOp) (left right : Value) :
    ObjectFree (op.connective left right) = true := by
  unfold BinaryOp.connective
  split <;> rfl

theorem BinaryOp.objectFree_apply (op : BinaryOp) (left right : Value) :
    ObjectFree (op.apply left right) = true := by
  rw [BinaryOp.apply]
  split
  · rfl
  · cases op with
    | add | sub | mul | div | mod => exact BinaryOp.objectFree_arithmetic _ left right
    | lt | le | gt | ge => exact BinaryOp.objectFree_comparison _ left right
    | and | or => exact BinaryOp.objectFree_connective _ left right
    | eq | ne => rfl

theorem objectFree_charAt (string index : Value) : ObjectFree (charAt string index) = true := by
  unfold charAt
  split
  · rfl
  · split
    · split <;> rfl
    · rfl

end Operators

/-! ## Instructions -/

section Instructions

variable {n : Nat} {f g : Frame} {w : World} {h : Heap} {v : Value} {id : Nat}

theorem Fault.within_of_isMissing {e : Fault} (he : e.isMissing = false) : e.Within n h := by
  rintro id rfl
  cases he

theorem Fault.within_of_stream {r : Except StreamFault Unit} {e : Fault}
    (he : r.mapError Fault.stream = .error e) :
    e.Within n h := by
  cases r with
  | ok _ => cases he
  | error cause =>
    cases he
    exact within_of_isMissing rfl

theorem Effect.within_pushing {r : Except Fault Value} (hg : g.Within n) (hw : w.heap.Within n)
    (hok : ∀ v, r = .ok v → v.Within n) (herror : ∀ e, r = .error e → e.Within n w.heap) :
    (Effect.pushing g w r).Within n := by
  cases r with
  | ok v => exact ⟨hg.push (hok v rfl), hw⟩
  | error e => exact ⟨herror e rfl, hw⟩

/-- The result of an operation that has nothing to do with objects goes on the stack. -/
theorem Effect.within_pushing_of_objectFree {r : Except Fault Value} (hg : g.Within n)
    (hw : w.heap.Within n) (hr : ObjectFree r = true) : (Effect.pushing g w r).Within n := by
  apply within_pushing hg hw
  · rintro v rfl
    cases v with
    | ref id => cases hr
    | nil | int | double | bool | char | str => trivial
  · rintro e rfl id rfl
    cases hr

theorem Effect.within_after {r : Except Fault Unit} (hg : g.Within n) (hw : w.heap.Within n)
    (herror : ∀ e, r = .error e → e.Within n w.heap) : (Effect.after g w r).Within n := by
  cases r with
  | ok _ => exact ⟨hg, hw⟩
  | error e => exact ⟨herror e rfl, hw⟩

theorem Frame.within_pop1 {use : Value → Frame → Effect} (hf : f.Within n) (hw : w.heap.Within n)
    (huse : ∀ v g, v.Within n → g.Within n → (use v g).Within n) : (f.pop1 w use).Within n := by
  rw [pop1]
  cases hs : f.stack with
  | nil => exact ⟨Fault.within_of_isMissing rfl, hw⟩
  | cons v rest =>
    have hstack := hf.stack
    rw [hs, List.forall_mem_cons] at hstack
    exact huse v _ hstack.1 (hf.withStack hstack.2)

theorem Frame.within_pop2 {use : Value → Value → Frame → Effect} (hf : f.Within n)
    (hw : w.heap.Within n)
    (huse : ∀ v u g, v.Within n → u.Within n → g.Within n → (use v u g).Within n) :
    (f.pop2 w use).Within n := by
  unfold pop2
  split
  · rename_i v u rest hs
    have hstack := hf.stack
    rw [hs, List.forall_mem_cons, List.forall_mem_cons] at hstack
    exact huse v u _ hstack.1 hstack.2.1 (hf.withStack hstack.2.2)
  · exact ⟨Fault.within_of_isMissing rfl, hw⟩

/-- A value that is no reference is found out before the heap is looked at. -/
theorem Value.within_of_object_error {e : Fault} (he : v.object = .error e) : e.Within n h := by
  rintro id rfl
  cases v <;> cases he

theorem Value.Within.lt_of_object (hv : v.Within n) (hid : v.object = .ok id) : id < n := by
  cases v with
  | ref object =>
    cases hid
    exact hv
  | nil | int | double | bool | char | str => cases hid

theorem Heap.contains_eq_false (hobject : h.object? id = none) : h.contains id = false := by
  rw [contains, hobject]
  rfl

theorem Heap.within_missing (hid : id < n) (hobject : h.object? id = none) :
    (Fault.missingObject id).Within n h := by
  rintro _ ⟨⟩
  exact ⟨hid, contains_eq_false hobject⟩

theorem Heap.Within.alloc (hh : h.Within n) (fields : List String) :
    (h.alloc fields).2.Within n := by
  intro id contents hobject field hfield
  rw [object?_alloc] at hobject
  by_cases heq : id = h.allocated
  · rw [if_pos heq] at hobject
    cases hobject
    obtain ⟨name, -, rfl⟩ := List.mem_map.1 hfield
    trivial
  · rw [if_neg heq] at hobject
    exact hh id contents hobject field hfield

theorem Heap.Within.free (hh : h.Within n) (id : Nat) : (h.free id).2.Within n := by
  intro other contents hobject field hfield
  rw [object?_free] at hobject
  by_cases heq : other = id
  · rw [if_pos heq] at hobject
    cases hobject
  · rw [if_neg heq] at hobject
    exact hh other contents hobject field hfield

/-- A field that has been set has the new contents or the old ones. -/
theorem Fields.mem_of_set? {fields fields' : Fields} {name : String} {field : String × Value}
    (hset : fields.set? name v = some fields') (hfield : field ∈ fields') :
    field.2 = v ∨ field ∈ fields := by
  rw [set?] at hset
  split at hset
  · cases hset
    obtain ⟨⟨label, old⟩, hold, rfl⟩ := List.mem_map.1 hfield
    by_cases hlabel : label = name
    · exact Or.inl (by simp [hlabel])
    · refine Or.inr ?_
      simpa [hlabel] using hold
  · cases hset

theorem Heap.Within.set (hh : h.Within n) (hv : v.Within n) (id : Nat) (name : String) :
    (h.set id name v).2.Within n := by
  intro other contents hobject field hfield
  rcases h.object?_set id name v other with hsame | ⟨fields, fields', hold, hset, hnew⟩
  · rw [hsame] at hobject
    exact hh other contents hobject field hfield
  · rw [hnew, Option.some.injEq] at hobject
    subst hobject
    rcases Fields.mem_of_set? hset hfield with heq | hmem
    · rw [heq]
      exact hv
    · exact hh other fields hold field hmem

theorem Heap.Within.get {name : String} (hh : h.Within n) (hget : h.get id name = .ok v) :
    v.Within n := by
  rw [Heap.get] at hget
  cases hobject : h.object? id with
  | none =>
    rw [hobject] at hget
    cases hget
  | some fields =>
    simp only [hobject] at hget
    cases hlookup : fields.get? name with
    | none =>
      simp only [hlookup] at hget
      cases hget
    | some value =>
      simp only [hlookup] at hget
      cases hget
      obtain ⟨before, after, hfields, -⟩ := List.lookup_eq_some_iff.1 hlookup
      exact hh id fields hobject (name, v) (by simp [hfields])

theorem Heap.within_get_error {e : Fault} {name : String} (hid : id < n)
    (hget : h.get id name = .error e) :
    e.Within n h := by
  rw [Heap.get] at hget
  cases hobject : h.object? id with
  | none =>
    rw [hobject] at hget
    cases hget
    exact within_missing hid hobject
  | some fields =>
    simp only [hobject] at hget
    split at hget
    · cases hget
    · cases hget
      exact Fault.within_of_isMissing rfl

/-- An object that cannot be given up is missing. -/
theorem Heap.within_free_error {e : Fault} (hid : id < n) (hfree : (h.free id).1 = .error e) :
    e.Within n (h.free id).2 := by
  rw [Heap.free] at hfree ⊢
  cases hobject : h.object? id with
  | none =>
    rw [hobject] at hfree
    cases hfree
    exact within_missing hid hobject
  | some fields =>
    rw [hobject] at hfree
    cases hfree

theorem Heap.within_set_error {e : Fault} {name : String} (hid : id < n)
    (hset : (h.set id name v).1 = .error e) :
    e.Within n (h.set id name v).2 := by
  rw [Heap.set] at hset ⊢
  cases hobject : h.object? id with
  | none =>
    rw [hobject] at hset
    cases hset
    exact within_missing hid hobject
  | some fields =>
    simp only [hobject] at hset ⊢
    cases hfield : fields.set? name v with
    | some fields' =>
      simp only [hfield] at hset
      cases hset
    | none =>
      simp only [hfield] at hset
      cases hset
      exact Fault.within_of_isMissing rfl

/-- A change of an object, if whatever the change does is within bounds. -/
theorem Frame.within_change {operation : Heap → Nat → Except Fault Unit × Heap} (hf : f.Within n)
    (hw : w.heap.Within n) (hv : v.Within n) (hheap : ∀ id, (operation w.heap id).2.Within n)
    (herror : ∀ id e, id < n → (operation w.heap id).1 = .error e →
      e.Within n (operation w.heap id).2) :
    (f.change w v operation).Within n := by
  rw [change]
  cases hobject : v.object with
  | error e => exact ⟨Value.within_of_object_error hobject, hw⟩
  | ok id =>
    cases w with
    | mk heap input output =>
      exact Effect.within_after hf (hheap id) fun e he => herror id e (hv.lt_of_object hobject) he

/-- A line that is read, or a failure to read one, has nothing to do with objects. -/
theorem objectFree_line (r : Except StreamFault String) :
    ObjectFree ((r.mapError Fault.stream).map Value.str) = true := by
  cases r with
  | ok line => rfl
  | error e => rfl

/-- An instruction leaves no references but those that it finds, and the one to the object
that it makes. -/
theorem Instr.within_execute (code : Code) (i : Instr) (hf : f.Within n) (hw : w.heap.Within n)
    (hn : (i.worldAfter f.stack w).heap.allocated ≤ n) : (i.execute code f w).Within n := by
  cases i with
  | push c =>
    refine ⟨hf.push ?_, hw⟩
    cases c <;> trivial
  | pop =>
    rw [execute]
    exact Frame.within_pop1 hf hw fun v g _ hg => ⟨hg, hw⟩
  | load slot =>
    rw [execute, Frame.load]
    cases hv : f.locals.get? slot with
    | some v => exact ⟨hf.push (hf.locals slot v hv), hw⟩
    | none => exact ⟨Fault.within_of_isMissing rfl, hw⟩
  | store slot =>
    rw [execute]
    exact Frame.within_pop1 hf hw fun v g hv hg => ⟨hg.store slot hv, hw⟩
  | unary op =>
    rw [execute]
    exact Frame.within_pop1 hf hw fun v g _ hg =>
      Effect.within_pushing_of_objectFree hg hw (op.objectFree_apply v)
  | binary op =>
    rw [execute]
    exact Frame.within_pop2 hf hw fun right left g _ _ hg =>
      Effect.within_pushing_of_objectFree hg hw (op.objectFree_apply left right)
  | charAt =>
    rw [execute]
    exact Frame.within_pop2 hf hw fun string index g _ _ hg =>
      Effect.within_pushing_of_objectFree hg hw (objectFree_charAt string index)
  | jump target => exact ⟨⟨hf.stack, hf.locals⟩, hw⟩
  | jumpUnless target =>
    rw [execute]
    refine Frame.within_pop1 hf hw fun v g _ hg => ?_
    unfold Frame.jumpUnless
    split
    · exact ⟨hg, hw⟩
    · exact ⟨⟨hg.stack, hg.locals⟩, hw⟩
    · exact ⟨Fault.within_of_isMissing rfl, hw⟩
    · exact ⟨Fault.within_of_isMissing rfl, hw⟩
  | call name =>
    rw [execute]
    unfold Frame.call
    split
    · exact ⟨Fault.within_of_isMissing rfl, hw⟩
    · split
      · refine ⟨?_, hf.withStack ?_, hw⟩
        · intro v hv
          exact hf.stack v (List.mem_of_mem_take (List.mem_reverse.1 hv))
        · intro v hv
          exact hf.stack v (List.mem_of_mem_drop hv)
      · exact ⟨Fault.within_of_isMissing rfl, hw⟩
  | ret =>
    rw [execute]
    exact Frame.within_pop1 hf hw fun v g hv _ => ⟨hv, hw⟩
  | write =>
    rw [execute]
    refine Frame.within_pop1 hf hw fun v g _ hg => ?_
    cases w with
    | mk heap input output =>
      exact Effect.within_after hg hw fun e he => Fault.within_of_stream he
  | read =>
    cases w with
    | mk heap input output => exact Effect.within_pushing_of_objectFree hf hw (objectFree_line _)
  | alloc fields =>
    -- the one instruction that makes a reference
    have hnew : w.heap.allocated < n := by
      rw [worldAfter, Heap.allocated_alloc] at hn
      exact hn
    exact ⟨hf.push hnew, hw.alloc fields⟩
  | free =>
    rw [execute]
    refine Frame.within_pop1 hf hw fun v g hv hg => ?_
    exact Frame.within_change hg hw hv hw.free fun id e hid he => Heap.within_free_error hid he
  | getField field =>
    rw [execute]
    refine Frame.within_pop1 hf hw fun v g hv hg => ?_
    cases hobject : v.object with
    | error e => exact ⟨Value.within_of_object_error hobject, hw⟩
    | ok id =>
      apply Effect.within_pushing hg hw
      · intro u hu
        exact hw.get hu
      · intro e he
        exact Heap.within_get_error (hv.lt_of_object hobject) he
  | setField field =>
    rw [execute]
    refine Frame.within_pop2 hf hw fun value v g hvalue hv hg => ?_
    exact Frame.within_change hg hw hv (fun id => hw.set hvalue id field) fun id e hid he =>
      Heap.within_set_error hid he
  | dup =>
    rw [execute]
    exact Frame.within_pop1 hf hw fun v g hv hg => ⟨(hg.push hv).push hv, hw⟩
  | swap =>
    rw [execute]
    unfold Frame.swap
    split
    · rename_i upper lower rest hs
      have hstack := hf.stack
      rw [hs, List.forall_mem_cons, List.forall_mem_cons] at hstack
      have hswapped : ∀ v ∈ lower :: upper :: rest, v.Within n := by
        rw [List.forall_mem_cons, List.forall_mem_cons]
        exact ⟨hstack.2.1, hstack.1, hstack.2.2⟩
      exact ⟨hf.withStack hswapped, hw⟩
    · exact ⟨Fault.within_of_isMissing rfl, hw⟩
  | nop => exact ⟨hf, hw⟩

end Instructions

/-! ## Runs -/

section Runs

variable {code : Code} {maxDepth : Option Nat} {n : Nat}

theorem Machine.within_finish {callers : Array Frame} {w : World} {v : Value}
    (hcallers : ∀ f ∈ callers, f.Within n) (hv : v.Within n) (hw : w.heap.Within n) :
    (finish callers w v).Within n := by
  rw [finish]
  cases hback : callers.back? with
  | none => exact ⟨hv, hw⟩
  | some caller =>
    refine ⟨(hcallers caller (Array.mem_of_back? hback)).push hv, ?_, hw⟩
    intro f hf
    rw [← Array.mem_toList_iff, Array.toList_pop] at hf
    exact hcallers f (Array.mem_toList_iff.1 (List.dropLast_subset _ hf))

theorem Machine.within_perform {callers : Array Frame} {effect : Effect} (function : String)
    (pc : Nat) (i : Instr) (hcallers : ∀ f ∈ callers, f.Within n) (heffect : effect.Within n) :
    (perform maxDepth function pc i callers effect).Within n := by
  cases effect with
  | next f w => exact ⟨heffect.1, hcallers, heffect.2⟩
  | ret v w => exact within_finish hcallers heffect.1 heffect.2
  | fail e w => exact heffect
  | call callee arguments caller w =>
    obtain ⟨harguments, hcaller, hw⟩ := heffect
    rw [perform]
    cases exceeded? maxDepth (callers.size + 2) with
    | some limit => exact hw
    | none =>
      refine ⟨⟨harguments, ?_⟩, ?_, hw⟩
      · -- nothing is stored in the slots of a new activation
        intro slot v hv
        simp [Frame.enter, Locals.get?] at hv
      · intro f hf
        rcases Array.mem_push.1 hf with hf | rfl
        · exact hcallers f hf
        · exact hcaller

theorem State.within_step {s : State} (hs : s.Within n)
    (hn : (s.step code maxDepth).world.heap.allocated ≤ n) :
    (s.step code maxDepth).Within n := by
  cases s with
  | halted result w => exact hs
  | running m =>
    obtain ⟨htop, hcallers, hw⟩ := hs
    rw [step, Machine.world_step] at hn
    rw [step]
    cases hi : m.top.fetch? with
    | none =>
      rw [Machine.step]
      simp only [hi]
      exact Machine.within_finish hcallers trivial hw
    | some i =>
      rw [hi] at hn
      rw [Machine.step_eq hi]
      have hadvance : m.top.advance.Within n := ⟨htop.stack, htop.locals⟩
      exact Machine.within_perform _ _ i hcallers (i.within_execute code hadvance hw hn)

/-- All references in a state are to objects that have been made. -/
def State.Grounded (s : State) : Prop := s.Within s.world.heap.allocated

theorem State.Grounded.step {s : State} (hs : s.Grounded) : (s.step code maxDepth).Grounded := by
  -- the bound is that behind the step, and objects never become fewer
  have hle : s.world.heap.allocated ≤ (s.step code maxDepth).world.heap.allocated :=
    s.step_changes.allocated_le
  exact within_step (hs.mono hle) (Nat.le_refl _)

theorem State.Grounded.run {s : State} (hs : s.Grounded) (n : Nat) :
    (s.run code maxDepth n).Grounded := by
  induction n generalizing s with
  | zero => exact hs
  | succ n ih => exact ih hs.step

/-- Nothing is left over from before the start of a run. -/
theorem Code.grounded_start {w : World} {start : Machine} (hstart : code.start w = .ok start) :
    (State.running start).Grounded := by
  obtain ⟨t, -, -, rfl⟩ := Code.start_eq_ok hstart
  refine ⟨⟨?_, ?_⟩, ?_, ?_⟩
  · intro v hv
    cases hv
  · intro slot v hv
    simp [Frame.enter, Locals.get?] at hv
  · intro f hf
    simp at hf
  · intro id fields hobject
    simp [Heap.object?, Heap.empty] at hobject

end Runs

/-- The value is somewhere in the state: on an operand stack, in a local slot, in a field of an
object, or as the result of the run. -/
inductive State.Holds : State → Value → Prop
  | stack {m : Machine} {f : Frame} {v : Value} : f = m.top ∨ f ∈ m.callers → v ∈ f.stack →
      Holds (.running m) v
  | slot {m : Machine} {f : Frame} {slot : Nat} {v : Value} : f = m.top ∨ f ∈ m.callers →
      f.locals.get? slot = some v → Holds (.running m) v
  | field {s : State} {id : Nat} {fields : Fields} {name : String} {v : Value} :
      s.world.heap.object? id = some fields → (name, v) ∈ fields → Holds s v
  | result {v : Value} {w : World} : Holds (.halted (.ok v) w) v

/-- The fault with which the run has ended, if it has ended with one. -/
def State.fault? : State → Option Fault
  | .halted (.error (.fault e)) _ => some e.fault
  | _ => none

section Holds

variable {n : Nat} {s : State}

theorem State.Within.heap (hs : s.Within n) : s.world.heap.Within n := by
  match s with
  | .running m => exact hs.2.2
  | .halted (.ok v) w => exact hs.2
  | .halted (.error (.fault e)) w => exact hs.2
  | .halted (.error (.stackOverflow depth limit)) w => exact hs

theorem State.Within.of_holds {v : Value} (hs : s.Within n) (hv : s.Holds v) : v.Within n := by
  have hframe {m : Machine} {f : Frame} (hm : (State.running m).Within n)
      (hf : f = m.top ∨ f ∈ m.callers) :
      f.Within n := by
    rcases hf with rfl | hf
    · exact hm.1
    · exact hm.2.1 f hf
  cases hv with
  | stack hf hmem => exact (hframe hs hf).stack v hmem
  | slot hf hget => exact (hframe hs hf).locals _ v hget
  | field hobject hmem => exact hs.heap _ _ hobject _ hmem
  | result => exact hs.1

theorem State.Within.of_fault? {id : Nat} (hs : s.Within n)
    (hfault : s.fault? = some (.missingObject id)) :
    id < n ∧ s.world.heap.contains id = false := by
  match s with
  | .running m => cases hfault
  | .halted (.ok v) w => cases hfault
  | .halted (.error (.stackOverflow depth limit)) w => cases hfault
  | .halted (.error (.fault e)) w => exact hs.1 id (Option.some.inj hfault)

end Holds

/-- Whatever the code, and whatever was on the heap before the run, every reference in a state of
the run is to one of the objects that have been made in the run so far. They are numbered from zero,
so the number of the object is smaller than their number.

If the run has ended because an object is missing, this object was made and then given up in
the same run. -/
theorem Code.references_unforgeable {code : Code} {maxDepth : Option Nat} {w : World} {n : Nat}
    {s : State} (hs : code.after maxDepth w n = some s) :
    s.world.heap.allocated = (code.history maxDepth w n).countP Event.isAllocation ∧
    (∀ id, s.Holds (.ref id) → id < (code.history maxDepth w n).countP Event.isAllocation) ∧
    ∀ id, s.fault? = some (.missingObject id) →
      ∃ fields, [Event.allocated id fields, .freed id].Sublist (code.history maxDepth w n) := by
  have hrecorded := Code.recorded_after hs
  have hcount := hrecorded.count
  rw [countP_isAllocation_filter] at hcount
  have hgrounded : s.Grounded := by
    obtain ⟨start, hstart, rfl⟩ := Code.after_eq_some.1 hs
    exact (Code.grounded_start hstart).run n
  refine ⟨hcount, ?_, ?_⟩
  · intro id hid
    rw [← hcount]
    exact hgrounded.of_holds hid
  · intro id hfault
    obtain ⟨hlt, hgone⟩ := hgrounded.of_fault? hfault
    obtain ⟨fields, hsub⟩ := hrecorded.gone id hlt hgone
    exact ⟨fields, hsub.trans List.filter_sublist⟩

/-- Code that makes an object with a reference to itself, gives it up and then looks at it. -/
def afterlife : Code := .ofTemplates [
  { name := "main", arity := 0,
    code := #[.alloc ["self"], .dup, .dup, .setField "self", .dup, .free, .getField "self",
      .ret] }]

/-- What a run with two objects has left, one of which refers to the other. -/
def leftOver : World := { heap := ⟨#[some [("other", .ref 1)], some []]⟩ }

/-- Started in a world in which two objects are left over, `afterlife` holds a reference to its
own first object after four steps. It ends because this object, which it has made and given up
itself, is missing. -/
theorem afterlife_references :
    ∃ s s', afterlife.after none leftOver 4 = some s ∧ s.Holds (.ref 0) ∧
      0 < (afterlife.history none leftOver 4).countP Event.isAllocation ∧
      afterlife.after none leftOver 7 = some s' ∧ s'.fault? = some (.missingObject 0) ∧
      ∃ fields, [Event.allocated 0 fields, .freed 0].Sublist
        (afterlife.history none leftOver 7) := by
  have hheld : (afterlife.after none leftOver 4).any
      (State.atWork fun m => m.top.stack = [.ref 0]) = true := by
    decide +kernel
  obtain ⟨s, hs, htest⟩ := (Option.any_eq_true _ _).1 hheld
  obtain ⟨m, rfl, hstack⟩ := State.atWork_eq_true htest
  have hmem : Value.ref 0 ∈ m.top.stack := by
    rw [of_decide_eq_true hstack]
    exact List.mem_singleton_self _
  have hholds : (State.running m).Holds (.ref 0) := .stack (Or.inl rfl) hmem
  have hends : (afterlife.after none leftOver 7).any (fun s => s.fault? = some (.missingObject 0)) =
      true := by
    decide +kernel
  obtain ⟨s', hs', hfault⟩ := (Option.any_eq_true _ _).1 hends
  have hmissing := of_decide_eq_true hfault
  exact ⟨.running m, s', hs, hholds, (Code.references_unforgeable hs).2.1 0 hholds, hs', hmissing,
    (Code.references_unforgeable hs').2.2 0 hmissing⟩

end FrameMachine
