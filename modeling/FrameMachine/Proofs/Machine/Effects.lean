import FrameMachine.Machine.Execute

/-!
# What an instruction can do

All that an instruction can do is said once (`Instr.Acts`). It lets its activation go on, with the
stack changed as its effect says and at most one slot changed, or it calls a function, or it
returns, or it fails. The faults that come from the shape of the code and not from the values it
works on (`Fault.ofShape`) have one cause each: too few values on the stack, an unset slot, or a
function that is not registered.
-/

set_option autoImplicit false

namespace FrameMachine

/-- The fault comes from the shape of the code: the stack is too low, a slot is unset or a
function is missing. -/
def Fault.ofShape : Fault → Bool
  | .unknownFunction _ => true
  | .invalidOperand .emptyStack => true
  | .invalidOperand .swapNeedsTwo => true
  | .invalidOperand (.tooFewArguments _ _ _) => true
  | .invalidOperand (.unsetSlot _) => true
  | _ => false

/-! ## Operations -/

/-- The operation, if it fails, does not fail because of the shape of the code. -/
def OfValues {α : Type} : Except Fault α → Bool
  | .ok _ => true
  | .error e => !e.ofShape

section Operations

@[simp] theorem ofValues_ok {α : Type} (a : α) : OfValues (.ok a : Except Fault α) = true := rfl

@[simp] theorem ofValues_error {α : Type}
    (e : Fault) : OfValues (.error e : Except Fault α) = !e.ofShape := rfl

@[simp] theorem ofValues_map {α β : Type} (f : α → β) (r : Except Fault α) :
    OfValues (r.map f) = OfValues r := by
  cases r with
  | ok a => rfl
  | error e => rfl

theorem ofValues_mapError {α : Type} (r : Except StreamFault α) :
    OfValues (r.mapError Fault.stream) = true := by
  cases r with
  | ok a => rfl
  | error e => rfl

theorem UnaryOp.ofValues_converted (text : String) (target : NumberType) (v? : Option Value) :
    OfValues (UnaryOp.converted text target v?) = true := by
  cases v? with
  | some v => rfl
  | none => rfl

theorem UnaryOp.ofValues_apply (op : UnaryOp) (v : Value) : OfValues (op.apply v) = true := by
  unfold UnaryOp.apply
  split <;> simp [Fault.ofShape, UnaryOp.ofValues_converted]

theorem BinaryOp.ofValues_onInts {op : BinaryOp} {a b : Int64} {result : Except Fault Int64}
    (h : op.onInts? a b = some result) : OfValues result = true := by
  unfold BinaryOp.onInts? at h
  split at h <;> grind [OfValues, Fault.ofShape]

theorem BinaryOp.ofValues_onDoubles {op : BinaryOp} {a b : Double} {result : Except Fault Double}
    (h : op.onDoubles? a b = some result) : OfValues result = true := by
  unfold BinaryOp.onDoubles? at h
  split at h <;> grind [OfValues, Fault.ofShape]

theorem BinaryOp.ofValues_arithmetic (op : BinaryOp) (left right : Value) :
    OfValues (op.arithmetic left right) = true := by
  unfold BinaryOp.arithmetic
  split
  · rfl
  · rfl
  · split
    · rename_i result h
      simpa using BinaryOp.ofValues_onInts h
    · rfl
  · split
    · rename_i result h
      simpa using BinaryOp.ofValues_onDoubles h
    · rfl
  · rfl

theorem BinaryOp.ofValues_comparison (op : BinaryOp) (left right : Value) :
    OfValues (op.comparison left right) = true := by
  unfold BinaryOp.comparison
  extract_lets truth
  cases truth with
  | some b => rfl
  | none => rfl

theorem BinaryOp.ofValues_connective (op : BinaryOp) (left right : Value) :
    OfValues (op.connective left right) = true := by
  unfold BinaryOp.connective
  split <;> rfl

theorem BinaryOp.ofValues_apply (op : BinaryOp) (left right : Value) :
    OfValues (op.apply left right) = true := by
  rw [BinaryOp.apply]
  split
  · rfl
  · cases op with
    | add | sub | mul | div | mod => exact BinaryOp.ofValues_arithmetic _ left right
    | lt | le | gt | ge => exact BinaryOp.ofValues_comparison _ left right
    | and | or => exact BinaryOp.ofValues_connective _ left right
    | eq | ne => rfl

theorem ofValues_charAt (string index : Value) : OfValues (charAt string index) = true := by
  unfold charAt
  split
  · rfl
  · split
    · split <;> rfl
    · rfl

theorem Value.ofValues_object (v : Value) : OfValues v.object = true := by
  cases v <;> rfl

theorem Heap.ofValues_get (h : Heap) (id : Nat) (field : String) :
    OfValues (h.get id field) = true := by
  unfold Heap.get
  split
  · rfl
  · split <;> rfl

theorem Heap.ofValues_set (h : Heap) (id : Nat) (field : String) (v : Value) :
    OfValues (h.set id field v).1 = true := by
  unfold Heap.set
  split
  · rfl
  · split <;> rfl

theorem Heap.ofValues_free (h : Heap) (id : Nat) : OfValues (h.free id).1 = true := by
  unfold Heap.free
  split <;> rfl

end Operations

/-! ## Instructions -/

/-- Where an activation may go on after an instruction, given the place behind it. -/
def Instr.successors (next : Nat) : Instr → List Nat
  | .jump target => [target]
  | .jumpUnless target => [next, target]
  | .ret => []
  | _ => [next]

/-- Where an instruction goes on is the place behind it or its target. -/
theorem Instr.mem_successors {i : Instr} {next place : Nat} (h : place ∈ i.successors next) :
    place = next ∨ i.target? = some place := by
  cases i with
  | jump target =>
    obtain rfl := List.mem_singleton.1 h
    exact Or.inr rfl
  | jumpUnless target =>
    simp only [successors, List.mem_cons, List.not_mem_nil, or_false] at h
    exact h.imp_right fun htarget => congrArg some htarget.symm
  | ret => cases h
  | _ => exact Or.inl (List.mem_singleton.1 h)

/-- The slot in which an instruction stores something. -/
def Instr.stored? : Instr → Option Nat
  | .store slot => some slot
  | _ => none

/-- What an instruction that is not a call may change in its activation. -/
structure Instr.Turns (i : Instr) (f g : Frame) : Prop where
  template : g.template = f.template
  pc : g.pc ∈ i.successors f.pc
  stack : ∃ pops pushes top, i.stackEffect? = some (pops, pushes) ∧ pops ≤ f.stack.length ∧
    top.length = pushes ∧ g.stack = top ++ f.stack.drop pops
  kept : i.stored? = none → g.locals = f.locals
  stored : ∀ slot, i.stored? = some slot → ∃ v, g.locals = f.locals.set slot v

/-- What an instruction can do. -/
inductive Instr.Acts (code : Code) (i : Instr) (f : Frame) (w : World) : Effect → Prop
  | next {g : Frame} {w' : World} : i.Turns f g → Acts code i f w (.next g w')
  | call {name : String} {t : Template} : i = .call name → code.get? name = some t →
      t.arity ≤ f.stack.length →
      Acts code i f w (.call t (f.stack.take t.arity).reverse
        { f with stack := f.stack.drop t.arity } w)
  | ret {v : Value} {rest : List Value} : i = .ret → f.stack = v :: rest →
      Acts code i f w (.ret v w)
  | lacks {pops pushes : Nat} {e : OperandFault} : i.stackEffect? = some (pops, pushes) →
      f.stack.length < pops →
      e = .emptyStack ∨ e = .swapNeedsTwo → Acts code i f w (.fail (.invalidOperand e) w)
  | unset {slot : Nat} : i = .load slot → f.locals.get? slot = none →
      Acts code i f w (.fail (.invalidOperand (.unsetSlot slot)) w)
  | unknown {name : String} : i = .call name → code.get? name = none →
      Acts code i f w (.fail (.unknownFunction name) w)
  | tooFew {name : String} {t : Template} : i = .call name → code.get? name = some t →
      f.stack.length < t.arity →
      Acts code i f w (.fail (.invalidOperand (.tooFewArguments name t.arity f.stack.length)) w)
  | fault {e : Fault} {w' : World} : e.ofShape = false → Acts code i f w (.fail e w')

section Instructions

variable {code : Code} {i : Instr} {f g : Frame} {w w' : World}

/-- An instruction that stores nothing and goes on behind itself. -/
theorem Instr.Turns.plain (popped top : List Value) {rest : List Value}
    (hs : f.stack = popped ++ rest) (hi : i.stackEffect? = some (popped.length, top.length))
    (hnext : i.successors f.pc = [f.pc]) (hstored : i.stored? = none) :
    i.Turns f { f with stack := top ++ rest } where
  template := rfl
  pc := by
    rw [hnext]
    exact List.mem_singleton_self _
  stack := by
    refine ⟨popped.length, top.length, top, hi, ?_, rfl, ?_⟩
    · rw [hs, List.length_append]
      exact Nat.le_add_right _ _
    · rw [hs, List.drop_left]
  kept := fun _ => rfl
  stored := fun slot h => by
    rw [hstored] at h
    cases h

theorem Instr.acts_pop1 {use : Value → Frame → Effect} {pushes : Nat}
    (hi : i.stackEffect? = some (1, pushes))
    (huse : ∀ v rest, f.stack = v :: rest → i.Acts code f w (use v { f with stack := rest })) :
    i.Acts code f w (f.pop1 w use) := by
  rw [Frame.pop1]
  cases hs : f.stack with
  | nil => exact .lacks hi (by simp [hs]) (Or.inl rfl)
  | cons v rest => exact huse v rest hs

theorem length_lt_two {stack : List Value} (h : ∀ v u rest, stack = v :: u :: rest → False) :
    stack.length < 2 := by
  match stack with
  | [] => exact Nat.zero_lt_two
  | [v] => exact Nat.one_lt_two
  | v :: u :: rest => exact (h v u rest rfl).elim

theorem Instr.acts_pop2 {use : Value → Value → Frame → Effect} {pushes : Nat}
    (hi : i.stackEffect? = some (2, pushes))
    (huse : ∀ v u rest, f.stack = v :: u :: rest →
      i.Acts code f w (use v u { f with stack := rest })) :
    i.Acts code f w (f.pop2 w use) := by
  rw [Frame.pop2]
  split
  · rename_i v u rest hs
    exact huse v u rest hs
  · rename_i hs
    exact .lacks hi (length_lt_two hs) (Or.inl rfl)

theorem Instr.acts_pushing {r : Except Fault Value} (hr : OfValues r = true)
    (hturns : ∀ v, i.Turns f (g.push v)) :
    i.Acts code f w (.pushing g w' r) := by
  cases r with
  | ok v => exact .next (hturns v)
  | error e => exact .fault (by simpa using hr)

theorem Instr.acts_after {r : Except Fault Unit} (hr : OfValues r = true) (hturns : i.Turns f g) :
    i.Acts code f w (.after g w' r) := by
  cases r with
  | ok _ => exact .next hturns
  | error e => exact .fault (by simpa using hr)

theorem Instr.acts_change {v : Value} {operation : Heap → Nat → Except Fault Unit × Heap}
    (hr : ∀ h id, OfValues (operation h id).1 = true) (hturns : i.Turns f g) :
    i.Acts code f w (g.change w v operation) := by
  rw [Frame.change]
  have hv := v.ofValues_object
  cases hobj : v.object with
  | error e =>
    rw [hobj] at hv
    exact .fault (by simpa using hv)
  | ok id => exact acts_after (hr _ id) hturns

/-- What an instruction does is one of the things that it can do. -/
theorem Instr.execute_acts (code : Code) (i : Instr) (f : Frame) (w : World) :
    i.Acts code f w (i.execute code f w) := by
  cases i with
  | push c => exact .next (.plain [] [c.toValue] rfl rfl rfl rfl)
  | pop =>
    rw [execute]
    exact acts_pop1 rfl fun v rest hs => .next (.plain [v] [] hs rfl rfl rfl)
  | load slot =>
    rw [execute, Frame.load]
    cases hv : f.locals.get? slot with
    | some v => exact .next (.plain [] [v] rfl rfl rfl rfl)
    | none => exact .unset rfl hv
  | store slot =>
    rw [execute]
    refine acts_pop1 rfl fun v rest hs => .next ?_
    refine ⟨rfl, List.mem_singleton_self _, ⟨1, 0, [], rfl, by simp [hs], rfl, by simp [hs]⟩, ?_,
      ?_⟩
    · intro h
      cases h
    · intro slot' h
      cases h
      exact ⟨v, rfl⟩
  | unary op =>
    rw [execute]
    refine acts_pop1 rfl fun v rest hs => ?_
    exact acts_pushing (op.ofValues_apply v) fun u => .plain [v] [u] hs rfl rfl rfl
  | binary op =>
    rw [execute]
    refine acts_pop2 rfl fun right left rest hs => ?_
    exact acts_pushing (op.ofValues_apply left right) fun u =>
      .plain [right, left] [u] hs rfl rfl rfl
  | charAt =>
    rw [execute]
    refine acts_pop2 rfl fun string index rest hs => ?_
    exact acts_pushing (ofValues_charAt string index) fun u =>
      .plain [string, index] [u] hs rfl rfl rfl
  | jump target =>
    refine .next ⟨rfl, List.mem_singleton_self _, ⟨0, 0, [], rfl, Nat.zero_le _, rfl, rfl⟩, fun _ =>
      rfl, ?_⟩
    intro slot h
    cases h
  | jumpUnless target =>
    rw [execute]
    refine acts_pop1 rfl fun v rest hs => ?_
    have hgo (place : Nat) (hplace : place = f.pc ∨ place = target) :
        (Instr.jumpUnless target).Turns f { f with pc := place, stack := rest } := by
      refine ⟨rfl, by simpa [successors] using hplace,
        ⟨1, 0, [], rfl, by simp [hs], rfl, by simp [hs]⟩, fun _ => rfl, ?_⟩
      intro slot h
      cases h
    cases v with
    | bool b =>
      cases b with
      | true => exact .next (hgo f.pc (Or.inl rfl))
      | false => exact .next (hgo target (Or.inr rfl))
    | nil | int | double | char | str | ref => exact .fault rfl
  | call name =>
    rw [execute, Frame.call]
    cases ht : code.get? name with
    | none => exact .unknown rfl ht
    | some t =>
      by_cases hle : t.arity ≤ f.stack.length
      · simp only [if_pos hle]
        exact .call rfl ht hle
      · simp only [if_neg hle]
        exact .tooFew rfl ht (Nat.lt_of_not_le hle)
  | ret =>
    rw [execute]
    exact acts_pop1 rfl fun v rest hs => .ret rfl hs
  | write =>
    rw [execute]
    refine acts_pop1 rfl fun v rest hs => ?_
    exact acts_after (ofValues_mapError _) (.plain [v] [] hs rfl rfl rfl)
  | read =>
    refine acts_pushing ?_ fun v => .plain [] [v] rfl rfl rfl rfl
    rw [ofValues_map]
    exact ofValues_mapError _
  | alloc fields => exact .next (.plain [] [_] rfl rfl rfl rfl)
  | free =>
    rw [execute]
    refine acts_pop1 rfl fun v rest hs => ?_
    exact acts_change Heap.ofValues_free (.plain [v] [] hs rfl rfl rfl)
  | getField field =>
    rw [execute]
    refine acts_pop1 rfl fun v rest hs => ?_
    refine acts_pushing ?_ fun u => .plain [v] [u] hs rfl rfl rfl
    have hv := v.ofValues_object
    cases hobj : v.object with
    | ok id => exact w.heap.ofValues_get id field
    | error e =>
      rw [hobj] at hv
      exact hv
  | setField field =>
    rw [execute]
    refine acts_pop2 rfl fun value v rest hs => ?_
    exact acts_change (fun h id => h.ofValues_set id field value)
      (.plain [value, v] [] hs rfl rfl rfl)
  | dup =>
    rw [execute]
    exact acts_pop1 rfl fun v rest hs => .next (.plain [v] [v, v] hs rfl rfl rfl)
  | swap =>
    rw [execute, Frame.swap]
    split
    · rename_i upper lower rest hs
      exact .next (.plain [upper, lower] [lower, upper] hs rfl rfl rfl)
    · rename_i hs
      exact .lacks rfl (length_lt_two hs) (Or.inr rfl)
  | nop => exact .next (.plain [] [] rfl rfl rfl rfl)

end Instructions

end FrameMachine
