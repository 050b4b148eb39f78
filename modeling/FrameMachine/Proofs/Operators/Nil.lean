import FrameMachine.Proofs.Machine.Frames
import FrameMachine.Proofs.Operators.Integers

/-!
# Where nil is refused

Some instructions need a value that is not nil at certain places of the stack (`Instr.concrete`). If
one of these places holds nil, the instruction fails with a nil dereference, whatever else is on the
stack: nil is looked for before the types of the operands are, and before a divisor of zero. No
other cause leads to this fault. So an instruction that has its operands fails with it exactly if it
meets nil at one of the places (`Instr.nilRefused_execute`).

The two tests of equality take nil, which is equal to itself and to nothing else.
-/

set_option autoImplicit false

namespace FrameMachine

/-! ## Operations -/

/-- The operation fails with a nil dereference. -/
def nilRefused {α : Type} : Except Fault α → Bool
  | .error .nilDereference => true
  | _ => false

section Operations

variable {α : Type}

@[simp] theorem nilRefused_map {β : Type} (f : α → β) (r : Except Fault α) :
    nilRefused (r.map f) = nilRefused r := by
  cases r with
  | ok a => rfl
  | error e => cases e <;> rfl

@[simp] theorem nilRefused_mapError (r : Except StreamFault α) :
    nilRefused (r.mapError Fault.stream) = false := by
  cases r with
  | ok a => rfl
  | error e => rfl

theorem UnaryOp.nilRefused_converted (text : String) (target : NumberType) (v? : Option Value) :
    nilRefused (UnaryOp.converted text target v?) = false := by
  cases v? with
  | some v => rfl
  | none => rfl

/-- All operations on one operand refuse nil. -/
theorem UnaryOp.nilRefused_apply (op : UnaryOp) (v : Value) :
    nilRefused (op.apply v) = v.isNil := by
  cases v with
  | nil => cases op <;> rfl
  | str s =>
    cases op with
    | toInt | toDouble => exact nilRefused_converted s _ _
    | neg | not | length | toText => rfl
  | char c =>
    cases op with
    | toInt | toDouble => exact nilRefused_converted c.toString _ _
    | neg | not | length | toText => rfl
  | int _ | double _ | bool _ | ref _ => cases op <;> rfl

theorem BinaryOp.nilRefused_onInts {op : BinaryOp} {a b : Int64} {result : Except Fault Int64}
    (h : op.onInts? a b = some result) : nilRefused result = false := by
  cases op with
  | add | sub | mul =>
    obtain rfl := Option.some.inj h
    rfl
  | div | mod =>
    obtain rfl := Option.some.inj h
    split <;> rfl
  | and | or | lt | le | gt | ge | eq | ne => cases h

theorem BinaryOp.nilRefused_onDoubles {op : BinaryOp} {a b : Double} {result : Except Fault Double}
    (h : op.onDoubles? a b = some result) : nilRefused result = false := by
  cases op with
  | add | sub | mul =>
    obtain rfl := Option.some.inj h
    rfl
  | div =>
    obtain rfl := Option.some.inj h
    split <;> rfl
  | mod | and | or | lt | le | gt | ge | eq | ne => cases h

theorem BinaryOp.nilRefused_arithmetic (op : BinaryOp) (left right : Value) :
    nilRefused (op.arithmetic left right) = false := by
  unfold BinaryOp.arithmetic
  split
  · rfl
  · rfl
  · split
    · rename_i result h
      simpa using nilRefused_onInts h
    · rfl
  · split
    · rename_i result h
      simpa using nilRefused_onDoubles h
    · rfl
  · rfl

theorem BinaryOp.nilRefused_comparison (op : BinaryOp) (left right : Value) :
    nilRefused (op.comparison left right) = false := by
  unfold BinaryOp.comparison
  extract_lets truth
  cases truth with
  | some b => rfl
  | none => rfl

theorem BinaryOp.nilRefused_connective (op : BinaryOp) (left right : Value) :
    nilRefused (op.connective left right) = false := by
  unfold BinaryOp.connective
  split <;> rfl

/-- Once nil has been excluded, it is not found any more. -/
theorem BinaryOp.nilRefused_applyDefined (op : BinaryOp) (left right : Value) :
    nilRefused (op.applyDefined left right) = false := by
  cases op with
  | add | sub | mul | div | mod => exact nilRefused_arithmetic _ left right
  | lt | le | gt | ge => exact nilRefused_comparison _ left right
  | and | or => exact nilRefused_connective _ left right
  | eq | ne => rfl

theorem BinaryOp.nilRefused_apply (op : BinaryOp) (left right : Value) :
    nilRefused (op.apply left right) = (!op.isEquality && (left.isNil || right.isNil)) := by
  rw [BinaryOp.apply]
  split
  · rename_i hnil
    rw [hnil]
    rfl
  · rename_i hnil
    rw [Bool.not_eq_true] at hnil
    rw [hnil, nilRefused_applyDefined]

theorem nilRefused_charAt (string index : Value) :
    nilRefused (charAt string index) = (string.isNil || index.isNil) := by
  unfold charAt
  split
  · rename_i hnil
    rw [hnil]
    rfl
  · rename_i hnil
    rw [Bool.not_eq_true] at hnil
    rw [hnil]
    split
    · split <;> rfl
    · rfl

theorem Heap.nilRefused_get (h : Heap) (id : Nat) (field : String) :
    nilRefused (h.get id field) = false := by
  unfold Heap.get
  split
  · rfl
  · split <;> rfl

theorem Heap.nilRefused_set (h : Heap) (id : Nat) (field : String) (v : Value) :
    nilRefused (h.set id field v).1 = false := by
  unfold Heap.set
  split
  · rfl
  · split <;> rfl

theorem Heap.nilRefused_free (h : Heap) (id : Nat) : nilRefused (h.free id).1 = false := by
  unfold Heap.free
  split <;> rfl

end Operations

/-! ## Instructions -/

/-- The places of the stack, counted from its top, at which an instruction needs something
other than nil. -/
def Instr.concrete : Instr → List Nat
  | .binary .eq | .binary .ne => []
  | .binary _ | .charAt => [0, 1]
  | .unary _ | .jumpUnless _ | .free | .getField _ => [0]
  -- the value that is put into the field is on top, and may be nil
  | .setField _ => [1]
  | .push _ | .pop | .load _ | .store _ | .jump _ | .call _ | .ret | .write | .read | .alloc _
  | .dup | .swap | .nop => []

/-- Nil is at one of the places at which the instruction needs something else. -/
def Instr.MeetsNil (i : Instr) (stack : List Value) : Prop :=
  ∃ place ∈ i.concrete, stack[place]? = some .nil

/-- The stack holds as many values as the instruction takes. -/
def Instr.Supplied (i : Instr) (stack : List Value) : Prop :=
  ∀ pops pushes, i.stackEffect? = some (pops, pushes) → pops ≤ stack.length

/-- The effect is a nil dereference. -/
def Effect.nilRefused : Effect → Bool
  | .fail .nilDereference _ => true
  | _ => false

section Instructions

variable {code : Code} {i : Instr} {f : Frame} {w : World} {stack : List Value}

theorem Effect.nilRefused_eq_true_iff {effect : Effect} :
    effect.nilRefused = true ↔ ∃ w, effect = .fail .nilDereference w := by
  cases effect with
  | fail e w => cases e <;> simp [nilRefused]
  | next | call | ret => simp [nilRefused]

@[simp] theorem Effect.nilRefused_pushing (f : Frame) (w : World) (r : Except Fault Value) :
    (Effect.pushing f w r).nilRefused = FrameMachine.nilRefused r := by
  cases r with
  | ok v => rfl
  | error e => cases e <;> rfl

@[simp] theorem Effect.nilRefused_after (f : Frame) (w : World) (r : Except Fault Unit) :
    (Effect.after f w r).nilRefused = FrameMachine.nilRefused r := by
  cases r with
  | ok v => rfl
  | error e => cases e <;> rfl

theorem Frame.nilRefused_jumpUnless (f : Frame) (w : World) (target : Nat) (v : Value) :
    (f.jumpUnless w target v).nilRefused = v.isNil := by
  cases v with
  | bool b => cases b <;> rfl
  | nil | int | double | char | str | ref => rfl

/-- The heap is changed only if the value refers to an object. -/
theorem Frame.nilRefused_change {operation : Heap → Nat → Except Fault Unit × Heap}
    (h : ∀ heap id, FrameMachine.nilRefused (operation heap id).1 = false) (v : Value) :
    (f.change w v operation).nilRefused = v.isNil := by
  cases v with
  | ref id => exact (Effect.nilRefused_after f _ _).trans (h w.heap id)
  | nil | int | double | bool | char | str => rfl

theorem Value.nilRefused_bind_object {next : Nat → Except Fault Value}
    (h : ∀ id, FrameMachine.nilRefused (next id) = false) (v : Value) :
    FrameMachine.nilRefused (v.object.bind next) = v.isNil := by
  cases v with
  | ref id => exact h id
  | nil | int | double | bool | char | str => rfl

theorem isNil_eq_true_iff {v : Value} : v.isNil = true ↔ v = .nil := by
  cases v <;> simp [Value.isNil, Value.type]

theorem Instr.Supplied.exists_cons {pushes : Nat} (h : i.Supplied stack)
    (hi : i.stackEffect? = some (1, pushes)) :
    ∃ v rest, stack = v :: rest := by
  have hle := h 1 pushes hi
  match stack with
  | v :: rest => exact ⟨v, rest, rfl⟩

theorem Instr.Supplied.exists_cons_cons {pushes : Nat} (h : i.Supplied stack)
    (hi : i.stackEffect? = some (2, pushes)) :
    ∃ v u rest, stack = v :: u :: rest := by
  have hle := h 2 pushes hi
  match stack with
  | [v] => exact absurd hle (Nat.not_succ_le_self 1)
  | v :: u :: rest => exact ⟨v, u, rest, rfl⟩

/-! ### Instructions that take nil -/

theorem Frame.nilRefused_pop1 {use : Value → Frame → Effect}
    (h : ∀ v g, (use v g).nilRefused = false) :
    (f.pop1 w use).nilRefused = false := by
  rw [pop1]
  split
  · exact h _ _
  · rfl

theorem Frame.nilRefused_pop2 {use : Value → Value → Frame → Effect}
    (h : ∀ v u g, (use v u g).nilRefused = false) :
    (f.pop2 w use).nilRefused = false := by
  rw [pop2]
  split
  · exact h _ _ _
  · rfl

theorem Frame.nilRefused_load (f : Frame) (w : World) (slot : Nat) :
    (f.load w slot).nilRefused = false := by
  rw [load]
  split <;> rfl

theorem Frame.nilRefused_call (code : Code) (f : Frame) (w : World) (name : String) :
    (f.call code w name).nilRefused = false := by
  rw [call]
  split
  · rfl
  · split <;> rfl

theorem Frame.nilRefused_swap (f : Frame) (w : World) : (f.swap w).nilRefused = false := by
  rw [swap]
  split <;> rfl

theorem Frame.nilRefused_write (f : Frame) (w : World) (v : Value) :
    (f.write w v).nilRefused = false :=
  (Effect.nilRefused_after f _ _).trans (nilRefused_mapError _)

theorem Frame.nilRefused_read (f : Frame) (w : World) : (f.read w).nilRefused = false := by
  refine (Effect.nilRefused_pushing f _ _).trans ?_
  rw [nilRefused_map, nilRefused_mapError]

/-- An instruction that needs no value other than nil does not fail with a nil dereference, even if
the stack is too low. -/
theorem Instr.nilRefused_execute_eq_false (code : Code) (f : Frame) (w : World)
    (h : i.concrete = []) :
    (i.execute code f w).nilRefused = false := by
  cases i with
  | push | jump | alloc | nop => rfl
  | pop | store | dup | ret =>
    rw [execute]
    exact Frame.nilRefused_pop1 fun _ _ => rfl
  | load slot => exact f.nilRefused_load w slot
  | call name => exact f.nilRefused_call code w name
  | swap => exact f.nilRefused_swap w
  | write => exact Frame.nilRefused_pop1 fun v g => g.nilRefused_write w v
  | read => exact f.nilRefused_read w
  | binary op =>
    cases op with
    | eq | ne =>
      rw [execute]
      exact Frame.nilRefused_pop2 fun _ _ _ => rfl
    | add | sub | mul | div | mod | and | or | lt | le | gt | ge => cases h
  | unary | charAt | jumpUnless | free | getField | setField => cases h

/-! ### Instructions that refuse nil -/

section Places

variable {v u : Value} {rest : List Value}

theorem Frame.pop1_of_stack {use : Value → Frame → Effect} (hs : f.stack = v :: rest) :
    f.pop1 w use = use v { f with stack := rest } := by
  rw [pop1, hs]

theorem Frame.pop2_of_stack {use : Value → Value → Frame → Effect} (hs : f.stack = v :: u :: rest) :
    f.pop2 w use = use v u { f with stack := rest } := by
  rw [pop2, hs]

theorem Instr.meetsNil_top (hi : i.concrete = [0]) (hs : stack = v :: rest) :
    i.MeetsNil stack ↔ v.isNil = true := by
  simp [MeetsNil, hi, hs, isNil_eq_true_iff]

theorem Instr.meetsNil_second (hi : i.concrete = [1]) (hs : stack = v :: u :: rest) :
    i.MeetsNil stack ↔ u.isNil = true := by
  simp [MeetsNil, hi, hs, isNil_eq_true_iff]

theorem Instr.meetsNil_both (hi : i.concrete = [0, 1]) (hs : stack = v :: u :: rest) :
    i.MeetsNil stack ↔ (u.isNil || v.isNil) = true := by
  simp [MeetsNil, hi, hs, isNil_eq_true_iff, or_comm]

end Places

theorem Instr.nilRefused_unary (op : UnaryOp) (h : (Instr.unary op).Supplied f.stack) :
    ((Instr.unary op).execute code f w).nilRefused = true ↔ (Instr.unary op).MeetsNil f.stack := by
  obtain ⟨v, rest, hs⟩ := h.exists_cons rfl
  rw [execute, Frame.pop1_of_stack hs, Effect.nilRefused_pushing, op.nilRefused_apply,
    meetsNil_top rfl hs]

theorem Instr.nilRefused_binary (op : BinaryOp) (h : (Instr.binary op).Supplied f.stack) :
    ((Instr.binary op).execute code f w).nilRefused = true ↔
      (Instr.binary op).MeetsNil f.stack := by
  obtain ⟨right, left, rest, hs⟩ := h.exists_cons_cons rfl
  have hexecute : ((Instr.binary op).execute code f w).nilRefused =
      (!op.isEquality && (left.isNil || right.isNil)) := by
    rw [execute, Frame.pop2_of_stack hs, Effect.nilRefused_pushing, op.nilRefused_apply]
  rw [hexecute]
  cases op with
  | eq | ne => exact iff_of_false Bool.false_ne_true (by simp [MeetsNil, concrete])
  | add | sub | mul | div | mod | and | or | lt | le | gt | ge => exact (meetsNil_both rfl hs).symm

/-- An instruction that has its operands fails with a nil dereference exactly if it meets nil where
it needs a value. -/
theorem Instr.nilRefused_execute (code : Code) (w : World) (h : i.Supplied f.stack) :
    (i.execute code f w).nilRefused = true ↔ i.MeetsNil f.stack := by
  cases i with
  | unary op => exact nilRefused_unary op h
  | binary op => exact nilRefused_binary op h
  | charAt =>
    obtain ⟨string, index, rest, hs⟩ := h.exists_cons_cons rfl
    rw [execute, Frame.pop2_of_stack hs, Effect.nilRefused_pushing, nilRefused_charAt,
      meetsNil_both rfl hs, Bool.or_comm]
  | jumpUnless target =>
    obtain ⟨v, rest, hs⟩ := h.exists_cons rfl
    rw [execute, Frame.pop1_of_stack hs, Frame.nilRefused_jumpUnless, meetsNil_top rfl hs]
  | free =>
    obtain ⟨v, rest, hs⟩ := h.exists_cons rfl
    rw [execute, Frame.pop1_of_stack hs, Frame.nilRefused_change Heap.nilRefused_free,
      meetsNil_top rfl hs]
  | getField field =>
    obtain ⟨v, rest, hs⟩ := h.exists_cons rfl
    rw [execute, Frame.pop1_of_stack hs, Effect.nilRefused_pushing,
      Value.nilRefused_bind_object fun id => w.heap.nilRefused_get id field, meetsNil_top rfl hs]
  | setField field =>
    obtain ⟨value, v, rest, hs⟩ := h.exists_cons_cons rfl
    rw [execute, Frame.pop2_of_stack hs, Frame.nilRefused_change fun heap id =>
      heap.nilRefused_set id field value, meetsNil_second rfl hs]
  | push | pop | load | store | jump | call | ret | write | read | alloc | dup | swap | nop =>
    refine iff_of_false ?_ (by simp [MeetsNil, concrete])
    rw [nilRefused_execute_eq_false code f w rfl]
    exact Bool.false_ne_true

theorem Instr.exists_fail_nil_iff (code : Code) (f : Frame) (w : World) (h : i.Supplied f.stack) :
    (∃ w', i.execute code f w = .fail .nilDereference w') ↔ i.MeetsNil f.stack :=
  Effect.nilRefused_eq_true_iff.symm.trans (nilRefused_execute code w h)

/-- A machine that is about to execute an instruction ends with the fault of the instruction. -/
theorem Machine.located_nil_iff {m : Machine} {maxDepth : Option Nat} (hi : m.top.fetch? = some i)
    (h : i.Supplied m.top.stack) :
    (∃ e, (m.step code maxDepth).located? = some e ∧ e.fault = .nilDereference) ↔
      i.MeetsNil m.top.stack := by
  refine Iff.trans ?_ (Instr.exists_fail_nil_iff code m.top.advance m.world h)
  constructor
  · rintro ⟨e, he, hfault⟩
    obtain ⟨w, hstep⟩ := State.located?_eq_some he
    obtain ⟨-, -, hinstruction, hexecute⟩ := Machine.step_eq_fault hstep
    rw [hi, Option.some.injEq] at hinstruction
    rw [← hinstruction, hfault] at hexecute
    exact ⟨w, hexecute⟩
  · rintro ⟨w, hexecute⟩
    rw [Machine.step_eq hi, hexecute]
    exact ⟨_, rfl, rfl⟩

end Instructions

theorem Value.equals_nil (v : Value) : v.equals .nil = decide (v = .nil) := by
  cases v <;> simp [equals]

theorem Value.nil_equals (v : Value) : Value.nil.equals v = decide (v = .nil) := by
  cases v <;> simp [equals]

/-- An instruction that has its operands fails with a nil dereference exactly if it meets nil where
it needs a value, whatever the other operands are; so does the step of a machine that is about to
execute it. An instruction that needs no such value does not fail in this way even without its
operands. Compared with nil, only nil is equal. -/
theorem Code.nil_refused (code : Code) :
    (∀ (i : Instr) (f : Frame) (w : World), i.Supplied f.stack →
      ((∃ w', i.execute code f w = .fail .nilDereference w') ↔ i.MeetsNil f.stack)) ∧
    (∀ (i : Instr) (f : Frame) (w w' : World), i.concrete = [] →
      i.execute code f w ≠ .fail .nilDereference w') ∧
    (∀ (maxDepth : Option Nat) (m : Machine) (i : Instr), m.top.fetch? = some i →
      i.Supplied m.top.stack →
      ((∃ e, (m.step code maxDepth).located? = some e ∧ e.fault = .nilDereference) ↔
        i.MeetsNil m.top.stack)) ∧
    ∀ v : Value,
      (Instr.binary .eq).Yields [v, .nil] (.ok (.bool (v = .nil))) ∧
      (Instr.binary .eq).Yields [.nil, v] (.ok (.bool (v = .nil))) ∧
      (Instr.binary .ne).Yields [v, .nil] (.ok (.bool (v ≠ .nil))) ∧
      (Instr.binary .ne).Yields [.nil, v] (.ok (.bool (v ≠ .nil))) := by
  refine ⟨fun i f w h => ?_, fun i f w w' h hfails => ?_, fun maxDepth m i hi h => ?_, fun v => ?_⟩
  · exact Instr.exists_fail_nil_iff code f w h
  · have hrefused := Effect.nilRefused_eq_true_iff.2 ⟨w', hfails⟩
    rw [Instr.nilRefused_execute_eq_false code f w h] at hrefused
    cases hrefused
  · exact Machine.located_nil_iff hi h
  · have heq := Instr.yields_binary .eq .nil v
    have heq' := Instr.yields_binary .eq v .nil
    have hne := Instr.yields_binary .ne .nil v
    have hne' := Instr.yields_binary .ne v .nil
    simp only [BinaryOp.apply, BinaryOp.isEquality, BinaryOp.applyDefined, Bool.not_true,
      Bool.false_and, Bool.false_eq_true,
      if_false, Value.equals_nil, Value.nil_equals, ← decide_not] at heq heq' hne hne'
    exact ⟨heq, heq', hne, hne'⟩

/-- About to join nil to a text. -/
def joiningNil : Machine where
  top :=
    { template := { name := "main", arity := 0, code := #[.binary .add] },
      stack := [.str "x", .nil] }
  world := {}

/-- A text does not make nil acceptable, but nil may be put into a field. -/
theorem joiningNil_refused :
    joiningNil.top.fetch? = some (.binary .add) ∧
    (Instr.binary .add).Supplied joiningNil.top.stack ∧
    (∃ e, (joiningNil.step .empty none).located? = some e ∧ e.fault = .nilDereference) ∧
    ¬ ∃ w', (Instr.setField "next").execute .empty { joiningNil.top with stack := [.nil, .ref 0] }
      {} = .fail .nilDereference w' := by
  have hadd : (Instr.binary .add).Supplied joiningNil.top.stack := by
    rintro pops pushes h
    cases h
    decide
  have hset : (Instr.setField "next").Supplied [.nil, .ref 0] := by
    rintro pops pushes h
    cases h
    decide
  have hmeets : (Instr.binary .add).MeetsNil joiningNil.top.stack := ⟨1, by decide, rfl⟩
  have hother : ¬ (Instr.setField "next").MeetsNil [.nil, .ref 0] := by
    rintro ⟨place, hplace, hnil⟩
    obtain rfl := List.mem_singleton.1 hplace
    cases hnil
  obtain ⟨hexecute, -, hstep, -⟩ := Code.nil_refused .empty
  exact ⟨rfl, hadd, (hstep none joiningNil _ rfl hadd).2 hmeets, fun hfails =>
    hother ((hexecute _ _ _ hset).1 hfails)⟩

end FrameMachine
