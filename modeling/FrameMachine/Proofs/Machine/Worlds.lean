import FrameMachine.Machine.Run

/-!
# What instructions do to the world

The world behind an instruction is given outright (`Instr.worldAfter`): it depends on the
instruction, on the values that the instruction takes from the stack and on the world in front of
it. Only five instructions change anything. Calls, returns and failures change nothing beyond this,
so the world behind a step of a run is that behind its instruction (`Machine.world_step`).
-/

set_option autoImplicit false

namespace FrameMachine

/-- The world behind an effect. -/
def Effect.world : Effect → World
  | .next _ w => w
  | .call _ _ _ w => w
  | .ret _ w => w
  | .fail _ w => w

/-- The world that an instruction leaves. One that fails leaves what it has done until then. -/
def Instr.worldAfter (i : Instr) (stack : List Value) (w : World) : World :=
  match i, stack with
  | .write, v :: _ => { w with output := (w.output.write v.text).2 }
  | .read, _ => { w with input := (Input.readLine w.input).2 }
  | .alloc fields, _ => { w with heap := (w.heap.alloc fields).2 }
  | .free, .ref id :: _ => { w with heap := (w.heap.free id).2 }
  | .setField field, value :: .ref id :: _ => { w with heap := (w.heap.set id field value).2 }
  | _, _ => w

/-! ## Instructions -/

section Instructions

variable {f : Frame} {w : World}

@[simp] theorem Effect.world_pushing (f : Frame) (w : World) (r : Except Fault Value) :
    (Effect.pushing f w r).world = w := by
  cases r with
  | ok v => rfl
  | error e => rfl

@[simp] theorem Effect.world_after (f : Frame) (w : World) (r : Except Fault Unit) :
    (Effect.after f w r).world = w := by
  cases r with
  | ok _ => rfl
  | error e => rfl

/-- An operation on one value that leaves the world as it is. -/
theorem Frame.world_pop1 {use : Value → Frame → Effect} (h : ∀ v g, (use v g).world = w) :
    (f.pop1 w use).world = w := by
  rw [pop1]
  cases f.stack with
  | nil => rfl
  | cons v rest => exact h v _

/-- An operation on two values that leaves the world as it is. -/
theorem Frame.world_pop2 {use : Value → Value → Frame → Effect}
    (h : ∀ v u g, (use v u g).world = w) :
    (f.pop2 w use).world = w := by
  unfold pop2
  split
  · exact h _ _ _
  · rfl

theorem Frame.world_write (f : Frame) (w : World) (v : Value) :
    (f.write w v).world = { w with output := (w.output.write v.text).2 } := by
  cases w with
  | mk heap input output => exact Effect.world_after f _ _

theorem Frame.world_read (f : Frame) (w : World) :
    (f.read w).world = { w with input := (Input.readLine w.input).2 } := by
  cases w with
  | mk heap input output => exact Effect.world_pushing f _ _

/-- A change of the object to which a value refers, if it does refer to one. -/
theorem Frame.world_change (f : Frame) (w : World) (v : Value)
    (operation : Heap → Nat → Except Fault Unit × Heap) :
    (f.change w v operation).world =
      match v with
      | .ref id => { w with heap := (operation w.heap id).2 }
      | _ => w := by
  cases w with
  | mk heap input output =>
    cases v with
    | ref id => exact Effect.world_after f _ _
    | nil | int | double | bool | char | str => rfl

theorem Frame.world_jumpUnless (f : Frame) (w : World) (target : Nat) (v : Value) :
    (f.jumpUnless w target v).world = w := by
  unfold jumpUnless
  split <;> rfl

theorem Frame.world_call (code : Code) (f : Frame) (w : World) (name : String) :
    (f.call code w name).world = w := by
  unfold call
  split
  · rfl
  · split <;> rfl

theorem Instr.world_execute (code : Code) (i : Instr) (f : Frame) (w : World) :
    (i.execute code f w).world = i.worldAfter f.stack w := by
  cases i with
  | push | jump | nop => rfl
  | pop | store | ret | dup =>
    rw [execute]
    exact Frame.world_pop1 fun _ _ => rfl
  | load slot =>
    rw [execute, Frame.load]
    cases f.locals.get? slot with
    | none => rfl
    | some v => rfl
  | unary | getField =>
    rw [execute]
    exact Frame.world_pop1 fun _ _ => Effect.world_pushing _ w _
  | binary | charAt =>
    rw [execute]
    exact Frame.world_pop2 fun _ _ _ => Effect.world_pushing _ w _
  | jumpUnless target =>
    rw [execute]
    exact Frame.world_pop1 fun v g => g.world_jumpUnless w target v
  | call name => exact f.world_call code w name
  | swap =>
    rw [execute]
    unfold Frame.swap
    split <;> rfl
  | write =>
    rw [execute, Frame.pop1]
    cases f.stack with
    | nil => rfl
    | cons v rest => exact Frame.world_write _ w v
  | read => exact f.world_read w
  | alloc fields => rfl
  | free =>
    rw [execute, Frame.pop1]
    cases f.stack with
    | nil => rfl
    | cons v rest =>
      rw [Frame.world_change]
      cases v <;> rfl
  | setField field =>
    rw [execute]
    unfold Frame.pop2
    split
    · rename_i value v rest hstack
      rw [Frame.world_change, hstack]
      cases v <;> rfl
    · rename_i hstack
      match hs : f.stack with
      | [] => rfl
      | [value] => rfl
      | value :: v :: rest => exact absurd hs (hstack value v rest)

end Instructions

/-! ## Steps -/

section Steps

variable {code : Code} {maxDepth : Option Nat}

theorem Machine.world_finish (callers : Array Frame) (w : World) (v : Value) :
    (finish callers w v).world = w := by
  rw [finish]
  cases callers.back? with
  | none => rfl
  | some caller => rfl

theorem Machine.world_perform (function : String) (pc : Nat) (i : Instr) (callers : Array Frame)
    (effect : Effect) :
    (perform maxDepth function pc i callers effect).world = effect.world := by
  -- a call beyond the limit ends the run, but in the world in which it was made
  cases effect with
  | next | fail => rfl
  | ret v w => exact world_finish callers w v
  | call callee arguments caller w =>
    rw [perform]
    cases exceeded? maxDepth (callers.size + 2) with
    | none => rfl
    | some limit => rfl

/-- The world behind a step is that behind its instruction. At the end of a function nothing
happens to it. -/
theorem Machine.world_step (m : Machine) :
    (m.step code maxDepth).world =
      match m.top.fetch? with
      | none => m.world
      | some i => i.worldAfter m.top.stack m.world := by
  rw [step]
  cases m.top.fetch? with
  | none => exact world_finish m.callers m.world .nil
  | some i =>
    simp only
    rw [world_perform, Instr.world_execute]

end Steps

/-! ## The output -/

section Output

variable {code : Code} {maxDepth : Option Nat}

theorem Output.put_appends (out : Output) (bytes : Array UInt8) :
    ∃ taken : Array UInt8, taken.toList <+: bytes.toList ∧
      (out.put bytes).2 = { out with written := out.written ++ taken } := by
  refine ⟨out.accepted bytes, ?_, ?_⟩
  · rw [accepted]
    cases out.limit with
    | none => exact List.prefix_refl _
    | some limit => simpa using List.take_prefix (limit - out.written.size) bytes.toList
  · rw [put]
    split
    · rfl
    · split <;> rfl

/-- The output takes the beginning of a text, behind what has been written. One answer is used up,
and nothing else changes. -/
theorem Output.write_appends (out : Output) (text : String) :
    ∃ bytes : Array UInt8, bytes.toList <+: text.toUTF8.data.toList ∧
      (out.write text).2 =
        { out with written := out.written ++ bytes, answers := out.answers.tail } := by
  cases hanswers : out.answers with
  | nil =>
    obtain ⟨bytes, hbytes, hput⟩ := out.put_appends text.toUTF8.data
    refine ⟨bytes, hbytes, ?_⟩
    simp only [write, hanswers, hput, List.tail_nil]
  | cons answer rest =>
    cases answer with
    | takes =>
      refine ⟨text.toUTF8.data, List.prefix_refl _, ?_⟩
      simp only [write, hanswers, List.tail_cons]
    | fails taken reason =>
      refine ⟨text.toUTF8.data.take taken, ?_, ?_⟩
      · simpa using List.take_prefix taken text.toUTF8.data.toList
      · simp only [write, hanswers, List.tail_cons]

/-- The output has taken more bytes and may have used up some of its answers. Nothing
else has changed. -/
def Output.Grows (out out' : Output) : Prop :=
  ∃ bytes used,
    out' = { out with written := out.written ++ bytes, answers := out.answers.drop used }

namespace Output.Grows

variable {a b c : Output}

theorem refl (a : Output) : a.Grows a := ⟨#[], 0, by rw [Array.append_empty, List.drop_zero]⟩

theorem trans (h : a.Grows b) (h' : b.Grows c) : a.Grows c := by
  obtain ⟨bytes, used, rfl⟩ := h
  obtain ⟨bytes', used', rfl⟩ := h'
  exact ⟨bytes ++ bytes', used + used', by rw [Array.append_assoc, List.drop_drop]⟩

/-- What has been written stays written. -/
theorem written (h : a.Grows b) : a.written.toList <+: b.written.toList := by
  obtain ⟨bytes, used, rfl⟩ := h
  rw [Array.toList_append]
  exact List.prefix_append _ _

end Output.Grows

theorem Instr.grows_worldAfter (i : Instr) (stack : List Value) (w : World) :
    w.output.Grows (i.worldAfter stack w).output := by
  unfold worldAfter
  split
  · obtain ⟨bytes, -, hwrite⟩ := w.output.write_appends _
    exact ⟨bytes, 1, by rw [hwrite, List.drop_one]⟩
  all_goals exact .refl w.output

theorem State.grows_step (s : State) :
    s.world.output.Grows (s.step code maxDepth).world.output := by
  cases s with
  | halted result w => exact .refl w.output
  | running m =>
    rw [State.step, Machine.world_step]
    cases m.top.fetch? with
    | none => exact .refl m.world.output
    | some i => exact i.grows_worldAfter m.top.stack m.world

/-- A run does nothing to the output but write to it. -/
theorem State.grows_run (n : Nat) (s : State) :
    s.world.output.Grows (s.run code maxDepth n).world.output := by
  induction n generalizing s with
  | zero => exact .refl s.world.output
  | succ n ih => exact s.grows_step.trans (ih (s.step code maxDepth))

end Output

end FrameMachine
