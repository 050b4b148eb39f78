import FrameMachine.Proofs.Machine.Frames

/-!
# Which instructions look at the streams

Only `read` looks at the input, and only `write` at the output. With other streams any other
instruction does the same, and leaves the other streams as it would have left these
(`Instr.execute_mapStreams`). What instructions do in another world carries over to the steps of a
run (`Machine.step_mapWorld`).
-/

set_option autoImplicit false

namespace FrameMachine

/-- The world with other streams, which are made from its own. -/
def World.mapStreams (input : List UInt8 → List UInt8) (output : Output → Output) (w : World) :
    World :=
  ⟨w.heap, input w.input, output w.output⟩

/-- The same effect with another world. -/
def Effect.mapWorld (change : World → World) : Effect → Effect
  | .next f w => .next f (change w)
  | .call callee arguments caller w => .call callee arguments caller (change w)
  | .ret v w => .ret v (change w)
  | .fail fault w => .fail fault (change w)

/-- The same activations in another world. -/
def Machine.mapWorld (change : World → World) (m : Machine) : Machine :=
  { m with world := change m.world }

/-- The same state with another world. -/
def State.mapWorld (change : World → World) : State → State
  | .running m => .running (m.mapWorld change)
  | .halted result w => .halted result (change w)

/-! ## Instructions -/

section Instructions

variable {f : Frame} {w : World}

theorem Effect.pushing_mapWorld (change : World → World) (f : Frame) (w : World)
    (r : Except Fault Value) :
    Effect.pushing f (change w) r = (Effect.pushing f w r).mapWorld change := by
  cases r with
  | ok v => rfl
  | error e => rfl

theorem Effect.after_mapWorld (change : World → World) (f : Frame) (w : World)
    (r : Except Fault Unit) :
    Effect.after f (change w) r = (Effect.after f w r).mapWorld change := by
  cases r with
  | ok _ => rfl
  | error e => rfl

theorem Frame.pop1_mapWorld {change : World → World} {use use' : Value → Frame → Effect}
    (h : ∀ v g, use' v g = (use v g).mapWorld change) :
    f.pop1 (change w) use' = (f.pop1 w use).mapWorld change := by
  rw [pop1, pop1]
  cases f.stack with
  | nil => rfl
  | cons v rest => exact h v _

theorem Frame.pop2_mapWorld {change : World → World} {use use' : Value → Value → Frame → Effect}
    (h : ∀ v u g, use' v u g = (use v u g).mapWorld change) :
    f.pop2 (change w) use' = (f.pop2 w use).mapWorld change := by
  unfold pop2
  split
  · exact h _ _ _
  · rfl

theorem Frame.jumpUnless_mapWorld (change : World → World) (f : Frame) (w : World) (target : Nat)
    (v : Value) :
    f.jumpUnless (change w) target v = (f.jumpUnless w target v).mapWorld change := by
  unfold jumpUnless
  split <;> rfl

theorem Frame.call_mapWorld (code : Code) (change : World → World) (f : Frame) (w : World)
    (name : String) :
    f.call code (change w) name = (f.call code w name).mapWorld change := by
  unfold call
  cases code.get? name with
  | none => rfl
  | some t =>
    simp only
    split <;> rfl

theorem Frame.change_mapStreams (input : List UInt8 → List UInt8) (output : Output → Output)
    (f : Frame) (w : World) (v : Value) (operation : Heap → Nat → Except Fault Unit × Heap) :
    f.change (w.mapStreams input output) v operation =
      (f.change w v operation).mapWorld (World.mapStreams input output) := by
  cases w with
  | mk heap bytes out =>
    unfold change
    cases v.object with
    | error e => rfl
    | ok id =>
      exact Effect.after_mapWorld (World.mapStreams input output) f
        ⟨(operation heap id).2, bytes, out⟩
        (operation heap id).1

/-- Printing does not look at the input. -/
theorem Frame.write_mapStreams (input : List UInt8 → List UInt8) (f : Frame) (w : World)
    (v : Value) :
    f.write (w.mapStreams input id) v = (f.write w v).mapWorld (World.mapStreams input id) := by
  cases w with
  | mk heap bytes out =>
    exact Effect.after_mapWorld (World.mapStreams input id) f ⟨heap, bytes, (out.write v.text).2⟩
      ((out.write v.text).1.mapError Fault.stream)

/-- Reading does not look at the output. -/
theorem Frame.read_mapStreams (output : Output → Output) (f : Frame) (w : World) :
    f.read (w.mapStreams id output) = (f.read w).mapWorld (World.mapStreams id output) := by
  cases w with
  | mk heap bytes out =>
    exact Effect.pushing_mapWorld (World.mapStreams id output) f
      ⟨heap, (Input.readLine bytes).2, out⟩ _

/-- An instruction other than `read` does not look at the input, and one other than `write` does not
look at the output. -/
theorem Instr.execute_mapStreams (code : Code) {i : Instr} (f : Frame) (w : World)
    {input : List UInt8 → List UInt8} {output : Output → Output} (hread : i = .read → input = id)
    (hwrite : i = .write → output = id) :
    i.execute code f (w.mapStreams input output) =
      (i.execute code f w).mapWorld (World.mapStreams input output) := by
  cases i with
  | push | jump | nop | alloc => rfl
  | pop | store | ret | dup =>
    rw [execute, execute]
    exact Frame.pop1_mapWorld fun _ _ => rfl
  | load slot =>
    rw [execute, execute, Frame.load, Frame.load]
    cases f.locals.get? slot with
    | none => rfl
    | some v => rfl
  | unary op =>
    rw [execute, execute]
    exact Frame.pop1_mapWorld fun v g => Effect.pushing_mapWorld _ g w (op.apply v)
  | getField field =>
    rw [execute, execute]
    exact Frame.pop1_mapWorld fun v g =>
      Effect.pushing_mapWorld _ g w (v.object.bind (w.heap.get · field))
  | binary op =>
    rw [execute, execute]
    exact Frame.pop2_mapWorld fun right left g =>
      Effect.pushing_mapWorld _ g w (op.apply left right)
  | charAt =>
    rw [execute, execute]
    exact Frame.pop2_mapWorld fun string index g =>
      Effect.pushing_mapWorld _ g w (FrameMachine.charAt string index)
  | jumpUnless target =>
    rw [execute, execute]
    exact Frame.pop1_mapWorld fun v g => g.jumpUnless_mapWorld _ w target v
  | call name => exact f.call_mapWorld code _ w name
  | swap =>
    rw [execute, execute]
    unfold Frame.swap
    split <;> rfl
  | free =>
    rw [execute, execute]
    exact Frame.pop1_mapWorld fun v g => g.change_mapStreams input output w v Heap.free
  | setField field =>
    rw [execute, execute]
    exact Frame.pop2_mapWorld fun value v g =>
      g.change_mapStreams input output w v (Heap.set · · field value)
  | write =>
    obtain rfl := hwrite rfl
    rw [execute, execute]
    exact Frame.pop1_mapWorld fun v g => g.write_mapStreams input w v
  | read =>
    obtain rfl := hread rfl
    exact f.read_mapStreams output w

end Instructions

/-! ## Steps -/

section Steps

variable {code : Code} {maxDepth : Option Nat} {change : World → World}

theorem Machine.finish_mapWorld (callers : Array Frame) (w : World) (v : Value) :
    finish callers (change w) v = (finish callers w v).mapWorld change := by
  rw [finish, finish]
  cases callers.back? with
  | none => rfl
  | some caller => rfl

theorem Machine.perform_mapWorld (function : String) (pc : Nat) (i : Instr) (callers : Array Frame)
    (effect : Effect) :
    perform maxDepth function pc i callers (effect.mapWorld change) =
      (perform maxDepth function pc i callers effect).mapWorld change := by
  cases effect with
  | next | fail => rfl
  | ret v w => exact finish_mapWorld callers w v
  | call callee arguments caller w =>
    rw [Effect.mapWorld, perform, perform]
    cases exceeded? maxDepth (callers.size + 2) with
    | none => rfl
    | some limit => rfl

/-- A step does in another world what its instruction does there. -/
theorem Machine.step_mapWorld {m : Machine}
    (h : ∀ i, m.top.fetch? = some i →
      i.execute code m.top.advance
      (change m.world) = (i.execute code m.top.advance m.world).mapWorld change) :
    (m.mapWorld change).step code maxDepth = (m.step code maxDepth).mapWorld change := by
  cases hi : m.top.fetch? with
  | none =>
    have hother : (m.mapWorld change).top.fetch? = none := hi
    rw [step, step]
    simp only [hi, hother]
    exact finish_mapWorld m.callers m.world .nil
  | some i =>
    have hother : (m.mapWorld change).top.fetch? = some i := hi
    rw [step_eq hi, step_eq hother, ← perform_mapWorld, ← h i hi]
    rfl

end Steps

/-- A run starts in the same way with other streams, or fails to start for the same reason. -/
theorem Code.start_mapStreams (code : Code) (w : World) (input : List UInt8 → List UInt8)
    (output : Output → Output) :
    code.start (w.mapStreams input output) =
      (code.start w).map (Machine.mapWorld (World.mapStreams input output)) := by
  rw [start, start]
  cases code.get? "main" with
  | none => rfl
  | some t =>
    simp only
    split <;> rfl

end FrameMachine
