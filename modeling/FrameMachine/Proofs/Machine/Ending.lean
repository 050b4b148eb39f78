import FrameMachine.Proofs.Machine.Frames

/-!
# Coming to the end of a function

A function may come to its end without a return, by running past its last instruction or by jumping
behind it. It then returns nil, whatever is left on its stack, just as if it ended with the
instructions that put nil on the stack and return it (`Code.end_returns_nil`).

The functions to which these two instructions have been added are compared with those without them,
state by state. A step inside a function is the same in both (`Machine.step_sealed`), and the step
at the end of a function becomes two (`Machine.run_sealed_of_end`). This needs every activation to
be at an instruction or right behind the last one, which is so if no jump goes farther
(`Code.insideOrEnd_invariant`).
-/

set_option autoImplicit false

namespace FrameMachine

/-- No jump goes farther than right behind the last instruction. -/
def Template.jumpsToEnd (t : Template) : Bool :=
  t.code.toList.all fun i => i.target?.all (· ≤ t.code.size)

/-- In no function does a jump go farther than right behind the last instruction. -/
def Code.jumpsToEnd (code : Code) : Bool := code.templates.toList.all Template.jumpsToEnd

/-- The function with a return of nil added at its end. -/
def Template.sealed (t : Template) : Template := { t with code := t.code ++ #[.push .nil, .ret] }

/-- The same functions, each with a return of nil added at its end. -/
def Code.sealed (code : Code) : Code :=
  { code with templates := code.templates.map Template.sealed }

/-- The same activation of the function with a return added. -/
def Frame.sealed (f : Frame) : Frame := { f with template := f.template.sealed }

/-- The same effect on functions with a return added. -/
def Effect.sealed : Effect → Effect
  | .next f w => .next f.sealed w
  | .call callee arguments caller w => .call callee.sealed arguments caller.sealed w
  | .ret v w => .ret v w
  | .fail fault w => .fail fault w

/-- The same activations of functions with a return added. -/
def Machine.sealed (m : Machine) : Machine := ⟨m.top.sealed, m.callers.map Frame.sealed, m.world⟩

/-- The same state for functions with a return added. -/
def State.sealed : State → State
  | .running m => .running m.sealed
  | .halted result w => .halted result w

/-! ## Instructions -/

section Instructions

variable {code : Code} {f : Frame} {w : World}

theorem Code.get?_sealed (code : Code) (name : String) :
    code.sealed.get? name = (code.get? name).map Template.sealed := by
  rw [get?, get?, sealed, Option.map_bind]
  refine Option.bind_congr fun place _ => ?_
  exact Array.getElem?_map

theorem Effect.sealed_pushing (f : Frame) (w : World) (r : Except Fault Value) :
    Effect.pushing f.sealed w r = (Effect.pushing f w r).sealed := by
  cases r with
  | ok v => rfl
  | error e => rfl

theorem Effect.sealed_after (f : Frame) (w : World) (r : Except Fault Unit) :
    Effect.after f.sealed w r = (Effect.after f w r).sealed := by
  cases r with
  | ok _ => rfl
  | error e => rfl

theorem Frame.pop1_sealed {use : Value → Frame → Effect}
    (h : ∀ v g, use v g.sealed = (use v g).sealed) :
    f.sealed.pop1 w use = (f.pop1 w use).sealed := by
  rw [pop1, pop1]
  cases hstack : f.stack with
  | nil =>
    have hsealed : f.sealed.stack = [] := hstack
    rw [hsealed]
    rfl
  | cons v rest =>
    have hsealed : f.sealed.stack = v :: rest := hstack
    rw [hsealed]
    exact h v { f with stack := rest }

theorem Frame.pop2_sealed {use : Value → Value → Frame → Effect}
    (h : ∀ v u g, use v u g.sealed = (use v u g).sealed) :
    f.sealed.pop2 w use = (f.pop2 w use).sealed := by
  have hsealed : f.sealed.stack = f.stack := rfl
  unfold pop2
  rw [hsealed]
  split
  · rename_i upper lower rest _
    exact h upper lower { f with stack := rest }
  · rfl

theorem Frame.load_sealed (f : Frame) (w : World) (slot : Nat) :
    f.sealed.load w slot = (f.load w slot).sealed := by
  have hsealed : f.sealed.locals = f.locals := rfl
  rw [load, load, hsealed]
  cases f.locals.get? slot with
  | none => rfl
  | some v => rfl

theorem Frame.swap_sealed (f : Frame) (w : World) : f.sealed.swap w = (f.swap w).sealed := by
  have hsealed : f.sealed.stack = f.stack := rfl
  unfold swap
  rw [hsealed]
  split <;> rfl

theorem Frame.jumpUnless_sealed (f : Frame) (w : World) (target : Nat) (v : Value) :
    f.sealed.jumpUnless w target v = (f.jumpUnless w target v).sealed := by
  unfold jumpUnless
  split <;> rfl

theorem Frame.change_sealed (f : Frame) (w : World) (v : Value)
    (operation : Heap → Nat → Except Fault Unit × Heap) :
    f.sealed.change w v operation = (f.change w v operation).sealed := by
  unfold change
  cases v.object with
  | error e => rfl
  | ok id => exact Effect.sealed_after f _ _

/-- The function that is called is the one of the same name with a return added, and takes as
many arguments. -/
theorem Frame.call_sealed (code : Code) (f : Frame) (w : World) (name : String) :
    f.sealed.call code.sealed w name = (f.call code w name).sealed := by
  have hsealed : f.sealed.stack = f.stack := rfl
  rw [call, call, code.get?_sealed name, hsealed]
  cases code.get? name with
  | none => rfl
  | some t =>
    have harity : t.sealed.arity = t.arity := rfl
    simp only [Option.map_some, harity]
    split <;> rfl

/-- An instruction does not look at the function in which it stands. -/
theorem Instr.execute_sealed (code : Code) (i : Instr) (f : Frame) (w : World) :
    i.execute code.sealed f.sealed w = (i.execute code f w).sealed := by
  cases i with
  | push | jump | nop | alloc => rfl
  | pop | store | ret | dup =>
    rw [execute, execute]
    exact Frame.pop1_sealed fun _ _ => rfl
  | load slot => exact f.load_sealed w slot
  | unary op =>
    rw [execute, execute]
    exact Frame.pop1_sealed fun v g => Effect.sealed_pushing g w (op.apply v)
  | getField field =>
    rw [execute, execute]
    exact Frame.pop1_sealed fun v g =>
      Effect.sealed_pushing g w (v.object.bind (w.heap.get · field))
  | binary op =>
    rw [execute, execute]
    exact Frame.pop2_sealed fun right left g => Effect.sealed_pushing g w (op.apply left right)
  | charAt =>
    rw [execute, execute]
    exact Frame.pop2_sealed fun string index g =>
      Effect.sealed_pushing g w (FrameMachine.charAt string index)
  | jumpUnless target =>
    rw [execute, execute]
    exact Frame.pop1_sealed fun v g => g.jumpUnless_sealed w target v
  | call name => exact f.call_sealed code w name
  | write =>
    rw [execute, execute]
    exact Frame.pop1_sealed fun v g => Effect.sealed_after g _ _
  | read => exact Effect.sealed_pushing f _ _
  | free =>
    rw [execute, execute]
    exact Frame.pop1_sealed fun v g => g.change_sealed w v Heap.free
  | setField field =>
    rw [execute, execute]
    exact Frame.pop2_sealed fun value v g => g.change_sealed w v (Heap.set · · field value)
  | swap => exact f.swap_sealed w

end Instructions

/-! ## Steps -/

section Steps

variable {code : Code} {maxDepth : Option Nat} {m : Machine}

theorem Machine.finish_sealed (callers : Array Frame) (w : World) (v : Value) :
    finish (callers.map Frame.sealed) w v = (finish callers w v).sealed := by
  rw [finish, finish, Array.back?_map]
  cases callers.back? with
  | none => rfl
  | some caller =>
    simp only [Option.map_some, State.sealed, Machine.sealed, Array.map_pop]
    rfl

theorem Machine.perform_sealed (function : String) (pc : Nat) (i : Instr) (callers : Array Frame)
    (effect : Effect) :
    perform maxDepth function pc i (callers.map Frame.sealed) effect.sealed =
      (perform maxDepth function pc i callers effect).sealed := by
  cases effect with
  | next | fail => rfl
  | ret v w => exact finish_sealed callers w v
  | call callee arguments caller w =>
    rw [Effect.sealed, perform, perform, Array.size_map]
    cases exceeded? maxDepth (callers.size + 2) with
    | some limit => rfl
    | none =>
      simp only [State.sealed, Machine.sealed, Array.map_push]
      rfl

/-- The instructions of a function stay where they are. -/
theorem Frame.fetch?_sealed {f : Frame} {i : Instr} (hi : f.fetch? = some i) :
    f.sealed.fetch? = some i := by
  obtain ⟨hlt, -⟩ := Array.getElem?_eq_some_iff.1 hi
  exact (Array.getElem?_append_left hlt).trans hi

/-- A step inside a function. -/
theorem Machine.step_sealed {i : Instr} (hi : m.top.fetch? = some i) :
    m.sealed.step code.sealed maxDepth = (m.step code maxDepth).sealed := by
  have hsealed : m.sealed.top.fetch? = some i := Frame.fetch?_sealed hi
  rw [step_eq hi, step_eq hsealed, ← perform_sealed, ← Instr.execute_sealed]
  rfl

/-- At the end of a function, nil is put on top of whatever is on the stack, and returned. -/
theorem Machine.run_sealed_of_end (hpc : m.top.pc = m.top.template.code.size) :
    (State.running m.sealed).run code.sealed maxDepth 2 = (m.step code maxDepth).sealed := by
  have hnone : m.top.fetch? = none := by
    rw [Frame.fetch?, hpc]
    exact Array.getElem?_size
  have hpush : m.sealed.top.fetch? = some (.push .nil) := by
    refine (Array.getElem?_append_right (Nat.le_of_eq hpc.symm)).trans ?_
    rw [hpc, Nat.sub_self]
    rfl
  have hret : (m.sealed.top.advance.push .nil).fetch? = some .ret := by
    have hle : m.top.template.code.size ≤ m.top.pc + 1 := by omega
    refine (Array.getElem?_append_right hle).trans ?_
    rw [hpc, Nat.add_sub_cancel_left]
    rfl
  have hfirst : m.sealed.step code.sealed maxDepth =
      .running ⟨m.sealed.top.advance.push .nil, m.sealed.callers, m.sealed.world⟩ := by
    rw [step_eq hpush]
    rfl
  have hstep : m.step code maxDepth = finish m.callers m.world .nil := by
    rw [step]
    simp only [hnone]
  rw [State.run, State.run, State.run, State.step, hfirst, State.step, step_eq hret, hstep,
    ← finish_sealed]
  rfl

end Steps

/-! ## Runs -/

/-- The activation is at an instruction of its function or right behind the last one, and no jump of
the function goes farther. -/
structure Frame.InsideOrEnd (f : Frame) : Prop where
  targets : ∀ {i : Instr} {target : Nat}, i ∈ f.template.code → i.target? = some target →
    target ≤ f.template.code.size
  pc : f.pc ≤ f.template.code.size

section Runs

variable {code : Code} {maxDepth : Option Nat} {w : World}

theorem Template.target_le {t : Template} (h : t.jumpsToEnd = true) {i : Instr} {target : Nat}
    (hi : i ∈ t.code) (htarget : i.target? = some target) : target ≤ t.code.size := by
  have hall := List.all_eq_true.1 h i (Array.mem_toList_iff.2 hi)
  rw [htarget] at hall
  exact of_decide_eq_true hall

theorem Code.jumpsToEnd_of_get? (h : code.jumpsToEnd = true) {name : String} {t : Template}
    (ht : code.get? name = some t) : t.jumpsToEnd = true := by
  obtain ⟨place, -, hplace⟩ := Option.bind_eq_some_iff.1 ht
  exact List.all_eq_true.1 h t (Array.mem_toList_iff.2 (Array.mem_of_getElem? hplace))

theorem Code.insideOrEnd_invariant (h : code.jumpsToEnd = true) :
    code.Invariant Frame.InsideOrEnd Frame.InsideOrEnd where
  enter := fun ht _ => ⟨Template.target_le (jumpsToEnd_of_get? h ht), Nat.zero_le _⟩
  next := by
    rintro f g i ⟨htargets, -⟩ hi hturns
    have hle : g.pc ≤ f.template.code.size := by
      rcases Instr.mem_successors hturns.pc with hnext | htarget
      · rw [hnext]
        exact (Array.getElem?_eq_some_iff.1 hi).1
      · exact htargets (Array.mem_of_getElem? hi) htarget
    have htemplate : g.template = f.template := hturns.template
    rw [← htemplate] at htargets hle
    exact ⟨htargets, hle⟩
  call := fun hf hi _ _ => ⟨hf.targets, (Array.getElem?_eq_some_iff.1 hi).1⟩
  resume := fun _ hf => ⟨hf.targets, hf.pc⟩

/-- A step is one step of the functions with a return added, or two. -/
theorem Machine.exists_run_sealed (code : Code) (maxDepth : Option Nat) {m : Machine}
    (h : m.top.InsideOrEnd) :
    ∃ k, 1 ≤ k ∧ (State.running m.sealed).run code.sealed maxDepth k =
      (m.step code maxDepth).sealed := by
  cases hi : m.top.fetch? with
  | some i => exact ⟨1, Nat.le_refl 1, step_sealed hi⟩
  | none =>
    have hpc : m.top.pc = m.top.template.code.size :=
      Nat.le_antisymm h.pc (Array.getElem?_eq_none_iff.1 hi)
    exact ⟨2, Nat.le_succ 1, run_sealed_of_end hpc⟩

/-- The functions with a return added come to the same state, in as many steps or more. -/
theorem State.exists_run_sealed (h : code.jumpsToEnd = true) (maxDepth : Option Nat)
    {start : Machine} (hstart : code.start w = .ok start) (n : Nat) :
    ∃ k, n ≤ k ∧
      (State.running start.sealed).run code.sealed maxDepth k =
        ((State.running start).run code maxDepth n).sealed := by
  induction n with
  | zero => exact ⟨0, Nat.le_refl 0, rfl⟩
  | succ n ih =>
    obtain ⟨k, hk, hrun⟩ := ih
    rw [run_add n 1]
    cases hn : (State.running start).run code maxDepth n with
    | halted result w' =>
      -- both runs have ended, and a further step changes nothing
      rw [hn] at hrun
      refine ⟨k + 1, Nat.succ_le_succ hk, ?_⟩
      rw [run_add, hrun]
      rfl
    | running m =>
      have hinside := ((Code.insideOrEnd_invariant h).reaches ⟨start, n, hstart, hn⟩).1
      obtain ⟨j, hj, hstep⟩ := Machine.exists_run_sealed code maxDepth hinside
      refine ⟨k + j, Nat.add_le_add hk hj, ?_⟩
      rw [hn] at hrun
      rw [run_add, hrun]
      exact hstep

theorem State.sealed_eq_halted {s : State} {result : Except RunError Value} {w : World} :
    s.sealed = .halted result w ↔ s = .halted result w := by
  cases s with
  | halted result' w' => exact Iff.rfl
  | running m => constructor <;> intro h <;> cases h

/-- A run starts in the same way if returns are added, or fails to start for the same reason. -/
theorem Code.start_sealed (code : Code) (w : World) :
    code.sealed.start w = (code.start w).map Machine.sealed := by
  rw [start, start, code.get?_sealed]
  cases code.get? "main" with
  | none => rfl
  | some t =>
    have harity : t.sealed.arity = t.arity := rfl
    simp only [Option.map_some, harity]
    split
    · simp only [Except.map, Machine.sealed, Array.map_empty]
      rfl
    · rfl

theorem Code.start_sealed_eq_error {e : StartError} :
    code.sealed.start w = .error e ↔ code.start w = .error e := by
  rw [start_sealed]
  cases code.start w with
  | error e' => exact Iff.rfl
  | ok start => constructor <;> intro h <;> cases h

theorem Code.start_sealed_eq_ok {m : Machine} :
    code.sealed.start w = .ok m ↔ ∃ start, code.start w = .ok start ∧ start.sealed = m := by
  rw [start_sealed]
  cases code.start w with
  | error e => simp [Except.map]
  | ok start => simp [Except.map]

end Runs

/-- Let no jump go farther than right behind the last instruction of its function, and add a return
of nil to the end of every function. Then a run with these functions starts and ends if and only if
the run without the returns does, and in the same way: it is refused for the same reason, or it has
the same result or the same error at the same place, and leaves the same heap and streams. -/
theorem Code.end_returns_nil {code : Code} (h : code.jumpsToEnd = true) (maxDepth : Option Nat)
    (w : World) :
    (∀ e, code.sealed.start w = .error e ↔ code.start w = .error e) ∧
    ∀ result w', (∃ n, code.sealed.after maxDepth w n = some (.halted result w')) ↔
      ∃ n, code.after maxDepth w n = some (.halted result w') := by
  refine ⟨fun e => Code.start_sealed_eq_error, fun result w' => ⟨?_, ?_⟩⟩
  · rintro ⟨n, hend⟩
    obtain ⟨_, hsealed, hrun⟩ := Code.after_eq_some.1 hend
    obtain ⟨start, hstart, rfl⟩ := Code.start_sealed_eq_ok.1 hsealed
    -- the run without the returns is not behind, so it has ended as well
    obtain ⟨k, hk, hsame⟩ := State.exists_run_sealed h maxDepth hstart n
    rw [State.run_of_le hrun hk] at hsame
    exact ⟨n, Code.after_eq_some.2 ⟨start, hstart, State.sealed_eq_halted.1 hsame.symm⟩⟩
  · rintro ⟨n, hend⟩
    obtain ⟨start, hstart, hrun⟩ := Code.after_eq_some.1 hend
    obtain ⟨k, -, hsame⟩ := State.exists_run_sealed h maxDepth hstart n
    rw [hrun] at hsame
    exact ⟨k, Code.after_eq_some.2 ⟨start.sealed, Code.start_sealed_eq_ok.2 ⟨start, hstart, rfl⟩,
      hsame⟩⟩

/-- Functions that come to their ends without a return. The inner calls of `descend` run past the
last instruction, and the innermost one jumps behind it, each with a number left on its stack. -/
def unfinished : Code := .ofTemplates [
  { name := "main", arity := 0,
    code := #[.push (.int 7), .push (.int 2), .call "descend", .binary .add, .ret] },
  { name := "descend", arity := 1,
    code := #[.dup, .push (.int 0), .binary .eq, .jumpUnless 5, .jump 10, .dup,
      .push (.int 1), .binary .sub, .call "descend", .write] }]

/-- In `unfinished`, `main` adds the nil that it gets from `descend` to a number and fails there,
with or without returns at the ends of the functions. -/
theorem unfinished_end_returns_nil :
    unfinished.jumpsToEnd = true ∧
    (∀ e, unfinished.sealed.start {} ≠ .error e) ∧
    ∃ w', w'.output.written.toList = "nilnil".toUTF8.data.toList ∧
      (∃ n, unfinished.after none {} n =
        some (.halted (.error (.fault ⟨.nilDereference, "main", 3, .binary .add⟩)) w')) ∧
      ∃ n, unfinished.sealed.after none {} n =
        some (.halted (.error (.fault ⟨.nilDereference, "main", 3, .binary .add⟩)) w') := by
  have hjumps : unfinished.jumpsToEnd = true := by decide +kernel
  have hend : (unfinished.after none {} 40).any (fun s =>
      s.located? = some ⟨.nilDereference, "main", 3, .binary .add⟩ ∧
      s.world.output.written.toList = "nilnil".toUTF8.data.toList) = true := by decide +kernel
  obtain ⟨s, hs, htest⟩ := (Option.any_eq_true _ _).1 hend
  obtain ⟨hlocated, hwritten⟩ := of_decide_eq_true htest
  obtain ⟨w', rfl⟩ := State.located?_eq_some hlocated
  obtain ⟨hrefused, hends⟩ := Code.end_returns_nil hjumps none {}
  obtain ⟨start, hstart, -⟩ := Code.after_eq_some.1 hs
  refine ⟨hjumps, fun e he => ?_, w', hwritten, ⟨40, hs⟩, (hends _ w').2 ⟨40, hs⟩⟩
  rw [hrefused, hstart] at he
  cases he

end FrameMachine
