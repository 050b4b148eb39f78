import FrameMachine.Proofs.Machine.Frames

/-!
# Calls are isolated

An activation that calls a function hands over its arguments and waits. As long as the called
activation is there, the activations below it are not touched, since whatever a step does to those
that wait, it does to the innermost one (`Machine.Active.callers_prefix`). When the called
activation returns, its caller goes on with one value more (`Machine.call_isolated`). All this holds
of arbitrary code, and of any state, reached by a run or not.
-/

set_option autoImplicit false

namespace FrameMachine

/-- The activation at work is about to return the value: from the top of its stack, or nil at the
end of its function. -/
def Machine.Returns (m : Machine) (v : Value) : Prop :=
  (m.top.fetch? = none ∧ v = .nil) ∨ (m.top.fetch? = some .ret ∧ ∃ rest, m.top.stack = v :: rest)

/-- The activation at work is still there after a number of steps: the run has not ended, and there
have never been fewer activations waiting. -/
def Machine.Active (code : Code) (maxDepth : Option Nat) (m : Machine) (n : Nat) : Prop :=
  ∀ k ≤ n, ∃ m', (State.running m).run code maxDepth k = .running m' ∧
    m.callers.size ≤ m'.callers.size

/-! ## Steps -/

section Steps

variable {code : Code} {maxDepth : Option Nat} {m m' : Machine}

/-- A call of a registered function with enough arguments ends the run or activates the function,
depending on the limit alone. -/
theorem Machine.step_call {name : String} {t : Template} (hcall : m.top.fetch? = some (.call name))
    (ht : code.get? name = some t) (harity : t.arity ≤ m.top.stack.length) :
    m.step code maxDepth = match exceeded? maxDepth (m.depth + 1) with
      | some limit => .halted (.error (.stackOverflow (m.depth + 1) limit)) m.world
      | none => .running ⟨.enter t (m.top.stack.take t.arity).reverse,
          m.callers.push { m.top.advance with stack := m.top.stack.drop t.arity }, m.world⟩ := by
  have hle : t.arity ≤ m.top.advance.stack.length := harity
  rw [step_eq hcall, Instr.execute, Frame.call, ht]
  simp only [if_pos hle]
  rfl

/-- A call that goes on has found its function and enough arguments. -/
theorem Machine.exists_of_step_call {name : String} (hcall : m.top.fetch? = some (.call name))
    (h : m.step code maxDepth = .running m') :
    ∃ t, code.get? name = some t ∧ t.arity ≤ m.top.stack.length := by
  rw [step_eq hcall] at h
  have hacts := (Instr.call name).execute_acts code m.top.advance m.world
  generalize (Instr.call name).execute code m.top.advance m.world = effect at h hacts
  cases hacts with
  | next hturns =>
    obtain ⟨pops, pushes, top, heffect, -⟩ := hturns.stack
    cases heffect
  | call hname ht hle =>
    cases hname
    exact ⟨_, ht, hle⟩
  | ret hname => cases hname
  | lacks | unset | unknown | tooFew | fault => cases h

theorem Machine.step_of_returns {v : Value} (h : m.Returns v) :
    m.step code maxDepth = finish m.callers m.world v := by
  rcases h with ⟨hnone, rfl⟩ | ⟨hret, rest, hstack⟩
  · rw [step]
    simp only [hnone]
  · have hadvance : m.top.advance.stack = v :: rest := hstack
    rw [step_eq hret, Instr.execute, Frame.pop1, hadvance]
    rfl

/-- The value goes to the innermost of those that wait. -/
theorem Machine.finish_push (callers : Array Frame) (caller : Frame) (w : World) (v : Value) :
    finish (callers.push caller) w v = .running ⟨caller.push v, callers, w⟩ := by
  rw [finish, Array.back?_push, Array.pop_push]

/-- A run ends with a value only if its last activation returns it. -/
theorem Machine.returns_of_step_ok {v : Value} {w : World}
    (h : m.step code maxDepth = .halted (.ok v) w) :
    m.Returns v ∧ m.callers = #[] ∧ w = m.world := by
  have hfinish {u : Value} (hu : finish m.callers m.world u = .halted (.ok v) w) :
      u = v ∧ m.callers = #[] ∧ w = m.world := by
    rw [finish] at hu
    cases hback : m.callers.back? with
    | some caller =>
      rw [hback] at hu
      cases hu
    | none =>
      rw [hback] at hu
      cases hu
      exact ⟨rfl, Array.back?_eq_none_iff.1 hback, rfl⟩
  cases hi : m.top.fetch? with
  | none =>
    rw [step] at h
    simp only [hi] at h
    obtain ⟨rfl, hempty⟩ := hfinish h
    exact ⟨Or.inl ⟨hi, rfl⟩, hempty⟩
  | some i =>
    rw [step_eq hi] at h
    have hacts := i.execute_acts code m.top.advance m.world
    generalize i.execute code m.top.advance m.world = effect at h hacts
    cases hacts with
    | ret hname hs =>
      subst hname
      obtain ⟨rfl, hempty⟩ := hfinish h
      exact ⟨Or.inr ⟨hi, _, hs⟩, hempty⟩
    | call =>
      rcases perform_call .. with hgo | ⟨limit, hover⟩
      · rw [hgo] at h
        cases h
      · rw [hover] at h
        cases h
    | next | lacks | unset | unknown | tooFew | fault => cases h

/-- Fewer activations wait after a step only if the step returns a value, and then one fewer. -/
theorem Machine.returns_of_size_lt (h : m.step code maxDepth = .running m')
    (hlt : m'.callers.size < m.callers.size) :
    m.callers.size = m'.callers.size + 1 ∧ ∃ v, m.Returns v := by
  cases step_moves h with
  | next => exact absurd hlt (Nat.lt_irrefl _)
  | call =>
    rw [Array.size_push] at hlt
    omega
  | resume hfetch hcaller =>
    rw [Array.size_pop] at hlt ⊢
    refine ⟨by omega, ?_⟩
    cases hi : m.top.fetch? with
    | none => exact ⟨.nil, Or.inl ⟨hi, rfl⟩⟩
    | some i =>
      obtain rfl := hfetch i hi
      cases hs : m.top.stack with
      | cons v rest => exact ⟨v, Or.inr ⟨hi, rest, hs⟩⟩
      | nil =>
        have hadvance : m.top.advance.stack = [] := hs
        rw [step_eq hi, Instr.execute, Frame.pop1, hadvance] at h
        cases h

end Steps

/-! ## Runs -/

section Runs

variable {code : Code} {maxDepth : Option Nat} {m m' : Machine} {n : Nat}

theorem Machine.Active.mono {k : Nat} (h : m.Active code maxDepth n) (hk : k ≤ n) :
    m.Active code maxDepth k :=
  fun j hj => h j (Nat.le_trans hj hk)

theorem Machine.Active.succ (h : m.Active code maxDepth n)
    (hrun : (State.running m).run code maxDepth (n + 1) = .running m')
    (hsize : m.callers.size ≤ m'.callers.size) :
    m.Active code maxDepth (n + 1) := by
  intro k hk
  rcases Nat.le_succ_iff.1 hk with hk | rfl
  · exact h k hk
  · exact ⟨m', hrun, hsize⟩

/-- The list is the other one, possibly with one element added or taken away at its end. -/
def Shifts {α : Type} (l l' : List α) : Prop := l' = l ∨ (∃ a, l' = l ++ [a]) ∨ l' = l.dropLast

/-- A list stays below the changes at the end of a longer one. -/
theorem Shifts.isPrefix {α : Type} {base l l' : List α} (h : Shifts l l') (hbase : base <+: l)
    (hlength : base.length ≤ l'.length) : base <+: l' := by
  rcases h with rfl | ⟨a, rfl⟩ | rfl
  · exact hbase
  · exact hbase.trans (List.prefix_append l [a])
  · obtain ⟨rest, rfl⟩ := hbase
    by_cases hrest : rest = []
    · subst hrest
      simp only [List.append_nil, List.length_dropLast] at hlength ⊢
      have hnil : base = [] := List.eq_nil_of_length_eq_zero (by omega)
      rw [hnil]
      exact List.nil_prefix
    · rw [List.dropLast_append_of_ne_nil hrest]
      exact List.prefix_append base rest.dropLast

/-- A list kept along with the activations, to whose end a step adds what belongs to a new
activation and takes away what belongs to one that returns, stays what it was below an activation
that is still there. -/
theorem Machine.Active.isPrefix {α : Type} (list : Machine → List α) (extra : Nat)
    (hlength : ∀ m, (list m).length = m.callers.size + extra)
    (hmoves : ∀ m m', Moves code m m' → Shifts (list m) (list m')) (h : m.Active code maxDepth n)
    (hrun : (State.running m).run code maxDepth n = .running m') : list m <+: list m' := by
  -- the last step is taken off: the activation was there before it too, so the list was
  -- below the changes
  induction n generalizing m' with
  | zero =>
    cases hrun
    exact List.prefix_refl _
  | succ n ih =>
    obtain ⟨before, hbefore, -⟩ := h n (Nat.le_succ n)
    obtain ⟨after, hafter, hsize⟩ := h (n + 1) (Nat.le_refl _)
    rw [hrun, State.running.injEq] at hafter
    subst hafter
    rw [State.run_add, hbefore] at hrun
    have hshifts := hmoves before m' (step_moves hrun)
    apply hshifts.isPrefix (ih (h.mono (Nat.le_succ n)) hbefore)
    rw [hlength, hlength]
    omega

/-- The activations below one that is still there are what they were. -/
theorem Machine.Active.callers_prefix (h : m.Active code maxDepth n)
    (hrun : (State.running m).run code maxDepth n = .running m') :
    m.callers.toList <+: m'.callers.toList := by
  refine h.isPrefix (fun m => m.callers.toList) 0 (fun m => Array.length_toList) ?_ hrun
  intro m m' hmoves
  cases hmoves with
  | next => exact Or.inl rfl
  | @call name t =>
    exact Or.inr (Or.inl ⟨{ m.top.advance with stack := m.top.stack.drop t.arity },
      Array.toList_push⟩)
  | resume => exact Or.inr (Or.inr Array.toList_pop)

/-- The functions of the activations, the outermost first. -/
def Machine.templates (m : Machine) : List Template :=
  m.callers.toList.map Frame.template ++ [m.top.template]

/-- So is the function of the activation itself. -/
theorem Machine.Active.templates_prefix (h : m.Active code maxDepth n)
    (hrun : (State.running m).run code maxDepth n = .running m') :
    m.templates <+: m'.templates := by
  refine h.isPrefix Machine.templates 1 (fun m => by simp [templates]) ?_ hrun
  intro m m' hmoves
  cases hmoves with
  | next hi hturns =>
    refine Or.inl ?_
    have htemplate := hturns.template
    simp only [templates, htemplate]
    rfl
  | @call name t =>
    refine Or.inr (Or.inl ⟨t, ?_⟩)
    rw [templates, templates, Array.toList_push, List.map_append]
    rfl
  | @resume caller v hfetch hcaller =>
    refine Or.inr (Or.inr ?_)
    obtain ⟨callers, hcallers⟩ := Array.back?_eq_some_iff.1 hcaller
    rw [templates, templates, List.dropLast_concat, hcallers, Array.pop_push, Array.toList_push,
      List.map_append]
    rfl

/-- When no more activations wait than in the beginning, the activation at work is that of
the beginning. -/
theorem Machine.Active.eq_of_size_eq (h : m.Active code maxDepth n)
    (hrun : (State.running m).run code maxDepth n = .running m')
    (hsize : m'.callers.size = m.callers.size) :
    m'.callers = m.callers ∧ m'.top.template = m.top.template := by
  have hcallers := (h.callers_prefix hrun).eq_of_length (by simpa using hsize.symm)
  have htemplates := (h.templates_prefix hrun).eq_of_length (by simp [templates, hsize])
  refine ⟨(Array.toList_inj.1 hcallers).symm, ?_⟩
  have hlast := congrArg List.getLast? htemplates
  simp only [templates, List.getLast?_concat, Option.some.injEq] at hlast
  exact hlast.symm

/-- An activation for which another one waits goes on, or ends the run with an error, or returns. -/
theorem Machine.Active.continues (h : m.Active code maxDepth n) (hwaiting : 0 < m.callers.size)
    (hrun : (State.running m).run code maxDepth n = .running m') :
    m.Active code maxDepth (n + 1) ∨ (∃ e w, m'.step code maxDepth = .halted (.error e) w) ∨
      m'.callers = m.callers ∧ ∃ v, m'.Returns v := by
  have hbelow := (h.callers_prefix hrun).length_le
  simp only [Array.length_toList] at hbelow
  cases hstep : m'.step code maxDepth with
  | halted result w =>
    cases result with
    | error e => exact Or.inr (Or.inl ⟨e, w, rfl⟩)
    | ok v =>
      -- only an activation for which none waits ends the run with a value
      obtain ⟨-, hempty, -⟩ := returns_of_step_ok hstep
      rw [hempty, Array.size_empty] at hbelow
      omega
  | running after =>
    by_cases hsize : m.callers.size ≤ after.callers.size
    · refine Or.inl (h.succ ?_ hsize)
      rw [State.run_add, hrun]
      exact hstep
    · obtain ⟨hone, hreturns⟩ := returns_of_size_lt hstep (by omega)
      exact Or.inr (Or.inr ⟨(h.eq_of_size_eq hrun (by omega)).1, hreturns⟩)

end Runs

/-- A call that goes on has found a registered function and enough arguments. The called activation
starts at the first instruction without local slots, and has the arguments on its stack, which the
caller no longer has. The argument that the caller pushed first is on top.

As long as the called activation is there, those below it stay as they are. It comes to its end with
an error of the run or by returning a value, and then the caller goes on with this value on top of
what it had below the arguments. -/
theorem Machine.call_isolated {code : Code} {maxDepth : Option Nat} {m callee : Machine}
    {name : String} (hcall : m.top.fetch? = some (.call name))
    (hstep : m.step code maxDepth = .running callee) :
    ∃ t, code.get? name = some t ∧ t.arity ≤ m.top.stack.length ∧
      callee.top =
        { template := t, pc := 0, locals := {}, stack := (m.top.stack.take t.arity).reverse } ∧
      callee.callers = m.callers.push
        { m.top with pc := m.top.pc + 1, stack := m.top.stack.drop t.arity } ∧
      callee.world = m.world ∧
      ∀ n m', callee.Active code maxDepth n →
        (State.running callee).run code maxDepth n = .running m' →
        callee.callers.toList <+: m'.callers.toList ∧
        (callee.Active code maxDepth (n + 1) ∨
          (∃ e w, m'.step code maxDepth = .halted (.error e) w) ∨
          m'.callers = callee.callers ∧ ∃ v, m'.Returns v) ∧
        ∀ v, m'.callers = callee.callers → m'.Returns v → m'.top.template = t ∧
          m'.step code maxDepth = .running {
            top := { m.top with pc := m.top.pc + 1, stack := v :: m.top.stack.drop t.arity }
            callers := m.callers
            world := m'.world } := by
  obtain ⟨t, ht, harity⟩ := exists_of_step_call hcall hstep
  have hcallee : callee = ⟨.enter t (m.top.stack.take t.arity).reverse,
      m.callers.push { m.top.advance with stack := m.top.stack.drop t.arity }, m.world⟩ := by
    rw [step_call hcall ht harity] at hstep
    cases hx : exceeded? maxDepth (m.depth + 1) with
    | some limit =>
      simp only [hx] at hstep
      cases hstep
    | none =>
      simp only [hx] at hstep
      cases hstep
      rfl
  subst hcallee
  refine ⟨t, ht, harity, rfl, rfl, rfl, fun n m' hactive hrun =>
    ⟨hactive.callers_prefix hrun, ?_, ?_⟩⟩
  · exact hactive.continues (by simp) hrun
  · intro v hcallers hreturns
    have hsize := congrArg Array.size hcallers
    refine ⟨(hactive.eq_of_size_eq hrun hsize).2, ?_⟩
    rw [step_of_returns hreturns, hcallers, finish_push]
    rfl

/-- Code in which a function with two parameters calls one that calls itself, and then comes to its
end with values left on its stack. -/
def relay : Code := .ofTemplates [
  { name := "main", arity := 0,
    code := #[.push (.int 7), .push (.int 2), .push (.int 3), .call "outer", .ret] },
  { name := "outer", arity := 2, code := #[.call "inner", .push (.int 5)] },
  { name := "inner", arity := 1,
    code := #[.dup, .push (.int 0), .binary .eq, .jumpUnless 5, .ret, .push (.int 1),
      .binary .sub, .call "inner", .ret] }]

/-- In `relay`, the function `outer` gets the arguments of its call in the order in which they were
pushed. It is there for 23 steps and returns nil, which its caller finds in their place. -/
theorem relay_call_isolated :
    ∃ m callee m', relay.Reaches none {} m ∧ m.top.fetch? = some (.call "outer") ∧
      m.top.stack = [.int 3, .int 2, .int 7] ∧ m.step relay none = .running callee ∧
      callee.top.stack = [.int 2, .int 3] ∧ callee.Active relay none 23 ∧
      (State.running callee).run relay none 23 = .running m' ∧
      m'.top.stack = [.int 5, .int 0, .int 3] ∧ m'.step relay none = .running {
        top := { m.top with pc := m.top.pc + 1, stack := [.nil, .int 7] }
        callers := m.callers
        world := m'.world } := by
  obtain ⟨s, hs⟩ :=
    Option.isSome_iff_exists.1 (show (relay.after none {} 0).isSome = true by decide +kernel)
  obtain ⟨start, hstart, -⟩ := Code.after_eq_some.1 hs
  have hcaller : (relay.after none {} 3).any (State.atWork fun m =>
      m.top.fetch? = some (.call "outer") ∧ m.top.stack = [.int 3, .int 2, .int 7] ∧
          m.callers.size = 0) = true := by
    decide +kernel
  obtain ⟨m, hm, hmtest⟩ := State.atWork_eq_true (Code.run_of_after hstart hcaller)
  obtain ⟨hcall, hstack, hsize⟩ := of_decide_eq_true hmtest
  -- the run from the call on is the run from the start after three steps
  have hlater (k : Nat) : (State.running start).run relay none (3 + k) =
      (State.running m).run relay none k := by
    rw [State.run_add, hm]
  have hnext : (relay.after none {} (3 + 1)).any (State.atWork fun _ => true) =
      true := by decide +kernel
  obtain ⟨callee, hstep, -⟩ := State.atWork_eq_true (Code.run_of_after hstart hnext)
  rw [hlater] at hstep
  obtain ⟨t, ht, -, htop, hcallers, -, hduring⟩ := Machine.call_isolated hcall hstep
  have harity : (relay.get? "outer").map Template.arity = some 2 := by decide +kernel
  rw [ht, Option.map_some, Option.some.injEq] at harity
  have hrun (k : Nat) : (State.running start).run relay none (3 + (1 + k)) =
      (State.running callee).run relay none k := by
    rw [hlater, State.run_add]
    exact congrArg _ hstep
  have hone : callee.callers.size = 1 := by rw [hcallers, Array.size_push, hsize]
  have hactive : callee.Active relay none 23 := by
    have hall : (List.range 24).all (fun k => (relay.after none {} (3 + (1 + k))).any
        (State.atWork fun m => 1 ≤ m.callers.size)) = true := by decide +kernel
    intro k hk
    have hk' := List.all_eq_true.1 hall k (List.mem_range.2 (Nat.lt_succ_of_le hk))
    obtain ⟨m', hm', htest⟩ := State.atWork_eq_true (Code.run_of_after hstart hk')
    rw [hrun] at hm'
    exact ⟨m', hm', by rw [hone]; exact of_decide_eq_true htest⟩
  have hend : (relay.after none {} (3 + (1 + 23))).any (State.atWork fun m =>
      m.top.fetch? = none ∧ m.top.stack = [.int 5, .int 0, .int 3] ∧ m.callers.size = 1) =
        true := by decide +kernel
  obtain ⟨m', hm', htest⟩ := State.atWork_eq_true (Code.run_of_after hstart hend)
  obtain ⟨hnone, hleft, hsize'⟩ := of_decide_eq_true htest
  rw [hrun] at hm'
  obtain ⟨-, -, hreturn⟩ := hduring 23 m' hactive hm'
  have hsame := (hactive.eq_of_size_eq hm' (hsize'.trans hone.symm)).1
  obtain ⟨-, hback⟩ := hreturn .nil hsame (Or.inl ⟨hnone, rfl⟩)
  rw [harity, hstack] at htop hback
  exact ⟨m, callee, m', ⟨start, 3, hstart, hm⟩, hcall, hstack, hstep, by rw [htop]; rfl, hactive,
    hm', hleft, hback⟩

end FrameMachine
