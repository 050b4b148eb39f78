import FrameMachine.Proofs.Machine.Isolation
import FrameMachine.Proofs.Machine.Worlds

/-!
# The limit on the nesting of calls is transparent

A step does not depend on the limit at all, or it is a call, which the limit lets through or turns
into the end of the run (`Machine.step_by_limit`). Two runs of the same code under different limits
therefore go side by side until the smaller limit ends one of them (`State.run_limited`), and it
does so right when the other one comes to have more activations than the smaller limit allows
(`Code.depth_limit_transparent`). The activation of `main` is always allowed, whatever the limit.
-/

set_option autoImplicit false

namespace FrameMachine

/-- The run has ended because a call would have been nested too deeply. -/
def State.overflowed : State → Bool
  | .halted (.error (.stackOverflow _ _)) _ => true
  | _ => false

theorem State.overflowed_eq_true {s : State} (h : s.overflowed = true) :
    ∃ depth limit w, s = .halted (.error (.stackOverflow depth limit)) w := by
  unfold overflowed at h
  split at h
  · exact ⟨_, _, _, rfl⟩
  · cases h

/-! ## Steps -/

section Steps

variable {code : Code} {maxDepth : Option Nat} {d : Nat} {m m' : Machine}

theorem exceeded?_eq_none {depth : Nat} :
    exceeded? maxDepth depth = none ↔ ∀ limit ∈ maxDepth, depth ≤ limit := by
  cases maxDepth with
  | none => simp [exceeded?]
  | some limit => simp [exceeded?, Option.filter_eq_none_iff]

theorem exceeded?_of_lt {depth : Nat} (h : d < depth) : exceeded? (some d) depth = some d := by
  simp [exceeded?, h]

theorem exceeded?_of_le {depth : Nat} (h : depth ≤ d) : exceeded? (some d) depth = none := by
  apply exceeded?_eq_none.2
  rintro limit ⟨⟩
  exact h

theorem Machine.overflowed_finish (callers : Array Frame) (w : World) (v : Value) :
    (finish callers w v).overflowed = false := by
  rw [finish]
  cases callers.back? with
  | none => rfl
  | some caller => rfl

/-- What a step has to do with the limit. Either it is the same under every limit, and is not the
end of a run at its limit, or it is a call. -/
theorem Machine.step_by_limit (code : Code) (m : Machine) :
    (∃ s : State, s.overflowed = false ∧ ∀ maxDepth, m.step code maxDepth = s) ∨
      ∃ callee : Machine, callee.depth = m.depth + 1 ∧ ∀ maxDepth, m.step code maxDepth =
        match exceeded? maxDepth (m.depth + 1) with
        | some limit => .halted (.error (.stackOverflow (m.depth + 1) limit)) m.world
        | none => .running callee := by
  cases hi : m.top.fetch? with
  | none =>
    refine Or.inl ⟨finish m.callers m.world .nil, overflowed_finish _ _ _, fun maxDepth => ?_⟩
    rw [step]
    simp only [hi]
  | some i =>
    have hacts := i.execute_acts code m.top.advance m.world
    have hstep (maxDepth : Option Nat) := @step_eq code maxDepth m i hi
    generalize i.execute code m.top.advance m.world = effect at hacts hstep
    cases hacts with
    | call hname ht hle =>
      subst hname
      refine Or.inr ⟨_, ?_, fun maxDepth => step_call hi ht hle⟩
      rw [depth, Array.size_push]
      rfl
    | ret => exact Or.inl ⟨_, overflowed_finish _ _ _, hstep⟩
    | next | lacks | unset | unknown | tooFew | fault => exact Or.inl ⟨_, rfl, hstep⟩

/-- A step under a limit is the step under a greater limit or without one, unless it is a call that
leads beyond the limit. -/
theorem Machine.step_limited (hd : ∀ d' ∈ maxDepth, d ≤ d') (m : Machine) :
    m.step code (some d) = m.step code maxDepth ∨ (m.step code (some d)).overflowed = true := by
  rcases m.step_by_limit code with ⟨s, -, hs⟩ | ⟨callee, -, hcall⟩
  · exact Or.inl ((hs _).trans (hs _).symm)
  · by_cases hdepth : d < m.depth + 1
    · refine Or.inr ?_
      rw [hcall, exceeded?_of_lt hdepth]
      rfl
    · -- the call is within both limits
      have hwithin : exceeded? maxDepth (m.depth + 1) = none := by
        apply exceeded?_eq_none.2
        intro limit hlimit
        have hle := hd limit hlimit
        omega
      refine Or.inl ?_
      rw [hcall, hcall, exceeded?_of_le (Nat.le_of_not_lt hdepth), hwithin]

/-- A step that finds the nesting too deep is a call that goes on if there is no limit. -/
theorem Machine.step_overflow {depth limit : Nat} {w : World}
    (h : m.step code (some d) = .halted (.error (.stackOverflow depth limit)) w) :
    depth = m.depth + 1 ∧ limit = d ∧ d ≤ m.depth ∧ w = m.world ∧
      ∃ callee, m.step code none = .running callee ∧ callee.depth = m.depth + 1 := by
  rcases m.step_by_limit code with ⟨s, hover, hs⟩ | ⟨callee, hdepth, hcall⟩
  · rw [hs] at h
    rw [h] at hover
    cases hover
  · by_cases hlt : d < m.depth + 1
    · rw [hcall, exceeded?_of_lt hlt] at h
      cases h
      exact ⟨rfl, rfl, Nat.le_of_lt_succ hlt, rfl, callee, hcall none, hdepth⟩
    · rw [hcall, exceeded?_of_le (Nat.le_of_not_lt hlt)] at h
      cases h

/-- A step leaves no more activations than there were, or no more than the limit allows. -/
theorem Machine.depth_step (h : m.step code (some d) = .running m') : m'.depth ≤ max m.depth d := by
  cases step_moves h with
  | next => exact Nat.le_max_left _ _
  | resume =>
    rw [depth, depth, Array.size_pop]
    omega
  | @call name t hi ht hle =>
    rw [step_call hi ht hle] at h
    cases hx : exceeded? (some d) (m.depth + 1) with
    | some limit =>
      simp only [hx] at h
      cases h
    | none =>
      have hlimit := exceeded?_eq_none.1 hx d rfl
      rw [depth] at hlimit
      rw [depth, Array.size_push]
      omega

end Steps

/-! ## Runs -/

section Runs

variable {code : Code} {maxDepth : Option Nat} {d n : Nat} {m m' start : Machine} {w : World}

/-- A run under a limit is the run under a greater limit or without one, unless it has come
to the limit. -/
theorem State.run_limited (hd : ∀ d' ∈ maxDepth, d ≤ d') {s : State}
    (h : (s.run code (some d) n).overflowed = false) :
    s.run code maxDepth n = s.run code (some d) n := by
  -- the induction takes the first step off, so that both runs go on from the same state
  induction n generalizing s with
  | zero => rfl
  | succ n ih =>
    rw [run] at h ⊢
    rw [run]
    cases s with
    | halted result w => exact ih h
    | running m =>
      rw [step] at h ⊢
      rcases m.step_limited hd with hsame | hover
      · rw [step, ← hsame]
        exact ih h
      · -- a run that has come to the limit stays there
        obtain ⟨depth, limit, w, hhalted⟩ := overflowed_eq_true hover
        rw [hhalted, run_halted] at h
        cases h

/-- A run that is still at work under a limit is in the same state under a greater limit
or without one. -/
theorem State.run_limited_running (hd : ∀ d' ∈ maxDepth, d ≤ d') {s : State}
    (h : s.run code (some d) n = .running m) : s.run code maxDepth n = .running m := by
  rw [run_limited hd, h]
  rw [h]
  rfl

/-- A run that has ended under a limit, but not for the limit, has ended in the same way under a
greater limit or without one. -/
theorem State.run_limited_halted (hd : ∀ d' ∈ maxDepth, d ≤ d') {s : State}
    {result : Except RunError Value} (h : s.run code (some d) n = .halted result w)
    (hresult : ∀ depth limit, result ≠ .error (.stackOverflow depth limit)) :
    s.run code maxDepth n = .halted result w := by
  cases hover : (State.halted result w).overflowed with
  | false =>
    rw [run_limited hd, h]
    rw [h, hover]
  | true =>
    obtain ⟨depth, limit, w', hhalted⟩ := overflowed_eq_true hover
    cases hhalted
    exact absurd rfl (hresult depth limit)

/-- Under a limit there are never more activations than it allows, or than there were in
the beginning. -/
theorem State.depth_run (h : (State.running m).run code (some d) n = .running m') :
    m'.depth ≤ max m.depth d := by
  induction n generalizing m' with
  | zero =>
    cases h
    exact Nat.le_max_left _ _
  | succ n ih =>
    rw [run_add] at h
    cases hn : (State.running m).run code (some d) n with
    | halted result w =>
      rw [hn, run_halted] at h
      cases h
    | running before =>
      rw [hn] at h
      have hstep := Machine.depth_step h
      have hbefore := ih hn
      omega

theorem Code.depth_start (h : code.start w = .ok start) : start.depth = 1 := by
  obtain ⟨t, -, -, rfl⟩ := Code.start_eq_ok h
  rfl

/-- Right before a run comes to its limit, it has as many activations as it may, and without the
limit it would go on and have one more. -/
theorem State.run_overflow {depth limit : Nat} (hstart : start.depth = 1)
    (h : (State.running start).run code (some d) n =
      .halted (.error (.stackOverflow depth limit)) w) :
    depth = max 1 d + 1 ∧ limit = d ∧
      ∃ k m callee, k ≤ n ∧ (State.running start).run code (some d) k = .running m ∧ m.world = w ∧
        m.step code none = .running callee ∧ callee.depth = max 1 d + 1 := by
  obtain ⟨k, m, hk, hstep⟩ := exists_last_step h
  obtain ⟨rfl, rfl, hle, rfl, callee, hnext, hcallee⟩ := Machine.step_overflow hstep
  have hbound := depth_run hk
  have hpos : 1 ≤ m.depth := Nat.le_add_left 1 _
  have hdepth : m.depth = max 1 limit := by omega
  have hkn : k ≤ n := Nat.le_of_lt (lt_of_run_running hk h)
  exact ⟨by rw [hdepth], rfl, k, m, callee, hkn, hk, rfl, hnext, by rw [hcallee, hdepth]⟩

/-- A run comes to its limit if without the limit it comes to have more activations than the
limit allows. -/
theorem State.overflowed_of_depth_lt (hstart : start.depth = 1)
    (h : (State.running start).run code none n = .running m) (hlt : max 1 d < m.depth) :
    ((State.running start).run code (some d) n).overflowed = true := by
  cases hover : ((State.running start).run code (some d) n).overflowed with
  | true => rfl
  | false =>
    -- the two runs would be in the same state, which has too many activations for one of them
    rw [run_limited (by simp) hover] at h
    have hbound := depth_run h
    omega

end Runs

/-- Under a limit `d` there are never more than `max 1 d` activations. A run that ends under this
limit in any way but for the limit ends in the same way, and with the same heap and streams, under
every greater limit and without one.

A run comes to the limit if and only if without a limit it comes to have more than `max 1 d`
activations. The error then says how many there would have been, and what has been written is the
beginning of what is written under a greater limit. -/
theorem Code.depth_limit_transparent (code : Code) (w : World) {d : Nat} {maxDepth : Option Nat}
    (hd : ∀ d' ∈ maxDepth, d ≤ d') :
    (∀ n m, code.after (some d) w n = some (.running m) → m.depth ≤ max 1 d) ∧
    (∀ n result w', code.after (some d) w n = some (.halted result w') →
      (∀ depth limit, result ≠ .error (.stackOverflow depth limit)) →
      code.after maxDepth w n = some (.halted result w')) ∧
    ((∃ n depth limit w', code.after (some d) w n =
      some (.halted (.error (.stackOverflow depth limit)) w')) ↔
      ∃ n m, code.after none w n = some (.running m) ∧ max 1 d < m.depth) ∧
    ∀ n depth limit w', code.after (some d) w n =
      some (.halted (.error (.stackOverflow depth limit)) w') → depth = max 1 d + 1 ∧ limit = d ∧
      ∀ k s, n ≤ k → code.after maxDepth w k = some s →
        w'.output.written.toList <+: s.world.output.written.toList := by
  refine ⟨?_, ?_, ⟨?_, ?_⟩, ?_⟩
  · intro n m hm
    obtain ⟨start, hstart, hrun⟩ := Code.after_eq_some.1 hm
    have hbound := State.depth_run hrun
    rwa [Code.depth_start hstart] at hbound
  · intro n result w' hend hresult
    obtain ⟨start, hstart, hrun⟩ := Code.after_eq_some.1 hend
    exact Code.after_eq_some.2 ⟨start, hstart, State.run_limited_halted hd hrun hresult⟩
  · rintro ⟨n, depth, limit, w', hend⟩
    obtain ⟨start, hstart, hrun⟩ := Code.after_eq_some.1 hend
    obtain ⟨-, -, k, m, callee, -, hk, -, hnext, hdepth⟩ :=
      State.run_overflow (Code.depth_start hstart) hrun
    refine ⟨k + 1, callee, Code.after_eq_some.2 ⟨start, hstart, ?_⟩, by omega⟩
    rw [State.run_add, State.run_limited_running (by simp) hk]
    exact hnext
  · rintro ⟨n, m, hm, hlt⟩
    obtain ⟨start, hstart, hrun⟩ := Code.after_eq_some.1 hm
    have hover := State.overflowed_of_depth_lt (Code.depth_start hstart) hrun hlt
    obtain ⟨depth, limit, w', hend⟩ := State.overflowed_eq_true hover
    exact ⟨n, depth, limit, w', Code.after_eq_some.2 ⟨start, hstart, hend⟩⟩
  · intro n depth limit w' hend
    obtain ⟨start, hstart, hrun⟩ := Code.after_eq_some.1 hend
    obtain ⟨hdepth, hlimit, k, m, -, hkn, hk, rfl, -, -⟩ :=
      State.run_overflow (Code.depth_start hstart) hrun
    refine ⟨hdepth, hlimit, ?_⟩
    intro k' s hnk hs
    obtain ⟨start', hstart', rfl⟩ := Code.after_eq_some.1 hs
    rw [hstart, Except.ok.injEq] at hstart'
    subst hstart'
    -- the other run has been in the same state, and has gone on from there
    obtain ⟨j, rfl⟩ := Nat.exists_eq_add_of_le (Nat.le_trans hkn hnk)
    rw [State.run_add, State.run_limited_running hd hk]
    exact (State.grows_run j (.running m)).written

/-- Code in which a function calls itself twice, and each activation prints something
before it calls. -/
def descent : Code := .ofTemplates [
  { name := "main", arity := 0,
    code := #[.push (.str ">"), .write, .push (.int 2), .call "down", .ret] },
  { name := "down", arity := 1,
    code := #[.push (.str ">"), .write, .dup, .push (.int 0), .binary .eq, .jumpUnless 7, .ret,
      .push (.int 1), .binary .sub, .call "down", .ret] }]

/-- With at most two activations, `descent` comes to its limit, and what it has printed by then is
the beginning of what it prints with four, which are enough. -/
theorem descent_depth_limit :
    (∀ d' ∈ some 4, 2 ≤ d') ∧
    (∀ n m, descent.after (some 2) {} n = some (.running m) → m.depth ≤ 2) ∧
    (∃ n m, descent.after none {} n = some (.running m) ∧ 2 < m.depth) ∧
    ∃ n w', descent.after (some 2) {} n = some (.halted (.error (.stackOverflow 3 2)) w') ∧
      ∃ k s, n ≤ k ∧ descent.after (some 4) {} k = some s ∧ s.isHalted = true ∧
        s.overflowed = false ∧ w'.output.written.toList <+: s.world.output.written.toList := by
  have hd : ∀ d' ∈ some 4, 2 ≤ d' := by
    rintro d' ⟨⟩
    decide
  obtain ⟨hbound, -, hiff, hprefix⟩ := Code.depth_limit_transparent descent {} hd
  have hover : (descent.after (some 2) {} 40).any State.overflowed = true := by decide +kernel
  obtain ⟨s, hs, hsover⟩ := (Option.any_eq_true _ _).1 hover
  obtain ⟨depth, limit, w', rfl⟩ := State.overflowed_eq_true hsover
  obtain ⟨rfl, rfl, hwritten⟩ := hprefix 40 depth limit w' hs
  have hend : (descent.after (some 4) {} 40).any (fun s => s.isHalted && !s.overflowed) =
      true := by decide +kernel
  obtain ⟨s', hs', htest⟩ := (Option.any_eq_true _ _).1 hend
  obtain ⟨hhalted, hfine⟩ := Bool.and_eq_true_iff.1 htest
  exact ⟨hd, hbound, hiff.1 ⟨40, _, _, w', hs⟩, 40, w', hs, 40, s', Nat.le_refl _, hs',
    hhalted, by simpa using hfine, hwritten 40 s' (Nat.le_refl _) hs'⟩

end FrameMachine
