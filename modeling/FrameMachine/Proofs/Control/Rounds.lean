import FrameMachine.Proofs.Compiler.Construction
import FrameMachine.Proofs.Machine.Regions
import FrameMachine.Proofs.Simulation.Basic

/-!
# The rounds of a loop

The body of a `for` loop is arbitrary code, with calls and loops of its own. All that is needed of
it is that it comes to its end: then the counter is as it was, since only the loop itself stores to
its slot. A run is followed in stretches that remember which rounds begin in them (`State.Stretch`),
one round is such a stretch (`Template.Counts.round`), and so are several
(`Template.Counts.severalRounds`).

The counter is a machine integer and the test comes behind the step. So the body is done with each
number from the first to the last one, unless the last one is the extreme of the direction: there
the next number is at the other end, the test succeeds again, and the loop never ends
(`FunDecl.for_loop_rounds`).
-/

set_option autoImplicit false

namespace FrameMachine

/-! ## Counting -/

namespace Direction

/-- The number that comes after a number of others, in the integers. -/
def reached (direction : Direction) (first : Int) (k : Nat) : Int :=
  match direction with
  | upto => first + k
  | downto => first - k

/-- How many numbers there are from the first to the last one. -/
def rounds (direction : Direction) (first last : Int) : Nat :=
  match direction with
  | upto => (last - first + 1).toNat
  | downto => (first - last + 1).toNat

/-- The number behind which counting starts over at the other end. -/
def extreme : Direction → Int64
  | upto => Int64.maxValue
  | downto => Int64.minValue

/-- The counter in a round, counted from zero. Beyond the extreme it goes on at the other end. -/
def counter (direction : Direction) (first : Int64) (k : Nat) : Int64 :=
  Int64.ofInt (direction.reached first.toInt k)

/-- Whether the loop goes on with a number. -/
def goesOn (direction : Direction) (v last : Int64) : Bool :=
  match direction with
  | upto => v ≤ last
  | downto => last ≤ v

/-- The next number. -/
def next (direction : Direction) (v : Int64) : Int64 :=
  match direction with
  | upto => v + 1
  | downto => v - 1

section Counting

variable {direction : Direction} {first last v : Int64} {k : Nat}

theorem apply_test (direction : Direction) (v last : Int64) :
    direction.test.apply (.int v) (.int last) = .ok (.bool (direction.goesOn v last)) := by
  cases direction with
  | upto => rfl
  | downto => rfl

theorem apply_advance (direction : Direction) (v : Int64) :
    direction.advance.apply (.int v) (.int 1) = .ok (.int (direction.next v)) := by
  cases direction with
  | upto => rfl
  | downto => rfl

theorem counter_zero (direction : Direction) (first : Int64) :
    direction.counter first 0 = first := by
  cases direction with
  | upto => simp [counter, reached]
  | downto => simp [counter, reached]

theorem next_counter (direction : Direction) (first : Int64) (k : Nat) :
    direction.next (direction.counter first k) = direction.counter first (k + 1) := by
  cases direction with
  | upto =>
    have hsum : first.toInt + ((k + 1 : Nat) : Int) = first.toInt + k + 1 := by omega
    rw [counter, counter, next, reached, reached, hsum]
    exact (Int64.ofInt_add (first.toInt + k) 1).symm
  | downto =>
    have hsum : first.toInt - ((k + 1 : Nat) : Int) = first.toInt - k - 1 := by omega
    rw [counter, counter, next, reached, reached, hsum]
    exact (Int64.ofInt_sub (first.toInt - k) 1).symm

/-- As long as the loop goes on, the counter is the number in the integers. -/
theorem toInt_counter (h : k < direction.rounds first.toInt last.toInt) :
    (direction.counter first k).toInt = direction.reached first.toInt k := by
  have hfirst := first.le_toInt
  have hfirst' := first.toInt_lt
  have hlast := last.le_toInt
  have hlast' := last.toInt_lt
  cases direction with
  | upto =>
    simp only [rounds] at h
    rw [counter, reached, Int64.toInt_ofInt_of_le]
    all_goals omega
  | downto =>
    simp only [rounds] at h
    rw [counter, reached, Int64.toInt_ofInt_of_le]
    all_goals omega

theorem goesOn_of_lt (h : k < direction.rounds first.toInt last.toInt) :
    direction.goesOn (direction.counter first k) last = true := by
  have hcounter := toInt_counter h
  cases direction with
  | upto =>
    simp only [rounds, reached] at h hcounter
    rw [goesOn, decide_eq_true_eq, Int64.le_iff_toInt_le]
    omega
  | downto =>
    simp only [rounds, reached] at h hcounter
    rw [goesOn, decide_eq_true_eq, Int64.le_iff_toInt_le]
    omega

/-- Behind the last number the test fails, unless counting has started over. -/
theorem goesOn_rounds (h : last ≠ direction.extreme) :
    direction.goesOn (direction.counter first (direction.rounds first.toInt last.toInt)) last =
      false := by
  have hfirst := first.le_toInt
  have hfirst' := first.toInt_lt
  have hlast := last.le_toInt
  have hlast' := last.toInt_lt
  have hne : last.toInt ≠ direction.extreme.toInt := fun heq => h (Int64.toInt_inj.1 heq)
  cases direction with
  | upto =>
    have hmax : (upto.extreme).toInt = 2 ^ 63 - 1 := rfl
    rw [goesOn, decide_eq_false_iff_not, Int64.le_iff_toInt_le, counter, reached, rounds,
      Int64.toInt_ofInt_of_le]
    all_goals omega
  | downto =>
    have hmin : (downto.extreme).toInt = -2 ^ 63 := rfl
    rw [goesOn, decide_eq_false_iff_not, Int64.le_iff_toInt_le, counter, reached, rounds,
      Int64.toInt_ofInt_of_le]
    all_goals omega

/-- No number is behind the extreme. -/
theorem goesOn_extreme (direction : Direction) (v : Int64) :
    direction.goesOn v direction.extreme = true := by
  have hv := v.le_toInt
  have hv' := v.toInt_lt
  cases direction with
  | upto =>
    have hmax : Int64.maxValue.toInt = 2 ^ 63 - 1 := rfl
    rw [goesOn, extreme, decide_eq_true_eq, Int64.le_iff_toInt_le]
    omega
  | downto =>
    have hmin : Int64.minValue.toInt = -2 ^ 63 := rfl
    rw [goesOn, extreme, decide_eq_true_eq, Int64.le_iff_toInt_le]
    omega

end Counting

end Direction

/-! ## Stretches of a run -/

/-- What is in the slot of the counter, if a round begins in this state: an activation that the
given ones wait for is at the jump out of the loop and does not take it. -/
def State.round? (callers : Array Frame) (exit slot : Nat) : State → Option (Option Value)
  | .running m =>
    if m.callers = callers ∧ m.top.pc = exit ∧ m.top.stack.head? = some (.bool true) then
      some (m.top.locals.get? slot)
    else none
  | .halted _ _ => none

/-- The rounds that begin in a number of steps. -/
def State.rounds (code : Code) (maxDepth : Option Nat) (callers : Array Frame) (exit slot : Nat) :
    Nat → State → List (Option Value)
  | 0, _ => []
  | n + 1, s =>
    (s.round? callers exit slot).toList ++ rounds code maxDepth callers exit slot n
      (s.step code maxDepth)

/-- The activation at work comes to a place. -/
def Machine.Completes (code : Code) (maxDepth : Option Nat) (stop : Nat) (m : Machine) : Prop :=
  ∃ n m', (State.running m).run code maxDepth n = .running m' ∧ m'.callers = m.callers ∧
    m'.top.pc = stop

/-- A stretch of a run inside a loop that the given machine has come to, with the rounds
that begin in it. -/
structure State.Stretch (code : Code) (maxDepth : Option Nat) (loop : Machine)
    (stop exit slot : Nat) (s : State) (n : Nat) (values : List (Option Value)) (s' : State) :
    Prop where
  arrives : s.run code maxDepth n = s'
  inside : ∀ k < n, ∃ m, s.run code maxDepth k = .running m ∧ loop.Inside stop m
  rounds : s.rounds code maxDepth loop.callers exit slot n = values

section Stretches

variable {code : Code} {maxDepth : Option Nat} {callers : Array Frame} {loop : Machine}
  {stop exit slot n n' : Nat}
  {s s' s'' : State} {values values' : List (Option Value)}

theorem State.rounds_add (n n' : Nat) (s : State) :
    s.rounds code maxDepth callers exit slot (n + n') =
      s.rounds code maxDepth callers exit slot n ++
        (s.run code maxDepth n).rounds code maxDepth callers exit slot n' := by
  induction n generalizing s with
  | zero => rw [Nat.zero_add, State.rounds, State.run, List.nil_append]
  | succ n ih => rw [Nat.succ_add, State.rounds, State.rounds, State.run, ih, List.append_assoc]

/-- No round begins where none of the states begins one. -/
theorem State.rounds_eq_nil (h : ∀ k < n, (s.run code maxDepth k).round? callers exit slot = none) :
    s.rounds code maxDepth callers exit slot n = [] := by
  induction n generalizing s with
  | zero => rfl
  | succ n ih =>
    have hfirst : s.round? callers exit slot = none := h 0 (Nat.succ_pos n)
    rw [State.rounds, hfirst, ih]
    · rfl
    · intro k hk
      exact h (k + 1) (Nat.succ_lt_succ hk)

namespace State.Stretch

theorem refl (s : State) : s.Stretch code maxDepth loop stop exit slot 0 [] s :=
  ⟨rfl, fun _ hk => absurd hk (Nat.not_lt_zero _), rfl⟩

theorem trans (h : s.Stretch code maxDepth loop stop exit slot n values s')
    (h' : s'.Stretch code maxDepth loop stop exit slot n' values' s'') :
    s.Stretch code maxDepth loop stop exit slot (n + n') (values ++ values') s'' := by
  refine ⟨?_, ?_, ?_⟩
  · rw [State.run_add, h.arrives, h'.arrives]
  · intro k hk
    by_cases hlt : k < n
    · exact h.inside k hlt
    · obtain ⟨j, rfl⟩ := Nat.exists_eq_add_of_le (Nat.le_of_not_lt hlt)
      rw [State.run_add, h.arrives]
      exact h'.inside j (by omega)
  · rw [State.rounds_add, h.rounds, h.arrives, h'.rounds]

section Steps

variable {t : Template} {pc pc' : Nat} {i : Instr} {L L' : Locals} {S S' : List Value} {w : World}

/-- An instruction of the activation itself. -/
theorem instr (hi : t.code[pc]? = some i)
    (he : i.execute code ⟨t, pc + 1, L, S⟩ w = .next ⟨t, pc', L', S'⟩ w) (hge : loop.top.pc ≤ pc)
    (hlt : pc < stop) :
    (t.point loop.callers pc L S w).Stretch code maxDepth loop stop exit slot 1
      ((t.point loop.callers pc L S w).round? loop.callers exit slot).toList
        (t.point loop.callers pc' L' S' w) := by
  refine ⟨?_, ?_, ?_⟩
  · rw [State.run, State.run, Template.step_next hi he]
    rfl
  · intro k hk
    obtain rfl : k = 0 := by omega
    exact ⟨_, rfl, Or.inr ⟨rfl, hge, hlt⟩⟩
  · rw [State.rounds, State.rounds, List.append_nil]

/-- An instruction that is not the jump out of the loop, in front of a stretch. -/
theorem cons (hi : t.code[pc]? = some i)
    (he : i.execute code ⟨t, pc + 1, L, S⟩ w = .next ⟨t, pc', L', S'⟩ w) (hge : loop.top.pc ≤ pc)
    (hlt : pc < stop) (hne : pc ≠ exit)
    (h : (t.point loop.callers pc' L' S' w).Stretch code maxDepth loop stop exit slot n values s) :
    (t.point loop.callers pc L S w).Stretch code maxDepth loop stop exit slot (n + 1) values s := by
  have hnone : (t.point loop.callers pc L S w).round? loop.callers exit slot = none := by
    rw [Template.point, State.round?, if_neg]
    rintro ⟨-, heq, -⟩
    exact hne heq
  have hall := (instr hi he hge hlt).trans h
  rw [hnone, Nat.add_comm] at hall
  exact hall

end Steps

end State.Stretch

end Stretches

/-! ## The parts of a round -/

/-- A `for` loop between two constants in a function. -/
structure Template.Counts (t : Template) (pc slot : Nat) (direction : Direction)
    (first last : Int64) (block : List Instr) : Prop where
  hasFor : t.HasFor pc slot direction [.push (.int first)] [.push (.int last)] block
  encloses : t.Encloses (pc + 6) block slot

section Loop

variable {t : Template} {pc slot : Nat} {direction : Direction} {first last v : Int64}
  {block : List Instr}
  {code : Code} {maxDepth : Option Nat} {loop : Machine} {L : Locals} {S : List Value} {w : World}

theorem execute_push (value : Literal) :
    (Instr.push value).execute code ⟨t, pc, L, S⟩ w = .next ⟨t, pc, L, value.toValue :: S⟩ w := rfl

theorem execute_store {value : Value} :
    (Instr.store slot).execute code ⟨t, pc, L, value :: S⟩ w =
      .next ⟨t, pc, L.set slot value, S⟩ w := rfl

theorem execute_jump {target : Nat} :
    (Instr.jump target).execute code ⟨t, pc, L, S⟩ w = .next ⟨t, target, L, S⟩ w := rfl

theorem execute_load (hv : L.get? slot = some (.int v)) :
    (Instr.load slot).execute code ⟨t, pc, L, S⟩ w = .next ⟨t, pc, L, .int v :: S⟩ w := by
  simp only [Instr.execute, Frame.load, hv]
  rfl

theorem execute_test : (Instr.binary direction.test).execute code
    ⟨t, pc, L, .int last :: .int v :: S⟩ w =
    .next ⟨t, pc, L, .bool (direction.goesOn v last) :: S⟩ w := by
  simp only [Instr.execute, Frame.pop2, direction.apply_test]
  rfl

theorem execute_advance : (Instr.binary direction.advance).execute code
    ⟨t, pc, L, .int 1 :: .int v :: S⟩ w = .next ⟨t, pc, L, .int (direction.next v) :: S⟩ w := by
  simp only [Instr.execute, Frame.pop2, direction.apply_advance]
  rfl

namespace Template.Counts

/-- The first number is stored. -/
theorem begins (h : t.Counts pc slot direction first last block) (hpc : loop.top.pc = pc) :
    (t.point loop.callers pc L S w).Stretch code maxDepth loop (pc + 6 + block.length + 5)
      (pc + 5) slot 2 []
      (t.point loop.callers (pc + 2) (L.set slot (.int first)) S w) := by
  have hpush : t.code[pc]? = some (.push (.int first)) := h.hasFor.hasFirst.head
  have hstore : t.code[pc + 1]? = some (.store slot) := h.hasFor.store
  apply State.Stretch.cons hpush (execute_push _) (by omega) (by omega) (by omega)
  exact .cons hstore execute_store (by omega) (by omega) (by omega) (.refl _)

/-- The number is compared with the last one. -/
theorem compares (h : t.Counts pc slot direction first last block) (hpc : loop.top.pc = pc)
    (hv : L.get? slot = some (.int v)) :
    (t.point loop.callers (pc + 2) L S w).Stretch code maxDepth loop (pc + 6 + block.length + 5)
      (pc + 5) slot 3 []
      (t.point loop.callers (pc + 5) L (.bool (direction.goesOn v last) :: S) w) := by
  have hload : t.code[pc + 2]? = some (.load slot) := h.hasFor.load
  have hpush : t.code[pc + 3]? = some (.push (.int last)) := h.hasFor.hasLast.head
  have hcompare : t.code[pc + 4]? = some (.binary direction.test) := h.hasFor.compare
  apply State.Stretch.cons hload (execute_load hv) (by omega) (by omega) (by omega)
  apply State.Stretch.cons hpush (execute_push _) (by omega) (by omega) (by omega)
  exact .cons hcompare execute_test (by omega) (by omega) (by omega) (.refl _)

theorem exit (h : t.Counts pc slot direction first last block) :
    t.code[pc + 5]? = some (.jumpUnless (pc + 6 + block.length + 5)) := h.hasFor.leave

/-- A round begins. -/
theorem enters (h : t.Counts pc slot direction first last block) (hpc : loop.top.pc = pc) :
    (t.point loop.callers (pc + 5) L (.bool true :: S) w).Stretch code maxDepth loop
      (pc + 6 + block.length + 5) (pc + 5)
      slot 1 [L.get? slot] (t.point loop.callers (pc + 6) L S w) := by
  have hround : (t.point loop.callers (pc + 5) L (.bool true :: S) w).round? loop.callers
      (pc + 5) slot = some (L.get? slot) := by
    rw [Template.point, State.round?, if_pos ⟨rfl, rfl, rfl⟩]
  rw [← Option.toList_some, ← hround]
  exact .instr h.exit rfl (by omega) (by omega)

/-- The loop is left. -/
theorem leaves (h : t.Counts pc slot direction first last block) (hpc : loop.top.pc = pc) :
    (t.point loop.callers (pc + 5) L (.bool false :: S) w).Stretch code maxDepth loop
      (pc + 6 + block.length + 5) (pc + 5)
      slot 1 [] (t.point loop.callers (pc + 6 + block.length + 5) L S w) := by
  have hround : (t.point loop.callers (pc + 5) L (.bool false :: S) w).round? loop.callers
      (pc + 5) slot = none := by
    rw [Template.point, State.round?, if_neg]
    rintro ⟨-, -, htop⟩
    cases htop
  rw [← Option.toList_none, ← hround]
  exact .instr h.exit rfl (by omega) (by omega)

/-- The counter goes to the next number, and the loop back to its test. -/
theorem advances (h : t.Counts pc slot direction first last block) (hpc : loop.top.pc = pc)
    (hv : L.get? slot = some (.int v)) :
    (t.point loop.callers (pc + 6 + block.length) L S w).Stretch code maxDepth loop
      (pc + 6 + block.length + 5) (pc + 5)
      slot 5 [] (t.point loop.callers (pc + 2) (L.set slot (.int (direction.next v))) S w) := by
  have hstep : t.Has (pc + 6 + block.length)
      [.load slot, .push (.int 1), .binary direction.advance, .store slot, .jump (pc + 2)] :=
        h.hasFor.step
  apply State.Stretch.cons hstep.head (execute_load hv) (by omega) (by omega) (by omega)
  apply State.Stretch.cons hstep.tail.head (execute_push _) (by omega) (by omega) (by omega)
  apply State.Stretch.cons hstep.tail.tail.head execute_advance (by omega) (by omega) (by omega)
  apply State.Stretch.cons hstep.tail.tail.tail.head execute_store (by omega) (by omega) (by omega)
  exact .cons hstep.tail.tail.tail.tail.head execute_jump (by omega) (by omega) (by omega) (.refl _)

/-- The body is done from its start to its end. -/
theorem works (h : t.Counts pc slot direction first last block) (hpc : loop.top.pc = pc)
    (hdone : Machine.Completes code maxDepth (pc + 6 + block.length)
      ⟨⟨t, pc + 6, L, S⟩, loop.callers, w⟩) :
    ∃ n L' S' w', (t.point loop.callers (pc + 6) L S w).Stretch code maxDepth loop
      (pc + 6 + block.length + 5) (pc + 5)
      slot n [] (t.point loop.callers (pc + 6 + block.length) L' S' w') ∧
        L'.get? slot = L.get? slot := by
  obtain ⟨k, x, hrun, hcallers, hend⟩ := hdone
  -- the place is only known to be reached some time, so the first time outside the body
  -- is looked for
  have hout : ¬ Machine.Inside ⟨⟨t, pc + 6, L, S⟩, loop.callers, w⟩ (pc + 6 + block.length) x := by
    rintro (hsize | ⟨-, -, hlt⟩)
    · rw [hcallers] at hsize
      exact Nat.lt_irrefl _ hsize
    · omega
  obtain ⟨n, ⟨⟨template, place, L', S'⟩, callers, w'⟩, harrives, hcallers', htemplate, hplace,
      hkept, hinside⟩ :=
    Machine.exists_first_exit h.encloses hrun hout
  simp only at hcallers' htemplate hplace hkept
  rw [hcallers', htemplate, hplace] at harrives
  refine ⟨n, L', S', w', ⟨harrives, ?_, ?_⟩, hkept⟩
  · intro j hj
    obtain ⟨y, hy, hin⟩ := hinside j hj
    refine ⟨y, hy, hin.imp id ?_⟩
    rintro ⟨hsame, hge, hlt⟩
    simp only at hge hlt
    exact ⟨hsame, by omega, by omega⟩
  · apply State.rounds_eq_nil
    intro j hj
    obtain ⟨y, hy, hin⟩ := hinside j hj
    have hy' : (t.point loop.callers (pc + 6) L S w).run code maxDepth j = .running y := hy
    -- the jump out of the loop is in front of the body, and in a call there are more activations
    rw [hy', State.round?, if_neg]
    rintro ⟨hsame, hexit, -⟩
    rcases hin with hsize | ⟨-, hge, -⟩
    · rw [hsame] at hsize
      exact Nat.lt_irrefl _ hsize
    · simp only at hge
      omega

/-- One round, from the test to the next test. -/
theorem round (h : t.Counts pc slot direction first last block) (hpc : loop.top.pc = pc)
    (hv : L.get? slot = some (.int v)) (hgo : direction.goesOn v last = true)
    (hdone : Machine.Completes code maxDepth (pc + 6 + block.length)
      ⟨⟨t, pc + 6, L, S⟩, loop.callers, w⟩) :
    ∃ n L' S' w', 0 < n ∧ (t.point loop.callers (pc + 2) L S w).Stretch code maxDepth loop
      (pc + 6 + block.length + 5)
      (pc + 5) slot n [some (.int v)] (t.point loop.callers (pc + 2) L' S' w') ∧
      L'.get? slot = some (.int (direction.next v)) := by
  obtain ⟨n, L', S', w', hbody, hkept⟩ := h.works hpc hdone
  have htest : (t.point loop.callers (pc + 2) L S w).Stretch code maxDepth loop
      (pc + 6 + block.length + 5) (pc + 5)
      slot 3 [] (t.point loop.callers (pc + 5) L (.bool (direction.goesOn v last) :: S) w) :=
        h.compares hpc hv
  rw [hgo] at htest
  have hall := ((htest.trans (h.enters hpc)).trans hbody).trans (h.advances hpc (hkept.trans hv))
  rw [hv] at hall
  refine ⟨3 + 1 + n + 5, _, S', w', by omega, hall, ?_⟩
  rw [Locals.get?_set, if_pos rfl]

/-- Several rounds from the start of the loop, each of which passes the test and
completes its body. -/
theorem severalRounds (h : t.Counts pc slot direction first last block) (hpc : loop.top.pc = pc)
    (htemplate : loop.top.template = t)
    (hbody : ∀ k x, (State.running loop).run code maxDepth k = .running x →
      x.callers = loop.callers → x.top.template = t → x.top.pc = pc + 6 →
      x.Completes code maxDepth (pc + 6 + block.length))
    (k : Nat) (hgo : ∀ j < k, direction.goesOn (direction.counter first j) last = true) :
    ∃ n L S w, k ≤ n ∧ (State.running loop).Stretch code maxDepth loop (pc + 6 + block.length + 5)
      (pc + 5) slot n
      ((List.range k).map fun j => some (.int (direction.counter first j)))
        (t.point loop.callers (pc + 2) L S w) ∧
      L.get? slot = some (.int (direction.counter first k)) := by
  induction k with
  | zero =>
    have hstart : State.running loop = t.point loop.callers pc loop.top.locals loop.top.stack
        loop.world := by
      rw [← hpc, ← htemplate]
      rfl
    -- in front of the first test the counter gets the first number
    refine ⟨2, loop.top.locals.set slot (.int first), loop.top.stack, loop.world, Nat.zero_le 2, ?_,
      ?_⟩
    · rw [hstart]
      exact h.begins hpc
    · rw [Locals.get?_set, if_pos rfl, direction.counter_zero]
  | succ k ih =>
    obtain ⟨n, L, S, w, hle, hbefore, hv⟩ := ih fun j hj => hgo j (Nat.lt_succ_of_lt hj)
    have hgoes := hgo k (Nat.lt_succ_self k)
    -- the test and the jump lead from here to the body
    have htest : (t.point loop.callers (pc + 2) L S w).Stretch code maxDepth loop
        (pc + 6 + block.length + 5) (pc + 5) slot 3 []
        (t.point loop.callers (pc + 5) L
          (.bool (direction.goesOn (direction.counter first k) last) :: S) w) :=
      h.compares hpc hv
    rw [hgoes] at htest
    have hentered := ((hbefore.trans htest).trans (h.enters hpc)).arrives
    have hdone := hbody _ _ hentered rfl rfl rfl
    obtain ⟨n', L', S', w', hpos, hround, hv'⟩ := h.round hpc hv hgoes hdone
    refine ⟨n + n', L', S', w', by omega, ?_, ?_⟩
    · rw [List.range_succ, List.map_append]
      exact hbefore.trans hround
    · rw [hv', direction.next_counter]

end Template.Counts

end Loop

/-! ## Loops of compiled functions -/

section Compiled

variable {ctx : Context} {f : FunDecl} {t : Template} {pc : Nat} {σ : Slots}

/-- The variables in scope at a part of a function have different slots. -/
theorem FunDecl.HasPart.distinct {part : Part} (h : f.HasPart ctx pc σ part) : σ.Distinct := by
  induction h with
  | body => exact paramSlots_distinct f.params
  | rest _ hs ih => exact (Stmt.code_extends _ hs).distinct ih
  | caseRest _ _ hblock ih =>
    exact (Slots.leave_extends (stmtsCode_extends _ hblock).used).distinct ih
  | forLast _ _ ih => exact (Slots.declare_extends _ _).distinct ih
  | forBlock _ _ _ ih => exact (Slots.declare_extends _ _).distinct ih
  | branch _ ih | elif _ ih | otherwise _ ih | condition _ ih | caseBody _ _ ih
  | whileCondition _ ih
  | whileBody _ _ ih | forFirst _ ih | init _ ih | assigned _ ih | returned _ ih | called _ ih
  | neg _ ih | not _ ih
  | left _ ih | right _ _ ih | argument _ _ ih | field _ _ _ _ ih => exact ih

/-- Only the counter has the slot that was given to it. -/
theorem Slots.Distinct.spares {counter : String} {body : List Stmt} (h : σ.Distinct)
    (hbody : assignsStmts counter body = false) :
    (σ.declare counter).Spares σ.used (assignsStmts · body) := by
  refine ⟨Nat.lt_succ_self _, ?_⟩
  intro name hname
  by_cases heq : name = counter
  · rwa [heq]
  · rw [slot?, declare, List.lookup_cons, beq_false_of_ne heq] at hname
    exact absurd (h.lt _ (mem_of_lookup hname)) (Nat.lt_irrefl _)

/-- A `for` loop between constants in a compiled function. -/
theorem FunDecl.HasPart.counts {slots : Nat} {last : Emitter} {counter : String} {a b : Int64}
    {direction : Direction} {body ss : List Stmt} {block : List Instr} {inner : Slots}
    (h : f.HasPart ctx pc σ
      (.block (.forLoop counter (.literal (.int a)) direction (.literal (.int b)) body :: ss)))
    (hmade : Compiled.Made ctx f ⟨t, slots⟩ last)
    (hblock : stmtsCode ctx (pc + 6) (σ.declare counter) body = some (block, inner))
    (hreturns : returnsStmts body = false) (hassigns : assignsStmts counter body = false) :
    t.Counts pc σ.used direction a b block := by
  obtain ⟨begin, limit, block', inner', hbegin, hlimit, hblock', hloop⟩ := (h.laid hmade).forLoop
  obtain rfl := Expr.codeWith_literal.1 hbegin
  obtain rfl := Expr.codeWith_literal.1 hlimit
  -- the code of the body is the one that is given
  have hsame : stmtsCode ctx (pc + 6) (σ.declare counter) body = some (block', inner') := hblock'
  rw [hblock, Option.some.injEq, Prod.mk.injEq] at hsame
  obtain ⟨rfl, rfl⟩ := hsame
  have hhas : t.Has (pc + 6) block := hloop.hasBlock
  exact ⟨hloop, hhas, stmts_confined body hblock hhas,
    stmts_keeps body hblock hreturns (h.distinct.spares hassigns)⟩

/-- A `for` loop between two constants whose body has no return, does not assign the counter and
completes whenever it is begun. Unless the last number is the extreme of the direction, the body is
done once for each number from the first to the last one, in their order, and then the statements
behind the loop follow. If it is the extreme, the test never fails: the counter goes on at the other
end, and the loop is never left. -/
theorem FunDecl.for_loop_rounds {slots : Nat} {last : Emitter} {counter : String} {a b : Int64}
    {direction : Direction}
    {body ss : List Stmt} {block : List Instr} {inner : Slots} {code : Code} {maxDepth : Option Nat}
    {m : Machine}
    (hf : f.EmittedAs ctx t slots last)
    (hpart : f.HasPart ctx pc σ
      (.block (.forLoop counter (.literal (.int a)) direction (.literal (.int b)) body :: ss)))
    (hblock : stmtsCode ctx (pc + 6) (σ.declare counter) body = some (block, inner))
    (hreturns : returnsStmts body = false) (hassigns : assignsStmts counter body = false)
    (htemplate : m.top.template = t) (hpc : m.top.pc = pc)
    (hbody : ∀ k x, (State.running m).run code maxDepth k = .running x → x.callers = m.callers →
      x.top.template = t → x.top.pc = pc + 6 → x.Completes code maxDepth (pc + 6 + block.length)) :
    ((σ.declare counter).slot? counter = some σ.used ∧
      f.HasPart ctx (pc + 6 + block.length + 5) (σ.leave inner) (.block ss)) ∧
    (b ≠ direction.extreme →
      (∀ k < direction.rounds a.toInt b.toInt,
        (direction.counter a k).toInt = direction.reached a.toInt k) ∧
      ∃ n m', (State.running m).run code maxDepth n = .running m' ∧ m'.callers = m.callers ∧
        m'.top.template = t ∧ m'.top.pc = pc + 6 + block.length + 5 ∧
        (∀ k < n, ∃ x, (State.running m).run code maxDepth k = .running x ∧
          m.Inside (pc + 6 + block.length + 5) x) ∧
        (State.running m).rounds code maxDepth m.callers (pc + 5) σ.used n =
          (List.range (direction.rounds a.toInt b.toInt)).map fun k =>
            some (.int (direction.counter a k))) ∧
    (b = direction.extreme →
      (∀ n, ∃ x, (State.running m).run code maxDepth n = .running x ∧
        m.Inside (pc + 6 + block.length + 5) x) ∧
      ∀ k, ∃ n, (State.running m).rounds code maxDepth m.callers (pc + 5) σ.used n =
        (List.range k).map fun j => some (.int (direction.counter a j))) := by
  have hcounts := hpart.counts hf.made hblock hreturns hassigns
  have hseveral := hcounts.severalRounds hpc htemplate hbody
  refine ⟨⟨Slots.slot?_declare σ counter, ?_⟩, ?_, ?_⟩
  · have hcode : (Stmt.forLoop counter (.literal (.int a)) direction (.literal (.int b)) body).code
        ctx pc σ =
        some (forCode pc σ.used direction [.push (.int a)] [.push (.int b)] block, σ.leave inner) :=
      Stmt.code_forLoop.2 ⟨_, Expr.codeWith_literal.2 rfl, _, Expr.codeWith_literal.2 rfl, block,
        inner, hblock, rfl, rfl⟩
    have hrest := hpart.rest hcode
    rw [add_length_forCode] at hrest
    exact hrest
  · intro hb
    refine ⟨fun k hk => Direction.toInt_counter hk, ?_⟩
    obtain ⟨n, L, S, w, -, hstretch, hv⟩ := hseveral _ fun j hj => Direction.goesOn_of_lt hj
    -- behind the last number the test fails
    have htest : (t.point m.callers (pc + 2) L S w).Stretch code maxDepth m
        (pc + 6 + block.length + 5) (pc + 5) σ.used 3 []
        (t.point m.callers (pc + 5) L (.bool (direction.goesOn _ b) :: S) w) :=
          hcounts.compares hpc hv
    rw [Direction.goesOn_rounds hb] at htest
    have hall := (hstretch.trans htest).trans (hcounts.leaves hpc)
    rw [List.append_nil, List.append_nil] at hall
    exact ⟨_, _, hall.arrives, rfl, rfl, rfl, hall.inside, hall.rounds⟩
  · rintro rfl
    -- there are as many rounds as one likes, and each takes a step at least
    have hgo (k j : Nat) (_ : j < k) : direction.goesOn (direction.counter a j) direction.extreme =
        true :=
      direction.goesOn_extreme _
    refine ⟨fun n => ?_, fun k => ?_⟩
    · obtain ⟨n', L, S, w, hle, hstretch, -⟩ := hseveral (n + 1) (hgo (n + 1))
      exact hstretch.inside n (by omega)
    · obtain ⟨n, L, S, w, -, hstretch, -⟩ := hseveral k (hgo k)
      exact ⟨n, hstretch.rounds⟩

end Compiled

/-- Whether a run ends within some steps and, wherever it is at the one place before, comes to
the other place. -/
def Machine.completesWithin (code : Code) (bound start stop : Nat) (m : Machine) : Bool :=
  ((State.running m).run code none bound).isHalted &&
    (List.range bound).all fun k =>
      match (State.running m).run code none k with
      | .running x => x.top.pc != start || (List.range bound).any fun n =>
          ((State.running x).run code none n).atWork fun y =>
            decide (y.callers = x.callers ∧ y.top.pc = stop)
      | .halted _ _ => true

theorem Machine.completes_of_completesWithin {code : Code} {bound start stop k : Nat}
    {m x : Machine} (h : m.completesWithin code bound start stop = true)
    (hx : (State.running m).run code none k = .running x) (hpc : x.top.pc = start) :
    x.Completes code none stop := by
  rw [completesWithin, Bool.and_eq_true, List.all_eq_true] at h
  obtain ⟨hends, hall⟩ := h
  have hlt : k < bound := by
    apply Nat.lt_of_not_le
    intro hle
    have hwork := State.not_isHalted_run_of_le hle (by rw [hx]; rfl)
    rw [hends] at hwork
    cases hwork
  have hcomes := hall k (List.mem_range.2 hlt)
  simp only [hx, hpc, bne_self_eq_false, Bool.false_or, List.any_eq_true] at hcomes
  obtain ⟨n, -, hn⟩ := hcomes
  obtain ⟨y, hy, hstop⟩ := State.atWork_eq_true hn
  exact ⟨n, y, hy, of_decide_eq_true hstop⟩

/-- The body of a loop, with a condition and another variable of the name of the counter. -/
def countdownBody : List Stmt := [
  .branch (.binary .gt (.path "i" []) (.literal (.int 1)))
    [.var "i" (.literal .nil), .assign "i" [] (.literal (.int 7)), .call "print" [.path "i" []]]
    .none]

/-- A program that counts down from three to one. -/
def countdown : Program := ⟨[], [⟨"main", "void", [], [
  .forLoop "i" (.literal (.int 3)) .downto (.literal (.int 1)) countdownBody]⟩]⟩

/-- The first state of a program that compiles and starts, with what is checked of it. -/
theorem Program.exists_start_of_check {p : Program} {check : Code → Machine → Bool}
    (h : (p.compile.toOption.bind fun code => (code.start {}).toOption.map (check code)) =
      some true) :
    ∃ code m, p.compile = .ok code ∧ code.start {} = .ok m ∧ check code m = true := by
  cases hcode : p.compile with
  | error e =>
    rw [hcode] at h
    cases h
  | ok code =>
    rw [hcode] at h
    cases hstart : code.start {} with
    | error e => simp [hstart, Except.toOption] at h
    | ok m => exact ⟨code, m, rfl, hstart, by simpa [hstart, Except.toOption] using h⟩

/-- The body in `countdown` is done with 3, 2 and 1, although a variable of the name of the counter
gets the value 7. -/
theorem countdown_rounds :
    ∃ code m n m', countdown.compile = .ok code ∧ code.start {} = .ok m ∧
      (State.running m).run code none n = .running m' ∧ m'.callers = m.callers ∧ m'.top.pc = 25 ∧
      (State.running m).rounds code none m.callers 5 0 n =
        [some (.int 3), some (.int 2), some (.int 1)] := by
  obtain ⟨code, m, hcode, hstart, hwithin⟩ : ∃ code m, countdown.compile = .ok code ∧
    code.start {} = .ok m ∧
    m.completesWithin code 68 6 20 = true := Program.exists_start_of_check (by decide +kernel)
  obtain ⟨t, ht, -, hm⟩ := Code.start_eq_ok hstart
  obtain ⟨f, slots, last, hfunction, -, hf⟩ := Program.exists_emittedAs hcode ht
  obtain rfl : _ = f := Option.some.inj hfunction
  obtain ⟨block, inner, hblock, hlength⟩ : ∃ block inner,
    stmtsCode countdown.context (0 + 6) (({} : Slots).declare "i")
    countdownBody = some (block, inner) ∧ block.length = 14 := ⟨_, _, rfl, rfl⟩
  have htemplate : m.top.template = t := by
    rw [hm]
    rfl
  have hpc : m.top.pc = 0 := by
    rw [hm]
    rfl
  have hbody (k : Nat) (x : Machine) (hx : (State.running m).run code none k = .running x)
      (_ : x.callers = m.callers) (_ : x.top.template = t) (hx6 : x.top.pc = 0 + 6) :
      x.Completes code none (0 + 6 + block.length) := by
    rw [hlength]
    exact Machine.completes_of_completesWithin hwithin hx hx6
  obtain ⟨-, hends, -⟩ := FunDecl.for_loop_rounds hf .body hblock rfl rfl htemplate hpc hbody
  obtain ⟨-, n, m', hrun, hcallers, -, hpc', -, hrounds⟩ := hends (by decide)
  rw [hlength] at hpc'
  exact ⟨code, m, n, m', hcode, hstart, hrun, hcallers, hpc', hrounds⟩

/-- A program whose loop goes up to the greatest integer from there. -/
def endless : Program := ⟨[], [⟨"main", "void", [], [
  .forLoop "i" (.literal (.int Int64.maxValue)) .upto (.literal (.int Int64.maxValue)) [
    .call "print" [.literal (.str "x")]]]⟩]⟩

/-- There is one number from the greatest integer to itself, but a second round begins, with the
least integer. -/
theorem endless_second_round :
    Direction.upto.rounds Int64.maxValue.toInt Int64.maxValue.toInt = 1 ∧
    ∃ code m n, endless.compile = .ok code ∧ code.start {} = .ok m ∧
      (State.running m).rounds code none m.callers 5 0 n =
        [some (.int Int64.maxValue), some (.int Int64.minValue)] := by
  refine ⟨by decide, ?_⟩
  obtain ⟨code, m, hcode, hstart, hrounds⟩ : ∃ code m, endless.compile = .ok code ∧
      code.start {} = .ok m ∧ decide ((State.running m).rounds code none m.callers 5 0 25 =
        [some (.int Int64.maxValue), some (.int Int64.minValue)]) = true :=
    Program.exists_start_of_check (by decide +kernel)
  exact ⟨code, m, 25, hcode, hstart, of_decide_eq_true hrounds⟩

end FrameMachine
