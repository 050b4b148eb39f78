import FrameMachine.Proofs.Machine.Streams
import FrameMachine.Proofs.Machine.Worlds

/-!
# Runs with a full output

An output that takes only so many bytes cuts a run short and does nothing else to it. As long as
everything fits, the run with the limited output and the run without a limit are in the same state
after the same number of steps (`State.run_capped`). The first text that does not fit ends the run
with the limited output, at the instruction that prints it, when the part of the text that fits has
been written (`Machine.step_crossing`).
-/

set_option autoImplicit false

namespace FrameMachine

/-- The output takes every text. -/
structure Output.Unlimited (out : Output) : Prop where
  limit : out.limit = none
  flushes : out.flushFails = false
  answers : out.answers = []

/-- The output takes no more than a number of bytes in all. -/
def Output.capped (limit : Nat) (out : Output) : Output := { out with limit := some limit }

/-- The same world, but its output takes no more than a number of bytes in all. -/
def World.capped (limit : Nat) (w : World) : World := w.mapStreams id (Output.capped limit)

/-- The same world, but its output is full: it has taken no more than a number of bytes. -/
def World.truncated (limit : Nat) (w : World) : World :=
  w.mapStreams id fun out => Output.capped limit { out with written := out.written.take limit }

/-! ## The output -/

section Output

variable {out out' : Output} {limit : Nat}

theorem Output.Unlimited.grows (h : out.Unlimited) (hgrows : out.Grows out') : out'.Unlimited := by
  obtain ⟨bytes, used, rfl⟩ := hgrows
  exact ⟨h.limit, h.flushes, by rw [h.answers, List.drop_nil]⟩

theorem Output.Grows.size_le (h : out.Grows out') : out.written.size ≤ out'.written.size := by
  obtain ⟨bytes, used, rfl⟩ := h
  rw [Array.size_append]
  exact Nat.le_add_right _ _

/-- The first bytes that have been written stay the first. -/
theorem Output.Grows.take_eq (h : out.Grows out') (hlimit : limit ≤ out.written.size) :
    out'.written.toList.take limit = out.written.toList.take limit := by
  obtain ⟨rest, hrest⟩ := h.written
  rw [← hrest, List.take_append_of_le_length (by rwa [Array.length_toList])]

theorem Output.Unlimited.write_eq (h : out.Unlimited) (text : String) :
    out.write text = (.ok (), { out with written := out.written ++ text.toUTF8.data }) := by
  simp [write, put, accepted, h.limit, h.flushes, h.answers]

/-- A text that fits is written as if there were no limit, be it that nothing fits behind it, or
that nothing fits any more and the text is empty. -/
theorem Output.Unlimited.write_capped (h : out.Unlimited) {text : String}
    (hfits : out.written.size + text.toUTF8.data.size ≤ limit) :
    (out.capped limit).write text = ((out.write text).1, (out.write text).2.capped limit) := by
  have htaken : text.toUTF8.data.take (limit - out.written.size) = text.toUTF8.data := by
    rw [Array.take_eq_extract, Array.extract_eq_self_of_le (by omega)]
  rw [h.write_eq]
  simp only [write, put, accepted, capped, htaken, h.answers, Nat.lt_irrefl, if_false, h.flushes,
    Bool.false_eq_true]

/-- Of a text that does not fit, the output takes what does. -/
theorem Output.Unlimited.write_crossing (h : out.Unlimited) {text : String}
    (hsize : out.written.size ≤ limit) (hcross : limit < out.written.size + text.toUTF8.data.size) :
    (out.capped limit).write text =
      (.error .sinkFull, Output.capped limit
        { out with written := (out.write text).2.written.take limit }) := by
  have htaken : (text.toUTF8.data.take (limit - out.written.size)).size <
      text.toUTF8.data.size := by
    rw [Array.take_eq_extract, Array.size_extract]
    omega
  have hwritten : (out.written ++ text.toUTF8.data).take limit =
      out.written ++ text.toUTF8.data.take (limit - out.written.size) := by
    rw [Array.take_eq_extract, Array.take_eq_extract, Array.extract_append,
      Array.extract_eq_self_of_le hsize, Nat.zero_sub]
  have hanswers : (out.capped limit).answers = [] := h.answers
  rw [h.write_eq, hwritten, write, hanswers]
  exact if_pos htaken

end Output

/-! ## Steps -/

section Steps

variable {code : Code} {maxDepth : Option Nat} {limit : Nat} {w : World}

theorem Frame.write_capped (f : Frame) {v : Value} (h : w.output.Unlimited)
    (hfits : w.output.written.size + v.text.toUTF8.data.size ≤ limit) :
    f.write (w.capped limit) v = (f.write w v).mapWorld (World.capped limit) := by
  cases w with
  | mk heap input output =>
    have hwrite : (output.capped limit).write v.text = _ := h.write_capped hfits
    unfold write World.capped World.mapStreams
    simp only [hwrite]
    exact Effect.after_mapWorld (World.capped limit) f ⟨heap, input, (output.write v.text).2⟩ _

/-- Printing a text that does not fit fails. -/
theorem Frame.write_crossing (f : Frame) {v : Value} (h : w.output.Unlimited)
    (hsize : w.output.written.size ≤ limit)
    (hcross : limit < w.output.written.size + v.text.toUTF8.data.size) :
    f.write (w.capped limit) v =
      .fail (.stream .sinkFull)
        (World.truncated limit { w with output := (w.output.write v.text).2 }) := by
  cases w with
  | mk heap input output =>
    have hwrite : (output.capped limit).write v.text = _ := h.write_crossing hsize hcross
    unfold write World.capped World.mapStreams
    simp only [hwrite]
    rw [h.write_eq]
    rfl

/-- The effect of an instruction does not depend on the limit if what it prints fits. -/
theorem Instr.execute_capped (code : Code) (i : Instr) (f : Frame) (h : w.output.Unlimited)
    (hfits : (i.worldAfter f.stack w).output.written.size ≤ limit) :
    i.execute code f (w.capped limit) = (i.execute code f w).mapWorld (World.capped limit) := by
  by_cases hi : i = .write
  · subst hi
    rw [execute, execute, Frame.pop1, Frame.pop1]
    cases hstack : f.stack with
    | nil => rfl
    | cons v rest =>
      rw [hstack, worldAfter, h.write_eq, Array.size_append] at hfits
      exact Frame.write_capped _ h hfits
  · exact i.execute_mapStreams code f w (fun _ => rfl) (fun hwrite => absurd hwrite hi)

/-- Only an instruction that prints can bring the output over a limit. -/
theorem Instr.eq_write_of_crossing {i : Instr} {stack : List Value}
    (hsize : w.output.written.size ≤ limit)
    (hcross : limit < (i.worldAfter stack w).output.written.size) :
    i = .write ∧ ∃ v rest, stack = v :: rest := by
  unfold worldAfter at hcross
  split at hcross
  · exact ⟨rfl, _, _, rfl⟩
  all_goals exact absurd hcross (Nat.not_lt.2 hsize)

theorem Machine.step_capped {m : Machine} (h : m.world.output.Unlimited)
    (hfits : (m.step code maxDepth).world.output.written.size ≤ limit) :
    (m.mapWorld (World.capped limit)).step code maxDepth =
      (m.step code maxDepth).mapWorld (World.capped limit) := by
  apply step_mapWorld
  intro i hi
  rw [world_step, hi] at hfits
  exact i.execute_capped code m.top.advance h hfits

/-- If a step writes beyond the limit, it prints a value whose text crosses it, and is the last one
under the limit. -/
theorem Machine.step_crossing {m : Machine} (h : m.world.output.Unlimited)
    (hsize : m.world.output.written.size ≤ limit)
    (hcross : limit < (m.step code maxDepth).world.output.written.size) :
    ∃ v rest, m.top.fetch? = some .write ∧ m.top.stack = v :: rest ∧
      limit < m.world.output.written.size + v.text.toUTF8.data.size ∧
      (m.mapWorld (World.capped limit)).step code maxDepth =
        .halted (.error (.fault ⟨.stream .sinkFull, m.top.template.name, m.top.pc, .write⟩))
          ((m.step code maxDepth).world.truncated limit) := by
  rw [world_step] at hcross ⊢
  cases hi : m.top.fetch? with
  | none =>
    -- at its end a function returns nil and prints nothing
    rw [hi] at hcross
    exact absurd hcross (Nat.not_lt.2 hsize)
  | some i =>
    simp only [hi] at hcross ⊢
    obtain ⟨rfl, v, rest, hstack⟩ := Instr.eq_write_of_crossing hsize hcross
    rw [hstack, Instr.worldAfter] at hcross ⊢
    have htext : limit < m.world.output.written.size + v.text.toUTF8.data.size := by
      rwa [h.write_eq, Array.size_append] at hcross
    refine ⟨v, rest, rfl, rfl, htext, ?_⟩
    have hother : (m.mapWorld (World.capped limit)).top.fetch? = some .write := hi
    have hstack' : (m.mapWorld (World.capped limit)).top.advance.stack = v :: rest := hstack
    rw [step_eq hother, Instr.execute, Frame.pop1, hstack']
    exact congrArg _ (Frame.write_crossing _ h hsize htext)

end Steps

/-! ## Runs -/

section Runs

variable {code : Code} {maxDepth : Option Nat} {limit : Nat}

/-- As long as everything fits, the limit makes no difference. -/
theorem State.run_capped {n : Nat} {s : State} (h : s.world.output.Unlimited)
    (hfits : (s.run code maxDepth n).world.output.written.size ≤ limit) :
    (s.mapWorld (World.capped limit)).run code maxDepth n =
      (s.run code maxDepth n).mapWorld (World.capped limit) := by
  induction n generalizing s with
  | zero => rfl
  | succ n ih =>
    -- what the first step writes is still there at the end, so it fits
    have hstep : (s.step code maxDepth).world.output.written.size ≤ limit :=
      Nat.le_trans (grows_run n (s.step code maxDepth)).size_le hfits
    have hnext : (s.mapWorld (World.capped limit)).step code maxDepth =
        (s.step code maxDepth).mapWorld (World.capped limit) := by
      cases s with
      | halted result w => rfl
      | running m => exact Machine.step_capped h hstep
    rw [run, run, hnext]
    exact ih (h.grows s.grows_step) hfits

/-- A run that comes to write more than fits has been at a step that crossed the limit. -/
theorem State.exists_crossing {n : Nat} {s : State} (hsize : s.world.output.written.size ≤ limit)
    (hcross : limit < (s.run code maxDepth n).world.output.written.size) :
    ∃ k m, k < n ∧ s.run code maxDepth k = .running m ∧ m.world.output.written.size ≤ limit ∧
      limit < (m.step code maxDepth).world.output.written.size := by
  induction n with
  | zero => exact absurd hcross (Nat.not_lt.2 hsize)
  | succ n ih =>
    by_cases hn : limit < (s.run code maxDepth n).world.output.written.size
    · obtain ⟨k, m, hk, hrest⟩ := ih hn
      exact ⟨k, m, Nat.lt_succ_of_lt hk, hrest⟩
    · cases hm : s.run code maxDepth n with
      | running m =>
        rw [hm] at hn
        rw [run_add, hm] at hcross
        exact ⟨n, m, Nat.lt_succ_self n, hm, Nat.not_lt.1 hn, hcross⟩
      | halted result w =>
        -- nothing is written after the end
        rw [hm] at hn
        rw [run_add, hm, run_halted] at hcross
        exact absurd hcross hn

/-- A run that comes to write more than fits ends, under the limit, at the step that crossed it. -/
theorem State.run_crossing {n : Nat} {s : State} (h : s.world.output.Unlimited)
    (hsize : s.world.output.written.size ≤ limit)
    (hcross : limit < (s.run code maxDepth n).world.output.written.size) :
    ∃ k m v rest w', k < n ∧ s.run code maxDepth k = .running m ∧
      m.top.fetch? = some .write ∧ m.top.stack = v :: rest ∧ m.world.output.written.size ≤ limit ∧
      limit < m.world.output.written.size + v.text.toUTF8.data.size ∧
      (s.mapWorld (World.capped limit)).run code maxDepth (k + 1) =
        .halted (.error (.fault ⟨.stream .sinkFull, m.top.template.name, m.top.pc, .write⟩)) w' ∧
      w'.output.written.toList = (s.run code maxDepth n).world.output.written.toList.take limit ∧
      w'.heap = m.world.heap := by
  obtain ⟨k, m, hkn, hk, hm, hstep⟩ := exists_crossing hsize hcross
  have hunlimited : m.world.output.Unlimited := by
    have hgrows : s.world.output.Grows (s.run code maxDepth k).world.output := grows_run k s
    rw [hk] at hgrows
    exact h.grows hgrows
  obtain ⟨v, rest, hfetch, hstack, htext, hlast⟩ := Machine.step_crossing hunlimited hm hstep
  refine ⟨k, m, v, rest, (m.step code maxDepth).world.truncated limit, hkn, hk, hfetch, hstack, hm,
    htext, ?_, ?_, ?_⟩
  · -- up to this step everything has fitted
    rw [run_add, run_capped h (by rwa [hk]), hk]
    exact hlast
  · have hnext : s.run code maxDepth (k + 1) = m.step code maxDepth := by
      rw [run_add, hk]
      rfl
    -- the run without a limit goes on from there, but its first bytes stay the same
    obtain ⟨j, rfl⟩ := Nat.exists_eq_add_of_le (Nat.succ_le_of_lt hkn)
    rw [run_add, hnext, (grows_run j _).take_eq (Nat.le_of_lt hstep)]
    simp [World.truncated, World.mapStreams, Output.capped]
  · rw [Machine.world_step, hfetch, hstack]
    rfl

end Runs

theorem Code.output_start {code : Code} {w : World} {start : Machine}
    (h : code.start w = .ok start) :
    (State.running start).world.output = w.output := by
  obtain ⟨t, -, -, rfl⟩ := start_eq_ok h
  rfl

/-- An output that takes `limit` bytes in all makes a difference only to a run that writes more than
that, be it one that ends or not. Any other run starts, goes on and ends in the same way as with an
output that takes everything, with the same result, heap and streams.

A run that would write more ends with the error of a full output. It does so at the instruction
whose text crosses the limit, and has written exactly the first `limit` bytes of what is written
without a limit. -/
theorem Code.full_output_truncates (code : Code) (maxDepth : Option Nat) (w : World) (limit : Nat)
    (hunlimited : w.output.Unlimited) (hsize : w.output.written.size ≤ limit) :
    code.start (w.capped limit) = (code.start w).map (Machine.mapWorld (World.capped limit)) ∧
    (∀ n s, code.after maxDepth w n = some s → s.world.output.written.size ≤ limit →
      code.after maxDepth (w.capped limit) n = some (s.mapWorld (World.capped limit))) ∧
    ∀ n s, code.after maxDepth w n = some s → limit < s.world.output.written.size →
      ∃ k m v rest w', k < n ∧ code.after maxDepth w k = some (.running m) ∧
        m.top.fetch? = some .write ∧ m.top.stack = v :: rest ∧ m.world.output.written.size ≤ limit ∧
        limit < m.world.output.written.size + v.text.toUTF8.data.size ∧
        code.after maxDepth (w.capped limit) (k + 1) = some (.halted
          (.error (.fault ⟨.stream .sinkFull, m.top.template.name, m.top.pc, .write⟩)) w') ∧
        w'.output.written.toList = s.world.output.written.toList.take limit ∧
          w'.heap = m.world.heap := by
  have hstarts : code.start (w.capped limit) =
      (code.start w).map (Machine.mapWorld (World.capped limit)) :=
    code.start_mapStreams w id (Output.capped limit)
  refine ⟨hstarts, ?_, ?_⟩
  · intro n s hs hfits
    obtain ⟨start, hstart, rfl⟩ := Code.after_eq_some.1 hs
    rw [hstart] at hstarts
    rw [← Code.output_start hstart] at hunlimited
    exact Code.after_eq_some.2 ⟨_, hstarts, State.run_capped hunlimited hfits⟩
  · intro n s hs hcross
    obtain ⟨start, hstart, rfl⟩ := Code.after_eq_some.1 hs
    rw [hstart] at hstarts
    rw [← Code.output_start hstart] at hunlimited hsize
    obtain ⟨k, m, v, rest, w', hkn, hk, hfetch, hstack, hm, htext, hlast, hwritten, hheap⟩ :=
      State.run_crossing hunlimited hsize hcross
    exact ⟨k, m, v, rest, w', hkn, Code.after_eq_some.2 ⟨start, hstart, hk⟩, hfetch, hstack, hm,
      htext, Code.after_eq_some.2 ⟨_, hstarts, hlast⟩, hwritten, hheap⟩

/-- Code that prints a character of two bytes and an empty text again and again, without an end. -/
def chatter : Code := .ofTemplates [
  { name := "main", arity := 0,
    code := #[.push (.str "é"), .write, .push (.str ""), .write, .jump 0] }]

/-- An output of two bytes has room for the first character of `chatter` and for the empty text
behind it. One of three bytes ends the run in the middle of the second character. -/
theorem chatter_truncated :
    (∃ s, chatter.after none {} 4 = some s ∧ s.world.output.written.toList = [195, 169] ∧
      chatter.after none (World.capped 2 {}) 4 = some (s.mapWorld (World.capped 2))) ∧
    ∃ k m w', chatter.after none {} k = some (.running m) ∧ m.top.fetch? = some .write ∧
      chatter.after none (World.capped 3 {}) (k + 1) = some (.halted
        (.error (.fault ⟨.stream .sinkFull, m.top.template.name, m.top.pc, .write⟩)) w') ∧
      w'.output.written.toList = [195, 169, 195] := by
  have hunlimited : ({} : World).output.Unlimited := ⟨rfl, rfl, rfl⟩
  obtain ⟨-, hfits, -⟩ := Code.full_output_truncates chatter none {} 2 hunlimited (by decide)
  obtain ⟨-, -, hcrosses⟩ := Code.full_output_truncates chatter none {} 3 hunlimited (by decide)
  have hfour : (chatter.after none {} 4).any (·.world.output.written.toList = [195, 169]) =
      true := by decide +kernel
  obtain ⟨s, hs, htest⟩ := (Option.any_eq_true _ _).1 hfour
  have hwritten := of_decide_eq_true htest
  have hseven : (chatter.after none {} 7).any
      (·.world.output.written.toList = [195, 169, 195, 169]) = true := by
    decide +kernel
  obtain ⟨s', hs', htest'⟩ := (Option.any_eq_true _ _).1 hseven
  have hwritten' := of_decide_eq_true htest'
  have hsize : s.world.output.written.size = 2 := by rw [← Array.length_toList, hwritten]; rfl
  have hsize' : s'.world.output.written.size = 4 := by rw [← Array.length_toList, hwritten']; rfl
  obtain ⟨k, m, v, rest, w', -, hk, hfetch, -, -, -, hlast, htaken, -⟩ :=
    hcrosses 7 s' hs' (by omega)
  refine ⟨⟨s, hs, hwritten, hfits 4 s hs (by omega)⟩, k, m, w', hk, hfetch, hlast, ?_⟩
  rw [htaken, hwritten']
  rfl

end FrameMachine
