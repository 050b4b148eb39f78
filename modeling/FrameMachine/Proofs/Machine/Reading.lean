import FrameMachine.Proofs.Machine.Lines
import FrameMachine.Proofs.Machine.Streams

/-!
# Reads deliver the lines of the input

Runs of a program that follow each other go on with the same input (`Code.session`). However many
there are and whatever becomes of them, each `read` uses up one line and nothing else uses up any,
so that the number of reads alone says what is left of the input (`Code.input_of_session`). A read
therefore delivers the line whose number it has among all reads.

What is behind the lines that have been read has no influence. With another input of which these
lines are the same the runs take the same course (`Code.session_withInput`).
-/

set_option autoImplicit false

namespace FrameMachine

/-- The number of lines that the next step reads. -/
def Machine.reads (m : Machine) : Nat := if m.top.fetch? = some .read then 1 else 0

/-- A moment in a sequence of runs. -/
structure Moment where
  /-- The number of reads executed so far, in all runs. -/
  reads : Nat
  /-- The state of the last run. -/
  state : State

/-- The start of a run when reads have been executed before. -/
def Code.begin (code : Code) (w : World) (reads : Nat) : Option Moment :=
  (code.start w).toOption.map fun m => ⟨reads, .running m⟩

/-- A run at work makes a step. When it has ended, a further one starts in the world
that it has left. -/
def Moment.next (code : Code) (maxDepth : Option Nat) : Moment → Option Moment
  | ⟨reads, .running m⟩ => some ⟨reads + m.reads, m.step code maxDepth⟩
  | ⟨reads, .halted _ w⟩ => code.begin w reads

/-- Runs of a program one after the other, from the given world on, unless it does not start. -/
def Code.session (code : Code) (maxDepth : Option Nat) (w : World) : Nat → Option Moment
  | 0 => code.begin w 0
  | n + 1 => (code.session maxDepth w n).bind (Moment.next code maxDepth)

/-- The same state with another input. -/
def State.withInput (input : List UInt8) : State → State :=
  State.mapWorld (World.mapStreams (fun _ => input) id)

/-- The same moment with what is left of another input after as many reads. -/
def Moment.withInput (input : List UInt8) (p : Moment) : Moment :=
  ⟨p.reads, p.state.withInput (Input.unread input p.reads)⟩

/-! ## Steps -/

section Steps

variable {code : Code} {maxDepth : Option Nat} {m : Machine}

theorem Machine.reads_of_read (h : m.top.fetch? = some .read) : m.reads = 1 := if_pos h

theorem Machine.reads_of_ne_read (h : m.top.fetch? ≠ some .read) : m.reads = 0 := if_neg h

/-- When some lines have been read, a read goes on with the text of the next one on the stack, or
ends the run if that is no text. It uses up the line in either case. -/
theorem Machine.step_read {input : List UInt8} {k : Nat} (h : m.top.fetch? = some .read)
    (hinput : m.world.input = Input.unread input k) :
    m.step code maxDepth = match Input.nthText input k with
      | .ok text => .running ⟨m.top.advance.push (.str text), m.callers,
          { m.world with input := Input.unread input (k + 1) }⟩
      | .error e => .halted (.error (.fault ⟨.stream e, m.top.template.name, m.top.pc, .read⟩))
          { m.world with input := Input.unread input (k + 1) } := by
  rw [step_eq h, Instr.execute, Frame.read]
  simp only
  rw [hinput, Input.readLine_unread]
  cases Input.nthText input k with
  | ok text => rfl
  | error e => rfl

/-- No other step uses up anything of the input. -/
theorem Machine.input_step (h : m.top.fetch? ≠ some .read) :
    (m.step code maxDepth).world.input = m.world.input := by
  rw [world_step]
  cases hi : m.top.fetch? with
  | none => rfl
  | some i =>
    rw [hi] at h
    simp only
    rw [Instr.worldAfter.eq_def]
    split
    · rfl
    · exact absurd rfl h
    all_goals rfl

/-- No other step depends on the input. -/
theorem Machine.step_withInput (h : m.top.fetch? ≠ some .read) (input : List UInt8) :
    ((State.running m).withInput input).step code maxDepth =
      (m.step code maxDepth).withInput input := by
  apply step_mapWorld
  intro i hi
  apply Instr.execute_mapStreams
  · rintro rfl
    exact absurd hi h
  · exact fun _ => rfl

/-- A read depends on the next line alone. -/
theorem Machine.step_read_withInput {input input' : List UInt8} {k : Nat}
    (h : m.top.fetch? = some .read) (hinput : m.world.input = Input.unread input k)
    (htext : Input.nthText input k = Input.nthText input' k) :
    ((State.running m).withInput (Input.unread input' k)).step code maxDepth =
      (m.step code maxDepth).withInput (Input.unread input' (k + 1)) := by
  -- the machine with the other input is at the same instruction
  have hother : (m.mapWorld (World.mapStreams (fun _ => Input.unread input' k) id)).top.fetch? =
      some .read := h
  refine (step_read hother rfl).trans ?_
  rw [step_read h hinput, htext]
  cases Input.nthText input' k with
  | ok text => rfl
  | error e => rfl

end Steps

/-! ## Sequences of runs -/

section Sessions

variable {code : Code} {maxDepth : Option Nat} {w : World} {p q : Moment} {input : List UInt8}
  {k limit n : Nat}

theorem Code.begin_eq_some (h : code.begin w k = some p) :
    ∃ m, p = ⟨k, .running m⟩ ∧ m.world.input = w.input := by
  obtain ⟨m, hm, rfl⟩ := Option.map_eq_some_iff.1 h
  refine ⟨m, rfl, ?_⟩
  cases hstart : code.start w with
  | error e =>
    rw [hstart] at hm
    cases hm
  | ok start =>
    rw [hstart] at hm
    cases hm
    obtain ⟨t, -, -, rfl⟩ := Code.start_eq_ok hstart
    rfl

/-- A run starts in the same way with another input. -/
theorem Code.begin_withInput (code : Code) (w : World) (input : List UInt8) (k : Nat) :
    code.begin { w with input := Input.unread input k } k =
      (code.begin w k).map (Moment.withInput input) := by
  have hstart := Code.start_mapStreams code w (fun _ => Input.unread input k) id
  have hworld : w.mapStreams (fun _ => Input.unread input k) id =
      { w with input := Input.unread input k } := rfl
  rw [hworld] at hstart
  rw [begin, begin, hstart]
  cases code.start w with
  | error e => rfl
  | ok m => rfl

/-- If the reads so far say what is left of the input, they do so at the next moment too. -/
theorem Moment.input_next (hinput : p.state.world.input = Input.unread input p.reads)
    (h : p.next code maxDepth = some q) : q.state.world.input = Input.unread input q.reads := by
  obtain ⟨reads, state⟩ := p
  cases state with
  | halted result w =>
    obtain ⟨m, rfl, hm⟩ := Code.begin_eq_some h
    exact hm.trans hinput
  | running m =>
    cases h
    by_cases hread : m.top.fetch? = some .read
    · simp only [Machine.reads_of_read hread, Machine.step_read hread hinput]
      cases Input.nthText input reads with
      | ok text => rfl
      | error e => rfl
    · simp only [Machine.reads_of_ne_read hread, Machine.input_step hread]
      exact hinput

/-- The reads so far say what is left of the input. -/
theorem Code.input_of_session (h : code.session maxDepth w n = some p) :
    p.state.world.input = Input.unread w.input p.reads := by
  induction n generalizing p with
  | zero =>
    obtain ⟨m, rfl, hm⟩ := Code.begin_eq_some h
    exact hm.trans (Input.unread_zero w.input).symm
  | succ n ih =>
    obtain ⟨before, hbefore, hnext⟩ := Option.bind_eq_some_iff.1 h
    exact Moment.input_next (ih hbefore) hnext

theorem Moment.reads_le_of_next (h : p.next code maxDepth = some q) : p.reads ≤ q.reads := by
  obtain ⟨reads, state⟩ := p
  cases state with
  | halted result w =>
    obtain ⟨m, rfl, -⟩ := Code.begin_eq_some h
    exact Nat.le_refl reads
  | running m =>
    cases h
    exact Nat.le_add_right reads m.reads

/-- The next moment is the same with another input of which the lines read until then
are the same. -/
theorem Moment.next_withInput {input' : List UInt8}
    (hinput : p.state.world.input = Input.unread input p.reads)
    (hlines : (Input.lines input).take limit = (Input.lines input').take limit)
    (h : p.next code maxDepth = some q) (hq : q.reads ≤ limit) :
    (p.withInput input').next code maxDepth = some (q.withInput input') := by
  obtain ⟨reads, state⟩ := p
  cases state with
  | halted result w =>
    have hbegin := Code.begin_withInput code w input' reads
    have hsame : code.begin w reads = some q := h
    rw [hsame] at hbegin
    exact hbegin
  | running m =>
    cases h
    -- the other run makes the same step from the same number of reads, so only the states have
    -- to be compared
    suffices hstep : ((State.running m).withInput (Input.unread input' reads)).step code maxDepth =
        (m.step code maxDepth).withInput (Input.unread input' (reads + m.reads)) by
      exact congrArg (fun s => some (Moment.mk (reads + m.reads) s)) hstep
    by_cases hread : m.top.fetch? = some .read
    · simp only [Machine.reads_of_read hread] at hq ⊢
      exact Machine.step_read_withInput hread hinput (Input.nthText_of_take hlines hq)
    · rw [Machine.reads_of_ne_read hread]
      exact Machine.step_withInput hread (Input.unread input' reads)

/-- So are all moments at which no more than these lines have been read. -/
theorem Code.session_withInput
    (hlines : (Input.lines w.input).take limit = (Input.lines input).take limit)
    (h : code.session maxDepth w n = some p) (hp : p.reads ≤ limit) :
    code.session maxDepth { w with input := input } n = some (p.withInput input) := by
  induction n generalizing p with
  | zero =>
    have hbegin := Code.begin_withInput code w input 0
    have hsame : code.begin w 0 = some p := h
    rw [hsame, Input.unread_zero] at hbegin
    exact hbegin
  | succ n ih =>
    obtain ⟨before, hbefore, hnext⟩ := Option.bind_eq_some_iff.1 h
    have hsame := ih hbefore (Nat.le_trans (Moment.reads_le_of_next hnext) hp)
    rw [session, hsame]
    exact Moment.next_withInput (Code.input_of_session hbefore) hlines hnext hp

end Sessions

/-- Of the reads that the runs of a program execute one after the other, each delivers the line with
its number: the text of the line without its end, an empty text if there are not that many lines, or
an error if the line is no text. The line is used up in any case. No other step uses up anything of
the input, and neither does the start of a run.

With another input that begins with the same lines, the runs take the same course as long as no more
than these are read. They come to the same activations, results, heaps and outputs, and only what is
left of the input is that of the other. -/
theorem Code.reads_deliver_lines (code : Code) (maxDepth : Option Nat) (w : World) :
    (∀ n p, code.session maxDepth w n = some p →
      p.state.world.input = Input.unread w.input p.reads) ∧
    (∀ n k m, code.session maxDepth w n = some ⟨k, .running m⟩ → m.top.fetch? = some .read →
      m.step code maxDepth = match Input.nthText w.input k with
        | .ok text => .running {
            top := { m.top with pc := m.top.pc + 1, stack := .str text :: m.top.stack }
            callers := m.callers
            world := { m.world with input := Input.unread w.input (k + 1) } }
        | .error e => .halted (.error (.fault ⟨.stream e, m.top.template.name, m.top.pc, .read⟩))
            { m.world with input := Input.unread w.input (k + 1) }) ∧
    (∀ m : Machine, m.top.fetch? ≠ some .read →
      (m.step code maxDepth).world.input = m.world.input) ∧
    ∀ input limit, (Input.lines w.input).take limit = (Input.lines input).take limit →
      ∀ n p, code.session maxDepth w n = some p → p.reads ≤ limit →
        code.session maxDepth { w with input := input } n = some (p.withInput input) := by
  refine ⟨fun n p h => Code.input_of_session h, ?_, fun m hread => Machine.input_step hread, ?_⟩
  · intro n k m h hread
    exact Machine.step_read hread (Code.input_of_session h)
  · intro input limit hlines n p h hp
    exact Code.session_withInput hlines h hp

/-- Whether a run is at work that passes the test, after the given number of reads. -/
def Moment.atWork (reads : Nat) (test : Machine → Bool) (p : Moment) : Bool :=
  p.reads == reads && p.state.atWork test

theorem Moment.exists_of_any {p : Option Moment} {reads : Nat} {test : Machine → Bool}
    (h : p.any (Moment.atWork reads test) = true) :
    ∃ m, p = some ⟨reads, .running m⟩ ∧ test m = true := by
  obtain ⟨⟨reads', s⟩, rfl, hp⟩ := (Option.any_eq_true _ _).1 h
  obtain ⟨hreads, hwork⟩ := Bool.and_eq_true_iff.1 hp
  obtain ⟨m, rfl, hm⟩ := State.atWork_eq_true hwork
  obtain rfl := eq_of_beq hreads
  exact ⟨m, rfl, hm⟩

/-- Code that reads two lines and returns the second one. -/
def asker : Code := .ofTemplates [{ name := "main", arity := 0, code := #[.read, .read, .ret] }]

/-- A line that ends with two carriage returns and a newline, a line that is no text, and a last
line without a newline. -/
def answers : List UInt8 := [97, 13, 13, 10, 255, 10, 122, 13]

/-- The first run of `asker` on `answers` gets the first line without its end, which is one of the
carriage returns and the newline, and ends with the second line. The second run gets the third line
whole and then an empty text. It would have been the same until its first read if something else had
been behind the second line. -/
theorem asker_reads_lines :
    ∃ m m' p, asker.session none { input := answers } 1 = some ⟨1, .running m⟩ ∧
      m.top.stack = [.str "a\r"] ∧
      m.step asker none = .halted (.error (.fault ⟨.stream .invalidText, "main", 1, .read⟩))
        { m.world with input := [122, 13] } ∧
      asker.session none { input := answers } 4 = some ⟨3, .running m'⟩ ∧
      m'.top.stack = [.str "z\r"] ∧ m'.step asker none = .running {
        top := { m'.top with pc := m'.top.pc + 1, stack := [.str "", .str "z\r"] }
        callers := m'.callers
        world := { m'.world with input := [] } } ∧
      asker.session none { input := answers } 3 = some p ∧ p.reads = 2 ∧
      asker.session none { input := [97, 13, 13, 10, 255, 10, 98, 10, 99] } 3 =
        some (p.withInput [97, 13, 13, 10, 255, 10, 98, 10, 99]) := by
  obtain ⟨-, hreads, -, hsame⟩ := Code.reads_deliver_lines asker none { input := answers }
  have hfirst : (asker.session none { input := answers } 1).any (Moment.atWork 1 fun m =>
      m.top.fetch? = some .read ∧ m.top.stack = [.str "a\r"] ∧ m.top.template.name = "main" ∧
          m.top.pc = 1) = true := by
    decide +kernel
  have hsecond : (asker.session none { input := answers } 4).any (Moment.atWork 3 fun m =>
      m.top.fetch? = some .read ∧ m.top.stack = [.str "z\r"]) = true := by
    decide +kernel
  have hbetween : (asker.session none { input := answers } 3).any (fun p => p.reads = 2) =
      true := by decide +kernel
  obtain ⟨m, hm, htest⟩ := Moment.exists_of_any hfirst
  obtain ⟨hread, hstack, hname, hpc⟩ := of_decide_eq_true htest
  obtain ⟨m', hm', htest'⟩ := Moment.exists_of_any hsecond
  obtain ⟨hread', hstack'⟩ := of_decide_eq_true htest'
  obtain ⟨p, hp, htwo⟩ := (Option.any_eq_true _ _).1 hbetween
  have hinvalid : Input.nthText answers 1 = .error .invalidText := by rfl
  have hend : Input.nthText answers 3 = .ok "" := by rfl
  refine ⟨m, m', p, hm, hstack, ?_, hm', hstack', ?_, hp, of_decide_eq_true htwo, ?_⟩
  · rw [hreads 1 1 m hm hread]
    simp only [hinvalid, hname, hpc]
    rfl
  · rw [hreads 4 3 m' hm' hread']
    simp only [hend, hstack']
    rfl
  · exact hsame _ 2 (by decide) 3 p hp (Nat.le_of_eq (of_decide_eq_true htwo))

end FrameMachine
