import FrameMachine.Proofs.Compiler.Patching
import FrameMachine.Proofs.Names.Failures
import Mathlib.Data.List.Forall2

/-!
# How the actions of the emitter end

An action of the emitter comes with a list of what is wrong. It succeeds if the list is empty and
otherwise fails with the first entry (`EmitM.Spec`). There is one other way to fail: if calls do not
fit, an action may find the stack too low or unbalanced.

The actions keep track of the names in each open scope, of the height of the stack, and of the
places of the jumps that are still to be patched (`Emitter.Ready`). This module gives the rules for
the primitive actions and for putting actions together.
-/

set_option autoImplicit false

namespace FrameMachine

/-- The failure is that the stack does not fit an instruction or a statement. -/
def CompileFailure.OfStack : CompileFailure → Prop
  | .defect (.stackUnderflow _ _) => True
  | .defect (.unbalanced _ _) => True
  | _ => False

namespace EmitM

/-- How an action ends. If it succeeds, nothing is wrong, and what it leaves has the property. If it
fails, it does so because of the first thing that is wrong, or because of the stack, which cannot be
if the calls fit. -/
def Ends {α : Type} (fits : Prop) (failures : List CompileFailure) (post : α → Emitter → Prop) :
    EStateM.Result CompileFailure Emitter α → Prop
  | .ok a t => failures = [] ∧ post a t
  | .error e _ => failures.head? = some e ∨ ¬ fits ∧ e.OfStack

/-- From a state with the first property the action ends as the failures say, in a state with
the second one. -/
def Spec {α : Type} (fits : Prop) (failures : List CompileFailure) (pre : Emitter → Prop)
    (x : EmitM α) (post : α → Emitter → Prop) : Prop :=
  ∀ s, pre s → Ends fits failures post (x s)

end EmitM

/-! ## Actions put together -/

section Rules

open EmitM

variable {fits : Prop} {α β : Type} {x : EmitM α} {f : α → EmitM β}
  {first rest : List CompileFailure}
  {pre : Emitter → Prop} {mid : α → Emitter → Prop} {post : β → Emitter → Prop}

theorem EmitM.Spec.pure {a : α} {post : α → Emitter → Prop} (h : ∀ s, pre s → post a s) :
    Spec fits [] pre (Pure.pure a) post := fun s hs => ⟨rfl, h s hs⟩

theorem EmitM.Spec.reject {post : α → Emitter → Prop} (e : CompileError) :
    Spec fits [.error e] pre (EmitM.reject e) post := fun _ _ => Or.inl rfl

/-- What is wrong with the first action comes before what is wrong with the second. -/
theorem EmitM.Spec.bind (hx : Spec fits first pre x mid)
    (hf : ∀ a, Spec fits rest (mid a) (f a) post) :
    Spec fits (first ++ rest) pre (x >>= f) post := by
  intro s hs
  change Ends fits (first ++ rest) post (EStateM.bind x f s)
  rw [EStateM.bind]
  have hends := hx s hs
  cases hr : x s with
  | ok a t =>
    rw [hr] at hends
    obtain ⟨rfl, hmid⟩ := hends
    exact hf a t hmid
  | error e t =>
    rw [hr] at hends
    rcases hends with hhead | hstack
    · refine Or.inl ?_
      rw [List.head?_append, hhead, Option.some_or]
    · exact Or.inr hstack

/-- Nothing is wrong with the first action. -/
theorem EmitM.Spec.nil_bind (hx : Spec fits [] pre x mid)
    (hf : ∀ a, Spec fits rest (mid a) (f a) post) :
    Spec fits rest pre (x >>= f) post := hx.bind hf

/-- Nothing is wrong with the second action. -/
theorem EmitM.Spec.bind_nil (hx : Spec fits first pre x mid)
    (hf : ∀ a, Spec fits [] (mid a) (f a) post) :
    Spec fits first pre (x >>= f) post := by
  have h := hx.bind hf
  rwa [List.append_nil] at h

/-- What is known of every success may be added. -/
theorem EmitM.Spec.strengthen {failures : List CompileFailure} {post post' : α → Emitter → Prop}
    (h : Spec fits failures pre x post) (hpost : ∀ s a t, x s = .ok a t → post a t → post' a t) :
    Spec fits failures pre x post' := by
  intro s hs
  have hends := h s hs
  cases hr : x s with
  | ok a t =>
    rw [hr] at hends
    exact ⟨hends.1, hpost s a t hr hends.2⟩
  | error e t =>
    rw [hr] at hends
    exact hends

theorem EmitM.Spec.mono {failures : List CompileFailure} {pre' : Emitter → Prop}
    {post post' : α → Emitter → Prop} (h : Spec fits failures pre x post)
    (hpre : ∀ s, pre' s → pre s) (hpost : ∀ a s, post a s → post' a s) :
    Spec fits failures pre' x post' :=
  fun s hs => h.strengthen (fun _ a t _ ht => hpost a t ht) s (hpre s hs)

theorem EmitM.Spec.get {f : Emitter → EmitM β} (h : ∀ s, pre s → Ends fits rest post (f s s)) :
    Spec fits rest pre (MonadState.get >>= f) post := h

/-- The place of the next instruction may be anything. -/
theorem EmitM.Spec.label {f : Nat → EmitM β} (h : ∀ place, Spec fits rest pre (f place) post) :
    Spec fits rest pre (EmitM.label >>= f) post := fun s hs => h s.code.size s hs

end Rules

/-! ## States of the emitter -/

/-- The variables of a scope have these names. -/
def Binds (scope : Scope) (names : List String) : Prop :=
  ∀ name, (scope.lookup name).isSome ↔ name ∈ names

/-- There is a jump at the place. -/
def Emitter.JumpAt (s : Emitter) (place : Nat) : Prop :=
  ((s.code[place]?).bind Instr.target?).isSome

/-- The variables of the open scopes have these names, the stack has this height, if the calls fit,
and there are jumps at these places. -/
structure Emitter.Ready (fits : Prop) (scopes : List (List String)) (depth : Nat) (jumps : List Nat)
    (s : Emitter) : Prop where
  scopes : List.Forall₂ Binds s.scopes scopes
  depth : fits → s.depth = depth
  jumps : ∀ place ∈ jumps, s.JumpAt place

section Ready

open EmitM

variable {fits : Prop} {names : List String} {scopes : List (List String)} {base depth : Nat}
  {jumps : List Nat}

theorem binds_cons {scope : Scope} (h : Binds scope names) (name : String) (slot : Nat) :
    Binds ((name, slot) :: scope) (name :: names) := by
  intro other
  rw [List.mem_cons, ← h other]
  by_cases heq : other = name
  · simp [heq]
  · have hne : (other == name) = false := beq_false_of_ne heq
    simp [List.lookup_cons, hne, heq]

/-- A variable is found if it has been declared in some open scope. -/
theorem isSome_findSome?_lookup {chain : List Scope} (h : List.Forall₂ Binds chain scopes)
    (name : String) :
    (chain.findSome? fun scope => scope.lookup name).isSome ↔ name ∈ scopes.flatten := by
  induction h with
  | nil => simp
  | @cons scope names _ _ hscope _ ih =>
    rw [List.findSome?_cons, List.flatten_cons, List.mem_append, ← hscope name, ← ih]
    cases scope.lookup name with
    | some slot => simp
    | none => simp

theorem Emitter.JumpAt.lt {s : Emitter} {place : Nat} (h : s.JumpAt place) :
    place < s.code.size := by
  by_contra hge
  rw [Emitter.JumpAt, Array.getElem?_eq_none (Nat.le_of_not_lt hge)] at h
  cases h

/-- Jumps stay where they are when instructions are appended. -/
theorem Emitter.JumpAt.push {s t : Emitter} {place : Nat} {i : Instr} (h : s.JumpAt place)
    (ht : t.code = s.code.push i) :
    t.JumpAt place := by
  have hne : place ≠ s.code.size := Nat.ne_of_lt h.lt
  rw [Emitter.JumpAt, ht, Array.getElem?_push, if_neg hne]
  exact h

/-- The order of the names of a scope does not matter. -/
theorem Emitter.Ready.of_names {names' : List String} {s : Emitter}
    (h : Emitter.Ready fits (names :: scopes) depth jumps s)
    (hnames : ∀ name, name ∈ names ↔ name ∈ names') :
    Emitter.Ready fits (names' :: scopes) depth jumps s := by
  obtain ⟨scope, outer, hscope, houter, hopen⟩ := List.forall₂_cons_right_iff.1 h.scopes
  refine ⟨?_, h.depth, h.jumps⟩
  rw [hopen]
  exact .cons (fun name => (hscope name).trans (hnames name)) houter

theorem Emitter.Ready.of_jumps {jumps' : List Nat} {s : Emitter}
    (h : Emitter.Ready fits scopes depth jumps s) (hjumps : ∀ place ∈ jumps', place ∈ jumps) :
    Emitter.Ready fits scopes depth jumps' s :=
  ⟨h.scopes, h.depth, fun place hplace => h.jumps place (hjumps place hplace)⟩

/-! ## Instructions -/

/-- What is appended is the last instruction, and the stack is too low for it only if
calls do not fit. -/
theorem EmitM.append_spec (i : Instr) (pops pushes : Nat) :
    Spec fits [] (Emitter.Ready fits scopes (base + pops) jumps) (append i pops pushes)
      fun _ => Emitter.Ready fits scopes (base + pushes) jumps := by
  rw [append]
  refine .get fun s hs => ?_
  -- nothing is known of the height unless the calls fit, so the stack may be too low
  by_cases hlow : s.depth < pops
  · rw [if_pos hlow]
    refine Or.inr ⟨fun hfits => ?_, trivial⟩
    have hdepth := hs.depth hfits
    omega
  · rw [if_neg hlow]
    refine ⟨rfl, hs.scopes, fun hfits => ?_, fun place hplace => (hs.jumps place hplace).push rfl⟩
    have hdepth := hs.depth hfits
    simp only [hdepth]
    omega

theorem EmitM.emit_spec {i : Instr} {pops pushes before after : Nat}
    (h : i.stackEffect? = some (pops, pushes)) (hbefore : before = base + pops)
    (hafter : after = base + pushes) :
    Spec fits [] (Emitter.Ready fits scopes before jumps) (emit i) fun _ =>
      Emitter.Ready fits scopes after jumps := by
  rw [emit, h, hbefore, hafter]
  exact append_spec i pops pushes

theorem Instr.stackEffect?_of_effect? {i : Instr} {effect : Nat × Nat}
    (h : i.effect? (fun _ => none) = some effect) :
    i.stackEffect? = some effect := by
  cases i with
  | call function => cases h
  | _ => exact h

/-- A piece of code without calls is appended to a stack that is high enough for it. -/
theorem EmitM.emitAll_spec {code : List Instr} {low high before after : Nat}
    (h : climb (fun _ => none) low code = some high) (hbefore : before = base + low)
    (hafter : after = base + high) :
    Spec fits [] (Emitter.Ready fits scopes before jumps) (emitAll code)
      fun _ => Emitter.Ready fits scopes after jumps := by
  induction code generalizing low before with
  | nil =>
    cases h
    rw [hbefore, hafter]
    exact .pure fun s hs => hs
  | cons i code ih =>
    obtain ⟨pops, pushes, heffect, hle, hrest⟩ := climb_cons_eq_some.1 h
    have hlow : before = base + (low - pops) + pops := by omega
    rw [emitAll]
    refine (emit_spec (Instr.stackEffect?_of_effect? heffect) hlow rfl).nil_bind fun _ =>
      ih hrest ?_
    rw [Nat.add_assoc]

/-! ## Variables and scopes -/

theorem EmitM.lookup_spec (name : String) :
    Spec fits ((unknownVariable scopes.flatten name).map .error)
      (Emitter.Ready fits scopes depth jumps) (lookup name)
      fun _ => Emitter.Ready fits scopes depth jumps := by
  rw [lookup]
  refine .get fun s hs => ?_
  have hfound := isSome_findSome?_lookup hs.scopes name
  cases hslot : s.scopes.findSome? fun scope => scope.lookup name with
  | some slot =>
    rw [hslot] at hfound
    rw [unknownVariable, if_pos (hfound.1 rfl)]
    exact ⟨rfl, hs⟩
  | none =>
    rw [hslot] at hfound
    rw [unknownVariable, if_neg fun hmem => Bool.false_ne_true (hfound.2 hmem)]
    exact Or.inl rfl

theorem EmitM.allocate_spec (name : String) :
    Spec fits [] (Emitter.Ready fits (names :: scopes) depth jumps) (allocate name)
      fun _ => Emitter.Ready fits ((name :: names) :: scopes) depth jumps := by
  rw [allocate]
  refine .get fun s hs => ?_
  obtain ⟨scope, outer, hscope, houter, hopen⟩ := List.forall₂_cons_right_iff.1 hs.scopes
  rw [hopen]
  exact ⟨rfl, .cons (binds_cons hscope name s.slots) houter, hs.depth, hs.jumps⟩

theorem EmitM.openScope_spec :
    Spec fits [] (Emitter.Ready fits scopes depth jumps) openScope
      fun _ => Emitter.Ready fits ([] :: scopes) depth jumps := by
  intro s hs
  exact ⟨rfl, .cons (fun name => by simp) hs.scopes, hs.depth, hs.jumps⟩

theorem EmitM.closeScope_spec :
    Spec fits [] (Emitter.Ready fits (names :: scopes) depth jumps) closeScope
      fun _ => Emitter.Ready fits scopes depth jumps := by
  rw [closeScope]
  refine .get fun s hs => ?_
  obtain ⟨scope, outer, -, houter, hopen⟩ := List.forall₂_cons_right_iff.1 hs.scopes
  rw [hopen]
  exact ⟨rfl, houter, hs.depth, hs.jumps⟩

/-- Variables that are declared in a scope of its own are forgotten behind it. -/
theorem EmitM.inScope_spec {failures : List CompileFailure} {body : EmitM Unit} {depth' : Nat}
    {jumps' : List Nat}
    (names : List String)
    (h : Spec fits failures (Emitter.Ready fits ([] :: scopes) depth jumps) body
      fun _ => Emitter.Ready fits (names :: scopes) depth' jumps') :
    Spec fits failures (Emitter.Ready fits scopes depth jumps) (inScope body)
      fun _ => Emitter.Ready fits scopes depth' jumps' := by
  rw [inScope]
  exact .nil_bind openScope_spec fun _ => h.bind_nil fun _ => closeScope_spec

/-! ## Jumps -/

/-- The jump that is appended is one of those to be patched. -/
theorem EmitM.emitJump_spec {jump : Nat → Instr} {pops before : Nat}
    (heffect : (jump pendingTarget).stackEffect? = some (pops, 0))
    (htarget : (jump pendingTarget).target?.isSome) (hbefore : before = base + pops) :
    Spec fits [] (Emitter.Ready fits scopes before jumps) (emitJump jump)
      fun place => Emitter.Ready fits scopes base (place :: jumps) := by
  have hspec : Spec fits [] (Emitter.Ready fits scopes before jumps) (emitJump jump)
      fun _ => Emitter.Ready fits scopes base jumps :=
    .label fun _ => (emit_spec heffect hbefore rfl).nil_bind fun _ => .pure fun _ hs => hs
  -- the rule for labels forgets that the place is the end of the code
  refine hspec.strengthen fun s place t hok ht =>
    ⟨ht.scopes, ht.depth, List.forall_mem_cons.2 ⟨?_, ht.jumps⟩⟩
  obtain ⟨rfl, happ⟩ := emitJump_ok (fun _ => none) hok
  rw [Emitter.JumpAt, ← Array.getElem?_toList, happ.code, ← Array.length_toList,
    List.getElem?_concat_length]
  exact htarget

theorem Instr.isSome_withTarget? (target : Nat) (i : Instr) :
    (i.withTarget? target).isSome = i.target?.isSome := by
  cases i <;> rfl

theorem Instr.target?_of_withTarget? {target : Nat} {i jump : Instr}
    (h : i.withTarget? target = some jump) :
    jump.target? = some target := by
  cases i <;> cases h <;> rfl

/-- Where there is a jump, there is one that goes to the target. -/
theorem Emitter.JumpAt.exists_withTarget? {s : Emitter} {place : Nat} (h : s.JumpAt place)
    (target : Nat) :
    ∃ jump, (s.code[place]?).bind (Instr.withTarget? target) = some jump ∧
      jump.target? = some target := by
  rw [Emitter.JumpAt] at h
  cases hi : s.code[place]? with
  | none =>
    rw [hi] at h
    cases h
  | some i =>
    rw [hi, Option.bind_some, ← Instr.isSome_withTarget? target, Option.isSome_iff_exists] at h
    obtain ⟨jump, hjump⟩ := h
    exact ⟨jump, hjump, Instr.target?_of_withTarget? hjump⟩

theorem EmitM.patch_spec (target place : Nat) :
    Spec fits [] (Emitter.Ready fits scopes depth (place :: jumps)) (patch target place)
      fun _ => Emitter.Ready fits scopes depth jumps := by
  rw [patch]
  refine .get fun s hs => ?_
  have hjumps := List.forall_mem_cons.1 hs.jumps
  obtain ⟨jump, hjump, htarget⟩ := hjumps.1.exists_withTarget? target
  simp only [hjump]
  refine ⟨rfl, hs.scopes, hs.depth, fun other hother => ?_⟩
  have hlt := hjumps.1.lt
  by_cases heq : place = other
  · subst heq
    simp [Emitter.JumpAt, hlt, htarget]
  · have hkept := hjumps.2 other hother
    rw [Emitter.JumpAt] at hkept ⊢
    simpa [Array.getElem?_setIfInBounds_ne heq] using hkept

theorem EmitM.patchAll_spec (target : Nat) (places : List Nat) :
    Spec fits [] (Emitter.Ready fits scopes depth (places ++ jumps)) (patchAll target places)
      fun _ => Emitter.Ready fits scopes depth jumps := by
  induction places with
  | nil => exact .pure fun s hs => hs
  | cons place places ih => exact (patch_spec target place).nil_bind fun _ => ih

theorem EmitM.patchHere_spec (place : Nat) :
    Spec fits [] (Emitter.Ready fits scopes depth (place :: jumps)) (patchHere place)
      fun _ => Emitter.Ready fits scopes depth jumps := .label fun target => patch_spec target place

/-! ## Statements -/

/-- What leaves the stack as high as it was, if the calls fit, is balanced then. -/
theorem EmitM.balanced_spec {failures : List CompileFailure} {body : EmitM Unit}
    {scopes' : List (List String)}
    (h : Spec fits failures (Emitter.Ready fits scopes depth jumps) body
      fun _ => Emitter.Ready fits scopes' depth jumps) :
    Spec fits failures (Emitter.Ready fits scopes depth jumps) (balanced body)
      fun _ => Emitter.Ready fits scopes' depth jumps := by
  rw [balanced]
  refine .get fun s hs => ?_
  -- the height before the statement is only known from the state in which it starts
  have hbody : Spec fits failures (· = s) body fun _ => Emitter.Ready fits scopes' depth jumps :=
    h.mono (fun _ heq => heq ▸ hs) fun _ _ ht => ht
  refine hbody.bind_nil (fun _ => .get fun t ht => ?_) s rfl
  by_cases heq : t.depth = s.depth
  · rw [if_pos heq]
    exact ⟨rfl, ht⟩
  · rw [if_neg heq]
    refine Or.inr ⟨fun hfits => heq ?_, trivial⟩
    rw [ht.depth hfits, hs.depth hfits]

end Ready

end FrameMachine
