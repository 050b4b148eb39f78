import FrameMachine.Proofs.Compiler.Balance
import FrameMachine.Proofs.Compiler.Emission

/-!
# Patched jumps are jumps by construction

The emitter gives jumps a provisional target and patches them later. Behind a statement no patch is
outstanding, and the emitter has appended the code by construction (`Stmt.emit_lays`). Behind the
alternatives of a branching statement the jumps at some places are still to go to the end of the
statement. Once these places are patched with the end, the code is the code by construction as well
(`Alternatives.emit_lays`).

Together with the code the statements give what the emitter has checked: they are balanced.
-/

set_option autoImplicit false

namespace FrameMachine

/-! ## Patches -/

/-- A jump goes to another place; any other instruction stays as it is. -/
def Instr.retarget (target : Nat) (i : Instr) : Instr := (i.withTarget? target).getD i

/-- The code in which the jumps at some places go to the target. -/
def patched (target : Nat) (places : List Nat) (code : List Instr) : List Instr :=
  places.foldl (fun code place => code.modify place (Instr.retarget target)) code

theorem modify_append_left {α : Type} (f : α → α) (a b : List α) {place : Nat}
    (h : place < a.length) :
    (a ++ b).modify place f = a.modify place f ++ b := by
  induction a generalizing place with
  | nil => simp at h
  | cons x a ih =>
    cases place with
    | zero => rfl
    | succ place =>
      simp only [List.length_cons, Nat.add_lt_add_iff_right] at h
      simp [ih h]

theorem modify_append_cons {α : Type} (f : α → α) (a b : List α) (x : α) :
    (a ++ x :: b).modify a.length f = a ++ f x :: b := by
  induction a with
  | nil => rfl
  | cons y a ih => simp [ih]

theorem modify_comm {α : Type} (f : α → α) (code : List α) (i j : Nat) :
    (code.modify i f).modify j f = (code.modify j f).modify i f := by
  by_cases h : i = j
  · rw [h]
  · exact List.modify_modify_ne f f code h

@[simp] theorem patched_nil (target : Nat) (code : List Instr) : patched target [] code = code :=
  rfl

@[simp] theorem patched_cons (target place : Nat) (places : List Nat) (code : List Instr) :
    patched target (place :: places) code =
      patched target places (code.modify place (Instr.retarget target)) := rfl

/-- A place can as well be patched last. -/
theorem patched_modify (target place : Nat) (places : List Nat) (code : List Instr) :
    patched target places (code.modify place (Instr.retarget target)) =
      (patched target places code).modify place (Instr.retarget target) := by
  induction places generalizing code with
  | nil => rfl
  | cons other places ih => rw [patched_cons, modify_comm, ih, patched_cons]

/-- Code behind the patched places does not matter. -/
theorem patched_append {target : Nat} {places : List Nat} {code : List Instr}
    (h : ∀ place ∈ places, place < code.length) (more : List Instr) :
    patched target places (code ++ more) = patched target places code ++ more := by
  induction places generalizing code with
  | nil => rfl
  | cons place places ih =>
    rw [patched_cons, patched_cons, modify_append_left _ _ _ (h place List.mem_cons_self)]
    apply ih
    intro other hother
    rw [List.length_modify]
    exact h other (List.mem_cons_of_mem _ hother)

/-- Patching the two jumps of a condition and its block gives them the targets by construction. -/
theorem patch_case (before test block others : List Instr) (pending next finish : Nat) :
    ((before ++ (test ++ Instr.jumpUnless pending :: block ++ [Instr.jump pending])).modify
      (before.length + test.length) (Instr.retarget next) ++ others).modify
        (before.length + test.length + 1 + block.length) (Instr.retarget finish) =
      before ++ (test ++ .jumpUnless next :: block ++ .jump finish :: others) := by
  have hfirst :
      (before ++ (test ++ Instr.jumpUnless pending :: block ++ [Instr.jump pending])).modify
      (before.length + test.length) (Instr.retarget next) =
        (before ++ test) ++ .jumpUnless next :: (block ++ [.jump pending]) := by
    have hplace : before.length + test.length = (before ++ test).length := by simp
    have hcode : before ++ (test ++ .jumpUnless pending :: block ++ [.jump pending]) =
        (before ++ test) ++ .jumpUnless pending :: (block ++ [.jump pending]) := by simp
    rw [hcode, hplace, modify_append_cons]
    rfl
  have hplace : before.length + test.length + 1 + block.length =
      (before ++ test ++ .jumpUnless next :: block).length := by
    simp only [List.length_append, List.length_cons]
    omega
  have hcode : (before ++ test) ++ .jumpUnless next :: (block ++ [.jump pending]) ++ others =
      (before ++ test ++ .jumpUnless next :: block) ++ .jump pending :: others := by simp
  rw [hfirst, hcode, hplace, modify_append_cons]
  simp [Instr.retarget, Instr.withTarget?]

/-! ## The actions of the emitter on jumps and scopes -/

namespace EmitM

variable (arity? : String → Option Nat)

theorem label_bind_ok {β : Type} {f : Nat → EmitM β} {s t : Emitter} {b : β} :
    (label >>= f) s = .ok b t ↔ f s.code.size s = .ok b t := Iff.rfl

theorem patch_ok {target place : Nat} {s t : Emitter} (h : patch target place s = .ok () t) :
    t.code.toList = s.code.toList.modify place (Instr.retarget target) ∧
      t.slots = s.slots ∧ t.scopes = s.scopes ∧ t.depth = s.depth ∧ Emitter.Trail arity? s t := by
  have htrail : Emitter.Trail arity? s t := Relation.ReflTransGen.single (.patch h)
  rw [patch, get_bind_ok] at h
  cases hi : s.code[place]? with
  | none =>
    simp only [hi] at h
    exact absurd h not_giveUp_ok
  | some i =>
    simp only [hi, Option.bind_some] at h
    cases hj : i.withTarget? target with
    | none =>
      simp only [hj] at h
      exact absurd h not_giveUp_ok
    | some jump =>
      simp only [hj] at h
      cases h
      refine ⟨?_, rfl, rfl, rfl, htrail⟩
      have hlt : place < s.code.toList.length := by
        rw [Array.length_toList]
        exact (Array.getElem?_eq_some_iff.1 hi).1
      have hget : s.code.toList[place] = i := by
        rw [Array.getElem_toList]
        exact (Array.getElem?_eq_some_iff.1 hi).2
      rw [Array.toList_setIfInBounds, List.modify_eq_take_cons_drop hlt,
        List.set_eq_take_append_cons_drop, if_pos hlt, hget, Instr.retarget, hj, Option.getD_some]

theorem patch_peak {target place : Nat} {s t : Emitter} (h : patch target place s = .ok () t) :
    t.peak = s.peak := by
  rw [patch, get_bind_ok] at h
  cases hi : (s.code[place]?).bind (Instr.withTarget? target) with
  | none =>
    simp only [hi] at h
    exact absurd h not_giveUp_ok
  | some jump =>
    simp only [hi] at h
    cases h
    rfl

theorem patchAll_ok {target : Nat} {places : List Nat} {s t : Emitter}
    (h : patchAll target places s = .ok () t) :
    t.code.toList = patched target places s.code.toList ∧
      t.slots = s.slots ∧ t.scopes = s.scopes ∧ t.depth = s.depth ∧ Emitter.Trail arity? s t := by
  induction places generalizing s with
  | nil =>
    obtain ⟨-, rfl⟩ := pure_ok.1 h
    exact ⟨rfl, rfl, rfl, rfl, .refl⟩
  | cons place places ih =>
    obtain ⟨_, r, hone, hrest⟩ := bind_ok.1 h
    obtain ⟨hcode, hslots, hscopes, hdepth, htrail⟩ := patch_ok arity? hone
    obtain ⟨hcode', hslots', hscopes', hdepth', htrail'⟩ := ih hrest
    refine ⟨?_, hslots'.trans hslots, hscopes'.trans hscopes, hdepth'.trans hdepth,
      htrail.trans htrail'⟩
    rw [hcode', hcode, patched_cons]

theorem emitJump_ok {jump : Nat → Instr} {place : Nat} {s t : Emitter}
    (h : emitJump jump s = .ok place t) :
    place = s.code.size ∧ Emitter.Appends arity? s [jump pendingTarget] t := by
  rw [emitJump, label_bind_ok] at h
  obtain ⟨_, r, hemit, hpure⟩ := bind_ok.1 h
  obtain ⟨rfl, rfl⟩ := pure_ok.1 hpure
  exact ⟨rfl, emit_appends hemit⟩

theorem allocate_ok {name : String} {slot : Nat} {s t : Emitter} (hs : s.scopes ≠ [])
    (h : allocate name s = .ok slot t) :
    slot = s.slots ∧ t.code = s.code ∧ t.view = s.view.declare name ∧
      t.scopes.tail = s.scopes.tail ∧
      t.scopes ≠ [] ∧ t.depth = s.depth ∧ Emitter.Trail arity? s t := by
  have htrail : Emitter.Trail arity? s t := Relation.ReflTransGen.single (.allocate h)
  rw [allocate, get_bind_ok] at h
  cases hscopes : s.scopes with
  | nil => exact absurd hscopes hs
  | cons scope outer =>
    simp only [hscopes] at h
    cases h
    refine ⟨rfl, rfl, ?_, rfl, by simp, rfl, htrail⟩
    simp [Emitter.view, Slots.declare, hscopes]

/-- What is done in a scope of its own leaves the scopes as they were. -/
theorem inScope_ok {body : EmitM Unit} {s t : Emitter} (h : inScope body s = .ok () t) :
    ∃ r, body { s with scopes := [] :: s.scopes } = .ok () r ∧
      t = { r with scopes := r.scopes.tail } ∧
      Emitter.Trail arity? s { s with scopes := [] :: s.scopes } ∧ Emitter.Trail arity? r t := by
  rw [inScope] at h
  obtain ⟨_, q, hopen, h⟩ := bind_ok.1 h
  obtain ⟨_, r, hbody, hclose⟩ := bind_ok.1 h
  have htrail : Emitter.Trail arity? s q := Relation.ReflTransGen.single (.openScope hopen)
  have htrail' : Emitter.Trail arity? r t := Relation.ReflTransGen.single (.closeScope hclose)
  cases hopen
  rw [closeScope, get_bind_ok] at hclose
  cases hscopes : r.scopes with
  | nil =>
    simp only [hscopes] at hclose
    exact absurd hclose not_giveUp_ok
  | cons scope outer =>
    simp only [hscopes] at hclose
    cases hclose
    refine ⟨r, hbody, ?_, htrail, htrail'⟩
    simp [hscopes]

theorem balanced_ok {body : EmitM Unit} {s t : Emitter} (h : balanced body s = .ok () t) :
    body s = .ok () t ∧ t.depth = s.depth := by
  rw [balanced, get_bind_ok] at h
  obtain ⟨_, r, hbody, h⟩ := bind_ok.1 h
  rw [get_bind_ok] at h
  by_cases hd : r.depth = s.depth
  · simp only [if_pos hd] at h
    obtain ⟨-, rfl⟩ := pure_ok.1 h
    exact ⟨hbody, hd⟩
  · simp only [if_neg hd] at h
    exact absurd h not_giveUp_ok

end EmitM

/-! ## Statements -/

/-- The emitter has appended the code of statements. Variables of the innermost scope may have been
added, and the stack is tracked as high as before. -/
structure Emitter.Lays (ctx : Context) (s : Emitter) (added : List Instr) (slots : Slots)
    (t : Emitter) : Prop where
  code : t.code.toList = s.code.toList ++ added
  view : t.view = slots
  outer : t.scopes.tail = s.scopes.tail
  inner : t.scopes ≠ []
  depth : t.depth = s.depth
  trail : Emitter.Trail ctx.arity? s t

/-- The emitter has appended the code of a block, whose variables have gone out of scope. -/
structure Emitter.LaysBlock (ctx : Context) (s : Emitter) (added : List Instr) (slots : Slots)
    (t : Emitter) : Prop where
  code : t.code.toList = s.code.toList ++ added
  used : t.slots = slots.used
  scopes : t.scopes = s.scopes
  depth : t.depth = s.depth
  trail : Emitter.Trail ctx.arity? s t

section Statements

variable {ctx : Context}

theorem Emitter.LaysBlock.view {s t : Emitter} {added : List Instr} {slots : Slots}
    (h : Emitter.LaysBlock ctx s added slots t) : t.view = s.view.leave slots := by
  rw [Emitter.view, h.scopes, h.used]
  rfl

theorem size_eq_of_toList_eq {s t : Emitter} {added : List Instr}
    (h : t.code.toList = s.code.toList ++ added) : t.code.size = s.code.size + added.length := by
  have hlen := congrArg List.length h
  simpa using hlen

/-- Code that leaves the scopes alone and the stack as high as it was is that of a statement. -/
theorem Emitter.Appends.lays {s t : Emitter} {added : List Instr}
    (h : Emitter.Appends ctx.arity? s added t) (hs : s.scopes ≠ []) (hdepth : t.depth = s.depth) :
    Emitter.Lays ctx s added s.view t where
  code := h.code
  view := h.view
  outer := by rw [h.scopes]
  inner := by
    rw [h.scopes]
    exact hs
  depth := hdepth
  trail := h.trail

/-- The code of a statement that leaves the scopes as they were. Its slots are not
given out again. -/
theorem Emitter.Lays.of_leave {s t : Emitter} {added : List Instr} {slots : Slots}
    (hcode : t.code.toList = s.code.toList ++ added) (hslots : t.slots = slots.used)
    (hscopes : t.scopes = s.scopes) (hs : s.scopes ≠ []) (hdepth : t.depth = s.depth)
    (htrail : Emitter.Trail ctx.arity? s t) :
    Emitter.Lays ctx s added (s.view.leave slots) t where
  code := hcode
  view := by
    rw [Emitter.view, hscopes, hslots]
    rfl
  outer := by rw [hscopes]
  inner := by
    rw [hscopes]
    exact hs
  depth := hdepth
  trail := htrail

/-- The emitter appends the code of an assignment, which takes the assigned value. -/
theorem emitAssignment_appends (arity? : String → Option Nat) {base : String} {fields : List String}
    {s t : Emitter} (h : emitAssignment base fields s = .ok () t) :
    ∃ code, assignmentCode s.view base fields = some code ∧ Emitter.Appends arity? s code t ∧
      growth arity? code = -1 := by
  rw [emitAssignment] at h
  cases hlast : fields.getLast? with
  | none =>
    simp only [hlast] at h
    obtain ⟨slot, hslot, hstore⟩ := EmitM.lookup_bind_ok h
    refine ⟨[.store slot], ?_, EmitM.emit_appends hstore, rfl⟩
    rw [assignmentCode, hslot, hlast]
    rfl
  | some field =>
    simp only [hlast] at h
    obtain ⟨slot, hslot, h⟩ := EmitM.lookup_bind_ok h
    obtain ⟨_, a, hload, h⟩ := EmitM.bind_ok.1 h
    obtain ⟨_, b, hpath, h⟩ := EmitM.bind_ok.1 h
    obtain ⟨_, c, hswap, hset⟩ := EmitM.bind_ok.1 h
    have hload' : Emitter.Appends arity? s [.load slot] a := EmitM.emit_appends hload
    have hswap' : Emitter.Appends arity? b [.swap] c := EmitM.emit_appends hswap
    have hset' : Emitter.Appends arity? c [.setField field] t := EmitM.emit_appends hset
    refine ⟨.load slot :: fields.dropLast.map .getField ++ [.swap, .setField field], ?_, ?_, ?_⟩
    · rw [assignmentCode, hslot, hlast]
      rfl
    · have hall := ((hload'.trans (EmitM.emitAll_appends hpath)).trans hswap').trans hset'
      simpa using hall
    · rw [growth_append, growth_cons, growth_map_getField]
      rfl

/-- The statements of the body are emitted as their code says. -/
def EmitsStmts (ctx : Context) (body : List Stmt) : Prop :=
  ∀ {s t : Emitter}, s.scopes ≠ [] → emitStmts ctx body s = .ok () t →
    ∃ code slots, stmtsCode ctx s.code.size s.view body = some (code, slots) ∧
      Emitter.Lays ctx s code slots t ∧ BalancedStmts ctx body

theorem inScope_laysBlock {body : List Stmt} (hbody : EmitsStmts ctx body) {s t : Emitter}
    (h : EmitM.inScope (emitStmts ctx body) s = .ok () t) :
    ∃ block inner, stmtsCode ctx s.code.size s.view body = some (block, inner) ∧
      Emitter.LaysBlock ctx s block inner t ∧ BalancedStmts ctx body := by
  obtain ⟨r, hr, rfl, htrail, htrail'⟩ := EmitM.inScope_ok ctx.arity? h
  obtain ⟨block, inner, hcode, hlays, hbal⟩ := hbody (by simp) hr
  refine ⟨block, inner, hcode, ?_, hbal⟩
  exact {
    code := hlays.code
    used := congrArg Slots.used hlays.view
    scopes := hlays.outer
    depth := hlays.depth
    trail := (htrail.trans hlays.trail).trans htrail' }

/-- A condition and its block are appended with two jumps that are still to be patched. -/
theorem emitCase_ok {condition : Expr} {body : List Stmt} (hbody : EmitsStmts ctx body)
    {s t : Emitter} {leave skip : Nat}
    (h : emitCase (condition.emit ctx) (emitStmts ctx body) s = .ok (leave, skip) t) :
    ∃ test block inner, condition.code ctx s.view = some test ∧
      stmtsCode ctx (s.code.size + test.length + 1) s.view body = some (block, inner) ∧
      t.code.toList = s.code.toList ++ (test ++ .jumpUnless EmitM.pendingTarget :: block ++
        [.jump EmitM.pendingTarget]) ∧
      skip = s.code.size + test.length ∧ leave = s.code.size + test.length + 1 + block.length ∧
      t.slots = inner.used ∧ t.scopes = s.scopes ∧
      (t.depth : Int) = s.depth + (condition.net ctx - 1) ∧
      Emitter.Trail ctx.arity? s t ∧ BalancedStmts ctx body := by
  rw [emitCase] at h
  obtain ⟨_, a, hcond, h⟩ := EmitM.bind_ok.1 h
  obtain ⟨skip', b, hskip, h⟩ := EmitM.bind_ok.1 h
  obtain ⟨_, c, hblock, h⟩ := EmitM.bind_ok.1 h
  obtain ⟨leave', d, hleave, h⟩ := EmitM.bind_ok.1 h
  obtain ⟨heq, rfl⟩ := EmitM.pure_ok.1 h
  cases heq
  obtain ⟨test, htest, happ⟩ := condition.emit_appends hcond
  obtain ⟨rfl, hjump⟩ := EmitM.emitJump_ok ctx.arity? hskip
  obtain ⟨block, inner, hcode, hlays, hbal⟩ := inScope_laysBlock hbody hblock
  obtain ⟨rfl, hjump'⟩ := EmitM.emitJump_ok ctx.arity? hleave
  have hview : b.view = s.view := hjump.view.trans happ.view
  have hsize : a.code.size = s.code.size + test.length := size_eq_of_toList_eq happ.code
  have hsize' : b.code.size = s.code.size + test.length + 1 := by
    rw [size_eq_of_toList_eq hjump.code, hsize]
    rfl
  have hsize'' : c.code.size = s.code.size + test.length + 1 + block.length := by
    rw [size_eq_of_toList_eq hlays.code, hsize']
  rw [hsize', hview] at hcode
  refine ⟨test, block, inner, htest, hcode, ?_, hsize, hsize'', ?_, ?_, ?_, ?_, hbal⟩
  · rw [hjump'.code, hlays.code, hjump.code, happ.code]
    simp
  · rw [hjump'.slots, hlays.used]
  · rw [hjump'.scopes, hlays.scopes, hjump.scopes, happ.scopes]
  · have hgrowth := Expr.growth_code htest
    have hone : growth ctx.arity? [.jumpUnless EmitM.pendingTarget] = -1 := rfl
    have hzero : growth ctx.arity? [.jump EmitM.pendingTarget] = 0 := rfl
    rw [hjump'.depth, hlays.depth, hjump.depth, happ.depth, hgrowth, hone, hzero]
    omega
  · exact ((happ.trail.trans hjump.trail).trans hlays.trail).trans hjump'.trail

/-- A jump is appended, with a block behind it and further code, and is patched to go behind
both. -/
theorem emitGuarded_ok {body : List Stmt} (hbody : EmitsStmts ctx body) {a b c d t : Emitter}
    {leave : Nat} {tail : List Instr} (hleave : EmitM.emitJump .jumpUnless a = .ok leave b)
    (hblock : EmitM.inScope (emitStmts ctx body) b = .ok () c)
    (htail : Emitter.Appends ctx.arity? c tail d) (hpatch : EmitM.patchHere leave d = .ok () t) :
    ∃ block inner, stmtsCode ctx (a.code.size + 1) a.view body = some (block, inner) ∧
      t.code.toList = a.code.toList ++
        .jumpUnless (a.code.size + 1 + block.length + tail.length) :: (block ++ tail) ∧
      t.slots = inner.used ∧ t.scopes = a.scopes ∧
      (t.depth : Int) = a.depth - 1 + growth ctx.arity? tail ∧
      Emitter.Trail ctx.arity? a t ∧ BalancedStmts ctx body := by
  rw [EmitM.patchHere, EmitM.label_bind_ok] at hpatch
  obtain ⟨rfl, hjump⟩ := EmitM.emitJump_ok ctx.arity? hleave
  obtain ⟨block, inner, hcode, hlays, hbal⟩ := inScope_laysBlock hbody hblock
  obtain ⟨htcode, htslots, htscopes, htdepth, httrail⟩ := EmitM.patch_ok ctx.arity? hpatch
  have hbsize : b.code.size = a.code.size + 1 := size_eq_of_toList_eq hjump.code
  have hdsize : d.code.size = a.code.size + 1 + block.length + tail.length := by
    rw [size_eq_of_toList_eq htail.code, size_eq_of_toList_eq hlays.code, hbsize]
  rw [hbsize, hjump.view] at hcode
  refine ⟨block, inner, hcode, ?_, ?_, ?_, ?_, ?_, hbal⟩
  · have hdcode : d.code.toList = a.code.toList ++ .jumpUnless EmitM.pendingTarget ::
        (block ++ tail) := by
      rw [htail.code, hlays.code, hjump.code]
      simp
    rw [htcode, hdcode, ← Array.length_toList, modify_append_cons, hdsize]
    rfl
  · rw [htslots, htail.slots, hlays.used]
  · rw [htscopes, htail.scopes, hlays.scopes, hjump.scopes]
  · have hone : growth ctx.arity? [.jumpUnless EmitM.pendingTarget] = -1 := rfl
    rw [htdepth, htail.depth, hlays.depth, hjump.depth, hone]
    omega
  · exact ((hjump.trail.trans hlays.trail).trans htail.trail).trans httrail

/-- An expression is followed by code that takes its value. -/
theorem Expr.emit_taken {e : Expr} {s a t : Emitter} {tail : List Instr} (hs : s.scopes ≠ [])
    (he : e.emit ctx s = .ok () a) (htail : Emitter.Appends ctx.arity? a tail t)
    (hgrowth : growth ctx.arity? tail = -1) (hdepth : t.depth = s.depth) :
    ∃ code, e.code ctx s.view = some code ∧ Emitter.Lays ctx s (code ++ tail) s.view t ∧
      e.net ctx = 1 := by
  obtain ⟨code, hcode, happ⟩ := e.emit_appends he
  refine ⟨code, hcode, (happ.trans htail).lays hs hdepth, ?_⟩
  have hall := htail.depth
  rw [happ.depth, Expr.growth_code hcode, hgrowth, hdepth] at hall
  omega

/-- The statement is emitted as its code says. -/
def EmitsStmt (ctx : Context) (stmt : Stmt) : Prop :=
  ∀ {s t : Emitter}, s.scopes ≠ [] → stmt.emit ctx s = .ok () t →
    ∃ code slots, stmt.code ctx s.code.size s.view = some (code, slots) ∧
      Emitter.Lays ctx s code slots t ∧ stmt.Balanced ctx

theorem emitWhile_lays (condition : Expr) {body : List Stmt} (hbody : EmitsStmts ctx body) :
    EmitsStmt ctx (.whileLoop condition body) := by
  intro s t hs h
  rw [Stmt.emit] at h
  obtain ⟨h, hdepth⟩ := EmitM.balanced_ok h
  rw [EmitM.label_bind_ok] at h
  obtain ⟨_, a, hcond, h⟩ := EmitM.bind_ok.1 h
  obtain ⟨leave, b, hleave, h⟩ := EmitM.bind_ok.1 h
  obtain ⟨_, c, hblock, h⟩ := EmitM.bind_ok.1 h
  obtain ⟨_, d, hback, hpatch⟩ := EmitM.bind_ok.1 h
  obtain ⟨test, htest, happ⟩ := condition.emit_appends hcond
  obtain ⟨block, inner, hcode, htcode, htslots, htscopes, htdepth, htrail, hbal⟩ :=
    emitGuarded_ok hbody hleave hblock (EmitM.emit_appends hback) hpatch
  have hasize : a.code.size = s.code.size + test.length := size_eq_of_toList_eq happ.code
  rw [hasize, happ.view] at hcode
  refine ⟨whileCode s.code.size test block, s.view.leave inner, ?_, ?_, ?_⟩
  · rw [Stmt.code, htest]
    simp only [Option.bind_eq_bind, Option.bind_some, hcode]
  · refine .of_leave ?_ htslots (htscopes.trans happ.scopes) hs hdepth (happ.trail.trans htrail)
    have hplace : s.code.size + test.length + 1 + block.length + 1 =
        s.code.size + test.length + block.length + 2 := by
      omega
    rw [htcode, happ.code, hasize, List.length_singleton, hplace]
    simp [whileCode]
  · have hzero : growth ctx.arity? [.jump s.code.size] = 0 := rfl
    rw [happ.depth, Expr.growth_code htest, hzero, hdepth] at htdepth
    rw [Stmt.Balanced]
    exact ⟨by omega, hbal⟩

theorem emitFor_lays (counter : String) (first : Expr) (direction : Direction) (last : Expr)
    {body : List Stmt} (hbody : EmitsStmts ctx body) :
    EmitsStmt ctx (.forLoop counter first direction last body) := by
  intro s t hs h
  rw [Stmt.emit] at h
  obtain ⟨h, hdepth⟩ := EmitM.balanced_ok h
  obtain ⟨r, h, ht, hopen, hclose⟩ := EmitM.inScope_ok ctx.arity? h
  obtain ⟨_, a, hfirst, h⟩ := EmitM.bind_ok.1 h
  obtain ⟨slot, b, halloc, h⟩ := EmitM.bind_ok.1 h
  obtain ⟨_, c, hstore, h⟩ := EmitM.bind_ok.1 h
  rw [EmitM.label_bind_ok] at h
  obtain ⟨_, d, hload, h⟩ := EmitM.bind_ok.1 h
  obtain ⟨_, e, hlast, h⟩ := EmitM.bind_ok.1 h
  obtain ⟨_, f, htest, h⟩ := EmitM.bind_ok.1 h
  obtain ⟨leave, g, hleave, h⟩ := EmitM.bind_ok.1 h
  obtain ⟨_, i, hblock, h⟩ := EmitM.bind_ok.1 h
  obtain ⟨_, j, hstep, hpatch⟩ := EmitM.bind_ok.1 h
  -- the first value, and the counter that is declared behind it
  obtain ⟨begin, hbegin, happ⟩ := first.emit_appends hfirst
  obtain ⟨rfl, hbcode, hbview, hbouter, -, hbdepth, hbtrail⟩ :=
    EmitM.allocate_ok ctx.arity? (by rw [happ.scopes]; simp) halloc
  have hused : a.slots = s.view.used := happ.slots
  have hview : a.view = s.view := happ.view
  rw [hused] at hstore hload hstep
  -- the test, from the store of the counter on
  obtain ⟨limit, hlimit, hlast'⟩ := last.emit_appends hlast
  have hstore' : Emitter.Appends ctx.arity? b [.store s.view.used] c := EmitM.emit_appends hstore
  have hload' : Emitter.Appends ctx.arity? c [.load s.view.used] d := EmitM.emit_appends hload
  have htest' : Emitter.Appends ctx.arity? e [.binary direction.test] f := EmitM.emit_appends htest
  have hhead := ((hstore'.trans hload').trans hlast').trans htest'
  rw [hload'.view, hstore'.view, hbview, hview] at hlimit
  have hcsize : c.code.size = s.code.size + begin.length + 1 := by
    rw [size_eq_of_toList_eq hstore'.code, hbcode, size_eq_of_toList_eq happ.code]
    rfl
  have hfsize : f.code.size + 1 = forBody s.code.size begin limit := by
    rw [size_eq_of_toList_eq hhead.code, hbcode, size_eq_of_toList_eq happ.code, forBody]
    simp only [List.length_append, List.length_cons, List.length_nil]
    omega
  -- the block and the step behind it
  obtain ⟨block, inner, hcode, hrcode, hrslots, hrscopes, hrdepth, hrtrail, hbal⟩ :=
    emitGuarded_ok hbody hleave hblock (EmitM.emitAll_appends hstep) hpatch
  rw [hfsize, hhead.view, hbview, hview] at hcode
  subst ht
  refine ⟨forCode s.code.size s.view.used direction begin limit block, s.view.leave inner, ?_, ?_,
    ?_⟩
  · have hbegin' : first.code ctx s.view = some begin := hbegin
    rw [Stmt.code, hbegin']
    simp only [Option.bind_eq_bind, Option.bind_some, hlimit, hcode]
  · have hscopes : r.scopes.tail = s.scopes := by
      rw [hrscopes, hhead.scopes, hbouter, happ.scopes]
      rfl
    refine .of_leave ?_ hrslots hscopes hs hdepth ?_
    · rw [hrcode, hhead.code, hbcode, happ.code, hfsize, hcsize]
      simp [forCode]
    · exact (((hopen.trans happ.trail).trans hbtrail).trans (hhead.trail.trans hrtrail)).trans
        hclose
  · have hheadNet : growth ctx.arity? ([.store s.view.used] ++ [.load s.view.used] ++ limit ++
        [.binary direction.test]) = last.net ctx - 1 := by
      rw [growth_append, growth_append, Expr.growth_code hlimit]
      change (0 : Int) + last.net ctx + -1 = _
      omega
    have hstepNet : growth ctx.arity? [.load s.view.used, .push (.int 1), .binary direction.advance,
      .store s.view.used, .jump c.code.size] = 0 := rfl
    have hrdepth' : r.depth = s.depth := hdepth
    have hadepth : (a.depth : Int) = s.depth + growth ctx.arity? begin := happ.depth
    rw [hhead.depth, hheadNet, hbdepth, hadepth, Expr.growth_code hbegin, hstepNet,
      hrdepth'] at hrdepth
    rw [Stmt.Balanced]
    exact ⟨by omega, hbal⟩

mutual

/-- The emitter appends the code of a statement, and the statement is balanced. -/
theorem Stmt.emit_lays : ∀ stmt : Stmt, EmitsStmt ctx stmt
  | .var name init, s, t, hs, h => by
    rw [Stmt.emit] at h
    obtain ⟨h, hdepth⟩ := EmitM.balanced_ok h
    obtain ⟨_, a, hinit, h⟩ := EmitM.bind_ok.1 h
    obtain ⟨slot, b, halloc, hstore⟩ := EmitM.bind_ok.1 h
    obtain ⟨code, hcode, happ⟩ := init.emit_appends hinit
    have ha : a.scopes ≠ [] := by
      rw [happ.scopes]
      exact hs
    obtain ⟨rfl, hbcode, hbview, hbouter, hbinner, hbdepth, hbtrail⟩ :=
      EmitM.allocate_ok ctx.arity? ha halloc
    have hlast : Emitter.Appends ctx.arity? b [.store a.slots] t := EmitM.emit_appends hstore
    have hused : a.slots = s.view.used := happ.slots
    rw [hused] at hlast
    refine ⟨code ++ [.store s.view.used], s.view.declare name, ?_, ?_, ?_⟩
    · rw [Stmt.code, hcode]
      rfl
    · exact {
        code := by rw [hlast.code, hbcode, happ.code, List.append_assoc]
        view := by rw [hlast.view, hbview, happ.view]
        outer := by rw [hlast.scopes, hbouter, happ.scopes]
        inner := by
          rw [hlast.scopes]
          exact hbinner
        depth := hdepth
        trail := (happ.trail.trans hbtrail).trans hlast.trail }
    · have hgrowth := Expr.growth_code hcode
      have hone : growth ctx.arity? [.store s.view.used] = -1 := rfl
      have hall := hlast.depth
      rw [hbdepth, happ.depth, hgrowth, hone, hdepth] at hall
      rw [Stmt.Balanced]
      omega
  | .assign base fields value, s, t, hs, h => by
    rw [Stmt.emit] at h
    obtain ⟨h, hdepth⟩ := EmitM.balanced_ok h
    obtain ⟨_, a, hvalue, hassign⟩ := EmitM.bind_ok.1 h
    obtain ⟨_, -, happ⟩ := value.emit_appends hvalue
    obtain ⟨assignment, hassignment, happ', hgrow⟩ := emitAssignment_appends ctx.arity? hassign
    obtain ⟨code, hcode, hlays, hnet⟩ := Expr.emit_taken hs hvalue happ' hgrow hdepth
    rw [happ.view] at hassignment
    refine ⟨code ++ assignment, s.view, ?_, hlays, by rwa [Stmt.Balanced]⟩
    rw [Stmt.code, hcode, hassignment]
    rfl
  | .branch condition body rest, s, t, hs, h => by
    rw [Stmt.emit] at h
    obtain ⟨h, hdepth⟩ := EmitM.balanced_ok h
    obtain ⟨⟨leave, skip⟩, a, hcase, h⟩ := EmitM.bind_ok.1 h
    obtain ⟨jumps, b, hrest, h⟩ := EmitM.bind_ok.1 h
    rw [EmitM.label_bind_ok] at h
    obtain ⟨_, c, hnop, hpatch⟩ := EmitM.bind_ok.1 h
    obtain ⟨test, block, inner, htest, hblock, hacode, rfl, rfl, haused, hascopes, hadepth, hatrail,
        hbody⟩ :=
      emitCase_ok (emitStmts_lays body) hcase
    have hasize : a.code.size = s.code.size + test.length + block.length + 2 := by
      rw [size_eq_of_toList_eq hacode]
      simp only [List.length_append, List.length_cons, List.length_nil]
      omega
    have haview : a.view = s.view.leave inner := by
      rw [Emitter.view, hascopes, haused]
      rfl
    have hascopes' : a.scopes ≠ [] := by
      rw [hascopes]
      exact hs
    obtain ⟨others, slots, hothers, hbsize, hjumps, hpatched, hbscopes, hbused, hbdepth, hbtrail,
        hbal⟩ :=
      rest.emit_lays hascopes' (by omega) hrest
    rw [hasize, haview] at hothers
    have hnop' : Emitter.Appends ctx.arity? b [.nop] c := EmitM.emit_appends hnop
    obtain ⟨htcode, htslots, htscopes, htdepth, httrail⟩ := EmitM.patchAll_ok ctx.arity? hpatch
    have htscopes' : t.scopes = s.scopes := by rw [htscopes, hnop'.scopes, hbscopes, hascopes]
    have htslots' : t.slots = slots.used := by rw [htslots, hnop'.slots, hbused]
    refine ⟨caseCode s.code.size test block others ++ [.nop], s.view.leave slots, ?_, ?_, ?_⟩
    · rw [Stmt.code, htest]
      simp only [Option.bind_eq_bind, Option.bind_some, hblock, hothers]
    · refine .of_leave ?_ htslots' htscopes' hs hdepth
        (((hatrail.trans hbtrail).trans hnop'.trail).trans httrail)
      have hjumps' : ∀ place ∈ jumps, place < b.code.toList.length := by
        intro place hplace
        rw [Array.length_toList]
        exact hjumps place hplace
      have hfinish : b.code.size =
          s.code.size + test.length + block.length + 2 + others.length := by
        rw [hbsize, hasize]
      -- the jump behind the first block is patched last, when the other blocks have their jumps
      rw [htcode, patched_cons, patched_modify, hnop'.code, patched_append hjumps', hpatched,
        hacode, hasize, hfinish, List.append_assoc, ← Array.length_toList, patch_case]
      simp [caseCode]
    · have hzero : growth ctx.arity? [.nop] = 0 := rfl
      have hall := hnop'.depth
      rw [← htdepth, hdepth, hbdepth, hadepth, hzero] at hall
      rw [Stmt.Balanced]
      exact ⟨by omega, hbody, hbal⟩
  | .whileLoop condition body, _, _, hs, h => emitWhile_lays condition (emitStmts_lays body) hs h
  | .forLoop counter first direction last body, _, _, hs, h =>
    emitFor_lays counter first direction last (emitStmts_lays body) hs h
  | .ret none, s, t, hs, h => by
    rw [Stmt.emit] at h
    obtain ⟨h, hdepth⟩ := EmitM.balanced_ok h
    obtain ⟨_, a, hpush, hret⟩ := EmitM.bind_ok.1 h
    have hpush' : Emitter.Appends ctx.arity? s [.push .nil] a := EmitM.emit_appends hpush
    have hret' : Emitter.Appends ctx.arity? a [.ret] t := EmitM.emit_appends hret
    refine ⟨[.push .nil, .ret], s.view, by rw [Stmt.code], (hpush'.trans hret').lays hs hdepth, ?_⟩
    rw [Stmt.Balanced]
    trivial
  | .ret (some value), s, t, hs, h => by
    rw [Stmt.emit] at h
    obtain ⟨h, hdepth⟩ := EmitM.balanced_ok h
    obtain ⟨_, a, hvalue, hret⟩ := EmitM.bind_ok.1 h
    obtain ⟨code, hcode, hlays, hnet⟩ :=
      Expr.emit_taken hs hvalue (EmitM.emit_appends hret) rfl hdepth
    refine ⟨code ++ [.ret], s.view, ?_, hlays, by rwa [Stmt.Balanced]⟩
    rw [Stmt.code, hcode]
    rfl
  | .delete name, s, t, hs, h => by
    rw [Stmt.emit] at h
    obtain ⟨h, hdepth⟩ := EmitM.balanced_ok h
    obtain ⟨slot, hslot, h⟩ := EmitM.lookup_bind_ok h
    obtain ⟨_, a, hload, hfree⟩ := EmitM.bind_ok.1 h
    have hload' : Emitter.Appends ctx.arity? s [.load slot] a := EmitM.emit_appends hload
    have hfree' : Emitter.Appends ctx.arity? a [.free] t := EmitM.emit_appends hfree
    refine ⟨[.load slot, .free], s.view, ?_, (hload'.trans hfree').lays hs hdepth, ?_⟩
    · rw [Stmt.code, hslot]
      rfl
    · rw [Stmt.Balanced]
      trivial
  | .call function arguments, s, t, hs, h => by
    rw [Stmt.emit] at h
    obtain ⟨h, hdepth⟩ := EmitM.balanced_ok h
    obtain ⟨_, a, hcall, hpop⟩ := EmitM.bind_ok.1 h
    obtain ⟨code, hcode, hlays, hnet⟩ :=
      Expr.emit_taken hs hcall (EmitM.emit_appends hpop) rfl hdepth
    refine ⟨code ++ [.pop], s.view, ?_, hlays, by rwa [Stmt.Balanced]⟩
    rw [Stmt.code, hcode]
    rfl

/-- The emitter appends the code of several statements, and they are balanced. -/
theorem emitStmts_lays : ∀ stmts : List Stmt, EmitsStmts ctx stmts
  | [], s, t, hs, h => by
    rw [emitStmts] at h
    obtain ⟨-, rfl⟩ := EmitM.pure_ok.1 h
    refine ⟨[], s.view, by rw [stmtsCode], (Emitter.Appends.refl s).lays hs rfl, ?_⟩
    rw [BalancedStmts]
    trivial
  | stmt :: stmts, s, t, hs, h => by
    rw [emitStmts] at h
    obtain ⟨_, a, hstmt, hstmts⟩ := EmitM.bind_ok.1 h
    obtain ⟨code, slots, hcode, hlays, hbal⟩ := stmt.emit_lays hs hstmt
    obtain ⟨rest, slots', hrest, hlays', hbal'⟩ := emitStmts_lays stmts hlays.inner hstmts
    rw [size_eq_of_toList_eq hlays.code, hlays.view] at hrest
    refine ⟨code ++ rest, slots', ?_, ?_, ?_⟩
    · rw [stmtsCode, hcode]
      simp only [Option.bind_eq_bind, Option.bind_some, hrest]
    · exact {
        code := by rw [hlays'.code, hlays.code, List.append_assoc]
        view := hlays'.view
        outer := hlays'.outer.trans hlays.outer
        inner := hlays'.inner
        depth := hlays'.depth.trans hlays.depth
        trail := hlays.trail.trans hlays'.trail }
    · rw [BalancedStmts]
      exact ⟨hbal, hbal'⟩

/-- The emitter appends the code of the alternatives, except for the jumps that are to go behind the
whole statement. -/
theorem Alternatives.emit_lays :
    ∀ (rest : Alternatives) {skip : Nat} {s t : Emitter} {jumps : List Nat},
    s.scopes ≠ [] → skip < s.code.size → rest.emit ctx skip s = .ok jumps t →
    ∃ code slots, rest.code ctx s.code.size s.view = some (code, slots) ∧
      t.code.size = s.code.size + code.length ∧ (∀ place ∈ jumps, place < t.code.size) ∧
      patched t.code.size jumps t.code.toList =
        s.code.toList.modify skip (Instr.retarget s.code.size) ++ code ∧
      t.scopes = s.scopes ∧ t.slots = slots.used ∧ (t.depth : Int) = s.depth + rest.surplus ctx ∧
      Emitter.Trail ctx.arity? s t ∧ rest.Balanced ctx
  | .none, skip, s, t, jumps, hs, hskip, h => by
    rw [Alternatives.emit] at h
    obtain ⟨rfl, rfl⟩ := EmitM.pure_ok.1 h
    refine ⟨[], s.view, by rw [Alternatives.code], rfl, ?_, ?_, rfl, rfl, ?_, .refl, ?_⟩
    · intro place hplace
      rw [List.mem_singleton] at hplace
      omega
    · rw [patched_cons, patched_nil, List.append_nil]
    · rw [Alternatives.surplus, Int.add_zero]
    · rw [Alternatives.Balanced]
      trivial
  | .otherwise body, skip, s, t, jumps, hs, hskip, h => by
    rw [Alternatives.emit] at h
    obtain ⟨_, a, hpatch, h⟩ := EmitM.bind_ok.1 h
    obtain ⟨_, b, hbody, h⟩ := EmitM.bind_ok.1 h
    obtain ⟨rfl, rfl⟩ := EmitM.pure_ok.1 h
    rw [EmitM.patchHere, EmitM.label_bind_ok] at hpatch
    obtain ⟨hacode, haslots, hascopes, hadepth, hatrail⟩ := EmitM.patch_ok ctx.arity? hpatch
    obtain ⟨block, inner, hblock, hlays, hbal⟩ := inScope_laysBlock (emitStmts_lays body) hbody
    have hasize : a.code.size = s.code.size := by
      have hlen := congrArg List.length hacode
      simpa using hlen
    have haview : a.view = s.view := by rw [Emitter.view, Emitter.view, hascopes, haslots]
    have hbsize := size_eq_of_toList_eq hlays.code
    rw [hasize] at hbsize
    rw [hasize, haview] at hblock
    refine ⟨block, s.view.leave inner, ?_, hbsize, by simp, ?_, ?_, hlays.used, ?_, ?_, ?_⟩
    · rw [Alternatives.code, hblock]
      rfl
    · rw [patched_nil, hlays.code, hacode]
    · rw [hlays.scopes, hascopes]
    · rw [hlays.depth, hadepth, Alternatives.surplus, Int.add_zero]
    · exact hatrail.trans hlays.trail
    · rw [Alternatives.Balanced]
      exact hbal
  | .elif condition body rest, skip, s, t, jumps, hs, hskip, h => by
    rw [Alternatives.emit] at h
    obtain ⟨_, a, hpatch, h⟩ := EmitM.bind_ok.1 h
    obtain ⟨⟨leave, next⟩, b, hcase, h⟩ := EmitM.bind_ok.1 h
    obtain ⟨others, c, hrest, h⟩ := EmitM.bind_ok.1 h
    obtain ⟨rfl, rfl⟩ := EmitM.pure_ok.1 h
    rw [EmitM.patchHere, EmitM.label_bind_ok] at hpatch
    obtain ⟨hacode, haslots, hascopes, hadepth, hatrail⟩ := EmitM.patch_ok ctx.arity? hpatch
    obtain ⟨test, block, inner, htest, hblock, hbcode, rfl, rfl, hbused, hbscopes, hbdepth, hbtrail,
        hbody⟩ :=
      emitCase_ok (emitStmts_lays body) hcase
    have hasize : a.code.size = s.code.size := by
      have hlen := congrArg List.length hacode
      simpa using hlen
    have haview : a.view = s.view := by rw [Emitter.view, Emitter.view, hascopes, haslots]
    have hbsize : b.code.size = s.code.size + test.length + block.length + 2 := by
      rw [size_eq_of_toList_eq hbcode, hasize]
      simp only [List.length_append, List.length_cons, List.length_nil]
      omega
    have hbview : b.view = s.view.leave inner := by
      rw [Emitter.view, hbscopes, hascopes, hbused]
      rfl
    have hbscopes' : b.scopes ≠ [] := by
      rw [hbscopes, hascopes]
      exact hs
    obtain ⟨code, slots, hcode, hcsize, hplaces, hpatched, hcscopes, hcused, hcdepth, hctrail,
        hbal⟩ :=
      rest.emit_lays hbscopes' (by omega) hrest
    rw [hasize, haview] at hblock
    rw [haview] at htest
    rw [hbsize, hbview] at hcode
    have hcsize' : c.code.size = s.code.size + test.length + block.length + 2 + code.length := by
      rw [hcsize, hbsize]
    refine ⟨caseCode s.code.size test block code, s.view.leave slots, ?_, ?_, ?_, ?_, ?_, hcused,
      ?_, ?_, ?_⟩
    · rw [Alternatives.code, htest]
      simp only [Option.bind_eq_bind, Option.bind_some, hblock, hcode]
    · rw [hcsize']
      simp only [caseCode, List.length_append, List.length_cons]
      omega
    · intro place hplace
      rcases List.mem_cons.1 hplace with rfl | hplace
      · omega
      · exact hplaces place hplace
    · rw [patched_cons, patched_modify, hpatched, hbcode, ← Array.length_toList, patch_case, hacode,
        hbsize, hcsize']
      simp [caseCode]
    · rw [hcscopes, hbscopes, hascopes]
    · rw [hcdepth, hbdepth, hadepth, Alternatives.surplus]
      omega
    · exact (hatrail.trans hbtrail).trans hctrail
    · rw [Alternatives.Balanced]
      exact ⟨hbody, hbal⟩

end

end Statements

end FrameMachine
