import FrameMachine.Proofs.Compiler.Jumps
import FrameMachine.Proofs.Compiler.Registry
import FrameMachine.Proofs.Compiler.Slots
import FrameMachine.Proofs.Machine.Effects

/-!
# Variables are assigned before they are used

A path through a function follows its instructions one after the other, and at a jump it may go
either way. All paths to the places behind a declaration, up to the end of its block, lead through
the declaration, because no jump goes from outside to the inside of a block (`Template.Guards`). So
a slot that is loaded on a path has been stored on the same path before
(`Compiled.Made.stored_of_load`).
-/

set_option autoImplicit false

namespace FrameMachine

/-- A path leads from the start of a function to a place, through the instructions at the listed
places, the last one first. -/
inductive Template.Path (t : Template) : List Nat → Nat → Prop
  | start : Path t [] 0
  | step {trace : List Nat} {pc next : Nat} {i : Instr} : Path t trace pc → t.code[pc]? = some i →
      next ∈ i.successors (pc + 1) → Path t (pc :: trace) next

/-- Jumps to places strictly between the two come from there. -/
def Template.Guards (t : Template) (place stop : Nat) : Prop :=
  ∀ pc i target, t.code[pc]? = some i → i.target? = some target → place < target → target < stop →
    place < pc ∧ pc < stop

/-- Jumps from outside do not go to places strictly between the two. -/
def Template.Sealed (t : Template) (start stop : Nat) : Prop :=
  ∀ pc i target, t.code[pc]? = some i → i.target? = some target → pc < start ∨ stop ≤ pc →
    target ≤ start ∨ stop ≤ target

/-- All paths to the places from one up to another lead through an instruction that
stores in the slot. -/
def Template.Stores (t : Template) (slot start stop : Nat) : Prop :=
  ∃ place limit, place < start ∧ stop ≤ limit ∧ t.code[place]? = some (.store slot) ∧
    t.Guards place limit

section Paths

variable {t : Template}

/-- A path to a guarded place leads through the guard. -/
theorem Template.Path.mem_of_guards {trace : List Nat} {pc place stop : Nat} (h : t.Path trace pc)
    (hguards : t.Guards place stop) (hlt : place < pc) (hstop : pc < stop) : place ∈ trace := by
  induction h with
  | start => omega
  | @step trace before next i _ hi hnext ih =>
    -- the path has been behind the guard already, or comes from the guard itself
    have hinside : before = place ∨ place < before ∧ before < stop := by
      rcases Instr.mem_successors hnext with hsucc | htarget
      · omega
      · exact Or.inr (hguards before i next hi htarget hlt hstop)
    rcases hinside with rfl | ⟨hbefore, hbefore'⟩
    · exact List.mem_cons_self ..
    · exact List.mem_cons_of_mem _ (ih hbefore hbefore')

theorem Template.Stores.narrow {slot a b a' b' : Nat} (h : t.Stores slot a b) (ha : a ≤ a')
    (hb : b' ≤ b) :
    t.Stores slot a' b' := by
  obtain ⟨place, limit, hplace, hlimit, hstore, hguards⟩ := h
  exact ⟨place, limit, Nat.lt_of_lt_of_le hplace ha, Nat.le_trans hb hlimit, hstore, hguards⟩

/-- Every path to a place leads through an instruction that stores in the slot. -/
theorem Template.Stores.exists_mem {slot pc : Nat} {trace : List Nat}
    (h : t.Stores slot pc (pc + 1)) (hpath : t.Path trace pc) :
    ∃ place ∈ trace, t.code[place]? = some (.store slot) := by
  obtain ⟨place, limit, hplace, hlimit, hstore, hguards⟩ := h
  exact ⟨place, hpath.mem_of_guards hguards hplace hlimit, hstore⟩

end Paths

/-! ## Blocks -/

/-- The jump comes from between two places, or does not go to a place strictly between them. -/
def Passes (start stop pc target : Nat) : Prop :=
  (start ≤ pc ∧ pc < stop) ∨ target ≤ start ∨ stop ≤ target

section Sealed

variable {ctx : Context} {t : Template} {σ : Slots} {pc a b : Nat}

/-- A piece is sealed if the piece around it is and the jumps around it pass it. -/
theorem Template.Sealed.inner {a' b' : Nat} (h : t.Sealed a b) (ha : a ≤ a') (hb : b' ≤ b)
    (hjumps : t.Jumps (Passes a' b') a b) : t.Sealed a' b' := by
  intro pc i target hi htarget hout
  by_cases hinside : a ≤ pc ∧ pc < b
  · have hpast := hjumps pc i hinside.1 hinside.2 hi target htarget
    rw [Passes] at hpast
    omega
  · have hpast := h pc i target hi htarget (by omega)
    omega

theorem Template.jumps_passes (t : Template) (a b : Nat) : t.Jumps (Passes a b) a b :=
  fun _ _ ha hb _ _ _ => Or.inl ⟨ha, hb⟩

theorem Template.Confined.passes_left {a' b' : Nat} (h : t.Confined a b) (hb : b ≤ a') :
    t.Jumps (Passes a' b') a b :=
  Template.Each.mono h fun _ _ _ _ hjump target htarget =>
    Or.inr (Or.inl (Nat.le_trans (hjump target htarget).2 hb))

theorem Template.Confined.passes_right {a' b' : Nat} (h : t.Confined a b) (ha : b' ≤ a) :
    t.Jumps (Passes a' b') a b :=
  Template.Each.mono h fun _ _ _ _ hjump target htarget =>
    Or.inr (Or.inr (Nat.le_trans ha (hjump target htarget).1))

/-- The block behind a condition and the others are sealed. -/
theorem Template.HasCase.sealed {condition : Expr} {test block others : List Instr}
    (hc : t.HasCase pc test block others) (htest : condition.code ctx σ = some test)
    (hblock : t.Confined (pc + test.length + 1) (pc + test.length + 1 + block.length))
    (hothers : t.Confined (pc + test.length + block.length + 2)
      (pc + test.length + block.length + 2 + others.length))
    (h : t.Sealed pc (pc + test.length + block.length + 2 + others.length)) :
    t.Sealed (pc + test.length + 1) (pc + test.length + 1 + block.length) ∧
      t.Sealed (pc + test.length + block.length + 2)
        (pc + test.length + block.length + 2 + others.length) := by
  constructor
  · refine h.inner (by omega) (by omega) ?_
    exact hc.jumps htest (Or.inr (Or.inr (by omega))) (t.jumps_passes _ _)
      (Or.inr (Or.inr (by omega))) (hothers.passes_right (by omega))
  · refine h.inner (by omega) (Nat.le_refl _) ?_
    exact hc.jumps htest (Or.inr (Or.inl (Nat.le_refl _))) (hblock.passes_left (by omega))
      (Or.inr (Or.inr (Nat.le_refl _))) (t.jumps_passes _ _)

/-- The block of a loop is sealed. -/
theorem Template.HasWhile.sealed {condition : Expr} {test block : List Instr}
    (hc : t.HasWhile pc test block) (htest : condition.code ctx σ = some test)
    (h : t.Sealed pc (pc + test.length + block.length + 2)) :
    t.Sealed (pc + test.length + 1) (pc + test.length + 1 + block.length) := by
  refine h.inner (by omega) (by omega) ?_
  exact hc.jumps htest (Or.inr (Or.inr (by omega))) (t.jumps_passes _ _)
    (Or.inr (Or.inl (by omega)))

/-- The block of a `for` loop is sealed. -/
theorem Template.HasFor.sealed {begin limit : Expr} {τ : Slots} {slot : Nat} {direction : Direction}
    {first last block : List Instr} (hc : t.HasFor pc slot direction first last block)
    (hfirst : begin.code ctx σ = some first) (hlast : limit.code ctx τ = some last)
    (h : t.Sealed pc (forBody pc first last + block.length + 5)) :
    t.Sealed (forBody pc first last) (forBody pc first last + block.length) := by
  have hle : pc + first.length + 1 ≤ forBody pc first last := by
    rw [forBody]
    omega
  refine h.inner (by omega) (by omega) ?_
  exact hc.jumps hfirst hlast (Or.inr (Or.inr (by omega))) (t.jumps_passes _ _)
    (Or.inr (Or.inl hle))

/-- A place guards what is behind it in a sealed piece, if there are no jumps in front of it. -/
theorem Template.Sealed.guards {place : Nat} (h : t.Sealed a b) (ha : a ≤ place)
    (hnone : t.Jumps (fun _ _ => False) a (place + 1)) : t.Guards place b := by
  intro pc i target hi htarget hlt hstop
  by_cases hinside : a ≤ pc ∧ pc < b
  · by_cases hbefore : pc < place + 1
    · exact (hnone pc i hinside.1 hbefore hi target htarget).elim
    · exact ⟨by omega, hinside.2⟩
  · have hpast := h pc i target hi htarget (by omega)
    omega

end Sealed

/-! ## Statements -/

/-- The variables in scope have been stored on all paths to the places from one up to another. -/
def Slots.Assigned (t : Template) (start stop : Nat) (σ : Slots) : Prop :=
  ∀ name slot, σ.slot? name = some slot → t.Stores slot start stop

/-- What is loaded between two places has been stored on all paths. -/
def Template.LoadsStored (t : Template) (start stop : Nat) : Prop :=
  t.Each (fun pc i => ∀ slot, i = .load slot → t.Stores slot pc (pc + 1)) start stop

section Statements

variable {ctx : Context} {t : Template} {σ : Slots} {pc a b : Nat}

theorem Slots.Assigned.narrow {a' b' : Nat} (h : σ.Assigned t a b) (ha : a ≤ a') (hb : b' ≤ b) :
    σ.Assigned t a' b' :=
  fun name slot hslot => (h name slot hslot).narrow ha hb

/-- The variables in scope are the same at the end of a block as in front of it. -/
theorem Slots.Assigned.leave (h : σ.Assigned t a b)
    (inner : Slots) : (σ.leave inner).Assigned t a b := h

/-- A declared variable is assigned behind the place where it is stored. -/
theorem Slots.Assigned.declare {name : String} {place : Nat} (h : σ.Assigned t a b)
    (hsealed : t.Sealed a b) (ha : a ≤ place) (hstore : t.code[place]? = some (.store σ.used))
    (hnone : t.Jumps (fun _ _ => False) a (place + 1)) :
    (σ.declare name).Assigned t (place + 1) b := by
  intro other slot hslot
  by_cases hother : other = name
  · rw [hother, σ.slot?_declare, Option.some.injEq] at hslot
    subst hslot
    exact ⟨place, b, Nat.lt_succ_self _, Nat.le_refl _, hstore, hsealed.guards ha hnone⟩
  · have hslot' : σ.slot? other = some slot := by
      have hne : (other == name) = false := beq_eq_false_iff_ne.2 hother
      rw [Slots.slot?, Slots.declare, List.lookup_cons, hne] at hslot
      exact hslot
    exact (h other slot hslot').narrow (by omega) (Nat.le_refl _)

theorem Template.LoadsStored.of_isStraight {c : List Instr} (hc : t.Has pc c)
    (hcode : ∀ i ∈ c, i.IsStraight σ) (hσ : σ.Assigned t pc (pc + c.length)) :
    t.LoadsStored pc (pc + c.length) := by
  refine Template.Each.of_mem hc fun place i ha hb hi slot hload => ?_
  have hstraight := hcode i hi
  rw [hload] at hstraight
  obtain ⟨name, hslot⟩ := hstraight
  exact (hσ name slot hslot).narrow ha hb

theorem Template.LoadsStored.of_expr {e : Expr} {c : List Instr} (hc : t.Has pc c)
    (he : e.code ctx σ = some c) (hσ : σ.Assigned t pc (pc + c.length)) :
    t.LoadsStored pc (pc + c.length) :=
  .of_isStraight hc (fun i hi => (Expr.plain_code he i hi).isStraight) hσ

/-- The variables in scope behind a statement are assigned up to the end of the block. -/
theorem Stmt.assigned {s : Stmt} {c : List Instr} {τ : Slots} (h : s.code ctx pc σ = some (c, τ))
    (hc : t.Has pc c) (hsealed : t.Sealed pc b) (hσ : σ.Assigned t pc b) :
    τ.Assigned t (pc + c.length) b := by
  have hbehind : σ.Assigned t (pc + c.length) b := hσ.narrow (Nat.le_add_right _ _) (Nat.le_refl _)
  cases s with
  | var name init =>
    obtain ⟨value, hvalue, rfl, rfl⟩ := Stmt.code_var.1 h
    have hnone : t.Jumps (fun _ _ => False) pc (pc + (value ++ [Instr.store σ.used]).length) :=
      .of_straight hc fun i hi => (Stmt.isStraight_of_isSimple h rfl i hi).target?
    rw [List.length_append, ← Nat.add_assoc] at hnone ⊢
    exact hσ.declare hsealed (Nat.le_add_right _ _) hc.right.head hnone
  | assign base fields value =>
    obtain ⟨_, -, _, -, -, rfl⟩ := Stmt.code_assign.1 h
    exact hbehind
  | branch condition body rest =>
    obtain ⟨_, -, _, _, -, _, inner, -, -, rfl⟩ := Stmt.code_branch.1 h
    exact hbehind.leave inner
  | whileLoop condition body =>
    obtain ⟨_, -, _, inner, -, -, rfl⟩ := Stmt.code_whileLoop.1 h
    exact hbehind.leave inner
  | forLoop counter first direction last body =>
    obtain ⟨_, -, _, -, _, inner, -, -, rfl⟩ := Stmt.code_forLoop.1 h
    exact hbehind.leave inner
  | ret value =>
    cases value with
    | none =>
      obtain ⟨-, rfl⟩ := Stmt.code_ret_none.1 h
      exact hbehind
    | some value =>
      obtain ⟨_, -, -, rfl⟩ := Stmt.code_ret_some.1 h
      exact hbehind
  | delete name =>
    obtain ⟨_, -, -, rfl⟩ := Stmt.code_delete.1 h
    exact hbehind
  | call function arguments =>
    obtain ⟨_, -, -, rfl⟩ := Stmt.code_call.1 h
    exact hbehind

/-- The variables in scope in a `for` loop, with its counter. -/
theorem Template.HasFor.assigned {begin : Expr} {direction : Direction}
    {first last block : List Instr} (hc : t.HasFor pc σ.used direction first last block)
    (hfirst : begin.code ctx σ = some first) (hsealed : t.Sealed pc b) (hσ : σ.Assigned t pc b)
    (counter : String) :
    (σ.declare counter).Assigned t (pc + first.length + 1) b := by
  refine hσ.declare hsealed (Nat.le_add_right _ _) hc.store ?_
  exact (Jumps.of_expr hc.hasFirst hfirst).append (Each.of_instr hc.store (by simp [Instr.target?]))

/-- What a condition, its block and the others load has been stored on all paths. -/
theorem Template.HasCase.loadsStored {condition : Expr} {inner : Slots}
    {test block others : List Instr}
    (hc : t.HasCase pc test block others) (htest : condition.code ctx σ = some test)
    (hblock : t.Confined (pc + test.length + 1) (pc + test.length + 1 + block.length))
    (hothers : t.Confined (pc + test.length + block.length + 2)
      (pc + test.length + block.length + 2 + others.length))
    (hsealed : t.Sealed pc (pc + test.length + block.length + 2 + others.length))
    (hσ : σ.Assigned t pc (pc + test.length + block.length + 2 + others.length))
    (hblockLoads : t.Sealed (pc + test.length + 1) (pc + test.length + 1 + block.length) →
      σ.Assigned t (pc + test.length + 1) (pc + test.length + 1 + block.length) →
      t.LoadsStored (pc + test.length + 1) (pc + test.length + 1 + block.length))
    (hothersLoads : t.Sealed (pc + test.length + block.length + 2)
        (pc + test.length + block.length + 2 + others.length) →
      (σ.leave inner).Assigned t (pc + test.length + block.length + 2)
        (pc + test.length + block.length + 2 + others.length) →
      t.LoadsStored (pc + test.length + block.length + 2)
      (pc + test.length + block.length + 2 + others.length)) :
    t.LoadsStored pc (pc + test.length + block.length + 2 + others.length) := by
  obtain ⟨hsealedBlock, hsealedOthers⟩ := hc.sealed htest hblock hothers hsealed
  have htestLoads := LoadsStored.of_expr hc.hasTest htest (hσ.narrow (Nat.le_refl _) (by omega))
  have hblockLoads' := hblockLoads hsealedBlock (hσ.narrow (by omega) (by omega))
  have hothersLoads' :=
    hothersLoads hsealedOthers ((hσ.narrow (by omega) (Nat.le_refl _)).leave inner)
  exact hc.each htestLoads (fun _ h => by cases h) hblockLoads'
    (fun _ h => by cases h) hothersLoads'

mutual

/-- What a statement loads has been stored on all paths. -/
theorem Stmt.loadsStored : ∀ (s : Stmt) {c : List Instr} {pc : Nat} {σ τ : Slots},
    s.code ctx pc σ = some (c, τ) →
    t.Has pc c → t.Sealed pc (pc + c.length) → σ.Assigned t pc (pc + c.length) →
      t.LoadsStored pc (pc + c.length)
  | .branch condition body rest, c, pc, σ, τ, h, hc, hsealed, hσ => by
    obtain ⟨test, htest, block, inner, hblock, others, inner', hothers, rfl, -⟩ :=
      Stmt.code_branch.1 h
    have hwhole : pc + (caseCode pc test block others ++ [Instr.nop]).length =
        pc + test.length + block.length + 2 + others.length + 1 := by
      rw [List.length_append, ← Nat.add_assoc, add_length_caseCode]
      rfl
    have hnop : t.Has (pc + test.length + block.length + 2 + others.length) [Instr.nop] := by
      rw [← add_length_caseCode]
      exact hc.right
    rw [hwhole] at hsealed hσ ⊢
    have hcase := Template.has_caseCode hc.left
    have hsealedCase : t.Sealed pc (pc + test.length + block.length + 2 + others.length) :=
      hsealed.inner (Nat.le_refl _) (Nat.le_succ _)
        ((t.jumps_passes _ _).append (Template.Each.of_instr hnop.head (by simp [Instr.target?])))
    have hloads := hcase.loadsStored htest (stmts_confined body hblock hcase.hasBlock)
      (Alternatives.confined rest hothers hcase.hasOthers) hsealedCase
      (hσ.narrow (Nat.le_refl _) (Nat.le_succ _)) (stmts_loadsStored body hblock hcase.hasBlock)
      (Alternatives.loadsStored rest hothers hcase.hasOthers)
    exact hloads.append (.of_instr hnop.head fun _ h => by cases h)
  | .whileLoop condition body, c, pc, σ, τ, h, hc, hsealed, hσ => by
    obtain ⟨test, htest, block, inner, hblock, rfl, -⟩ := Stmt.code_whileLoop.1 h
    rw [add_length_whileCode] at hsealed hσ ⊢
    have hloop := Template.has_whileCode hc
    have hbody := stmts_loadsStored body hblock hloop.hasBlock (hloop.sealed htest hsealed)
      (hσ.narrow (by omega) (by omega))
    have htestLoads :=
      Template.LoadsStored.of_expr hloop.hasTest htest (hσ.narrow (Nat.le_refl _) (by omega))
    exact hloop.each htestLoads (fun _ h => by cases h) hbody fun _ h => by cases h
  | .forLoop counter first direction last body, c, pc, σ, τ, h, hc, hsealed, hσ => by
    obtain ⟨begin, hbegin, limit, hlimit, block, inner, hblock, rfl, -⟩ := Stmt.code_forLoop.1 h
    rw [add_length_forCode] at hsealed hσ ⊢
    have hloop := Template.has_forCode hc
    have hplace : forBody pc begin limit = pc + begin.length + 2 + limit.length + 2 := by
      rw [forBody]
      omega
    have hscope := hloop.assigned hbegin hsealed hσ counter
    have hcounter := hscope counter σ.used (σ.slot?_declare counter)
    have hbody := stmts_loadsStored body hblock hloop.hasBlock (hloop.sealed hbegin hlimit hsealed)
      (hscope.narrow (by omega) (by omega))
    have hfirstLoads :=
      Template.LoadsStored.of_expr hloop.hasFirst hbegin (hσ.narrow (Nat.le_refl _) (by omega))
    have hlastLoads :=
      Template.LoadsStored.of_expr hloop.hasLast hlimit (hscope.narrow (by omega) (by omega))
    -- besides the bounds and the block, only the test and the step load something, and that
    -- is the counter
    refine hloop.each hfirstLoads nofun ?_ hlastLoads nofun nofun hbody ?_ nofun
    · rintro _ ⟨⟩
      exact hcounter.narrow (Nat.le_refl _) (by omega)
    · intro place hle hlt i hi slot hload
      have hslot : slot = σ.used := by
        rw [hload] at hi
        simpa using hi
      rw [hslot]
      exact hcounter.narrow (by omega) (by omega)
  | .var _ _, c, pc, σ, τ, h, hc, _, hσ | .assign _ _ _, c, pc, σ, τ, h, hc, _, hσ
  | .ret _, c, pc, σ, τ, h, hc, _, hσ | .delete _, c, pc, σ, τ, h, hc, _, hσ
  | .call _ _, c, pc, σ, τ, h, hc, _, hσ => .of_isStraight hc (Stmt.isStraight_of_isSimple h rfl) hσ

theorem stmts_loadsStored : ∀ (ss : List Stmt) {c : List Instr} {pc : Nat} {σ τ : Slots},
    stmtsCode ctx pc σ ss = some (c, τ) → t.Has pc c → t.Sealed pc (pc + c.length) →
    σ.Assigned t pc (pc + c.length) → t.LoadsStored pc (pc + c.length)
  | [], c, pc, σ, τ, h, hc, _, _ => by
    obtain ⟨rfl, -⟩ := stmtsCode_nil.1 h
    exact Template.Each.of_mem hc (by simp)
  | s :: ss, c, pc, σ, τ, h, hc, hsealed, hσ => by
    obtain ⟨first, middle, hs, rest, hss, rfl⟩ := stmtsCode_cons.1 h
    have hfirst := Stmt.confined s hs hc.left
    have hrest := stmts_confined ss hss hc.right
    rw [List.length_append, ← Nat.add_assoc] at hsealed hσ ⊢
    have hsealedFirst : t.Sealed pc (pc + first.length) :=
      hsealed.inner (Nat.le_refl _) (Nat.le_add_right _ _)
        ((t.jumps_passes _ _).append (hrest.passes_right (Nat.le_refl _)))
    have hsealedRest : t.Sealed (pc + first.length) (pc + first.length + rest.length) :=
      hsealed.inner (Nat.le_add_right _ _) (Nat.le_refl _)
        ((hfirst.passes_left (Nat.le_refl _)).append (t.jumps_passes _ _))
    have hfirstLoads :=
      Stmt.loadsStored s hs hc.left hsealedFirst (hσ.narrow (Nat.le_refl _) (Nat.le_add_right _ _))
    have hrestLoads :=
      stmts_loadsStored ss hss hc.right hsealedRest (Stmt.assigned hs hc.left hsealed hσ)
    exact hfirstLoads.append hrestLoads

theorem Alternatives.loadsStored :
    ∀ (alts : Alternatives) {c : List Instr} {pc : Nat} {σ τ : Slots},
    alts.code ctx pc σ = some (c, τ) → t.Has pc c → t.Sealed pc (pc + c.length) →
    σ.Assigned t pc (pc + c.length) → t.LoadsStored pc (pc + c.length)
  | .none, c, pc, σ, τ, h, hc, _, _ => by
    obtain ⟨rfl, -⟩ := Alternatives.code_none.1 h
    exact Template.Each.of_mem hc (by simp)
  | .otherwise body, c, pc, σ, τ, h, hc, hsealed, hσ => by
    obtain ⟨inner, hblock, -⟩ := Alternatives.code_otherwise.1 h
    exact stmts_loadsStored body hblock hc hsealed hσ
  | .elif condition body rest, c, pc, σ, τ, h, hc, hsealed, hσ => by
    obtain ⟨test, htest, block, inner, hblock, others, inner', hothers, rfl, -⟩ :=
      Alternatives.code_elif.1 h
    rw [add_length_caseCode] at hsealed hσ ⊢
    have hcase := Template.has_caseCode hc
    exact hcase.loadsStored htest (stmts_confined body hblock hcase.hasBlock)
      (Alternatives.confined rest hothers hcase.hasOthers) hsealed hσ
      (stmts_loadsStored body hblock hcase.hasBlock)
        (Alternatives.loadsStored rest hothers hcase.hasOthers)

end

end Statements

/-! ## Functions -/

section Functions

variable {ctx : Context} {f : FunDecl} {t : Template} {slots : Nat} {last : Emitter}

/-- There are no jumps outside the body of a function. -/
theorem FunDecl.Placed.mem_body {block : List Instr} {inner : Slots}
    (h : f.Placed ctx t slots block inner) {pc target : Nat} {i : Instr} (hi : t.code[pc]? = some i)
    (htarget : i.target? = some target) :
    f.arity ≤ pc ∧ pc < f.arity + block.length := by
  have hlt := (Array.getElem?_eq_some_iff.1 hi).1
  have hjumps : t.Jumps (fun place _ => f.arity ≤ place ∧ place < f.arity + block.length)
      0 t.code.size :=
    h.each (fun _ _ _ => nofun) (fun _ _ ha hb _ _ _ => ⟨ha, hb⟩) fun _ _ => ⟨nofun, nofun⟩
  exact hjumps pc i (Nat.zero_le _) hlt hi target htarget

/-- The parameters are stored on all paths to the body. -/
theorem FunDecl.Placed.assigned {block : List Instr} {inner : Slots}
    (h : f.Placed ctx t slots block inner) :
    (paramSlots f.params).Assigned t f.arity (f.arity + block.length) := by
  intro name slot hslot
  have hlt : slot < f.arity := by
    have hlt := (paramSlots_distinct f.params).lt _ (mem_of_lookup hslot)
    rw [paramSlots_used] at hlt
    exact hlt
  refine ⟨slot, f.arity + block.length, hlt, Nat.le_refl _, ?_, ?_⟩
  · have hget := h.entry.getElem? (k := slot) (by simpa using hlt)
    simpa [hlt] using hget
  · intro pc i target hi htarget _ _
    have hbody := h.mem_body hi htarget
    omega

/-- What a function loads has been stored on all paths. -/
theorem Compiled.Made.loadsStored (h : Compiled.Made ctx f ⟨t, slots⟩ last) :
    t.LoadsStored 0 t.code.size := by
  obtain ⟨block, inner, hplaced⟩ := h.placed
  have hsealed : t.Sealed f.arity (f.arity + block.length) := by
    intro pc i target hi htarget hout
    have hbody := hplaced.mem_body hi htarget
    omega
  have hbody := stmts_loadsStored f.body hplaced.code hplaced.body hsealed hplaced.assigned
  exact hplaced.each (fun _ _ _ => nofun) hbody fun _ _ => ⟨nofun, nofun⟩

/-- On every path to an instruction that loads a slot there is one that stores in it. -/
theorem Compiled.Made.stored_of_load (h : Compiled.Made ctx f ⟨t, slots⟩ last) {trace : List Nat}
    {pc slot : Nat} (hpath : t.Path trace pc) (hload : t.code[pc]? = some (.load slot)) :
    ∃ place ∈ trace, t.code[place]? = some (.store slot) := by
  have hlt := (Array.getElem?_eq_some_iff.1 hload).1
  exact (h.loadsStored pc _ (Nat.zero_le _) hlt hload slot rfl).exists_mem hpath

end Functions

end FrameMachine
