import FrameMachine.Proofs.Compiler.Registry
import FrameMachine.Proofs.Compiler.Slots

/-!
# Declarations and their slots

The declarations of a function are its parameters and, in the order of the text, the variables and
the counters of its body. Each is stored for the first time at a place of its own. The slots that
they get are numbered through in this order and never given out twice (`Compiled.Made.declared`).
-/

set_option autoImplicit false

namespace FrameMachine

/-- A declared variable, the place of the instruction that stores it first, and its slot. -/
structure Declaration where
  name : String
  place : Nat
  slot : Nat
deriving DecidableEq

mutual

/-- The declarations in a statement, in the order of the text. -/
def Stmt.declarations (ctx : Context) (start : Nat) (slots : Slots) : Stmt →
    Option (List Declaration)
  | .var name init => do
    let code ← init.code ctx slots
    some [⟨name, start + code.length, slots.used⟩]
  | .branch condition body rest => do
    let test ← condition.code ctx slots
    let (block, inner) ← stmtsCode ctx (start + test.length + 1) slots body
    let ds ← declarationsStmts ctx (start + test.length + 1) slots body
    let others ← rest.declarations ctx (start + test.length + block.length + 2) (slots.leave inner)
    some (ds ++ others)
  | .whileLoop condition body => do
    let test ← condition.code ctx slots
    declarationsStmts ctx (start + test.length + 1) slots body
  | .forLoop counter first _ last body => do
    let begin ← first.code ctx slots
    let limit ← last.code ctx (slots.declare counter)
    let ds ← declarationsStmts ctx (forBody start begin limit) (slots.declare counter) body
    some (⟨counter, start + begin.length, slots.used⟩ :: ds)
  | _ => some []

/-- The declarations in several statements. -/
def declarationsStmts (ctx : Context) (start : Nat) (slots : Slots) : List Stmt →
    Option (List Declaration)
  | [] => some []
  | s :: ss => do
    let (code, after) ← s.code ctx start slots
    let ds ← s.declarations ctx start slots
    let others ← declarationsStmts ctx (start + code.length) after ss
    some (ds ++ others)

/-- The declarations in the alternatives. -/
def Alternatives.declarations (ctx : Context) (start : Nat) (slots : Slots) :
    Alternatives → Option (List Declaration)
  | .none => some []
  | .otherwise body => declarationsStmts ctx start slots body
  | .elif condition body rest => do
    let test ← condition.code ctx slots
    let (block, inner) ← stmtsCode ctx (start + test.length + 1) slots body
    let ds ← declarationsStmts ctx (start + test.length + 1) slots body
    let others ← rest.declarations ctx (start + test.length + block.length + 2) (slots.leave inner)
    some (ds ++ others)

end

/-- The declarations of a function. The parameters are stored one after the other at its entry. -/
def FunDecl.declarations (ctx : Context) (f : FunDecl) : Option (List Declaration) := do
  let ds ← declarationsStmts ctx f.arity (paramSlots f.params) f.body
  some (f.params.mapIdx (fun k param => ⟨param.name, k, k⟩) ++ ds)

/-- The declarations are stored at places between the given ones, one behind the other, and their
slots are numbered through. -/
structure Template.Declares (t : Template) (start stop first next : Nat) (ds : List Declaration) :
    Prop where
  le : first ≤ next
  slots : ds.map Declaration.slot = List.range' first (next - first)
  stores : ∀ d ∈ ds, start ≤ d.place ∧ d.place < stop ∧ t.code[d.place]? = some (.store d.slot)
  ordered : ds.Pairwise fun d d' => d.place < d'.place

namespace Template.Declares

variable {t : Template} {a b c i j k : Nat} {ds ds' : List Declaration}

theorem nil (t : Template) (a b i : Nat) : t.Declares a b i i [] :=
  ⟨Nat.le_refl _, by simp, by simp, .nil⟩

theorem single {name : String} {place : Nat} (ha : a ≤ place) (hb : place < b)
    (h : t.code[place]? = some (.store i)) : t.Declares a b i (i + 1) [⟨name, place, i⟩] where
  le := Nat.le_succ _
  slots := by simp
  stores := by simpa using ⟨ha, hb, h⟩
  ordered := List.pairwise_singleton ..

theorem widen {a' b' : Nat} (h : t.Declares a b i j ds) (ha : a' ≤ a) (hb : b ≤ b') :
    t.Declares a' b' i j ds where
  le := h.le
  slots := h.slots
  stores := fun d hd => by
    obtain ⟨hstart, hstop, hstore⟩ := h.stores d hd
    exact ⟨by omega, by omega, hstore⟩
  ordered := h.ordered

theorem append (h : t.Declares a b i j ds) (h' : t.Declares b c j k ds') (hab : a ≤ b)
    (hbc : b ≤ c) :
    t.Declares a c i k (ds ++ ds') where
  le := Nat.le_trans h.le h'.le
  slots := by
    have hlen : i + (j - i) = j := Nat.add_sub_of_le h.le
    have hsum : k - i = (j - i) + (k - j) := by
      have hle := h.le
      have hle' := h'.le
      omega
    have hjoin := List.range'_append_1 (s := i) (m := j - i) (n := k - j)
    rw [hlen] at hjoin
    rw [List.map_append, h.slots, h'.slots, hsum, hjoin]
  stores := by
    intro d hd
    rcases List.mem_append.1 hd with hd | hd
    · obtain ⟨hstart, hstop, hstore⟩ := h.stores d hd
      exact ⟨hstart, by omega, hstore⟩
    · obtain ⟨hstart, hstop, hstore⟩ := h'.stores d hd
      exact ⟨by omega, hstop, hstore⟩
  ordered := by
    refine List.pairwise_append.2 ⟨h.ordered, h'.ordered, fun d hd d' hd' => ?_⟩
    have hplace := h.stores d hd
    have hplace' := h'.stores d' hd'
    omega

end Template.Declares

section Declared

variable {ctx : Context} {t : Template}

mutual

theorem Stmt.declared : ∀ (s : Stmt) {c : List Instr} {pc : Nat} {σ τ : Slots},
    s.code ctx pc σ = some (c, τ) → t.Has pc c →
    ∃ ds, s.declarations ctx pc σ = some ds ∧ t.Declares pc (pc + c.length) σ.used τ.used ds
  | .var name init, c, pc, σ, τ, h, hc => by
    obtain ⟨value, hvalue, rfl, rfl⟩ := Stmt.code_var.1 h
    refine ⟨[⟨name, pc + value.length, σ.used⟩], by simp [Stmt.declarations, hvalue], ?_⟩
    exact .single (Nat.le_add_right _ _) (by simp) hc.right.head
  | .branch condition body rest, c, pc, σ, τ, h, hc => by
    obtain ⟨test, htest, block, inner, hblock, others, inner', hothers, rfl, rfl⟩ :=
      Stmt.code_branch.1 h
    have hcase := Template.has_caseCode hc.left
    obtain ⟨ds, hds, hbody⟩ := stmts_declared body hblock hcase.hasBlock
    obtain ⟨ds', hds', hrest⟩ := Alternatives.declared rest hothers hcase.hasOthers
    refine ⟨ds ++ ds', by simp [Stmt.declarations, htest, hblock, hds, hds'], ?_⟩
    rw [List.length_append, ← Nat.add_assoc, add_length_caseCode]
    exact (hbody.widen (by omega) (by omega)).append
      (hrest.widen (Nat.le_refl _) (Nat.le_add_right _ _)) (by omega) (by omega)
  | .whileLoop condition body, c, pc, σ, τ, h, hc => by
    obtain ⟨test, htest, block, inner, hblock, rfl, rfl⟩ := Stmt.code_whileLoop.1 h
    obtain ⟨ds, hds, hbody⟩ := stmts_declared body hblock (Template.has_whileCode hc).hasBlock
    refine ⟨ds, by simp [Stmt.declarations, htest, hds], ?_⟩
    rw [add_length_whileCode]
    exact hbody.widen (by omega) (by omega)
  | .forLoop counter first direction last body, c, pc, σ, τ, h, hc => by
    obtain ⟨begin, hbegin, limit, hlimit, block, inner, hblock, rfl, rfl⟩ := Stmt.code_forLoop.1 h
    have hloop := Template.has_forCode hc
    obtain ⟨ds, hds, hbody⟩ := stmts_declared body hblock hloop.hasBlock
    refine ⟨⟨counter, pc + begin.length, σ.used⟩ ::
      ds, by simp [Stmt.declarations, hbegin, hlimit, hds], ?_⟩
    rw [add_length_forCode]
    have hcounter : t.Declares pc (pc + begin.length + 1) σ.used (σ.used + 1)
        [⟨counter, pc + begin.length, σ.used⟩] :=
      .single (Nat.le_add_right _ _) (Nat.lt_succ_self _) hloop.store
    have hle : pc + begin.length + 1 ≤ forBody pc begin limit := by
      rw [forBody]
      omega
    exact hcounter.append (hbody.widen hle (by omega)) (by omega) (by omega)
  | .assign base fields value, c, pc, σ, τ, h, hc => by
    obtain ⟨_, -, _, -, -, rfl⟩ := Stmt.code_assign.1 h
    exact ⟨[], by simp [Stmt.declarations], .nil ..⟩
  | .ret none, c, pc, σ, τ, h, hc => by
    obtain ⟨-, rfl⟩ := Stmt.code_ret_none.1 h
    exact ⟨[], by simp [Stmt.declarations], .nil ..⟩
  | .ret (some value), c, pc, σ, τ, h, hc => by
    obtain ⟨_, -, -, rfl⟩ := Stmt.code_ret_some.1 h
    exact ⟨[], by simp [Stmt.declarations], .nil ..⟩
  | .delete name, c, pc, σ, τ, h, hc => by
    obtain ⟨_, -, -, rfl⟩ := Stmt.code_delete.1 h
    exact ⟨[], by simp [Stmt.declarations], .nil ..⟩
  | .call function arguments, c, pc, σ, τ, h, hc => by
    obtain ⟨_, -, -, rfl⟩ := Stmt.code_call.1 h
    exact ⟨[], by simp [Stmt.declarations], .nil ..⟩

theorem stmts_declared : ∀ (ss : List Stmt) {c : List Instr} {pc : Nat} {σ τ : Slots},
    stmtsCode ctx pc σ ss = some (c, τ) → t.Has pc c →
    ∃ ds, declarationsStmts ctx pc σ ss = some ds ∧ t.Declares pc (pc + c.length) σ.used τ.used ds
  | [], c, pc, σ, τ, h, hc => by
    obtain ⟨rfl, rfl⟩ := stmtsCode_nil.1 h
    exact ⟨[], by simp [declarationsStmts], .nil ..⟩
  | s :: ss, c, pc, σ, τ, h, hc => by
    obtain ⟨first, middle, hs, rest, hss, rfl⟩ := stmtsCode_cons.1 h
    obtain ⟨ds, hds, hfirst⟩ := Stmt.declared s hs hc.left
    obtain ⟨ds', hds', hrest⟩ := stmts_declared ss hss hc.right
    refine ⟨ds ++ ds', by simp [declarationsStmts, hs, hds, hds'], ?_⟩
    rw [List.length_append, ← Nat.add_assoc]
    exact hfirst.append hrest (Nat.le_add_right _ _) (Nat.le_add_right _ _)

theorem Alternatives.declared : ∀ (alts : Alternatives) {c : List Instr} {pc : Nat} {σ τ : Slots},
    alts.code ctx pc σ = some (c, τ) → t.Has pc c →
    ∃ ds, alts.declarations ctx pc σ = some ds ∧ t.Declares pc (pc + c.length) σ.used τ.used ds
  | .none, c, pc, σ, τ, h, hc => by
    obtain ⟨rfl, rfl⟩ := Alternatives.code_none.1 h
    exact ⟨[], by simp [Alternatives.declarations], .nil ..⟩
  | .otherwise body, c, pc, σ, τ, h, hc => by
    obtain ⟨inner, hblock, rfl⟩ := Alternatives.code_otherwise.1 h
    obtain ⟨ds, hds, hbody⟩ := stmts_declared body hblock hc
    exact ⟨ds, by simp [Alternatives.declarations, hds], hbody⟩
  | .elif condition body rest, c, pc, σ, τ, h, hc => by
    obtain ⟨test, htest, block, inner, hblock, others, inner', hothers, rfl, rfl⟩ :=
      Alternatives.code_elif.1 h
    have hcase := Template.has_caseCode hc
    obtain ⟨ds, hds, hbody⟩ := stmts_declared body hblock hcase.hasBlock
    obtain ⟨ds', hds', hrest⟩ := Alternatives.declared rest hothers hcase.hasOthers
    refine ⟨ds ++ ds', by simp [Alternatives.declarations, htest, hblock, hds, hds'], ?_⟩
    rw [add_length_caseCode]
    exact (hbody.widen (by omega) (by omega)).append hrest (by omega) (by omega)

end

/-- The parameters are stored at the entry of a function, each in the slot of its number. -/
theorem FunDecl.Placed.declares_params {f : FunDecl} {slots : Nat} {block : List Instr}
    {inner : Slots} (h : f.Placed ctx t slots block inner) :
    t.Declares 0 f.arity 0 f.arity (f.params.mapIdx fun k param => ⟨param.name, k, k⟩) where
  le := Nat.zero_le _
  slots := by
    apply List.ext_getElem
    · simp [FunDecl.arity]
    · intro k hk hk'
      simp
  stores := by
    intro d hd
    obtain ⟨k, hk, rfl⟩ := List.mem_mapIdx.1 hd
    have hlt : k < f.arity := hk
    have hget := h.entry.getElem? (k := k) (by simpa using hlt)
    exact ⟨Nat.zero_le _, hlt, by simpa [hlt] using hget⟩
  ordered := by
    rw [List.pairwise_iff_getElem]
    intro k k' hk hk' hlt
    simpa using hlt

/-- The declarations of a function get the slots from the first one up to the number of its slots,
in order. The parameters come first. -/
theorem Compiled.Made.declared {f : FunDecl} {slots : Nat} {last : Emitter}
    (h : Compiled.Made ctx f ⟨t, slots⟩ last) :
    ∃ ds : List Declaration, f.declarations ctx = some ds ∧ t.Declares 0 t.code.size 0 slots ds ∧
      ∀ (k : Nat) (param : Param), f.params[k]? = some param →
        ds[k]? = some ⟨param.name, k, k⟩ := by
  obtain ⟨block, inner, hplaced⟩ := h.placed
  obtain ⟨ds, hds, hbody⟩ := stmts_declared f.body hplaced.code hplaced.body
  have hsize : f.arity + block.length ≤ t.code.size := by
    rcases hplaced.ending with hsize | ⟨-, hsize⟩ <;> omega
  rw [paramSlots_used, hplaced.used] at hbody
  refine ⟨f.params.mapIdx (fun k param => ⟨param.name, k, k⟩) ++
    ds, by simp [FunDecl.declarations, hds], ?_, ?_⟩
  · exact (hplaced.declares_params.append hbody (Nat.zero_le _) (Nat.le_add_right _ _)).widen
      (Nat.le_refl _) hsize
  · intro k param hparam
    have hlt := (List.getElem?_eq_some_iff.1 hparam).1
    rw [List.getElem?_append_left (by simpa using hlt), List.getElem?_mapIdx, hparam]
    rfl

end Declared

end FrameMachine
