import FrameMachine.Proofs.Compiler.Separate
import FrameMachine.Proofs.Names.Actions

/-!
# What compiling a function comes to

If every known function gets as many arguments as it takes, compiling a function fails with the
first entry of `FunDecl.failures` (`FunDecl.outcome_eq_error_iff_head?`), and succeeds if there is
none (`FunDecl.exists_outcome_eq_ok`). If some call does not fit, there is only one other way to
fail, which is that the stack does not fit (`FunDecl.outcome_ends`).

The proofs follow the emission of expressions and statements. An expression leaves one value and a
statement none, if the calls fit. The failures of the parts are met in the order in which the
parts are emitted.
-/

set_option autoImplicit false

namespace FrameMachine

/-- Every known function that is called in the first contents of some field gets as many
arguments as it takes. -/
def Context.FieldsFit (ctx : Context) : Prop :=
  ∀ type decl, ctx.type? type = some decl → ∀ field ∈ decl.fields, field.init.countsFit ctx = true

section Outcome

open EmitM

variable {ctx : Context} {fits : Prop} {scopes : List (List String)}

/-! ## Expressions -/

theorem Builtin.climb_code (builtin : Builtin) :
    climb (fun _ => none) builtin.arity builtin.code = some 1 := by
  cases builtin <;> rfl

/-- A call takes the arguments and leaves one value, unless the function is not known. -/
theorem emitCallOf_spec {function : String} {arguments base : Nat} {jumps : List Nat}
    (h : fits → Use.countFits ctx (.function function arguments) = true) :
    Spec fits ((unknownFunction ctx function).map .error)
      (Emitter.Ready fits scopes (base + arguments) jumps)
      (emitCallOf ctx function) fun _ => Emitter.Ready fits scopes (base + 1) jumps := by
  -- the number of parameters is that of the arguments, if the calls fit
  have hready : ∀ parameters, ctx.parameters? function = some parameters → ∀ s,
      Emitter.Ready fits scopes (base + arguments) jumps s →
          Emitter.Ready fits scopes (base + parameters) jumps s := by
    intro parameters hparameters s hs
    refine ⟨hs.scopes, fun hfits => ?_, hs.jumps⟩
    have hcount := h hfits
    rw [Use.countFits, hparameters, Option.all_some, beq_iff_eq] at hcount
    rw [hcount, hs.depth hfits]
  rw [emitCallOf, unknownFunction]
  rw [Context.parameters?] at hready
  cases hbuiltin : Builtin.ofName? function with
  | some builtin =>
    rw [hbuiltin] at hready
    exact (emitAll_spec builtin.climb_code rfl rfl).mono (hready builtin.arity rfl) fun _ _ hs => hs
  | none =>
    rw [hbuiltin] at hready
    cases harity : ctx.arity? function with
    | some arity =>
      exact (append_spec (.call function) arity 1).mono (hready arity harity) fun _ _ hs => hs
    | none => exact .reject _

/-- New objects are emitted up to what is wrong with them, and leave one value. -/
def NewSpec (fits : Prop) (scopes : List (List String)) (new : String → EmitM Unit)
    (failures : String → List CompileFailure) : Prop :=
  ∀ type depth jumps, Spec fits (failures type) (Emitter.Ready fits scopes depth jumps) (new type)
    fun _ => Emitter.Ready fits scopes (depth + 1) jumps

mutual

theorem Expr.emitWith_spec {new : String → EmitM Unit} {failures : String → List CompileFailure}
    (hnew : NewSpec fits scopes new failures) : ∀ (e : Expr) (depth : Nat) (jumps : List Nat),
    (fits → e.countsFit ctx = true) →
      Spec fits (e.failuresWith ctx scopes.flatten failures) (Emitter.Ready fits scopes depth jumps)
        (e.emitWith ctx new) fun _ => Emitter.Ready fits scopes (depth + 1) jumps
  | .literal value, depth, jumps, _ => by
    rw [Expr.emitWith, Expr.failuresWith, Expr.uses]
    exact emit_spec rfl rfl rfl
  | .path base fields, depth, jumps, _ => by
    rw [Expr.emitWith, Expr.failuresWith, Expr.uses, List.flatMap_singleton]
    refine .bind_nil (lookup_spec base) fun _ => ?_
    exact .nil_bind (emit_spec rfl rfl rfl) fun _ =>
      emitAll_spec (climb_map_getField 0 fields) rfl rfl
  | .new type, depth, jumps, _ => by
    rw [Expr.emitWith, Expr.failuresWith, Expr.uses, List.flatMap_singleton]
    exact hnew type depth jumps
  | .call function arguments, depth, jumps, h => by
    simp only [Expr.countsFit, Expr.uses, List.all_append, Bool.and_eq_true, List.all_cons,
      List.all_nil] at h
    rw [Expr.emitWith, Expr.failuresWith, Expr.uses, List.flatMap_append, List.flatMap_singleton]
    refine .bind (emitArguments_spec hnew arguments depth jumps fun hfits => (h hfits).1) fun _ =>
      ?_
    exact emitCallOf_spec fun hfits => (h hfits).2.1
  | .neg operand, depth, jumps, h => by
    simp only [Expr.countsFit, Expr.uses] at h
    rw [Expr.emitWith, Expr.failuresWith, Expr.uses]
    exact .bind_nil (Expr.emitWith_spec hnew operand depth jumps h) fun _ => emit_spec rfl rfl rfl
  | .not operand, depth, jumps, h => by
    simp only [Expr.countsFit, Expr.uses] at h
    rw [Expr.emitWith, Expr.failuresWith, Expr.uses]
    exact .bind_nil (Expr.emitWith_spec hnew operand depth jumps h) fun _ => emit_spec rfl rfl rfl
  | .binary op left right, depth, jumps, h => by
    simp only [Expr.countsFit, Expr.uses, List.all_append, Bool.and_eq_true] at h
    rw [Expr.emitWith, Expr.failuresWith, Expr.uses, List.flatMap_append]
    refine .bind (Expr.emitWith_spec hnew left depth jumps fun hfits => (h hfits).1) fun _ => ?_
    refine .bind_nil (Expr.emitWith_spec hnew right (depth + 1) jumps fun hfits => (h hfits).2)
      fun _ => ?_
    exact emit_spec rfl rfl rfl

theorem emitArguments_spec {new : String → EmitM Unit} {failures : String → List CompileFailure}
    (hnew : NewSpec fits scopes new failures) : ∀ (es : List Expr) (depth : Nat) (jumps : List Nat),
    (fits → (usesAll es).all (Use.countFits ctx) = true) →
      Spec fits ((usesAll es).flatMap (Use.failures ctx scopes.flatten failures))
        (Emitter.Ready fits scopes depth jumps)
        (emitArguments ctx new es) fun _ => Emitter.Ready fits scopes (depth + es.length) jumps
  | [], depth, jumps, _ => by
    rw [emitArguments, usesAll, List.flatMap_nil]
    exact .pure fun _ hs => hs
  | e :: es, depth, jumps, h => by
    simp only [usesAll, List.all_append, Bool.and_eq_true] at h
    rw [emitArguments, usesAll, List.flatMap_append, List.length_cons, Nat.add_comm es.length,
      ← Nat.add_assoc]
    refine .bind (Expr.emitWith_spec hnew e depth jumps fun hfits => (h hfits).1) fun _ => ?_
    exact emitArguments_spec hnew es (depth + 1) jumps fun hfits => (h hfits).2

end

/-- The fields of an object are filled one after the other, and it stays on the stack. -/
theorem emitFields_spec {emitExpr : Expr → EmitM Unit} {failures : Expr → List CompileFailure}
    {fields : List Field}
    (h : ∀ field ∈ fields, ∀ depth jumps,
      Spec fits (failures field.init) (Emitter.Ready fits scopes depth jumps)
      (emitExpr field.init) fun _ => Emitter.Ready fits scopes (depth + 1) jumps)
    (depth : Nat) (jumps : List Nat) :
    Spec fits (fields.flatMap fun field => failures field.init)
      (Emitter.Ready fits scopes (depth + 1) jumps)
      (emitFields emitExpr fields) fun _ => Emitter.Ready fits scopes (depth + 1) jumps := by
  induction fields with
  | nil => exact .pure fun _ hs => hs
  | cons field fields ih =>
    obtain ⟨hfield, hrest⟩ := List.forall_mem_cons.1 h
    rw [emitFields, List.flatMap_cons]
    refine .nil_bind (emit_spec rfl rfl rfl) fun _ => ?_
    refine .bind (hfield (depth + 2) jumps) fun _ => ?_
    exact .nil_bind (emit_spec rfl rfl rfl) fun _ => ih hrest

theorem emitNew_spec (hctx : fits → ctx.FieldsFit) (bound : Nat) :
    NewSpec fits scopes (emitNew ctx bound) (newFailures ctx scopes.flatten bound) := by
  induction bound with
  | zero =>
    intro type depth jumps
    rw [emitNew, newFailures]
    cases ctx.type? type with
    | some decl => exact fun _ _ => Or.inl rfl
    | none => exact .reject _
  | succ bound ih =>
    intro type depth jumps
    rw [emitNew, newFailures]
    cases hdecl : ctx.type? type with
    | some decl =>
      refine .nil_bind (emit_spec rfl rfl rfl) fun _ => emitFields_spec ?_ depth jumps
      intro field hfield depth jumps
      exact Expr.emitWith_spec ih field.init depth jumps fun hfits =>
        hctx hfits type decl hdecl field hfield
    | none => exact .reject _

/-! ## Statements -/

/-- An expression is emitted up to what is wrong with it where it stands. -/
theorem Expr.emit_spec (hctx : fits → ctx.FieldsFit) {e : Expr} (h : fits → e.countsFit ctx = true)
    (scopes : List (List String)) (depth : Nat) (jumps : List Nat) :
    Spec fits (Site.failures ctx ⟨scopes.flatten, e⟩) (Emitter.Ready fits scopes depth jumps)
      (e.emit ctx) fun _ => Emitter.Ready fits scopes (depth + 1) jumps :=
  Expr.emitWith_spec (emitNew_spec hctx ctx.nesting) e depth jumps h

theorem Site.failures_path (visible : List String) (base : String) :
    Site.failures ctx ⟨visible, .path base []⟩ = (unknownVariable visible base).map .error := by
  rw [Site.failures, Expr.failuresWith, Expr.uses, List.flatMap_singleton, Use.failures]

/-- An assignment takes the assigned value, unless the variable is not visible. -/
theorem emitAssignment_spec (base : String) (fields : List String) (depth : Nat)
    (jumps : List Nat) :
    Spec fits (Site.failures ctx ⟨scopes.flatten, .path base []⟩)
      (Emitter.Ready fits scopes (depth + 1) jumps)
      (emitAssignment base fields) fun _ => Emitter.Ready fits scopes depth jumps := by
  rw [emitAssignment, Site.failures_path]
  cases fields.getLast? with
  | none => exact .bind_nil (lookup_spec base) fun _ => EmitM.emit_spec rfl rfl rfl
  | some field =>
    refine .bind_nil (lookup_spec base) fun _ => ?_
    refine .nil_bind (EmitM.emit_spec rfl rfl rfl) fun _ => ?_
    refine .nil_bind (emitAll_spec (climb_map_getField 0 _) rfl rfl) fun _ => ?_
    exact .nil_bind (EmitM.emit_spec rfl rfl rfl) fun _ => EmitM.emit_spec rfl rfl rfl

/-- The step of a `for` loop leaves the stack as it is. -/
theorem climb_forStep (slot test : Nat) (direction : Direction) :
    climb (fun _ => none) 0 [.load slot, .push (.int 1), .binary direction.advance, .store slot,
      .jump test] = some 0 := rfl

/-- A function that does not end in a return statement returns nil. -/
theorem climb_ending : climb (fun _ => none) 0 [.push .nil, .ret] = some 0 := rfl

/-- A condition and its block leave two jumps to be patched. -/
theorem emitCase_spec {condition block : EmitM Unit} {first rest : List CompileFailure}
    {names : List String} {depth : Nat}
    (hcondition : ∀ jumps, Spec fits first (Emitter.Ready fits scopes depth jumps) condition
      fun _ => Emitter.Ready fits scopes (depth + 1) jumps)
    (hblock : ∀ jumps, Spec fits rest (Emitter.Ready fits ([] :: scopes) depth jumps) block
      fun _ => Emitter.Ready fits (names :: scopes) depth jumps)
    (jumps : List Nat) :
    Spec fits (first ++ rest) (Emitter.Ready fits scopes depth jumps) (emitCase condition block)
      fun places => Emitter.Ready fits scopes depth (places.2 :: places.1 :: jumps) := by
  rw [emitCase]
  refine .bind (hcondition jumps) fun _ => ?_
  refine .nil_bind (emitJump_spec rfl rfl rfl) fun skip => ?_
  refine .bind_nil (inScope_spec _ (hblock _)) fun _ => ?_
  refine .nil_bind (emitJump_spec rfl rfl rfl) fun leave => ?_
  refine .pure fun s hs => hs.of_jumps fun place hplace => ?_
  simp only [List.mem_cons] at hplace ⊢
  tauto

theorem Stmt.flatten_declares (s : Stmt) (names : List String) :
    (s.declares names :: scopes).flatten = s.declares (names :: scopes).flatten := by
  cases s <;> rfl

mutual

/-- A statement is emitted up to the first thing that is wrong with its expressions. -/
theorem Stmt.emit_spec (hctx : fits → ctx.FieldsFit) :
    ∀ (s : Stmt) (names : List String) (scopes : List (List String))
    (depth : Nat) (jumps : List Nat),
    (fits → ∀ site ∈ s.sites (names :: scopes).flatten, site.expr.countsFit ctx = true) →
      Spec fits ((s.sites (names :: scopes).flatten).flatMap (Site.failures ctx))
        (Emitter.Ready fits (names :: scopes) depth jumps) (s.emit ctx)
        fun _ => Emitter.Ready fits (s.declares names :: scopes) depth jumps
  | .var name init, names, scopes, depth, jumps, h => by
    simp only [Stmt.sites, List.forall_mem_singleton] at h
    rw [Stmt.emit, Stmt.sites, List.flatMap_singleton]
    refine balanced_spec (.bind_nil (init.emit_spec hctx h _ depth jumps) fun _ => ?_)
    exact .nil_bind (allocate_spec name) fun _ => EmitM.emit_spec rfl rfl rfl
  | .assign base fields value, names, scopes, depth, jumps, h => by
    simp only [Stmt.sites, List.forall_mem_cons] at h
    rw [Stmt.emit, Stmt.sites, List.flatMap_cons, List.flatMap_singleton]
    refine balanced_spec
      (.bind (value.emit_spec hctx (fun hfits => (h hfits).1) _ depth jumps) fun _ => ?_)
    exact emitAssignment_spec base fields depth jumps
  | .branch condition body rest, names, scopes, depth, jumps, h => by
    simp only [Stmt.sites, List.forall_mem_append, List.forall_mem_cons] at h
    rw [Stmt.emit, Stmt.sites, List.flatMap_append, List.flatMap_cons]
    have hcondition := condition.emit_spec hctx (fun hfits => (h hfits).1.1) (names :: scopes) depth
    have hbody := emitStmts_spec hctx body [] (names :: scopes) depth (fun hfits => (h hfits).1.2)
    refine balanced_spec (.bind (emitCase_spec hcondition hbody jumps) fun ⟨leave, skip⟩ => ?_)
    refine .bind_nil (rest.emit_spec hctx skip names scopes depth _ fun hfits => (h hfits).2)
      fun places => ?_
    refine .label fun finish => .nil_bind (EmitM.emit_spec rfl rfl rfl) fun _ => ?_
    -- the jump behind the first block is patched together with those that the alternatives leave
    refine (patchAll_spec finish (leave :: places)).mono
      (fun s hs => hs.of_jumps fun place hplace => ?_) fun _ _ hs => hs
    simp only [List.cons_append, List.mem_cons, List.mem_append] at hplace ⊢
    tauto
  | .whileLoop condition body, names, scopes, depth, jumps, h => by
    simp only [Stmt.sites, List.forall_mem_cons] at h
    rw [Stmt.emit, Stmt.sites, List.flatMap_cons]
    have hbody := emitStmts_spec hctx body [] (names :: scopes) depth fun hfits => (h hfits).2
    refine balanced_spec (.label fun start => ?_)
    refine .bind (condition.emit_spec hctx (fun hfits => (h hfits).1) _ depth jumps) fun _ => ?_
    refine .nil_bind (emitJump_spec rfl rfl rfl) fun leave => ?_
    refine .bind_nil (inScope_spec _ (hbody _)) fun _ => ?_
    exact .nil_bind (EmitM.emit_spec rfl rfl rfl) fun _ => patchHere_spec leave
  | .forLoop counter first direction last body, names, scopes, depth, jumps, h => by
    simp only [Stmt.sites, List.forall_mem_cons] at h
    rw [Stmt.emit, Stmt.sites, List.flatMap_cons, List.flatMap_cons]
    -- the counter has a scope of its own around that of the body, and the first value
    -- does not see it
    have hbody :=
      emitStmts_spec hctx body [] ([counter] :: names :: scopes) depth fun hfits => (h hfits).2.2
    refine balanced_spec (inScope_spec [counter] ?_)
    refine .bind (first.emit_spec hctx (fun hfits => (h hfits).1)
      ([] :: names :: scopes) depth jumps) fun _ => ?_
    refine .nil_bind (allocate_spec counter) fun slot => ?_
    refine .nil_bind (EmitM.emit_spec rfl rfl rfl) fun _ => .label fun test => ?_
    refine .nil_bind (EmitM.emit_spec rfl rfl rfl) fun _ => ?_
    refine .bind (last.emit_spec hctx (fun hfits => (h hfits).2.1)
      ([counter] :: names :: scopes) _ jumps) fun _ => ?_
    refine .nil_bind (EmitM.emit_spec rfl rfl rfl) fun _ => ?_
    refine .nil_bind (emitJump_spec rfl rfl rfl) fun leave => ?_
    refine .bind_nil (inScope_spec _ (hbody _)) fun _ => ?_
    exact .nil_bind (emitAll_spec (climb_forStep slot test direction) rfl rfl) fun _ =>
      patchHere_spec leave
  | .ret none, names, scopes, depth, jumps, h => by
    rw [Stmt.emit, Stmt.sites, List.flatMap_nil]
    exact balanced_spec (.nil_bind (EmitM.emit_spec rfl rfl rfl) fun _ =>
      EmitM.emit_spec rfl rfl rfl)
  | .ret (some value), names, scopes, depth, jumps, h => by
    simp only [Stmt.sites, List.forall_mem_singleton] at h
    rw [Stmt.emit, Stmt.sites, List.flatMap_singleton]
    exact balanced_spec (.bind_nil (value.emit_spec hctx h _ depth jumps) fun _ =>
      EmitM.emit_spec rfl rfl rfl)
  | .delete name, names, scopes, depth, jumps, h => by
    rw [Stmt.emit, Stmt.sites, List.flatMap_singleton, Site.failures_path]
    refine balanced_spec (.bind_nil (lookup_spec name) fun _ => ?_)
    exact .nil_bind (EmitM.emit_spec rfl rfl rfl) fun _ => EmitM.emit_spec rfl rfl rfl
  | .call function arguments, names, scopes, depth, jumps, h => by
    simp only [Stmt.sites, List.forall_mem_singleton] at h
    rw [Stmt.emit, Stmt.sites, List.flatMap_singleton]
    exact balanced_spec (.bind_nil (Expr.emit_spec hctx h _ depth jumps) fun _ =>
      EmitM.emit_spec rfl rfl rfl)

theorem emitStmts_spec (hctx : fits → ctx.FieldsFit) : ∀ (ss : List Stmt) (names : List String)
    (scopes : List (List String)) (depth : Nat),
    (fits → ∀ site ∈ sitesOf (names :: scopes).flatten ss, site.expr.countsFit ctx = true) →
      ∀ jumps, Spec fits ((sitesOf (names :: scopes).flatten ss).flatMap (Site.failures ctx))
        (Emitter.Ready fits (names :: scopes) depth jumps) (emitStmts ctx ss)
        fun _ => Emitter.Ready fits (ss.foldl Stmt.declares names :: scopes) depth jumps
  | [], names, scopes, depth, _, jumps => by
    rw [emitStmts, sitesOf, List.flatMap_nil]
    exact .pure fun _ hs => hs
  | s :: ss, names, scopes, depth, h, jumps => by
    simp only [sitesOf, List.forall_mem_append] at h
    rw [emitStmts, sitesOf, List.flatMap_append, ← s.flatten_declares]
    rw [← s.flatten_declares] at h
    refine .bind (s.emit_spec hctx names scopes depth jumps fun hfits => (h hfits).1) fun _ => ?_
    exact emitStmts_spec hctx ss (s.declares names) scopes depth (fun hfits => (h hfits).2) jumps

/-- The alternatives are emitted up to the first thing that is wrong with them. The jumps that they
leave and the one that leads to them have been jumps all along. -/
theorem Alternatives.emit_spec (hctx : fits → ctx.FieldsFit) :
    ∀ (alts : Alternatives) (skip : Nat) (names : List String)
    (scopes : List (List String)) (depth : Nat) (jumps : List Nat),
    (fits → ∀ site ∈ alts.sites (names :: scopes).flatten, site.expr.countsFit ctx = true) →
      Spec fits ((alts.sites (names :: scopes).flatten).flatMap (Site.failures ctx))
        (Emitter.Ready fits (names :: scopes) depth (skip :: jumps)) (alts.emit ctx skip)
        fun places => Emitter.Ready fits (names :: scopes) depth (places ++ jumps)
  | .none, skip, names, scopes, depth, jumps, _ => by
    rw [Alternatives.emit, Alternatives.sites, List.flatMap_nil]
    exact .pure fun _ hs => hs
  | .otherwise body, skip, names, scopes, depth, jumps, h => by
    simp only [Alternatives.sites] at h
    rw [Alternatives.emit, Alternatives.sites]
    have hbody := emitStmts_spec hctx body [] (names :: scopes) depth h
    refine .nil_bind (patchHere_spec skip) fun _ => ?_
    exact .bind_nil (inScope_spec _ (hbody _)) fun _ => .pure fun _ hs => hs
  | .elif condition body rest, skip, names, scopes, depth, jumps, h => by
    simp only [Alternatives.sites, List.forall_mem_append, List.forall_mem_cons] at h
    rw [Alternatives.emit, Alternatives.sites, List.flatMap_append, List.flatMap_cons]
    have hcondition := condition.emit_spec hctx (fun hfits => (h hfits).1.1) (names :: scopes) depth
    have hbody := emitStmts_spec hctx body [] (names :: scopes) depth (fun hfits => (h hfits).1.2)
    refine .nil_bind (patchHere_spec skip) fun _ => ?_
    refine .bind (emitCase_spec hcondition hbody jumps) fun ⟨leave, next⟩ => ?_
    refine .bind_nil (rest.emit_spec hctx next names scopes depth _ fun hfits => (h hfits).2)
      fun places => ?_
    refine .pure fun s hs => hs.of_jumps fun place hplace => ?_
    simp only [List.cons_append, List.mem_cons, List.mem_append] at hplace ⊢
    tauto

end

/-! ## Functions -/

/-- The arguments are moved from the stack to the parameters, which are declared one
after the other. -/
theorem emitParams_spec (params : List Param) (names : List String) (depth : Nat)
    (jumps : List Nat) :
    Spec fits [] (Emitter.Ready fits (names :: scopes) (depth + params.length) jumps)
      (emitParams params)
      fun _ => Emitter.Ready fits ((params.map Param.name ++ names) :: scopes) depth jumps := by
  induction params generalizing names with
  | nil => exact .pure fun _ hs => hs
  | cons param params ih =>
    rw [emitParams]
    refine .nil_bind (allocate_spec param.name) fun _ =>
      .nil_bind (EmitM.emit_spec rfl rfl rfl) fun _ => ?_
    -- the last parameter is the first name of the scope, but only the set of names counts
    refine (ih (param.name :: names)).mono (fun _ hs => hs) fun _ s hs => hs.of_names fun name => ?_
    simp only [List.map_cons, List.cons_append, List.mem_append, List.mem_cons]
    tauto

variable {f : FunDecl}

theorem FunDecl.emitBody_spec (hctx : fits → ctx.FieldsFit)
    (h : fits → ∀ site ∈ f.sites, site.expr.countsFit ctx = true) (jumps : List Nat) :
    Spec fits (f.failures ctx) (Emitter.Ready fits [f.params.map Param.name] 0 jumps)
      (f.emitBody ctx)
      fun _ => Emitter.Ready fits [f.body.foldl Stmt.declares (f.params.map Param.name)] 0
        jumps := by
  have hvisible : [f.params.map Param.name].flatten = f.params.map Param.name := by simp
  have hbody := emitStmts_spec hctx f.body (f.params.map Param.name) [] 0
  rw [hvisible] at hbody
  refine .bind_nil (hbody h jumps) fun _ => ?_
  by_cases hreturn : f.endsInReturn
  · rw [if_pos hreturn]
    exact .pure fun _ hs => hs
  · rw [if_neg hreturn]
    exact emitAll_spec climb_ending rfl rfl

/-- A function is compiled up to the first thing that is wrong with it. -/
theorem FunDecl.compile_spec (hctx : fits → ctx.FieldsFit)
    (h : fits → ∀ site ∈ f.sites, site.expr.countsFit ctx = true) :
    Spec fits (f.failures ctx) (fun _ => True) (f.compile ctx) fun _ _ => True := by
  have hstart : Spec fits [] (fun _ => True) (modify (Emitter.restart f.arity) : EmitM Unit)
      fun _ => Emitter.Ready fits [] f.arity [] := fun s _ => ⟨rfl, .nil, fun _ => rfl, by simp⟩
  have hparams : Spec fits [] (Emitter.Ready fits [[]] (0 + f.arity) []) (emitParams f.params)
      fun _ => Emitter.Ready fits [f.params.map Param.name ++ []] 0 [] :=
        emitParams_spec f.params [] 0 []
  rw [List.append_nil, Nat.zero_add] at hparams
  rw [FunDecl.compile]
  refine .nil_bind hstart fun _ => .nil_bind openScope_spec fun _ => .nil_bind hparams fun _ => ?_
  refine .bind_nil (f.emitBody_spec hctx h []) fun _ => .nil_bind closeScope_spec fun _ => ?_
  exact .get fun _ _ => ⟨rfl, trivial⟩

/-- Compiling a function succeeds only if nothing is wrong with it, and otherwise comes to the first
failure. If calls do not fit, the stack may be the reason. -/
theorem FunDecl.outcome_ends (hctx : fits → ctx.FieldsFit)
    (h : fits → ∀ site ∈ f.sites, site.expr.countsFit ctx = true) (s : Emitter) :
    match f.outcome ctx s with
    | .ok _ => f.failures ctx = []
    | .error e => (f.failures ctx).head? = some e ∨ ¬ fits ∧ e.OfStack := by
  have hends := f.compile_spec hctx h s trivial
  rw [FunDecl.outcome]
  cases hr : f.compile ctx s with
  | ok c t =>
    rw [hr] at hends
    exact hends.1
  | error e t =>
    rw [hr] at hends
    exact hends

section Fitting

variable (hctx : ctx.FieldsFit) (hf : ∀ site ∈ f.sites, site.expr.countsFit ctx = true)
  (s : Emitter)

include hctx hf

theorem FunDecl.outcome_eq_error_iff_head? {e : CompileFailure} :
    f.outcome ctx s = .error e ↔ (f.failures ctx).head? = some e := by
  have hends := f.outcome_ends (fun _ : True => hctx) (fun _ => hf) s
  cases hr : f.outcome ctx s with
  | ok c =>
    rw [hr] at hends
    simp [hends]
  | error e' =>
    rw [hr] at hends
    rcases hends with hhead | ⟨hfits, -⟩
    · simp [hhead]
    · exact absurd trivial hfits

theorem FunDecl.exists_outcome_eq_ok : (∃ c, f.outcome ctx s = .ok c) ↔ f.failures ctx = [] := by
  rw [← List.head?_eq_none_iff]
  constructor
  · rintro ⟨c, hc⟩
    refine Option.eq_none_iff_forall_ne_some.2 fun e he => ?_
    rw [← FunDecl.outcome_eq_error_iff_head? hctx hf s, hc] at he
    cases he
  · intro hnone
    cases hr : f.outcome ctx s with
    | ok c => exact ⟨c, rfl⟩
    | error e =>
      rw [FunDecl.outcome_eq_error_iff_head? hctx hf s, hnone] at hr
      cases hr

end Fitting

end Outcome

end FrameMachine
