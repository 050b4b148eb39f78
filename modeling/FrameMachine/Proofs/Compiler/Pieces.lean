import FrameMachine.Compiler.Layout

/-!
# The pieces of code

What the code of an expression or a statement is put together from, one lemma for each kind of tree.
A tree has code exactly if its parts have.
-/

set_option autoImplicit false

namespace FrameMachine

variable {ctx : Context} {start : Nat} {σ τ : Slots} {code : List Instr}

/-! ## Expressions -/

section Expressions

variable {new : String → Option (List Instr)}

theorem Expr.codeWith_literal {value : Literal} :
    (Expr.literal value).codeWith ctx σ new = some code ↔ code = [.push value] := by
  rw [Expr.codeWith, Option.some.injEq, eq_comm]

theorem Expr.codeWith_path {base : String} {fields : List String} :
    (Expr.path base fields).codeWith ctx σ new = some code ↔
      ∃ slot, σ.slot? base = some slot ∧ code = .load slot :: fields.map .getField := by
  rw [Expr.codeWith]
  simp only [Option.bind_eq_bind, Option.bind_eq_some_iff, Option.some.injEq, @eq_comm _ _ code]

theorem Expr.codeWith_new {type : String} :
    (Expr.new type).codeWith ctx σ new = some code ↔ new type = some code := by
  rw [Expr.codeWith]

theorem Expr.codeWith_call {function : String} {arguments : List Expr} :
    (Expr.call function arguments).codeWith ctx σ new = some code ↔
      ∃ before, argumentsCode ctx σ new arguments = some before ∧
        ∃ call, callCode ctx function = some call ∧ code = before ++ call := by
  rw [Expr.codeWith]
  simp only [Option.bind_eq_bind, Option.bind_eq_some_iff, Option.some.injEq, @eq_comm _ _ code]

theorem Expr.codeWith_neg {operand : Expr} :
    (Expr.neg operand).codeWith ctx σ new = some code ↔
      ∃ before, operand.codeWith ctx σ new = some before ∧ code = before ++ [.unary .neg] := by
  rw [Expr.codeWith]
  simp only [Option.bind_eq_bind, Option.bind_eq_some_iff, Option.some.injEq, @eq_comm _ _ code]

theorem Expr.codeWith_not {operand : Expr} :
    (Expr.not operand).codeWith ctx σ new = some code ↔
      ∃ before, operand.codeWith ctx σ new = some before ∧ code = before ++ [.unary .not] := by
  rw [Expr.codeWith]
  simp only [Option.bind_eq_bind, Option.bind_eq_some_iff, Option.some.injEq, @eq_comm _ _ code]

theorem Expr.codeWith_binary {op : BinaryOp} {left right : Expr} :
    (Expr.binary op left right).codeWith ctx σ new = some code ↔
      ∃ leftCode, left.codeWith ctx σ new = some leftCode ∧
        ∃ rightCode, right.codeWith ctx σ new = some rightCode ∧
          code = leftCode ++ rightCode ++ [.binary op] := by
  rw [Expr.codeWith]
  simp only [Option.bind_eq_bind, Option.bind_eq_some_iff, Option.some.injEq, @eq_comm _ _ code]

theorem argumentsCode_nil : argumentsCode ctx σ new [] = some code ↔ code = [] := by
  rw [argumentsCode, Option.some.injEq, eq_comm]

theorem argumentsCode_cons {e : Expr} {es : List Expr} :
    argumentsCode ctx σ new (e :: es) = some code ↔
      ∃ first, e.codeWith ctx σ new = some first ∧
        ∃ rest, argumentsCode ctx σ new es = some rest ∧ code = first ++ rest := by
  rw [argumentsCode]
  simp only [Option.bind_eq_bind, Option.bind_eq_some_iff, Option.some.injEq, @eq_comm _ _ code]

theorem argumentsCode_append {before after : List Expr} {code : List Instr} :
    argumentsCode ctx σ new (before ++ after) = some code ↔
      ∃ first, argumentsCode ctx σ new before = some first ∧
        ∃ rest, argumentsCode ctx σ new after = some rest ∧ code = first ++ rest := by
  induction before generalizing code with
  | nil => simp [argumentsCode]
  | cons e before ih =>
    rw [List.cons_append, argumentsCode_cons]
    constructor
    · rintro ⟨one, hone, _, hothers, rfl⟩
      obtain ⟨first, hfirst, rest, hrest, rfl⟩ := ih.1 hothers
      exact ⟨one ++ first, argumentsCode_cons.2 ⟨one, hone, first, hfirst, rfl⟩, rest,
        hrest, by simp⟩
    · rintro ⟨_, hboth, rest, hrest, rfl⟩
      obtain ⟨one, hone, first, hfirst, rfl⟩ := argumentsCode_cons.1 hboth
      exact ⟨one, hone, first ++ rest, ih.2 ⟨first, hfirst, rest, hrest, rfl⟩, by simp⟩

end Expressions

theorem fieldsCode_nil {expression : Expr → Option (List Instr)} :
    fieldsCode expression [] = some code ↔ code = [] := by
  rw [fieldsCode, Option.some.injEq, eq_comm]

theorem fieldsCode_cons {expression : Expr → Option (List Instr)} {field : Field}
    {fields : List Field} :
    fieldsCode expression (field :: fields) = some code ↔
      ∃ init, expression field.init = some init ∧
        ∃ rest, fieldsCode expression fields = some rest ∧
          code = .dup :: init ++ .setField field.name :: rest := by
  rw [fieldsCode]
  simp only [Option.bind_eq_bind, Option.bind_eq_some_iff, Option.some.injEq, @eq_comm _ _ code]

theorem fieldsCode_append {expression : Expr → Option (List Instr)} {before after : List Field}
    {code : List Instr} :
    fieldsCode expression (before ++ after) = some code ↔
      ∃ first, fieldsCode expression before = some first ∧
        ∃ rest, fieldsCode expression after = some rest ∧ code = first ++ rest := by
  induction before generalizing code with
  | nil => simp [fieldsCode]
  | cons field before ih =>
    rw [List.cons_append, fieldsCode_cons]
    constructor
    · rintro ⟨one, hone, _, hothers, rfl⟩
      obtain ⟨first, hfirst, rest, hrest, rfl⟩ := ih.1 hothers
      exact ⟨_, fieldsCode_cons.2 ⟨one, hone, first, hfirst, rfl⟩, rest, hrest, by simp⟩
    · rintro ⟨_, hboth, rest, hrest, rfl⟩
      obtain ⟨one, hone, first, hfirst, rfl⟩ := fieldsCode_cons.1 hboth
      exact ⟨one, hone, first ++ rest, ih.2 ⟨first, hfirst, rest, hrest, rfl⟩, by simp⟩

theorem newCode_zero {type : String} : newCode ctx σ 0 type ≠ some code := by
  rw [newCode]
  simp

theorem newCode_succ {depth : Nat} {type : String} :
    newCode ctx σ (depth + 1) type = some code ↔
      ∃ decl, ctx.type? type = some decl ∧
        ∃ fill, fieldsCode (Expr.codeWith ctx σ (newCode ctx σ depth)) decl.fields = some fill ∧
          code = .alloc (decl.fields.map Field.name) :: fill := by
  rw [newCode]
  simp only [Option.bind_eq_bind, Option.bind_eq_some_iff, Option.some.injEq, @eq_comm _ _ code]

/-- The instruction goes on behind itself and changes no slot, and if it loads a slot, this is the
slot of a variable in scope. -/
def Instr.IsPlain (σ : Slots) : Instr → Prop
  | .store _ | .jump _ | .jumpUnless _ | .ret => False
  | .load slot => ∃ name, σ.slot? name = some slot
  | _ => True

theorem Instr.IsPlain.target? {i : Instr} (h : i.IsPlain σ) : i.target? = none := by
  cases i with
  | jump | jumpUnless => cases h
  | _ => rfl

/-- All instructions of the code are plain. -/
def Plain (σ : Slots) (code : List Instr) : Prop := ∀ i ∈ code, i.IsPlain σ

theorem plain_nil : Plain σ [] := by simp [Plain]

theorem plain_cons {i : Instr} : Plain σ (i :: code) ↔ i.IsPlain σ ∧ Plain σ code := by simp [Plain]

theorem plain_append {a b : List Instr} : Plain σ (a ++ b) ↔ Plain σ a ∧ Plain σ b := by
  simp only [Plain, List.mem_append, or_imp, forall_and]

theorem plain_map_getField (fields : List String) : Plain σ (fields.map .getField) := by
  induction fields with
  | nil => exact plain_nil
  | cons field fields ih => exact plain_cons.2 ⟨trivial, ih⟩

theorem plain_callCode {function : String} (h : callCode ctx function = some code) :
    Plain σ code := by
  rw [callCode] at h
  cases hb : Builtin.ofName? function with
  | some builtin =>
    rw [hb] at h
    cases h
    cases builtin <;> simp [Builtin.code, plain_cons, plain_nil, Instr.IsPlain]
  | none =>
    rw [hb] at h
    obtain ⟨arity, -, rfl⟩ := Option.map_eq_some_iff.1 h
    exact plain_cons.2 ⟨trivial, plain_nil⟩

mutual

theorem Expr.plain_codeWith {new : String → Option (List Instr)}
    (hnew : ∀ type c, new type = some c → Plain σ c) :
    ∀ (e : Expr) {code : List Instr}, e.codeWith ctx σ new = some code → Plain σ code
  | .literal value, code, h => by
    obtain rfl := Expr.codeWith_literal.1 h
    exact plain_cons.2 ⟨trivial, plain_nil⟩
  | .path base fields, code, h => by
    obtain ⟨slot, hslot, rfl⟩ := Expr.codeWith_path.1 h
    exact plain_cons.2 ⟨⟨base, hslot⟩, plain_map_getField fields⟩
  | .new type, code, h => hnew type code (Expr.codeWith_new.1 h)
  | .call function arguments, code, h => by
    obtain ⟨before, hbefore, call, hcall, rfl⟩ := Expr.codeWith_call.1 h
    exact plain_append.2 ⟨plain_argumentsCode hnew arguments hbefore, plain_callCode hcall⟩
  | .neg operand, code, h => by
    obtain ⟨before, hbefore, rfl⟩ := Expr.codeWith_neg.1 h
    exact plain_append.2 ⟨Expr.plain_codeWith hnew operand hbefore,
      plain_cons.2 ⟨trivial, plain_nil⟩⟩
  | .not operand, code, h => by
    obtain ⟨before, hbefore, rfl⟩ := Expr.codeWith_not.1 h
    exact plain_append.2 ⟨Expr.plain_codeWith hnew operand hbefore,
      plain_cons.2 ⟨trivial, plain_nil⟩⟩
  | .binary op left right, code, h => by
    obtain ⟨leftCode, hleft, rightCode, hright, rfl⟩ := Expr.codeWith_binary.1 h
    have hboth :=
      plain_append.2 ⟨Expr.plain_codeWith hnew left hleft, Expr.plain_codeWith hnew right hright⟩
    exact plain_append.2 ⟨hboth, plain_cons.2 ⟨trivial, plain_nil⟩⟩

theorem plain_argumentsCode {new : String → Option (List Instr)}
    (hnew : ∀ type c, new type = some c → Plain σ c) :
    ∀ (es : List Expr) {code : List Instr}, argumentsCode ctx σ new es = some code → Plain σ code
  | [], code, h => by
    obtain rfl := argumentsCode_nil.1 h
    exact plain_nil
  | e :: es, code, h => by
    obtain ⟨first, hfirst, rest, hrest, rfl⟩ := argumentsCode_cons.1 h
    exact plain_append.2 ⟨Expr.plain_codeWith hnew e hfirst, plain_argumentsCode hnew es hrest⟩

end

theorem plain_fieldsCode {expression : Expr → Option (List Instr)}
    (hexpr : ∀ e c, expression e = some c → Plain σ c) (fields : List Field)
    (h : fieldsCode expression fields = some code) : Plain σ code := by
  induction fields generalizing code with
  | nil =>
    obtain rfl := fieldsCode_nil.1 h
    exact plain_nil
  | cons field fields ih =>
    obtain ⟨init, hinit, rest, hrest, rfl⟩ := fieldsCode_cons.1 h
    have hinit' : Plain σ (.dup :: init) := plain_cons.2 ⟨trivial, hexpr field.init init hinit⟩
    exact plain_append.2 ⟨hinit', plain_cons.2 ⟨trivial, ih hrest⟩⟩

theorem plain_newCode : ∀ (depth : Nat) (type : String) (c : List Instr),
    newCode ctx σ depth type = some c → Plain σ c
  | 0, _, _, h => absurd h newCode_zero
  | depth + 1, type, c, h => by
    obtain ⟨decl, -, fill, hfill, rfl⟩ := newCode_succ.1 h
    have hfields :=
      plain_fieldsCode (fun e c => Expr.plain_codeWith (plain_newCode depth) e) decl.fields hfill
    exact plain_cons.2 ⟨trivial, hfields⟩

/-- The code of an expression goes straight on, changes no slot and loads variables in scope. -/
theorem Expr.plain_code {e : Expr} (h : e.code ctx σ = some code) : Plain σ code :=
  Expr.plain_codeWith (plain_newCode ctx.nesting) e h

/-! ## Statements -/

theorem assignmentCode_eq_some {base : String} {fields : List String} :
    assignmentCode σ base fields = some code ↔
      ∃ slot, σ.slot? base = some slot ∧
        ((fields = [] ∧ code = [.store slot]) ∨
          ∃ field, fields.getLast? = some field ∧
            code = .load slot :: fields.dropLast.map .getField ++ [.swap, .setField field]) := by
  rw [assignmentCode]
  cases hl : fields.getLast? with
  | none =>
    have hf : fields = [] := List.getLast?_eq_none_iff.1 hl
    simp [Option.bind_eq_some_iff, hf, @eq_comm _ _ code]
  | some field =>
    have hf : fields ≠ [] := by
      rintro rfl
      cases hl
    simp [Option.bind_eq_some_iff, hf, @eq_comm _ _ code]

theorem Stmt.code_var {name : String} {init : Expr} :
    (Stmt.var name init).code ctx start σ = some (code, τ) ↔
      ∃ value, init.code ctx σ = some value ∧ code = value ++ [.store σ.used] ∧
        τ = σ.declare name := by
  rw [Stmt.code]
  simp only [Option.bind_eq_bind, Option.bind_eq_some_iff, Option.some.injEq, Prod.mk.injEq,
    @eq_comm _ _ code, @eq_comm _ _ τ]

theorem Stmt.code_assign {base : String} {fields : List String} {value : Expr} :
    (Stmt.assign base fields value).code ctx start σ = some (code, τ) ↔
      ∃ before, value.code ctx σ = some before ∧
        ∃ assignment, assignmentCode σ base fields = some assignment ∧ code = before ++ assignment ∧
          τ = σ := by
  rw [Stmt.code]
  simp only [Option.bind_eq_bind, Option.bind_eq_some_iff, Option.some.injEq, Prod.mk.injEq,
    @eq_comm _ _ code, @eq_comm _ _ τ]

theorem Stmt.code_branch {condition : Expr} {body : List Stmt} {rest : Alternatives} :
    (Stmt.branch condition body rest).code ctx start σ = some (code, τ) ↔
      ∃ test, condition.code ctx σ = some test ∧
        ∃ block inner, stmtsCode ctx (start + test.length + 1) σ body = some (block, inner) ∧
          ∃ others inner', rest.code ctx (start + test.length + block.length + 2) (σ.leave inner) =
              some (others, inner') ∧
            code = caseCode start test block others ++ [.nop] ∧ τ = σ.leave inner' := by
  rw [Stmt.code]
  simp only [Option.bind_eq_bind, Option.bind_eq_some_iff, Prod.exists, Option.some.injEq,
    Prod.mk.injEq, @eq_comm _ _ code, @eq_comm _ _ τ]

theorem Stmt.code_whileLoop {condition : Expr} {body : List Stmt} :
    (Stmt.whileLoop condition body).code ctx start σ = some (code, τ) ↔
      ∃ test, condition.code ctx σ = some test ∧
        ∃ block inner, stmtsCode ctx (start + test.length + 1) σ body = some (block, inner) ∧
          code = whileCode start test block ∧ τ = σ.leave inner := by
  rw [Stmt.code]
  simp only [Option.bind_eq_bind, Option.bind_eq_some_iff, Prod.exists, Option.some.injEq,
    Prod.mk.injEq, @eq_comm _ _ code, @eq_comm _ _ τ]

theorem Stmt.code_forLoop {counter : String} {first last : Expr} {direction : Direction}
    {body : List Stmt} :
    (Stmt.forLoop counter first direction last body).code ctx start σ = some (code, τ) ↔
      ∃ begin, first.code ctx σ = some begin ∧
        ∃ limit, last.code ctx (σ.declare counter) = some limit ∧
          ∃ block inner, stmtsCode ctx (forBody start begin limit) (σ.declare counter) body =
            some (block, inner) ∧
            code = forCode start σ.used direction begin limit block ∧ τ = σ.leave inner := by
  rw [Stmt.code]
  simp only [Option.bind_eq_bind, Option.bind_eq_some_iff, Prod.exists, Option.some.injEq,
    Prod.mk.injEq, @eq_comm _ _ code, @eq_comm _ _ τ]

theorem Stmt.code_ret_none :
    (Stmt.ret none).code ctx start σ = some (code, τ) ↔ code = [.push .nil, .ret] ∧ τ = σ := by
  rw [Stmt.code]
  simp only [Option.some.injEq, Prod.mk.injEq, @eq_comm _ _ code, @eq_comm _ _ τ]

theorem Stmt.code_ret_some {value : Expr} :
    (Stmt.ret (some value)).code ctx start σ = some (code, τ) ↔
      ∃ before, value.code ctx σ = some before ∧ code = before ++ [.ret] ∧ τ = σ := by
  rw [Stmt.code]
  simp only [Option.bind_eq_bind, Option.bind_eq_some_iff, Option.some.injEq, Prod.mk.injEq,
    @eq_comm _ _ code, @eq_comm _ _ τ]

theorem Stmt.code_delete {name : String} :
    (Stmt.delete name).code ctx start σ = some (code, τ) ↔
      ∃ slot, σ.slot? name = some slot ∧ code = [.load slot, .free] ∧ τ = σ := by
  rw [Stmt.code]
  simp only [Option.bind_eq_bind, Option.bind_eq_some_iff, Option.some.injEq, Prod.mk.injEq,
    @eq_comm _ _ code, @eq_comm _ _ τ]

theorem Stmt.code_call {function : String} {arguments : List Expr} :
    (Stmt.call function arguments).code ctx start σ = some (code, τ) ↔
      ∃ before, Expr.code ctx σ (.call function arguments) = some before ∧ code = before ++ [.pop] ∧
        τ = σ := by
  rw [Stmt.code]
  simp only [Option.bind_eq_bind, Option.bind_eq_some_iff, Option.some.injEq, Prod.mk.injEq,
    @eq_comm _ _ code, @eq_comm _ _ τ]

theorem stmtsCode_nil : stmtsCode ctx start σ [] = some (code, τ) ↔ code = [] ∧ τ = σ := by
  rw [stmtsCode]
  simp only [Option.some.injEq, Prod.mk.injEq, @eq_comm _ _ code, @eq_comm _ _ τ]

theorem stmtsCode_cons {s : Stmt} {ss : List Stmt} :
    stmtsCode ctx start σ (s :: ss) = some (code, τ) ↔
      ∃ first middle, s.code ctx start σ = some (first, middle) ∧
        ∃ rest, stmtsCode ctx (start + first.length) middle ss = some (rest, τ) ∧
          code = first ++ rest := by
  rw [stmtsCode]
  simp only [Option.bind_eq_bind, Option.bind_eq_some_iff, Prod.exists, Option.some.injEq,
    Prod.mk.injEq]
  constructor
  · rintro ⟨first, middle, hs, rest, _, hss, rfl, rfl⟩
    exact ⟨first, middle, hs, rest, hss, rfl⟩
  · rintro ⟨first, middle, hs, rest, hss, rfl⟩
    exact ⟨first, middle, hs, rest, τ, hss, rfl, rfl⟩

theorem stmtsCode_append {before after : List Stmt} :
    stmtsCode ctx start σ (before ++ after) = some (code, τ) ↔
      ∃ first middle, stmtsCode ctx start σ before = some (first, middle) ∧
        ∃ rest, stmtsCode ctx (start + first.length) middle after = some (rest, τ) ∧
          code = first ++ rest := by
  induction before generalizing start σ code with
  | nil =>
    constructor
    · intro h
      exact ⟨[], σ, stmtsCode_nil.2 ⟨rfl, rfl⟩, code, h, rfl⟩
    · rintro ⟨_, _, hnil, rest, hrest, rfl⟩
      obtain ⟨rfl, rfl⟩ := stmtsCode_nil.1 hnil
      exact hrest
  | cons s before ih =>
    rw [List.cons_append, stmtsCode_cons]
    constructor
    · rintro ⟨one, inner, hone, _, hothers, rfl⟩
      obtain ⟨first, middle, hfirst, rest, hrest, rfl⟩ := ih.1 hothers
      refine ⟨one ++ first, middle, stmtsCode_cons.2 ⟨one, inner, hone, first, hfirst, rfl⟩, rest,
        ?_, by simp⟩
      rwa [List.length_append, ← Nat.add_assoc]
    · rintro ⟨_, middle, hboth, rest, hrest, rfl⟩
      obtain ⟨one, inner, hone, first, hfirst, rfl⟩ := stmtsCode_cons.1 hboth
      rw [List.length_append, ← Nat.add_assoc] at hrest
      exact ⟨one, inner, hone, first ++ rest,
        ih.2 ⟨first, middle, hfirst, rest, hrest, rfl⟩, by simp⟩

theorem Alternatives.code_none :
    Alternatives.none.code ctx start σ = some (code, τ) ↔ code = [] ∧ τ = σ := by
  rw [Alternatives.code]
  simp only [Option.some.injEq, Prod.mk.injEq, @eq_comm _ _ code, @eq_comm _ _ τ]

theorem Alternatives.code_otherwise {body : List Stmt} :
    (Alternatives.otherwise body).code ctx start σ = some (code, τ) ↔
      ∃ inner, stmtsCode ctx start σ body = some (code, inner) ∧ τ = σ.leave inner := by
  rw [Alternatives.code]
  simp only [Option.bind_eq_bind, Option.bind_eq_some_iff, Prod.exists, Option.some.injEq,
    Prod.mk.injEq]
  constructor
  · rintro ⟨_, inner, h, rfl, rfl⟩
    exact ⟨inner, h, rfl⟩
  · rintro ⟨inner, h, rfl⟩
    exact ⟨code, inner, h, rfl, rfl⟩

theorem Alternatives.code_elif {condition : Expr} {body : List Stmt} {rest : Alternatives} :
    (Alternatives.elif condition body rest).code ctx start σ = some (code, τ) ↔
      ∃ test, condition.code ctx σ = some test ∧
        ∃ block inner, stmtsCode ctx (start + test.length + 1) σ body = some (block, inner) ∧
          ∃ others inner', rest.code ctx (start + test.length + block.length + 2) (σ.leave inner) =
              some (others, inner') ∧
            code = caseCode start test block others ∧ τ = σ.leave inner' := by
  rw [Alternatives.code]
  simp only [Option.bind_eq_bind, Option.bind_eq_some_iff, Prod.exists, Option.some.injEq,
    Prod.mk.injEq, @eq_comm _ _ code, @eq_comm _ _ τ]

/-- The statement has no statements inside. -/
def Stmt.isSimple : Stmt → Bool
  | .branch _ _ _ | .whileLoop _ _ | .forLoop _ _ _ _ _ => false
  | _ => true

/-- The instruction is no jump, and if it loads a slot, this is the slot of a variable in scope. -/
def Instr.IsStraight (σ : Slots) : Instr → Prop
  | .jump _ | .jumpUnless _ => False
  | .load slot => ∃ name, σ.slot? name = some slot
  | _ => True

theorem Instr.IsStraight.target? {i : Instr} (h : i.IsStraight σ) : i.target? = none := by
  cases i with
  | jump | jumpUnless => cases h
  | _ => rfl

theorem Instr.IsPlain.isStraight {i : Instr} (h : i.IsPlain σ) : i.IsStraight σ := by
  cases i with
  | jump | jumpUnless => cases h
  | load slot => exact h
  | _ => trivial

/-- The code of a statement without statements inside has no jumps and loads variables in scope. -/
theorem Stmt.isStraight_of_isSimple {s : Stmt} (h : s.code ctx start σ = some (code, τ))
    (hs : s.isSimple = true) :
    ∀ i ∈ code, i.IsStraight σ := by
  have hafter {e : Expr} {before after : List Instr} (he : e.code ctx σ = some before)
      (hrest : ∀ i ∈ after, i.IsStraight σ) : ∀ i ∈ before ++ after, i.IsStraight σ := by
    intro i hi
    rcases List.mem_append.1 hi with hi | hi
    · exact (Expr.plain_code he i hi).isStraight
    · exact hrest i hi
  cases s with
  | branch | whileLoop | forLoop => cases hs
  | var name init =>
    obtain ⟨value, hvalue, rfl, -⟩ := Stmt.code_var.1 h
    exact hafter hvalue (by simp [Instr.IsStraight])
  | assign base fields value =>
    obtain ⟨before, hbefore, assignment, hassignment, rfl, -⟩ := Stmt.code_assign.1 h
    refine hafter hbefore ?_
    obtain ⟨slot, hslot, ⟨rfl, rfl⟩ | ⟨field, -, rfl⟩⟩ := assignmentCode_eq_some.1 hassignment
    · simp [Instr.IsStraight]
    · intro i hi
      simp only [List.cons_append, List.mem_cons, List.mem_append, List.mem_map, List.not_mem_nil,
        or_false] at hi
      rcases hi with rfl | ⟨name, -, rfl⟩ | rfl | rfl
      · exact ⟨base, hslot⟩
      · trivial
      · trivial
      · trivial
  | ret value =>
    cases value with
    | none =>
      obtain ⟨rfl, -⟩ := Stmt.code_ret_none.1 h
      simp [Instr.IsStraight]
    | some value =>
      obtain ⟨before, hbefore, rfl, -⟩ := Stmt.code_ret_some.1 h
      exact hafter hbefore (by simp [Instr.IsStraight])
  | delete name =>
    obtain ⟨slot, hslot, rfl, -⟩ := Stmt.code_delete.1 h
    intro i hi
    simp only [List.mem_cons, List.not_mem_nil, or_false] at hi
    rcases hi with rfl | rfl
    · exact ⟨name, hslot⟩
    · trivial
  | call function arguments =>
    obtain ⟨before, hbefore, rfl, -⟩ := Stmt.code_call.1 h
    exact hafter hbefore (by simp [Instr.IsStraight])

/-! ## Functions -/

/-- The code of a function: the parameters are stored, the body follows, and nil is
returned at its end. -/
theorem FunDecl.code_eq_some {f : FunDecl} {slots : Nat} :
    f.code ctx = some (code, slots) ↔
      ∃ body inner, stmtsCode ctx f.arity (paramSlots f.params) f.body = some (body, inner) ∧
        code = (List.range f.arity).map Instr.store ++ body ++
          (if f.endsInReturn then [] else [.push .nil, .ret]) ∧
        slots = inner.used := by
  rw [FunDecl.code]
  simp only [Option.bind_eq_bind, Option.bind_eq_some_iff, Prod.exists, Option.some.injEq,
    Prod.mk.injEq, @eq_comm _ _ code, @eq_comm _ _ slots]

end FrameMachine
