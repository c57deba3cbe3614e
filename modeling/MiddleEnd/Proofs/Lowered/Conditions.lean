import MiddleEnd.Proofs.Checked.WellTyped
import MiddleEnd.Proofs.Lowered.Bindings

/-!
# Conditions

Lowered code decides by jumps on zero, and what such a jump tests is the value of a condition: of a
conditional expression, an `if`, a `while`, a `do` or a `for`. A check without a word has made sure
that a condition is an `int`, except for the test of a `for`, which may have any type.

Results:
1. `StmtCheck.conditions_admitted`, `ProgramCheck.conditions_admitted`: the types of the conditions
   of a tree that was checked without a word.
2. `StmtCode.tested`, `FunctionsCode.tested`: what the jumps on zero of lowered code test.
3. `tested_of_ordered`: whole programs, where positions do not mislead.
4. `tested_values_are_ints`: programs that were built.
-/

namespace MiddleEnd

/-- What a condition decides. -/
inductive Construct
  | cond
  | ite
  | whileDo
  | doWhile
  | forLoop
deriving DecidableEq

namespace Typed

/-! ## Conditions of typed trees -/

/-- The conditions in an expression, in the order in which they are tested. -/
def Expr.conditions : Expr → List (Construct × Expr)
  | .const .. | .var .. => []
  | .unary _ operand .. => operand.conditions
  | .binary _ left right .. => left.conditions ++ right.conditions
  | .assign _ value .. => value.conditions
  | .cond test ifTrue ifFalse .. =>
    test.conditions ++ [(.cond, test)] ++ ifTrue.conditions ++ ifFalse.conditions

/-- The conditions in an expression that may be absent. -/
def optionConditions : Option Expr → List (Construct × Expr)
  | none => []
  | some e => e.conditions

/-- A test with the conditions in it. -/
def testConditions (k : Construct) : Option Expr → List (Construct × Expr)
  | none => []
  | some test => test.conditions ++ [(k, test)]

/-- The conditions in the first clause of a `for`. -/
def ForInit.conditions : Option ForInit → List (Construct × Expr)
  | none => []
  | some (.decl d) => optionConditions d.init
  | some (.expr e) => e.conditions

mutual

/-- The conditions in a statement, in the order in which their tests are lowered. -/
def Stmt.conditions : Stmt → List (Construct × Expr)
  | .decl d => optionConditions d.init
  | .expr e | .ret e => e.conditions
  | .empty | .brk _ | .cont _ => []
  | .block body => conditionsOf body
  | .ite test ifTrue ifFalse =>
    testConditions .ite test ++ ifTrue.conditions ++ ifFalse.conditions
  | .whileDo test body => testConditions .whileDo test ++ body.conditions
  | .doWhile body test => testConditions .doWhile test ++ body.conditions
  | .forLoop init test step body =>
    ForInit.conditions init ++ testConditions .forLoop test ++ body.conditions ++
      optionConditions step

/-- The conditions in statements. -/
def conditionsOf : List Stmt → List (Construct × Expr)
  | [] => []
  | s :: rest => s.conditions ++ conditionsOf rest

end

/-- The conditions in a program. -/
def Program.conditions (p : Program) : List (Construct × Expr) :=
  p.functions.flatMap fun f => conditionsOf f.body

theorem Stmt.conditions_of_loop? {s body : Stmt} {test : Expr} (h : s.loop? = some (test, body)) :
    ∃ k, s.conditions = testConditions k test ++ body.conditions := by
  cases s with
  | whileDo =>
    cases h
    exact ⟨.whileDo, rfl⟩
  | doWhile =>
    cases h
    exact ⟨.doWhile, rfl⟩
  | _ => cases h

end Typed

/-! ## Types of conditions -/

/-- The conditions have known types, and all but the tests of `for` loops are `int`s. -/
def Admitted (cs : List (Construct × Typed.Expr)) : Prop :=
  ∀ c ∈ cs, c.2.ty ≠ .error ∧ (c.1 ≠ .forLoop → c.2.ty = .int)

section Admitted

variable {Γ : CheckContext} {path : ScopePath} {cs cs' : List (Construct × Typed.Expr)}

theorem Admitted.nil : Admitted [] := nofun

theorem Admitted.append (h : Admitted cs) (h' : Admitted cs') : Admitted (cs ++ cs') :=
  List.forall_mem_append.2 ⟨h, h'⟩

theorem Admitted.int (k : Construct) {e : Typed.Expr} (isInt : e.ty = .int) : Admitted [(k, e)] :=
  List.forall_mem_singleton.2 ⟨by rw [isInt]; exact nofun, fun _ => isInt⟩

/-- The conditions in an expression that was checked without a word are `int`s. -/
theorem ExprCheck.conditions_admitted (proper : Γ.symbols.Proper) {e : Source.Expr}
    {e' : Typed.Expr} {log : Log} (h : ExprCheck Γ path e e' log) (silent : log = []) :
    Admitted e'.conditions := by
  induction h with
  | const | var => exact .nil
  | unary _ ih => exact ih (List.append_eq_nil_iff.1 silent).1
  | binary _ _ ih₁ ih₂ =>
    simp only [List.append_eq_nil_iff] at silent
    obtain ⟨⟨⟨silent₁, -⟩, silent₂⟩, -⟩ := silent
    exact (ih₁ silent₁).append (ih₂ silent₂)
  | assign _ _ ih =>
    simp only [List.append_eq_nil_iff] at silent
    exact ih silent.1.2
  | cond h _ _ ih₁ ih₂ ih₃ =>
    simp only [List.append_eq_nil_iff] at silent
    obtain ⟨⟨⟨⟨silent₁, isInt⟩, silent₂⟩, silent₃⟩, -⟩ := silent
    obtain ⟨-, known⟩ := h.hasType proper silent₁
    have test := Admitted.int .cond ((testReport_eq_nil known).1 isInt)
    exact (((ih₁ silent₁).append test).append (ih₂ silent₂)).append (ih₃ silent₃)

theorem OptionCheck.conditions_admitted (proper : Γ.symbols.Proper) {e : Option Source.Expr}
    {e' : Option Typed.Expr} {log : Log} (h : OptionCheck Γ path e e' log) (silent : log = []) :
    Admitted (Typed.optionConditions e') := by
  cases h with
  | none => exact .nil
  | some h => exact h.conditions_admitted proper silent

/-- The test of a `for` has a type, whichever. -/
theorem OptionCheck.test_admitted (proper : Γ.symbols.Proper) {test : Option Source.Expr}
    {t : Option Typed.Expr} {log : Log} (h : OptionCheck Γ path test t log) (silent : log = []) :
    Admitted (Typed.testConditions .forLoop t) := by
  cases h with
  | none => exact .nil
  | some h =>
    obtain ⟨-, known⟩ := h.hasType proper silent
    exact (h.conditions_admitted proper silent).append
      (List.forall_mem_singleton.2 ⟨known, fun other => absurd rfl other⟩)

/-- A condition of another statement is an `int`. -/
theorem TestCheck.conditions_admitted (proper : Γ.symbols.Proper) {test : Source.Expr}
    {t : Typed.Expr} {log : Log} (h : TestCheck Γ path test t log) (silent : log = [])
    (k : Construct) : Admitted (Typed.testConditions k t) := by
  cases h with
  | mk h =>
    obtain ⟨silent, isInt⟩ := List.append_eq_nil_iff.1 silent
    obtain ⟨-, known⟩ := h.hasType proper silent
    exact (h.conditions_admitted proper silent).append (.int k ((testReport_eq_nil known).1 isInt))

theorem FitsCheck.conditions_admitted (proper : Γ.symbols.Proper) {ty : Ty} {e : Source.Expr}
    {e' : Typed.Expr} {log : Log} (h : FitsCheck Γ path ty e e' log) (silent : log = []) :
    Admitted e'.conditions := by
  cases h with
  | mk h => exact h.conditions_admitted proper (List.append_eq_nil_iff.1 silent).1

theorem VarDeclCheck.conditions_admitted (proper : Γ.symbols.Proper) {d : Source.VarDecl}
    {d' : Typed.VarDecl} {log : Log} (h : VarDeclCheck Γ path d d' log) (silent : log = []) :
    Admitted (Typed.optionConditions d'.init) := by
  cases h with
  | plain => exact .nil
  | init _ _ h => exact h.conditions_admitted proper silent

theorem ForInitCheck.conditions_admitted (proper : Γ.symbols.Proper)
    {init : Option Source.ForInit} {init' : Option Typed.ForInit} {log : Log}
    (h : ForInitCheck Γ path init init' log) (silent : log = []) :
    Admitted (Typed.ForInit.conditions init') := by
  cases h with
  | none => exact .nil
  | decl h => exact h.conditions_admitted proper silent
  | expr h => exact h.conditions_admitted proper silent

mutual

/-- The conditions in a statement that was checked without a word. -/
theorem StmtCheck.conditions_admitted {Γ : CheckContext} {returnTy : Ty} {path : ScopePath}
    {s : Source.Stmt} {s' : Typed.Stmt} {log : Log} (proper : Γ.symbols.Proper)
    (h : StmtCheck Γ returnTy path s s' log) (silent : log = []) : Admitted s'.conditions := by
  cases h with
  | decl h | expr h | ret h => exact h.conditions_admitted proper silent
  | empty | brk | cont => exact .nil
  | block _ h => exact h.conditions_admitted proper silent
  | ite h₁ h₂ h₃ =>
    simp only [List.append_eq_nil_iff] at silent
    obtain ⟨⟨silent₁, silent₂⟩, silent₃⟩ := silent
    exact ((h₁.conditions_admitted proper silent₁ _).append
      (h₂.conditions_admitted proper silent₂)).append (h₃.conditions_admitted proper silent₃)
  | whileDo h₁ h₂ | doWhile h₁ h₂ =>
    obtain ⟨silent₁, silent₂⟩ := List.append_eq_nil_iff.1 silent
    exact (h₁.conditions_admitted proper silent₁ _).append (h₂.conditions_admitted proper silent₂)
  | forLoop _ h₁ h₂ h₃ h₄ =>
    simp only [List.append_eq_nil_iff] at silent
    obtain ⟨⟨⟨silent₁, silent₂⟩, silent₃⟩, silent₄⟩ := silent
    have clauses :=
      (h₁.conditions_admitted proper silent₁).append (h₂.test_admitted proper silent₂)
    exact (clauses.append (h₄.conditions_admitted proper silent₄)).append
      (h₃.conditions_admitted proper silent₃)

theorem StmtsCheck.conditions_admitted {Γ : CheckContext} {returnTy : Ty} {path : ScopePath}
    {ss : List Source.Stmt} {ss' : List Typed.Stmt} {log : Log} (proper : Γ.symbols.Proper)
    (h : StmtsCheck Γ returnTy path ss ss' log) (silent : log = []) :
    Admitted (Typed.conditionsOf ss') := by
  cases h with
  | nil => exact .nil
  | cons h₁ h₂ =>
    obtain ⟨silent₁, silent₂⟩ := List.append_eq_nil_iff.1 silent
    exact (h₁.conditions_admitted proper silent₁).append (h₂.conditions_admitted proper silent₂)

end

theorem FunctionsCheck.conditions_admitted (proper : Γ.symbols.Proper) {fs : List Source.Function}
    {fs' : List Typed.Function} {log : Log} (h : FunctionsCheck Γ path fs fs' log)
    (silent : log = []) : Admitted (fs'.flatMap fun f => Typed.conditionsOf f.body) := by
  induction h with
  | nil => exact .nil
  | cons h _ ih =>
    obtain ⟨silent₁, silent₂⟩ := List.append_eq_nil_iff.1 silent
    cases h with
    | mk _ _ _ _ body => exact (body.conditions_admitted proper silent₁).append (ih silent₂)

/-- The conditions in a program that was checked without a word. -/
theorem ProgramCheck.conditions_admitted (proper : Γ.symbols.Proper) {p : Source.Program}
    {typed : Typed.Program} (h : ProgramCheck Γ p typed []) : Admitted typed.conditions := by
  cases h with
  | mk _ h => exact h.conditions_admitted proper rfl

end Admitted

/-! ## Jumps on zero -/

/-- The jumps on zero in code that leads from `c` to `c'` and binds `xs` test the values of
conditions, one after the other: each stands right behind the code of its condition, and what it
tests is the temporary that the condition answers there. -/
inductive Tested (c : Cursor) :
    List (Construct × Typed.Expr) → List SymbolId → List Instr → Cursor → Prop
  | quiet {xs : List SymbolId} {code : List Instr} {c' : Cursor} :
      (∀ l t, .jumpIfZero l t ∉ code) → c.Binds xs c' → Tested c [] xs code c'
  | jump {cs : List (Construct × Typed.Expr)} {xs ys : List SymbolId} {code own rest : List Instr}
      {k : Construct} {e : Typed.Expr} {c₀ c₁ c' : Cursor} {l : Label} {t : Temp} :
      Tested c cs xs code c₁ → own <:+ code → ExprCode e c₀ t own c₁ →
      (∀ l t, .jumpIfZero l t ∉ rest) → c₁.Binds ys c' →
      Tested c (cs ++ [(k, e)]) (xs ++ ys) (code ++ .jumpIfZero l t :: rest) c'

namespace Tested

variable {cs cs' : List (Construct × Typed.Expr)} {xs ys : List SymbolId}
  {code code' : List Instr} {c c₁ c' : Cursor}

theorem append (h : Tested c cs xs code c₁) (h' : Tested c₁ cs' ys code' c') :
    Tested c (cs ++ cs') (xs ++ ys) (code ++ code') c' := by
  induction h' with
  | quiet none binds =>
    have both {rest : List Instr} (none' : ∀ l t, .jumpIfZero l t ∉ rest) (l : Label) (t : Temp) :
        .jumpIfZero l t ∉ rest ++ _ :=
      fun mem => (List.mem_append.1 mem).elim (none' l t) (none l t)
    rw [List.append_nil]
    cases h with
    | quiet none' binds' => exact .quiet (both none') (binds'.append binds)
    | jump h own lowered none' binds' =>
      rw [List.append_assoc, List.append_assoc, List.cons_append]
      exact .jump h own lowered (both none') (binds'.append binds)
  | jump _ own lowered none binds ih =>
    rw [← List.append_assoc, ← List.append_assoc, ← List.append_assoc]
    exact .jump ih (own.trans (List.suffix_append ..)) lowered none binds

/-- Code behind that neither jumps on zero nor binds anything. -/
theorem append_quiet (h : Tested c cs xs code c₁) (none : ∀ l t, .jumpIfZero l t ∉ code')
    (binds : c₁.Binds [] c') : Tested c cs xs (code ++ code') c' := by
  have whole := h.append (.quiet none binds)
  rwa [List.append_nil, List.append_nil] at whole

/-- An instruction before that does not jump on zero, where nothing is bound. -/
theorem cons (h : Tested c₁ cs xs code c') {i : Instr} (other : ∀ l t, .jumpIfZero l t ≠ i)
    (binds : c.Binds [] c₁) : Tested c cs xs (i :: code) c' := by
  have first : Tested c [] [] [i] c₁ :=
    .quiet (fun l t mem => other l t (List.mem_singleton.1 mem)) binds
  exact first.append h

/-- Nothing is tested where nothing is emitted. -/
theorem start (binds : c.Binds xs c') : Tested c [] xs [] c' :=
  .quiet (fun _ _ mem => nomatch mem) binds

/-- Numbers that are taken before. -/
theorem after (h : Tested c₁ cs xs code c') (binds : c.Binds [] c₁) : Tested c cs xs code c' :=
  (start binds).append h

/-- The jump behind the code of a condition tests its value. -/
theorem behind {e : Typed.Expr} (h : Tested c e.conditions [] code c') {t : Temp}
    (own : ExprCode e c t code c') (k : Construct) (l : Label) :
    Tested c (e.conditions ++ [(k, e)]) [] (code ++ [.jumpIfZero l t]) c' :=
  h.jump List.suffix_rfl own nofun (.refl c')

end Tested

theorem ExprCode.tested {e : Typed.Expr} {c c' : Cursor} {t : Temp} {code : List Instr}
    (h : ExprCode e c t code c') : Tested c e.conditions [] code c' := by
  induction h with
  | const => exact .quiet (by simp) (Cursor.Binds.refl _).takeTemp
  | var => exact .quiet (by simp) (.refl _)
  | unary _ ih => exact ih.append_quiet (by simp) (Cursor.Binds.refl _).takeTemp
  | assign _ _ ih => exact ih.append_quiet (by simp) (.refl _)
  | binary _ _ ih₁ ih₂ =>
    exact (ih₁.append ih₂).append_quiet (by simp) (Cursor.Binds.refl _).takeTemp
  | @cond test ifTrue _ _ _ c _ c₂ _ t _ _ code₁ code₂ _ h _ _ ih₁ ih₂ ih₃ =>
    have taken : c.Binds [] (c.takeTemp.takeLabels 2) :=
      (Cursor.Binds.refl c).takeTemp.takeLabels 2
    have first : Tested c (test.conditions ++ [(.cond, test)] ++ ifTrue.conditions) []
        (code₁ ++ .jumpIfZero c.labels t :: code₂) c₂ := by
      simpa using ((ih₁.behind h .cond c.labels).append ih₂).after taken
    refine (first.append ?_).append_quiet (by simp) (.refl _)
    exact ((ih₃.cons (by simp) (.refl _)).cons (by simp) (.refl _)).cons (by simp) (.refl _)

theorem EffectCode.tested {e : Option Typed.Expr} {c c' : Cursor} {code : List Instr}
    (h : EffectCode e c code c') : Tested c (Typed.optionConditions e) [] code c' := by
  cases h with
  | none => exact .quiet (by simp) (.refl _)
  | some h => exact h.tested

theorem TestCode.tested {exit : Label} {test : Option Typed.Expr} {c c' : Cursor}
    {code : List Instr} (h : TestCode exit test c code c') (k : Construct) :
    Tested c (Typed.testConditions k test) [] code c' := by
  cases h with
  | none => exact .quiet (by simp) (.refl _)
  | some h => exact h.tested.behind h k exit

theorem VarDeclCode.tested {d : Typed.VarDecl} {c c' : Cursor} {code : List Instr}
    (h : VarDeclCode d c code c') :
    Tested c (Typed.optionConditions d.init) [d.symbol] code c' := by
  cases h with
  | plain isVar absent =>
    rw [absent]
    exact .quiet (by simp) (.bind isVar)
  | init isVar present h =>
    rw [present]
    have bound := Tested.start (Cursor.Binds.bind isVar)
    exact (bound.append h.tested).append_quiet (by simp) (.refl _)

theorem ForInitCode.tested {init : Option Typed.ForInit} {c c' : Cursor} {code : List Instr}
    (h : ForInitCode init c code c') :
    Tested c (Typed.ForInit.conditions init) (Typed.ForInit.binds init) code c' := by
  cases h with
  | none => exact .quiet (by simp) (.refl _)
  | decl h => exact h.tested
  | expr h => exact h.tested

/-- The jumps on zero in the code of a statement test its conditions. -/
theorem StmtCode.tested {targets : Option LoopTargets} {s : Typed.Stmt} {c c' : Cursor}
    {code : List Instr} (h : StmtCode targets s c code c') :
    Tested c s.conditions s.binds code c' := by
  induction h with
  | decl h => exact h.tested
  | expr h => exact h.tested
  | empty | done | brk | cont => exact .quiet (by simp) (.refl _)
  | next _ _ ih₁ ih₂ => exact ih₁.append ih₂
  | ite h _ _ ih₁ ih₂ =>
    have first := ((h.tested .ite).append ih₁).after ((Cursor.Binds.refl _).takeLabels 2)
    refine (first.append ?_).append_quiet (by simp) (.refl _)
    exact (ih₂.cons (by simp) (.refl _)).cons (by simp) (.refl _)
  | @loop _ _ _ _ c _ _ _ _ isLoop h _ ih =>
    obtain ⟨k, conditions⟩ := Typed.Stmt.conditions_of_loop? isLoop
    rw [conditions, Typed.Stmt.binds_of_loop? isLoop]
    have first := (h.tested k).cons (i := .mark c.labels) (by simp)
      ((Cursor.Binds.refl c).takeLabels 2)
    exact (first.append ih).append_quiet (by simp) (.refl _)
  | forLoop h₁ h₂ _ h₄ ih =>
    have first := h₁.tested.after ((Cursor.Binds.refl _).takeLabels 3)
    rw [← List.append_nil (Typed.Stmt.binds _), Typed.Stmt.binds,
      ← List.append_nil (Typed.ForInit.binds _)]
    refine Tested.append_quiet (Tested.append (Tested.append (Tested.append first ?_) ih) ?_)
      (by simp) (.refl _)
    · exact (h₂.tested .forLoop).cons (by simp) (.refl _)
    · exact h₄.tested.cons (by simp) (.refl _)
  | ret h => exact h.tested.append_quiet (by simp) (.refl _)

/-- The jumps on zero in the code of a function test its conditions. -/
theorem FunctionCode.tested {config : Config} {f : Typed.Function} {c c' : Cursor} {piece : Piece}
    (h : FunctionCode config f c piece c') :
    Tested c (Typed.conditionsOf f.body) f.binds piece.body c' := by
  cases h with
  | mk _ params placed _ body ending =>
    -- parameters are bound before the body, and nothing is emitted for them
    have entered := ((Cursor.Binds.refl c).recordFunction f.symbol _).append params.binds
    have moved := fun g =>
      (entered.placeParams config.pointerSize 0 f.params).recordFunction f.symbol g
    subst placed
    have whole := (Tested.start (moved _)).append body.tested
    refine whole.append_quiet ?_ ending.binds
    cases ending <;> simp

/-- The jumps on zero in the pieces of functions that are lowered one after the other. -/
inductive PiecesTested : Cursor → List Typed.Function → List Piece → Cursor → Prop
  | nil {c : Cursor} : PiecesTested c [] [] c
  | cons {f : Typed.Function} {rest : List Typed.Function} {piece : Piece} {pieces : List Piece}
      {c c₁ c' : Cursor} :
      Tested c (Typed.conditionsOf f.body) f.binds piece.body c₁ →
      PiecesTested c₁ rest pieces c' → PiecesTested c (f :: rest) (piece :: pieces) c'

/-- The jumps on zero in the code of functions test their conditions. -/
theorem FunctionsCode.tested {config : Config} {fs : List Typed.Function} {c c' : Cursor}
    {pieces : List Piece} (h : FunctionsCode config fs c pieces c') :
    PiecesTested c fs pieces c' := by
  induction h with
  | nil => exact .nil
  | cons h _ ih => exact .cons h.tested ih

/-! ## Programs -/

/-- If positions do not mislead and nothing but the types of the language is declared, the check
comes to its end, and what it accepts without a word tests nothing but an `int`, or a `void` in the
test of a `for`. -/
theorem tested_of_ordered {p : Source.Program} (ordered : p.Ordered) (config : Config)
    (plain : ∀ τ ∈ p.declaredTys, τ = .int ∨ τ = .void) :
    let table := (Declarations.ofProgram p).table
    ∃ typed issued, checkProgram ⟨table, config⟩ p = .ok (typed, issued) ∧
      (issued = [] → ∀ k e, (k, e) ∈ typed.conditions →
        (k ≠ .forLoop → e.ty = .int) ∧ (e.ty = .int ∨ e.ty = .void)) ∧
      ∀ code, (lowerProgram config table typed).1 = .ok code →
        ∃ c, c.symbols = (lowerProgram config table typed).2 ∧
          PiecesTested ⟨0, 0, table⟩ typed.functions code.pieces c := by
  intro table
  have proper : table.Proper := by
    intro id v isVar isError
    rcases plain _ (ty_mem_declaredTys isVar) with same | same <;> cases isError.symm.trans same
  obtain ⟨typed, issued, check, -⟩ := programCheck_of_ordered ordered config
  refine ⟨typed, issued, check.run, ?_, ?_⟩
  · rintro rfl k e mem
    obtain ⟨known, isInt⟩ := check.conditions_admitted proper (k, e) mem
    refine ⟨isInt, ?_⟩
    cases ty : e.ty with
    | int => exact .inl rfl
    | void => exact .inr rfl
    | error => exact absurd ty known
  · intro code lowered
    obtain ⟨s, -, -, final, shape⟩ := lowerProgram_shape (Prod.ext lowered rfl)
    exact ⟨s.cursor, final, shape.tested⟩

/-- Of a program that was built and declares nothing but the types of the language, the check comes
to its end. If it issues nothing, every condition in the typed tree is an `int`, except for the test
of a `for`, which may be `void`. The jumps on zero in the code of a function test the values of the
conditions of that function, one after the other, with the variables where they are bound by then,
from the table that lowering starts with to the one that it leaves. -/
theorem tested_values_are_ints (d : Draft.Program) (b : Source.Builder) (config : Config)
    (plain : ∀ τ ∈ (d.place b).1.declaredTys, τ = .int ∨ τ = .void) :
    let p := (d.place b).1
    let table := (Declarations.ofProgram p).table
    ∃ typed issued, checkProgram ⟨table, config⟩ p = .ok (typed, issued) ∧
      (issued = [] → ∀ k e, (k, e) ∈ typed.conditions →
        (k ≠ .forLoop → e.ty = .int) ∧ (e.ty = .int ∨ e.ty = .void)) ∧
      ∀ code, (lowerProgram config table typed).1 = .ok code →
        ∃ c, c.symbols = (lowerProgram config table typed).2 ∧
          PiecesTested ⟨0, 0, table⟩ typed.functions code.pieces c :=
  tested_of_ordered (d.place_ordered b) config plain

/-- `int main(int n, void v)` with the body
`if (n ? n : 1) while (n) n = 0; else do ; while (n); for (; n; v) ;`. -/
def everyTest : Draft.Program :=
  ⟨[⟨"main", [⟨"n", .int⟩, ⟨"v", .void⟩], .int,
    [.ite (.cond (.var "n") (.var "n") (.const 1))
        (.whileDo (.var "n") (.expr (.assign "n" (.const 0))))
        (.doWhile .empty (.var "n")),
      .forLoop none (some (.var "n")) (some (.var "v")) .empty]⟩]⟩

theorem tested_values_are_ints_of_everyTest :
    let p := (everyTest.place ⟨"t", 0, 0⟩).1
    let table := (Declarations.ofProgram p).table
    (∀ τ ∈ p.declaredTys, τ = .int ∨ τ = .void) ∧
      ∃ typed code, checkProgram ⟨table, {}⟩ p = .ok (typed, []) ∧
        typed.conditions.map Prod.fst = [.cond, .ite, .whileDo, .doWhile, .forLoop] ∧
        (∀ k e, (k, e) ∈ typed.conditions → (k ≠ .forLoop → e.ty = .int) ∧
          (e.ty = .int ∨ e.ty = .void)) ∧
        (lowerProgram {} table typed).1 = .ok code ∧
        ∃ c, c.symbols = (lowerProgram {} table typed).2 ∧
          PiecesTested ⟨0, 0, table⟩ typed.functions code.pieces c := by
  intro p table
  have plain : ∀ τ ∈ p.declaredTys, τ = .int ∨ τ = .void := by decide +kernel
  have checked : (checkProgram ⟨table, {}⟩ p).toOption.map (fun result =>
      (result.2, result.1.conditions.map Prod.fst,
        (lowerProgram {} table result.1).1.toOption.isSome)) =
      some ([], [.cond, .ite, .whileDo, .doWhile, .forLoop], true) := by
    decide +kernel
  obtain ⟨typed, issued, check, types, tested⟩ :=
    tested_values_are_ints everyTest ⟨"t", 0, 0⟩ {} plain
  rw [show checkProgram ⟨table, {}⟩ p = .ok (typed, issued) from check] at checked
  obtain ⟨rfl, rest⟩ := Prod.mk.inj (Option.some.inj checked)
  obtain ⟨constructs, lowers⟩ := Prod.mk.inj rest
  cases lowered : (lowerProgram {} table typed).1 with
  | error e =>
    rw [lowered] at lowers
    cases lowers
  | ok code =>
    exact ⟨plain, typed, code, check, constructs, types rfl, lowered, tested code lowered⟩

/-- `int main(void v) { for (; v; ) ; }` -/
def voidTest : Draft.Program :=
  ⟨[⟨"main", [⟨"v", .void⟩], .int, [.forLoop none (some (.var "v")) none .empty]⟩]⟩

/-- The test of a `for` need not be an `int`: here it is a `void` variable, both passes are silent,
and the jump on zero tests that variable. -/
theorem for_test_of_voidTest :
    let p := (voidTest.place ⟨"t", 0, 0⟩).1
    let table := (Declarations.ofProgram p).table
    (∀ τ ∈ p.declaredTys, τ = .int ∨ τ = .void) ∧ (Declarations.ofProgram p).log = [] ∧
      ∃ typed code, checkProgram ⟨table, {}⟩ p = .ok (typed, []) ∧
        typed.conditions.map (fun c => (c.1, c.2.ty)) = [(.forLoop, .void)] ∧
        (lowerProgram {} table typed).1 = .ok code ∧
        code.pieces.map Piece.body =
          [[.mark 0, .jumpIfZero 1 0, .mark 2, .jump 0, .mark 1, .load 1 0, .ret 1]] := by
  intro p table
  have checked : (checkProgram ⟨table, {}⟩ p).toOption.map (fun result =>
      (result.2, result.1.conditions.map fun c => (c.1, c.2.ty))) =
      some ([], [(.forLoop, .void)]) := by
    decide +kernel
  have lowers : (checkProgram ⟨table, {}⟩ p).toOption.bind (fun result =>
      (lowerProgram {} table result.1).1.toOption.map fun code => code.pieces.map Piece.body) =
      some [[.mark 0, .jumpIfZero 1 0, .mark 2, .jump 0, .mark 1, .load 1 0, .ret 1]] := by
    decide +kernel
  refine ⟨by decide +kernel, by decide +kernel, ?_⟩
  cases check : checkProgram ⟨table, {}⟩ p with
  | error abort =>
    rw [check] at checked
    cases checked
  | ok result =>
    obtain ⟨typed, issued⟩ := result
    rw [check] at checked lowers
    obtain ⟨rfl, conditions⟩ := Prod.mk.inj (Option.some.inj checked)
    obtain ⟨code, lowered, bodies⟩ := Option.map_eq_some_iff.1 lowers
    cases ran : (lowerProgram {} table typed).1 with
    | error e =>
      rw [ran] at lowered
      cases lowered
    | ok code' =>
      rw [ran] at lowered
      cases lowered
      exact ⟨typed, code, rfl, conditions, ran, bodies⟩

end MiddleEnd
