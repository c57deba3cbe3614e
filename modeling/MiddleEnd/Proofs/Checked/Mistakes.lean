import MiddleEnd.Proofs.Checked.Linked
import MiddleEnd.Proofs.Checked.Reached
import MiddleEnd.Proofs.Scoping.Declared

/-!
# A mistake in place of an expression

A name that is declared nowhere is reported where it is used, and the type of the use is `error`,
which no check reports on again. So if it is put in the place of an expression, its report takes the
place of the reports on the expression, the reports before it stay, and some of the reports behind
it may go, but none is new.

Results:
1. `ExprCheck.replace`, `StmtCheck.replace`, `ProgramCheck.replace`: the check of a context that is
   filled with a mistake.
2. `ofProgram_fill`: what the first pass builds does not depend on the expressions of a program.
3. `lookup_undeclared`: what looking up a name that is declared nowhere finds.
4. `mistake_does_not_cascade`: programs.
-/

namespace MiddleEnd

open CheckM

/-! ## Types that are not known -/

/-- Around a mistake, an expression has the type and the span that it had, or its type is no longer
known. -/
def Typed.Expr.Muted (e e₁ : Typed.Expr) : Prop := e₁.ty = .error ∨ e₁.ty = e.ty ∧ e₁.span = e.span

/-- A report that an unknown type does not cause may go, and stays as it is otherwise. -/
theorem Typed.Expr.Muted.report {e e₁ : Typed.Expr} (h : e.Muted e₁) (report : Pos → Ty → Log)
    (quiet : ∀ pos, report pos .error = []) :
    (report e₁.span.start e₁.ty).Sublist (report e.span.start e.ty) := by
  rcases h with unknown | ⟨ty, span⟩
  · rw [unknown, quiet]
    exact List.nil_sublist _
  · rw [ty, span]

theorem branchesReport_error_left (config : Config) (pos : Pos) (ty : Ty) :
    branchesReport config pos .error ty = [] := by
  unfold branchesReport
  split
  · cases ty <;> rfl
  · rfl

theorem branchesReport_error_right (config : Config) (pos : Pos) (ty : Ty) :
    branchesReport config pos ty .error = [] := by
  unfold branchesReport
  split <;> rfl

/-! ## The reports on a context -/

/-- The reports on a context that is filled with `s` and on the same context filled with a mistake.
The checks before its place are `reach`, and they lead there from the scopes `outer`. -/
inductive Replaced (Γ : CheckContext) (reach : CheckM Unit) (outer path : ScopePath)
    (s : Source.Expr) (report : Error) : Log → Log → Prop
  | mk {pre own post post₁ : Log} {s' : Typed.Expr} :
      Reaches reach outer path pre → ExprCheck Γ path s s' own → post₁.Sublist post →
      Replaced Γ reach outer path s report (pre ++ own ++ post) (pre ++ [report] ++ post₁)

namespace Replaced

variable {Γ : CheckContext} {reach : CheckM Unit} {outer path : ScopePath} {s : Source.Expr}
  {report : Error} {log log₁ : Log}

theorem alone {s' : Typed.Expr} (h : ExprCheck Γ path s s' log) :
    Replaced Γ (pure ()) path path s report log [report] := by
  have whole : Replaced Γ (pure ()) path path s report ([] ++ log ++ []) ([] ++ [report] ++ []) :=
    mk .here h (List.Sublist.refl [])
  rwa [List.append_nil] at whole

/-- With one more step on the way, which reports the same. -/
theorem behind {x : CheckM α} {a : α} {before : Log}
    (h : Replaced Γ reach outer path s report log log₁)
    (ran : ∀ log, x ⟨outer, log⟩ = .ok a ⟨outer, log ++ before⟩) :
    Replaced Γ (x >>= fun _ => reach) outer path s report (before ++ log) (before ++ log₁) := by
  cases h with
  | mk reached own sub =>
    rw [← List.append_assoc, ← List.append_assoc, ← List.append_assoc, ← List.append_assoc]
    exact mk (reached.behind ran) own sub

/-- With one more step on the way, which reports nothing. -/
theorem beside {x : CheckM α} {a : α} (h : Replaced Γ reach outer path s report log log₁)
    (ran : ∀ log, x ⟨outer, log⟩ = .ok a ⟨outer, log⟩) :
    Replaced Γ (x >>= fun _ => reach) outer path s report log log₁ := by
  have ran_nil : ∀ log, x ⟨outer, log⟩ = .ok a ⟨outer, log ++ []⟩ := by simpa using ran
  exact h.behind ran_nil

/-- With one more scope on the way. -/
theorem inside {id : NodeId} {index : ScopeIndex}
    (h : Replaced Γ reach (index :: outer) path s report log log₁)
    (owned : Γ.symbols.scopeIndex? id = some index) (pos : Pos) :
    Replaced Γ (openScope Γ id pos >>= fun _ => reach) outer path s report log log₁ := by
  cases h with
  | mk reached own sub => exact mk (reached.inside owned pos) own sub

/-- With fewer reports behind. -/
theorem append (h : Replaced Γ reach outer path s report log log₁) {later later₁ : Log}
    (sub : later₁.Sublist later) :
    Replaced Γ reach outer path s report (log ++ later) (log₁ ++ later₁) := by
  cases h with
  | mk reached own sub' =>
    rw [List.append_assoc _ _ later, List.append_assoc _ _ later₁]
    exact mk reached own (sub'.append sub)

/-- With the same reports behind. -/
theorem before (h : Replaced Γ reach outer path s report log log₁) (later : Log) :
    Replaced Γ reach outer path s report (log ++ later) (log₁ ++ later) :=
  h.append (List.Sublist.refl later)

end Replaced

/-! ## Expressions -/

variable {Γ : CheckContext} {path : ScopePath} {x s : Source.Expr} {report : Error}

/-- An expression that is reported wherever it stands, and whose type is not known then. -/
def Mistake (Γ : CheckContext) (x : Source.Expr) (report : Error) : Prop :=
  ∀ path, Γ.symbols.Within path → ∃ x', ExprCheck Γ path x x' [report] ∧ x'.ty = .error

/-- The check of an expression around a mistake. -/
theorem ExprCheck.replace (mistake : Mistake Γ x report) (within : Γ.symbols.Within path)
    (C : Source.ExprCtx) {e : Typed.Expr} {log : Log} (h : ExprCheck Γ path (C.fill s) e log) :
    ∃ e₁ log₁, ExprCheck Γ path (C.fill x) e₁ log₁ ∧ e.Muted e₁ ∧
      Replaced Γ (C.reach Γ) path path s report log log₁ := by
  induction C generalizing e log with
  | here =>
    obtain ⟨x', check, unknown⟩ := mistake path within
    exact ⟨x', [report], check, .inl unknown, .alone h⟩
  | inOperand op C span ih =>
    cases h with
    | unary h =>
      obtain ⟨o, log₁, h, muted, replaced⟩ := ih h
      exact ⟨_, _, .unary h, .inr ⟨rfl, rfl⟩,
        replaced.append (muted.report (tyReport · .int ·) fun _ => rfl)⟩
  | inLeft op C right span ih =>
    cases h with
    | binary h₁ h₂ =>
      obtain ⟨l, log₁, h₁, muted, replaced⟩ := ih h₁
      exact ⟨_, _, .binary h₁ h₂, .inr ⟨rfl, rfl⟩,
        ((replaced.append (muted.report (tyReport · .int ·) fun _ => rfl)).before _).before _⟩
  | inRight op left C span ih =>
    cases h with
    | binary h₁ h₂ =>
      obtain ⟨r, log₁, h₂, muted, replaced⟩ := ih h₂
      exact ⟨_, _, .binary h₁ h₂, .inr ⟨rfl, rfl⟩,
        (replaced.behind fun _ => h₁.runOperand rfl).append
          (muted.report (tyReport · .int ·) fun _ => rfl)⟩
  | inValue target C span ih =>
    cases h with
    | assign h₁ h₂ =>
      obtain ⟨v, log₁, h₂, muted, replaced⟩ := ih h₂
      exact ⟨_, _, .assign h₁ h₂, .inr ⟨rfl, rfl⟩,
        (replaced.behind fun _ => RefCheck.run h₁).append
          (muted.report (fun _ => fitsReport span.start _) fun _ => rfl)⟩
  | inTest C ifTrue ifFalse span ih =>
    cases h with
    | cond h₁ h₂ h₃ =>
      obtain ⟨t, log₁, h₁, muted, replaced⟩ := ih h₁
      exact ⟨_, _, .cond h₁ h₂ h₃, .inr ⟨rfl, rfl⟩,
        (((replaced.append (muted.report testReport fun _ => rfl)).before _).before _).before _⟩
  | inIfTrue test C ifFalse span ih =>
    cases h with
    | cond h₁ h₂ h₃ =>
      obtain ⟨a, log₁, h₂, muted, replaced⟩ := ih h₂
      have replaced := replaced.behind fun _ => (TestCheck.mk h₁).run rfl
      exact ⟨_, _, .cond h₁ h₂ h₃, .inr ⟨rfl, rfl⟩,
        (replaced.before _).append (muted.report (fun _ ty => branchesReport _ _ ty _)
          fun _ => branchesReport_error_left ..)⟩
  | inIfFalse test ifTrue C span ih =>
    cases h with
    | cond h₁ h₂ h₃ =>
      obtain ⟨b, log₁, h₃, muted, replaced⟩ := ih h₃
      have replaced := (replaced.behind fun _ => h₂.run rfl).behind fun _ =>
        (TestCheck.mk h₁).run rfl
      rw [← List.append_assoc, ← List.append_assoc] at replaced
      exact ⟨_, _, .cond h₁ h₂ h₃, muted.imp id fun same => ⟨same.1, rfl⟩,
        replaced.append (muted.report (branchesReport _ · _ ·)
          fun _ => branchesReport_error_right ..)⟩

theorem OptionCheck.replace (mistake : Mistake Γ x report) (within : Γ.symbols.Within path)
    (C : Source.ExprCtx) {e : Option Typed.Expr} {log : Log}
    (h : OptionCheck Γ path (Option.some (C.fill s)) e log) :
    ∃ e₁ log₁, OptionCheck Γ path (Option.some (C.fill x)) e₁ log₁ ∧
      Replaced Γ (C.reach Γ) path path s report log log₁ := by
  cases h with
  | some h =>
    obtain ⟨_, log₁, h, -, replaced⟩ := ExprCheck.replace mistake within C h
    exact ⟨_, log₁, .some h, replaced⟩

theorem TestCheck.replace (mistake : Mistake Γ x report) (within : Γ.symbols.Within path)
    (C : Source.ExprCtx) {e : Typed.Expr} {log : Log} (h : TestCheck Γ path (C.fill s) e log) :
    ∃ e₁ log₁, TestCheck Γ path (C.fill x) e₁ log₁ ∧
      Replaced Γ (C.reach Γ) path path s report log log₁ := by
  cases h with
  | mk h =>
    obtain ⟨e₁, log₁, h, muted, replaced⟩ := ExprCheck.replace mistake within C h
    exact ⟨_, _, .mk h, replaced.append (muted.report testReport fun _ => rfl)⟩

theorem FitsCheck.replace (mistake : Mistake Γ x report) (within : Γ.symbols.Within path)
    (C : Source.ExprCtx) {ty : Ty} {e : Typed.Expr} {log : Log}
    (h : FitsCheck Γ path ty (C.fill s) e log) :
    ∃ e₁ log₁, FitsCheck Γ path ty (C.fill x) e₁ log₁ ∧
      Replaced Γ (C.reach Γ) path path s report log log₁ := by
  cases h with
  | mk h =>
    obtain ⟨e₁, log₁, h, muted, replaced⟩ := ExprCheck.replace mistake within C h
    exact ⟨_, _, .mk h, replaced.append (muted.report (fitsReport · ty ·) fun _ => rfl)⟩

theorem VarDeclCheck.replace (mistake : Mistake Γ x report) (within : Γ.symbols.Within path)
    (C : Source.VarDeclCtx) {d : Typed.VarDecl} {log : Log}
    (h : VarDeclCheck Γ path (C.fill s) d log) :
    ∃ d₁ log₁, VarDeclCheck Γ path (C.fill x) d₁ log₁ ∧
      Replaced Γ (C.reach Γ) path path s report log log₁ := by
  cases h with
  | plain _ absent => cases absent
  | init named present h =>
    cases present
    obtain ⟨e₁, log₁, h, replaced⟩ := FitsCheck.replace mistake within C.init h
    exact ⟨_, log₁, .init named rfl h, replaced.beside fun _ => declared_eq_ok.2 ⟨named, rfl⟩⟩

theorem ForInitCheck.replace (mistake : Mistake Γ x report) (within : Γ.symbols.Within path)
    (C : Source.ForInitCtx) {init : Option Typed.ForInit} {log : Log}
    (h : ForInitCheck Γ path (some (C.fill s)) init log) :
    ∃ init₁ log₁, ForInitCheck Γ path (some (C.fill x)) init₁ log₁ ∧
      Replaced Γ (C.reach Γ) path path s report log log₁ := by
  cases C with
  | inDecl C =>
    cases h with
    | decl h =>
      obtain ⟨d₁, log₁, h, replaced⟩ := VarDeclCheck.replace mistake within C h
      exact ⟨_, log₁, .decl h, replaced⟩
  | inExpr C =>
    cases h with
    | expr h =>
      obtain ⟨e₁, log₁, h, -, replaced⟩ := ExprCheck.replace mistake within C h
      exact ⟨_, log₁, .expr h, replaced⟩

/-! ## Statements -/

/-- The statements before are checked on the way. -/
theorem StmtsCheck.replace {place : ScopePath} {reach : CheckM Unit} {returnTy : Ty}
    {stmt stmt₁ : Source.Stmt}
    (inner : ∀ {stmt' log}, StmtCheck Γ returnTy path stmt stmt' log →
      ∃ stmt₁' log₁, StmtCheck Γ returnTy path stmt₁ stmt₁' log₁ ∧
        Replaced Γ reach path place s report log log₁)
    (before behind : List Source.Stmt) {ss : List Typed.Stmt} {log : Log}
    (h : StmtsCheck Γ returnTy path (before ++ stmt :: behind) ss log) :
    ∃ ss₁ log₁, StmtsCheck Γ returnTy path (before ++ stmt₁ :: behind) ss₁ log₁ ∧
      Replaced Γ (checkStmts Γ returnTy before >>= fun _ => reach) path place s report log
        log₁ := by
  induction before generalizing ss log with
  | nil =>
    cases h with
    | cons h₁ h₂ =>
      obtain ⟨s₁, log₁, h₁, replaced⟩ := inner h₁
      exact ⟨_, _, .cons h₁ h₂, replaced.before _⟩
  | cons first rest ih =>
    cases h with
    | cons h₁ h₂ =>
      obtain ⟨ss₁, log₁, h₂, replaced⟩ := ih h₂
      refine ⟨_, _, .cons h₁ h₂, ?_⟩
      simp only [checkStmts, bind_assoc, pure_bind]
      exact replaced.behind fun _ => h₁.run rfl

/-- The check of a statement around a mistake. -/
theorem StmtCheck.replace (mistake : Mistake Γ x report) {returnTy : Ty} (C : Source.StmtCtx)
    (within : Γ.symbols.Within path) {stmt : Typed.Stmt} {log : Log}
    (h : StmtCheck Γ returnTy path (C.fill s) stmt log) :
    ∃ stmt₁ log₁, StmtCheck Γ returnTy path (C.fill x) stmt₁ log₁ ∧
      Replaced Γ (C.reach Γ returnTy) path (C.path Γ.symbols path) s report log log₁ := by
  induction C generalizing path stmt log with
  | inDecl C =>
    cases h with
    | decl h =>
      obtain ⟨_, log₁, h, replaced⟩ := VarDeclCheck.replace mistake within C h
      exact ⟨_, log₁, .decl h, replaced⟩
  | inExpr C span =>
    cases h with
    | expr h =>
      obtain ⟨_, log₁, h, -, replaced⟩ := ExprCheck.replace mistake within C h
      exact ⟨_, log₁, .expr h, replaced⟩
  | inRet C span =>
    cases h with
    | ret h =>
      obtain ⟨_, log₁, h, replaced⟩ := FitsCheck.replace mistake within C h
      exact ⟨_, log₁, .ret h, replaced⟩
  | inBlock before C behind id span ih =>
    cases h with
    | block owned h =>
      obtain ⟨_, log₁, h, replaced⟩ := StmtsCheck.replace (ih (within.cons owned)) before behind h
      rw [Source.StmtCtx.path, SymbolTable.inside_eq owned]
      exact ⟨_, log₁, .block owned h, replaced.inside owned span.start⟩
  | inTest C ifTrue ifFalse span =>
    cases h with
    | ite h₁ h₂ h₃ =>
      obtain ⟨_, log₁, h₁, replaced⟩ := TestCheck.replace mistake within C h₁
      exact ⟨_, _, .ite h₁ h₂ h₃, (replaced.before _).before _⟩
  | inIfTrue test C ifFalse span ih =>
    cases h with
    | ite h₁ h₂ h₃ =>
      obtain ⟨_, log₁, h₂, replaced⟩ := ih within h₂
      exact ⟨_, _, .ite h₁ h₂ h₃, (replaced.behind fun _ => h₁.run rfl).before _⟩
  | inIfFalse test ifTrue C span ih =>
    cases h with
    | ite h₁ h₂ h₃ =>
      obtain ⟨_, log₁, h₃, replaced⟩ := ih within h₃
      have replaced := (replaced.behind fun _ => h₂.run rfl).behind fun _ => h₁.run rfl
      rw [← List.append_assoc, ← List.append_assoc] at replaced
      exact ⟨_, _, .ite h₁ h₂ h₃, replaced⟩
  | inWhileTest C body span =>
    cases h with
    | whileDo h₁ h₂ =>
      obtain ⟨_, log₁, h₁, replaced⟩ := TestCheck.replace mistake within C h₁
      exact ⟨_, _, .whileDo h₁ h₂, replaced.before _⟩
  | inWhileBody test C span ih =>
    cases h with
    | whileDo h₁ h₂ =>
      obtain ⟨_, log₁, h₂, replaced⟩ := ih within h₂
      exact ⟨_, _, .whileDo h₁ h₂, replaced.behind fun _ => h₁.run rfl⟩
  | inDoBody C test span ih =>
    cases h with
    | doWhile h₁ h₂ =>
      -- the test is checked before the body
      obtain ⟨_, log₁, h₂, replaced⟩ := ih within h₂
      exact ⟨_, _, .doWhile h₁ h₂, replaced.behind fun _ => h₁.run rfl⟩
  | inDoTest body C span =>
    cases h with
    | doWhile h₁ h₂ =>
      obtain ⟨_, log₁, h₁, replaced⟩ := TestCheck.replace mistake within C h₁
      exact ⟨_, _, .doWhile h₁ h₂, replaced.before _⟩
  | inForInit C test step body id span =>
    cases h with
    | forLoop owned h₁ h₂ h₃ h₄ =>
      obtain ⟨_, log₁, h₁, replaced⟩ := ForInitCheck.replace mistake (within.cons owned) C h₁
      rw [Source.StmtCtx.path, SymbolTable.inside_eq owned]
      exact ⟨_, _, .forLoop owned h₁ h₂ h₃ h₄,
        (((replaced.before _).before _).before _).inside owned span.start⟩
  | inForTest init C step body id span =>
    cases h with
    | forLoop owned h₁ h₂ h₃ h₄ =>
      obtain ⟨_, log₁, h₂, replaced⟩ := OptionCheck.replace mistake (within.cons owned) C h₂
      rw [Source.StmtCtx.path, SymbolTable.inside_eq owned]
      have replaced := replaced.behind fun _ => h₁.run rfl
      exact ⟨_, _, .forLoop owned h₁ h₂ h₃ h₄,
        ((replaced.before _).before _).inside owned span.start⟩
  | inForStep init test C body id span =>
    cases h with
    | forLoop owned h₁ h₂ h₃ h₄ =>
      obtain ⟨_, log₁, h₃, replaced⟩ := OptionCheck.replace mistake (within.cons owned) C h₃
      rw [Source.StmtCtx.path, SymbolTable.inside_eq owned]
      have replaced := (replaced.behind fun _ => h₂.run rfl).behind fun _ => h₁.run rfl
      rw [← List.append_assoc, ← List.append_assoc] at replaced
      exact ⟨_, _, .forLoop owned h₁ h₂ h₃ h₄, (replaced.before _).inside owned span.start⟩
  | inForBody init test step C id span ih =>
    cases h with
    | forLoop owned h₁ h₂ h₃ h₄ =>
      obtain ⟨_, log₁, h₄, replaced⟩ := ih (within.cons owned) h₄
      rw [Source.StmtCtx.path, SymbolTable.inside_eq owned]
      have replaced := ((replaced.behind fun _ => h₃.run rfl).behind fun _ => h₂.run rfl).behind
        fun _ => h₁.run rfl
      simp only [← List.append_assoc] at replaced
      exact ⟨_, _, .forLoop owned h₁ h₂ h₃ h₄, replaced.inside owned span.start⟩

/-! ## Programs -/

theorem FunctionCheck.replace (mistake : Mistake Γ x report) (C : Source.FunctionCtx)
    (within : Γ.symbols.Within path) {f : Typed.Function} {log : Log}
    (h : FunctionCheck Γ path (C.fill s) f log) :
    ∃ f₁ log₁, FunctionCheck Γ path (C.fill x) f₁ log₁ ∧
      Replaced Γ (C.reach Γ) path (C.path Γ.symbols path) s report log log₁ := by
  cases h with
  | mk named isFn owned params h =>
    obtain ⟨_, log₁, h, replaced⟩ := StmtsCheck.replace
      (StmtCheck.replace mistake C.stmt (within.cons owned)) C.before C.behind h
    refine ⟨_, log₁, .mk (f := C.fill x) named isFn owned params h, ?_⟩
    have owned : Γ.symbols.scopeIndex? C.id = some _ := owned
    rw [Source.FunctionCtx.path, SymbolTable.inside_eq owned]
    -- neither parameters nor the name of a function are reported on
    have replaced := (replaced.beside fun _ => params.run rfl).inside owned C.bodySpan.start
    exact replaced.beside fun _ => declaredFunction_eq_ok.2 ⟨named, isFn, rfl⟩

/-- The functions before are checked on the way. -/
theorem FunctionsCheck.replace (mistake : Mistake Γ x report) (C : Source.FunctionCtx)
    (within : Γ.symbols.Within path) (before behind : List Source.Function)
    {fs : List Typed.Function} {log : Log}
    (h : FunctionsCheck Γ path (before ++ C.fill s :: behind) fs log) :
    ∃ fs₁ log₁, FunctionsCheck Γ path (before ++ C.fill x :: behind) fs₁ log₁ ∧
      Replaced Γ (before.mapM (checkFunction Γ) >>= fun _ => C.reach Γ) path
        (C.path Γ.symbols path) s report log log₁ := by
  induction before generalizing fs log with
  | nil =>
    cases h with
    | cons h₁ h₂ =>
      obtain ⟨_, log₁, h₁, replaced⟩ := h₁.replace mistake C within
      exact ⟨_, _, .cons h₁ h₂, replaced.before _⟩
  | cons first rest ih =>
    cases h with
    | cons h₁ h₂ =>
      obtain ⟨_, log₁, h₂, replaced⟩ := ih h₂
      refine ⟨_, _, .cons h₁ h₂, ?_⟩
      simp only [List.mapM_cons, bind_assoc, pure_bind]
      exact replaced.behind fun _ => h₁.run rfl

/-- The check of a program around a mistake. -/
theorem ProgramCheck.replace (mistake : Mistake Γ x report) (C : Source.ProgramCtx)
    {p : Typed.Program} {log : Log} (h : ProgramCheck Γ (C.fill s) p log) :
    ∃ p₁ log₁, ProgramCheck Γ (C.fill x) p₁ log₁ ∧
      Replaced Γ (C.reach Γ) [] (C.path Γ.symbols) s report log log₁ := by
  cases h with
  | mk owned h =>
    have within : Γ.symbols.Within [] := .nil _
    obtain ⟨_, log₁, h, replaced⟩ :=
      FunctionsCheck.replace mistake C.function (within.cons owned) C.before C.behind h
    refine ⟨_, log₁, .mk (p := C.fill x) owned h, ?_⟩
    have owned : Γ.symbols.scopeIndex? C.id = some _ := owned
    rw [Source.ProgramCtx.path, SymbolTable.inside_eq owned]
    exact replaced.inside owned C.span.start

/-! ## Tables -/

namespace Declare

theorem stmts_append_congr {stmt stmt₁ : Source.Stmt}
    (same : ∀ scope, Declare.stmt scope stmt = Declare.stmt scope stmt₁) (scope : ScopeIndex)
    (before behind : List Source.Stmt) :
    stmts scope (before ++ stmt :: behind) = stmts scope (before ++ stmt₁ :: behind) := by
  induction before with
  | nil => rw [List.nil_append, List.nil_append, stmts, stmts, same]
  | cons first rest ih => rw [List.cons_append, List.cons_append, stmts, stmts, ih]

/-- What a statement declares does not depend on its expressions. -/
theorem stmt_fill (C : Source.StmtCtx) (s s₁ : Source.Expr) (scope : ScopeIndex) :
    stmt scope (C.fill s) = stmt scope (C.fill s₁) := by
  induction C generalizing scope with
  | inDecl | inExpr | inRet | inTest | inWhileTest | inDoTest | inForTest | inForStep => rfl
  | inBlock before C behind id span ih =>
    simp only [Source.StmtCtx.fill, stmt, stmts_append_congr ih]
  | inIfTrue _ _ _ _ ih | inIfFalse _ _ _ _ ih | inWhileBody _ _ _ ih | inDoBody _ _ _ ih
  | inForBody _ _ _ _ _ _ ih => simp only [Source.StmtCtx.fill, stmt, ih]
  | inForInit C =>
    cases C with
    | inDecl | inExpr => rfl

theorem body_fill (C : Source.FunctionCtx) (s s₁ : Source.Expr) :
    body (C.fill s) = body (C.fill s₁) := by
  funext fn
  simp only [body, Source.FunctionCtx.fill, stmts_append_congr (stmt_fill C.stmt s s₁)]

theorem mapM_function_fill (C : Source.FunctionCtx) (s s₁ : Source.Expr) (scope : ScopeIndex)
    (before behind : List Source.Function) :
    (before ++ C.fill s :: behind).mapM (function scope) =
      (before ++ C.fill s₁ :: behind).mapM (function scope) := by
  induction before with
  | nil => rfl
  | cons first rest ih =>
    rw [List.cons_append, List.cons_append, List.mapM_cons, List.mapM_cons, ih]

theorem forM_body_fill (C : Source.FunctionCtx) (s s₁ : Source.Expr)
    (before behind : List Source.Function) (fns : List (Option SymbolId)) :
    ((before ++ C.fill s :: behind).zip fns).forM (fun (f, fn) => body f fn) =
      ((before ++ C.fill s₁ :: behind).zip fns).forM fun (f, fn) => body f fn := by
  induction before generalizing fns with
  | nil =>
    cases fns with
    | nil => rfl
    | cons fn rest =>
      show (body (C.fill s) fn >>= fun _ => _) = body (C.fill s₁) fn >>= fun _ => _
      rw [body_fill C s s₁]
  | cons first others ih =>
    cases fns with
    | nil => rfl
    | cons fn rest => exact congrArg (body first fn >>= fun _ => ·) (ih rest)

end Declare

/-- What the first pass builds does not depend on the expressions of a program. -/
theorem ofProgram_fill (C : Source.ProgramCtx) (s s₁ : Source.Expr) :
    Declarations.ofProgram (C.fill s) = Declarations.ofProgram (C.fill s₁) := by
  simp only [Declarations.ofProgram, Declare.program, Source.ProgramCtx.fill,
    Declare.mapM_function_fill C.function s s₁, Declare.forM_body_fill C.function s s₁]

/-- The name that a step declares. -/
def Step.declaredName? : Step → Option String
  | declare s => some s.name
  | _ => none

/-- The names that a program declares. -/
def Source.Program.declaredNames (p : Source.Program) : List String :=
  p.script.filterMap Step.declaredName?

/-- A name that is declared nowhere stands for nothing. -/
theorem lookup_undeclared {p : Source.Program} {name : String}
    (undeclared : name ∉ p.declaredNames) (pos : Pos)
    (within : (Declarations.ofProgram p).table.Within path) :
    (Declarations.ofProgram p).table.lookup name pos path = .ok none := by
  induction path with
  | nil => rfl
  | cons i outer ih =>
    obtain ⟨inside, within⟩ := List.forall_mem_cons.1 within
    have found := List.getElem?_eq_getElem inside
    have missing := (declared_describes p).names i _ found name
    rw [firstIn_eq_none.2] at missing
    · rw [SymbolTable.lookup, found]
      simp only [missing]
      exact ih within
    · rintro e mem - rfl
      rcases Survey.declare_of_mem mem with old | step
      · cases old
      · exact undeclared (List.mem_filterMap.2 ⟨_, step, rfl⟩)

/-- If an expression of a program that is checked to the end is replaced by a name that the program
declares nowhere, the new program is checked to the end, too. The report on the name takes the place
of the reports on the expression: those before it, which the check issues on its way there, are the
same, and those behind it are some of those that were there. Each expression of a program is what
fills some context (`Source.Program.mem_sites_iff`). -/
theorem mistake_does_not_cascade (C : Source.ProgramCtx) (s : Source.Expr) (config : Config)
    (r : Source.Ref) (span : Span) {typed : Typed.Program} {log : Log}
    (undeclared : r.name ∉ (C.fill s).declaredNames)
    (checked : checkProgram ⟨(Declarations.ofProgram (C.fill s)).table, config⟩ (C.fill s) =
      .ok (typed, log)) :
    let Γ : CheckContext := ⟨(Declarations.ofProgram (C.fill s)).table, config⟩
    let p := C.fill (.var r span)
    ∃ pre own post s', log = pre ++ own ++ post ∧
      C.reach Γ {} = .ok () ⟨C.path Γ.symbols, pre⟩ ∧
      checkExpr Γ s ⟨C.path Γ.symbols, pre⟩ = .ok s' ⟨C.path Γ.symbols, pre ++ own⟩ ∧
      ∃ typed₁ post₁, checkProgram ⟨(Declarations.ofProgram p).table, config⟩ p =
          .ok (typed₁, pre ++ [⟨.symbolNotFound r.name, r.span.start⟩] ++ post₁) ∧
        post₁.Sublist post := by
  intro Γ p
  have mistake : Mistake Γ (.var r span) ⟨.symbolNotFound r.name, r.span.start⟩ :=
    fun path within => ⟨_, .var (.notFound (lookup_undeclared undeclared _ within)), rfl⟩
  obtain ⟨typed₁, log₁, check, replaced⟩ := (checkProgram_shape checked).replace mistake C
  cases replaced with
  | mk reached own sub =>
    refine ⟨_, _, _, _, rfl, reached [], own.run rfl, typed₁, _, ?_, sub⟩
    rw [ofProgram_fill C (.var r span) s]
    exact check.run

/-- The extent of a node at one place of a file. -/
def spot (offset : Nat) : Span := Span.at ⟨offset, "t"⟩

/-- `int main() { void v; w; int x = -[ ]; return y; }` -/
def negated : Source.ProgramCtx :=
  ⟨[], ⟨"main", [], .int,
    [.decl ⟨"v", .void, none, spot 1⟩, .expr (.var ⟨"w", spot 2⟩ (spot 2)) (spot 3)],
    .inDecl ⟨"x", .int, .inOperand .negate .here (spot 5), spot 6⟩,
    [.ret (.var ⟨"y", spot 7⟩ (spot 7)) (spot 8)], 1, spot 9, spot 9⟩, [], 0, spot 9⟩

/-- `v` is not reported itself, but only what is made of it. -/
theorem mistake_does_not_cascade_of_negated :
    let p := negated.fill (.var ⟨"v", spot 4⟩ (spot 4))
    let Γ : CheckContext := ⟨(Declarations.ofProgram p).table, {}⟩
    let p' := negated.fill (.var ⟨"z", spot 4⟩ (spot 4))
    "z" ∉ p.declaredNames ∧
      ∃ (typed typed₁ : Typed.Program) (pre own post post₁ : Log),
        checkProgram Γ p = .ok (typed, pre ++ own ++ post) ∧
        (pre ++ own ++ post).map Error.cause =
          [.symbolNotFound "w", .unexpectedType "int" "void", .symbolNotFound "y"] ∧
        negated.reach Γ {} = .ok () ⟨negated.path Γ.symbols, pre⟩ ∧
        pre.map Error.cause = [.symbolNotFound "w"] ∧
        checkProgram ⟨(Declarations.ofProgram p').table, {}⟩ p' =
          .ok (typed₁, pre ++ [⟨.symbolNotFound "z", (spot 4).start⟩] ++ post₁) ∧
        post₁.Sublist post ∧
        (pre ++ [⟨.symbolNotFound "z", (spot 4).start⟩] ++ post₁ : Log).map Error.cause =
          [.symbolNotFound "w", .symbolNotFound "z", .symbolNotFound "y"] := by
  intro p Γ p'
  have undeclared : "z" ∉ p.declaredNames := by decide +kernel
  have causes : (checkProgram Γ p).toOption.map (fun result => result.2.map Error.cause) =
      some [.symbolNotFound "w", .unexpectedType "int" "void", .symbolNotFound "y"] := by
    decide +kernel
  have before : (finalState (negated.reach Γ) {}).log.map Error.cause = [.symbolNotFound "w"] := by
    decide +kernel
  have causes₁ : (checkProgram ⟨(Declarations.ofProgram p').table, {}⟩ p').toOption.map
      (fun result => result.2.map Error.cause) =
        some [.symbolNotFound "w", .symbolNotFound "z", .symbolNotFound "y"] := by
    decide +kernel
  match checked : checkProgram Γ p with
  | .error e => simp [checked, Except.toOption] at causes
  | .ok (typed, log) =>
    rw [checked] at causes
    obtain ⟨pre, own, post, s', rfl, reached, -, typed₁, post₁, checked₁, sub⟩ :=
      mistake_does_not_cascade negated _ {} ⟨"z", spot 4⟩ (spot 4) undeclared checked
    rw [show checkProgram ⟨(Declarations.ofProgram p').table, {}⟩ p' = .ok (typed₁, _)
      from checked₁] at causes₁
    rw [finalState, show negated.reach Γ {} = _ from reached] at before
    exact ⟨undeclared, typed, typed₁, pre, own, post, post₁, rfl, Option.some.inj causes, reached,
      before, checked₁, sub, Option.some.inj causes₁⟩

end MiddleEnd
