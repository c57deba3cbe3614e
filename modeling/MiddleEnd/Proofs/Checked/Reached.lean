import MiddleEnd.Proofs.Checked.Shape
import MiddleEnd.Proofs.Checked.Sites

/-!
# On the way to an expression

Before a check comes to an expression, it has opened the scopes around it and has checked all that
is checked before it. `reach` is this part of the check, for what stands around the expression. It
follows the order of checking and not that of the source: the target of an assignment is looked up
before its value is checked, a declaration before its initializer, and the test of a `do` is checked
before its body.

Results:
1. `Reaches.behind`, `Reaches.inside`: one more step, or one more scope, on the way.
-/

namespace MiddleEnd

open CheckM

/-- Opens the scope of a node for all that follows. -/
def CheckM.openScope (Γ : CheckContext) (id : NodeId) (pos : Pos) : CheckM Unit := fun s =>
  match Γ.symbols.scopeIndex? id with
  | none => .error (.error ⟨.unknownScope id, pos⟩) s
  | some index => .ok () (s.inside index)

/-- Checks an operand. -/
def checkOperand (Γ : CheckContext) (e : Source.Expr) : CheckM Typed.Expr := do
  let e ← checkExpr Γ e
  expectTy e.span.start .int e.ty
  return e

theorem ExprCheck.runOperand {Γ : CheckContext} {path : ScopePath} {e : Source.Expr}
    {e' : Typed.Expr} {log : Log} (h : ExprCheck Γ path e e' log) {s : CheckState}
    (here : s.path = path) :
    checkOperand Γ e s = .ok e' (s.issued (log ++ tyReport e'.span.start .int e'.ty)) := by
  rw [checkOperand, bind_of_ok (h.run here), bind_of_ok (expectTy_eq ..), CheckState.issued_issued]
  rfl

/-! ## What is checked before -/

namespace Source

variable (Γ : CheckContext)

/-- The checks before the place of a context. -/
def ExprCtx.reach : ExprCtx → CheckM Unit
  | .here => pure ()
  | .inOperand _ C _ | .inLeft _ C _ _ | .inTest C _ _ _ => C.reach
  | .inRight _ left C _ => do
    let _ ← checkOperand Γ left
    C.reach
  | .inValue target C _ => do
    let _ ← checkRef Γ target
    C.reach
  | .inIfTrue test C _ _ => do
    let _ ← checkTest Γ test
    C.reach
  | .inIfFalse test ifTrue C _ => do
    let _ ← checkTest Γ test
    let _ ← checkExpr Γ ifTrue
    C.reach

/-- The checks before the place of a context. -/
def VarDeclCtx.reach (C : VarDeclCtx) : CheckM Unit := do
  let _ ← declared Γ C.name C.span.start
  C.init.reach Γ

/-- The checks before the place of a context. -/
def ForInitCtx.reach : ForInitCtx → CheckM Unit
  | .inDecl C => C.reach Γ
  | .inExpr C => C.reach Γ

/-- The checks before the place of a context in a function that returns `returnTy`. -/
def StmtCtx.reach (returnTy : Ty) : StmtCtx → CheckM Unit
  | .inDecl C => C.reach Γ
  | .inExpr C _ | .inRet C _ | .inTest C _ _ _ | .inWhileTest C _ _ | .inDoTest _ C _ => C.reach Γ
  | .inBlock before C _ id span => do
    openScope Γ id span.start
    let _ ← checkStmts Γ returnTy before
    C.reach returnTy
  | .inIfTrue test C _ _ | .inWhileBody test C _ | .inDoBody C test _ => do
    let _ ← checkTest Γ test
    C.reach returnTy
  | .inIfFalse test ifTrue C _ => do
    let _ ← checkTest Γ test
    let _ ← checkStmt Γ returnTy ifTrue
    C.reach returnTy
  | .inForInit C _ _ _ id span => do
    openScope Γ id span.start
    C.reach Γ
  | .inForTest init C _ _ id span => do
    openScope Γ id span.start
    let _ ← checkForInit Γ init
    C.reach Γ
  | .inForStep init test C _ id span => do
    openScope Γ id span.start
    let _ ← checkForInit Γ init
    let _ ← checkOption Γ test
    C.reach Γ
  | .inForBody init test step C id span => do
    openScope Γ id span.start
    let _ ← checkForInit Γ init
    let _ ← checkOption Γ test
    let _ ← checkOption Γ step
    C.reach returnTy

/-- The checks before the place of a context. -/
def FunctionCtx.reach (C : FunctionCtx) : CheckM Unit := do
  let _ ← declaredFunction Γ C.name C.span.start
  openScope Γ C.id C.bodySpan.start
  let _ ← C.params.mapM (checkParam Γ)
  let _ ← checkStmts Γ C.returnTy C.before
  C.stmt.reach Γ C.returnTy

/-- The checks before the place of a context. -/
def ProgramCtx.reach (C : ProgramCtx) : CheckM Unit := do
  openScope Γ C.id C.span.start
  let _ ← C.before.mapM (checkFunction Γ)
  C.function.reach Γ

end Source

/-! ## What they do -/

/-- The checks before a place lead from the open scopes `outer` to `path` and issue `pre`. -/
def Reaches (reach : CheckM Unit) (outer path : ScopePath) (pre : Log) : Prop :=
  ∀ log, reach ⟨outer, log⟩ = .ok () ⟨path, log ++ pre⟩

namespace Reaches

variable {Γ : CheckContext} {reach : CheckM Unit} {outer path : ScopePath} {pre : Log}

theorem here : Reaches (pure ()) path path [] := by
  intro log
  rw [List.append_nil]
  rfl

/-- A step that leaves the scopes alone comes before the others. -/
theorem behind {x : CheckM α} {a : α} {before : Log} (h : Reaches reach outer path pre)
    (ran : ∀ log, x ⟨outer, log⟩ = .ok a ⟨outer, log ++ before⟩) :
    Reaches (x >>= fun _ => reach) outer path (before ++ pre) := by
  intro log
  rw [bind_of_ok (ran log), h, List.append_assoc]

/-- A scope is opened before the others. -/
theorem inside {id : NodeId} {index : ScopeIndex} (h : Reaches reach (index :: outer) path pre)
    (owned : Γ.symbols.scopeIndex? id = some index) (pos : Pos) :
    Reaches (openScope Γ id pos >>= fun _ => reach) outer path pre := by
  intro log
  have opened : openScope Γ id pos ⟨outer, log⟩ = .ok () ⟨index :: outer, log⟩ := by
    rw [openScope, owned]
    rfl
  rw [bind_of_ok opened, h]

end Reaches
end MiddleEnd
