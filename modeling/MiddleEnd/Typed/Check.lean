import MiddleEnd.Typed.CheckState
import MiddleEnd.Typed.Tree

/-!
# Checking a program

The second pass gives every expression its type and every reference its symbol.

* A constant is an `int`, and unary and binary operators take and give `int`s.
* A reference has the type of the variable that its name stands for. A name that stands for nothing,
  or for a function, is reported, and its type is `error`.
* An assignment has the type of its target, which the value must fit.
* A conditional has the type of its second branch. Where the settings are strict, that must fit the
  type of the first one.
* The conditions of `if`, `while`, `do` and conditionals are `int`s. The test of a `for` may have
  any type, and so may its other clauses.
* An initializer must fit its declaration, a returned value its function.

Children are checked from left to right, the target of an assignment before its value, and the test
of a `do` before its body.
-/

namespace MiddleEnd

open CheckM

/-- Resolves a reference. -/
def checkRef (Γ : CheckContext) (r : Source.Ref) : CheckM Typed.Ref := do
  match ← lookup Γ r.name r.span.start with
  | none =>
    issue (.symbolNotFound r.name) r.span.start
    return .unresolved r.name r.span
  | some id =>
    match ← symbol Γ id with
    | .fn _ =>
      issue (.notVariable r.name) r.span.start
      return .unresolved r.name r.span
    | .var v => return ⟨r.name, some id, some v.storage, v.ty, r.span⟩

/-- Checks an expression. -/
def checkExpr (Γ : CheckContext) : Source.Expr → CheckM Typed.Expr
  | .const value span => return .const value .int span
  | .var ref span => do
    let ref ← checkRef Γ ref
    return .var ref ref.ty span
  | .unary op operand span => do
    let operand ← checkExpr Γ operand
    expectTy operand.span.start .int operand.ty
    return .unary op operand .int span
  | .binary op left right span => do
    let left ← checkExpr Γ left
    expectTy left.span.start .int left.ty
    let right ← checkExpr Γ right
    expectTy right.span.start .int right.ty
    return .binary op left right .int span
  | .assign target value span => do
    let target ← checkRef Γ target
    let value ← checkExpr Γ value
    expectFits span.start target.ty value.ty
    return .assign target value target.ty span
  | .cond test ifTrue ifFalse span => do
    let test ← checkExpr Γ test
    expectTest test.span.start test.ty
    let ifTrue ← checkExpr Γ ifTrue
    let ifFalse ← checkExpr Γ ifFalse
    expectBranches Γ.config ifFalse.span.start ifTrue.ty ifFalse.ty
    return .cond test ifTrue ifFalse ifFalse.ty span

/-- Checks an expression that may be absent. -/
def checkOption (Γ : CheckContext) : Option Source.Expr → CheckM (Option Typed.Expr)
  | none => return none
  | some e => return some (← checkExpr Γ e)

/-- Checks the condition of a statement. -/
def checkTest (Γ : CheckContext) (test : Source.Expr) : CheckM Typed.Expr := do
  let test ← checkExpr Γ test
  expectTest test.span.start test.ty
  return test

/-- Checks an expression whose value must fit a type. -/
def checkFits (Γ : CheckContext) (ty : Ty) (e : Source.Expr) : CheckM Typed.Expr := do
  let e ← checkExpr Γ e
  expectFits e.span.start ty e.ty
  return e

/-- Checks an initializer, which may be absent. -/
def checkInit (Γ : CheckContext) (ty : Ty) : Option Source.Expr → CheckM (Option Typed.Expr)
  | none => return none
  | some e => return some (← checkFits Γ ty e)

/-- Checks a declaration. Its symbol is looked for before its initializer is read. -/
def checkVarDecl (Γ : CheckContext) (d : Source.VarDecl) : CheckM Typed.VarDecl := do
  let id ← declared Γ d.name d.span.start
  let init ← checkInit Γ d.ty d.init
  return ⟨d.name, id, d.ty, init, d.span⟩

/-- Checks the first clause of a `for`. -/
def checkForInit (Γ : CheckContext) : Option Source.ForInit → CheckM (Option Typed.ForInit)
  | none => return none
  | some (.decl d) => return some (.decl (← checkVarDecl Γ d))
  | some (.expr e) => return some (.expr (← checkExpr Γ e))

mutual

/-- Checks a statement of a function that returns `returnTy`. -/
def checkStmt (Γ : CheckContext) (returnTy : Ty) : Source.Stmt → CheckM Typed.Stmt
  | .decl d => return .decl (← checkVarDecl Γ d)
  | .expr e _ => return .expr (← checkExpr Γ e)
  | .empty _ => return .empty
  | .block body id span => do
    let body ← inScope Γ id span.start (checkStmts Γ returnTy body)
    return .block body
  | .ite test ifTrue ifFalse _ => do
    let test ← checkTest Γ test
    let ifTrue ← checkStmt Γ returnTy ifTrue
    let ifFalse ← checkStmt Γ returnTy ifFalse
    return .ite test ifTrue ifFalse
  | .whileDo test body _ => do
    let test ← checkTest Γ test
    let body ← checkStmt Γ returnTy body
    return .whileDo test body
  | .doWhile body test _ => do
    let test ← checkTest Γ test
    let body ← checkStmt Γ returnTy body
    return .doWhile body test
  | .forLoop init test step body id span =>
    inScope Γ id span.start do
      let init ← checkForInit Γ init
      let test ← checkOption Γ test
      let step ← checkOption Γ step
      let body ← checkStmt Γ returnTy body
      return .forLoop init test step body
  | .brk span => return .brk span
  | .cont span => return .cont span
  | .ret value _ => return .ret (← checkFits Γ returnTy value)

/-- Checks a list of statements in the scope that is open. -/
def checkStmts (Γ : CheckContext) (returnTy : Ty) : List Source.Stmt → CheckM (List Typed.Stmt)
  | [] => return []
  | s :: rest => do
    let s ← checkStmt Γ returnTy s
    let rest ← checkStmts Γ returnTy rest
    return s :: rest

end

/-- Checks a parameter in the scope of its function. -/
def checkParam (Γ : CheckContext) (p : Source.Param) : CheckM Typed.Param := do
  let id ← declared Γ p.name p.span.start
  return ⟨p.name, id, p.span⟩

/-- Checks a function. The symbol of its name must be one of a function. -/
def checkFunction (Γ : CheckContext) (f : Source.Function) : CheckM Typed.Function := do
  let id ← declaredFunction Γ f.name f.span.start
  inScope Γ f.body.id f.body.span.start do
    let params ← f.params.mapM (checkParam Γ)
    let body ← checkStmts Γ f.returnTy f.body.stmts
    return ⟨f.name, id, params, f.returnTy, body, f.span⟩

/-- Checks the functions of a program in the global scope. -/
def checkFunctions (Γ : CheckContext) (p : Source.Program) : CheckM (List Typed.Function) :=
  inScope Γ p.id p.span.start (p.functions.mapM (checkFunction Γ))

/-- Checks a program: the typed program and what was issued. -/
def checkProgram (Γ : CheckContext) (p : Source.Program) : Except Abort (Typed.Program × Log) :=
  match (checkFunctions Γ p).run {} with
  | .ok functions s => .ok (⟨functions⟩, s.log)
  | .error abort _ => .error abort

end MiddleEnd
