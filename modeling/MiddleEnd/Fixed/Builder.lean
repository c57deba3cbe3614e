import MiddleEnd.Fixed.Word
import MiddleEnd.Source.Draft

/-!
# Building trees with counters of fixed width

The builder with its counters in words. A position or an id is handed out only after its counter has
been moved on, so a run that stops for want of a word makes no node. Drafts are placed by the same
walk as in `MiddleEnd.Draft`.
-/

namespace MiddleEnd.Fixed

/-- The file being built and the next position and id in it. -/
structure Builder where
  file : String
  pos : UInt32 := 0
  nextId : Int32 := 0
deriving DecidableEq

/-- A step of building. It makes nothing if the run stops. -/
abbrev Build := StateT Builder Option

namespace Builder

/-- Takes the next position. -/
def span (o : Overflow) : Build Span := fun b =>
  (o.succ b.pos).map fun pos => (.at ⟨b.pos.toNat, b.file⟩, { b with pos })

/-- Takes the next id. -/
def freshId (o : Overflow) : Build NodeId := fun b =>
  (o.add b.nextId 1).map fun nextId => (b.nextId.toInt, { b with nextId })

end Builder

open Builder

variable (o : Overflow)

/-- Places a name. -/
def placeRef (name : String) : Build Source.Ref := return ⟨name, ← span o⟩

/-- Places an expression. The target of an assignment is positioned after the value and before the
assignment. -/
def placeExpr : Draft.Expr → Build Source.Expr
  | .const value => return .const value (← span o)
  | .var name => do
    let r ← placeRef o name
    return .var r r.span
  | .unary op operand => do
    let operand ← placeExpr operand
    return .unary op operand (← span o)
  | .binary op left right => do
    let left ← placeExpr left
    let right ← placeExpr right
    return .binary op left right (← span o)
  | .assign target value => do
    let value ← placeExpr value
    let r ← placeRef o target
    return .assign r value (← span o)
  | .cond test ifTrue ifFalse => do
    let test ← placeExpr test
    let ifTrue ← placeExpr ifTrue
    let ifFalse ← placeExpr ifFalse
    return .cond test ifTrue ifFalse (← span o)

/-- Places an expression that may be absent. -/
def placeOption : Option Draft.Expr → Build (Option Source.Expr)
  | none => return none
  | some e => return some (← placeExpr o e)

/-- Places a declaration. -/
def placeVarDecl (d : Draft.VarDecl) : Build Source.VarDecl := do
  let init ← placeOption o d.init
  return ⟨d.name, d.ty, init, ← span o⟩

/-- Places the first clause of a `for`. -/
def placeForInit : Option Draft.ForInit → Build (Option Source.ForInit)
  | none => return none
  | some (.decl d) => return some (.decl (← placeVarDecl o d))
  | some (.expr e) => return some (.expr (← placeExpr o e))

mutual

/-- Places a statement. A missing second branch becomes an empty statement that stands where the
`if` stands. -/
def placeStmt : Draft.Stmt → Build Source.Stmt
  | .decl d => return .decl (← placeVarDecl o d)
  | .expr e => do
    let e ← placeExpr o e
    return .expr e (← span o)
  | .empty => return .empty (← span o)
  | .block body => do
    let body ← placeStmts body
    let id ← freshId o
    return .block body id (← span o)
  | .ifThen test ifTrue => do
    let test ← placeExpr o test
    let ifTrue ← placeStmt ifTrue
    let s ← span o
    return .ite test ifTrue (.empty s) s
  | .ite test ifTrue ifFalse => do
    let test ← placeExpr o test
    let ifTrue ← placeStmt ifTrue
    let ifFalse ← placeStmt ifFalse
    return .ite test ifTrue ifFalse (← span o)
  | .whileDo test body => do
    let test ← placeExpr o test
    let body ← placeStmt body
    return .whileDo test body (← span o)
  | .doWhile body test => do
    let body ← placeStmt body
    let test ← placeExpr o test
    return .doWhile body test (← span o)
  | .forLoop init test step body => do
    let init ← placeForInit o init
    let test ← placeOption o test
    let step ← placeOption o step
    let body ← placeStmt body
    let id ← freshId o
    return .forLoop init test step body id (← span o)
  | .brk => return .brk (← span o)
  | .cont => return .cont (← span o)
  | .ret value => do
    let value ← placeExpr o value
    return .ret value (← span o)

/-- Places a list of statements. -/
def placeStmts : List Draft.Stmt → Build (List Source.Stmt)
  | [] => return []
  | s :: rest => do
    let s ← placeStmt s
    let rest ← placeStmts rest
    return s :: rest

end

/-- Places a parameter. -/
def placeParam (p : Draft.Param) : Build Source.Param := return ⟨p.name, p.ty, ← span o⟩

/-- Places a function. The body takes its id and position first, then the function its position. -/
def placeFunction (f : Draft.Function) : Build Source.Function := do
  let params ← f.params.mapM (placeParam o)
  let body ← placeStmts o f.body
  let id ← freshId o
  let s ← span o
  return ⟨f.name, params, f.returnTy, ⟨body, id, s⟩, ← span o⟩

/-- Places a program. -/
def placeProgram (p : Draft.Program) : Build Source.Program := do
  let functions ← p.functions.mapM (placeFunction o)
  let id ← freshId o
  return ⟨functions, id, ← span o⟩

end MiddleEnd.Fixed
