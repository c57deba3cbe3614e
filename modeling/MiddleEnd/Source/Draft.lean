import MiddleEnd.Source.Builder

/-!
# Drafts

A draft is a tree without positions and ids. `place` builds it: children before their parent and
from left to right, in the order in which each constructor lists them. So an initializer stands
before its declaration, an assigned value before the name it goes to, the body of a `do` before its
test, the three clauses of a `for` before its body, and the parameters of a function before its
body.
-/

namespace MiddleEnd.Draft

open Source (Build Builder)

/-- An expression to be placed. -/
inductive Expr
  | const (value : Int)
  | var (name : String)
  | unary (op : UnaryOp) (operand : Expr)
  | binary (op : BinaryOp) (left right : Expr)
  | assign (target : String) (value : Expr)
  | cond (test ifTrue ifFalse : Expr)
deriving DecidableEq

/-- A declaration to be placed. -/
structure VarDecl where
  name : String
  ty : Ty
  init : Option Expr
deriving DecidableEq

/-- The first clause of a `for` to be placed. -/
inductive ForInit
  | decl (decl : VarDecl)
  | expr (expr : Expr)
deriving DecidableEq

/-- A statement to be placed. `ifThen` is an `if` without a second branch. -/
inductive Stmt
  | decl (decl : VarDecl)
  | expr (expr : Expr)
  | empty
  | block (body : List Stmt)
  | ifThen (test : Expr) (ifTrue : Stmt)
  | ite (test : Expr) (ifTrue ifFalse : Stmt)
  | whileDo (test : Expr) (body : Stmt)
  | doWhile (body : Stmt) (test : Expr)
  | forLoop (init : Option ForInit) (test step : Option Expr) (body : Stmt)
  | brk
  | cont
  | ret (value : Expr)

/-- A parameter to be placed. -/
structure Param where
  name : String
  ty : Ty
deriving DecidableEq

/-- A function to be placed. -/
structure Function where
  name : String
  params : List Param
  returnTy : Ty
  body : List Stmt

/-- A program to be placed. -/
structure Program where
  functions : List Function

/-! ## Placing -/

/-- Places an expression. -/
def Expr.place : Expr → Build Source.Expr
  | .const value => Builder.const value
  | .var name => Builder.var name
  | .unary op operand => do
    let operand ← operand.place
    Builder.unary op operand
  | .binary op left right => do
    let left ← left.place
    let right ← right.place
    Builder.binary op left right
  | .assign target value => do
    let value ← value.place
    Builder.assign target value
  | .cond test ifTrue ifFalse => do
    let test ← test.place
    let ifTrue ← ifTrue.place
    let ifFalse ← ifFalse.place
    Builder.cond test ifTrue ifFalse

/-- Places an expression that may be absent. -/
def placeOption : Option Expr → Build (Option Source.Expr)
  | none => return none
  | some e => return some (← e.place)

/-- Places a declaration. -/
def VarDecl.place (d : VarDecl) : Build Source.VarDecl := do
  let init ← placeOption d.init
  Builder.varDecl d.name d.ty init

/-- Places the first clause of a `for`. -/
def ForInit.place : Option ForInit → Build (Option Source.ForInit)
  | none => return none
  | some (.decl d) => return some (.decl (← d.place))
  | some (.expr e) => return some (.expr (← e.place))

mutual

/-- Places a statement. -/
def Stmt.place : Stmt → Build Source.Stmt
  | .decl d => do
    let init ← placeOption d.init
    Builder.decl d.name d.ty init
  | .expr e => do
    let e ← e.place
    Builder.expr e
  | .empty => Builder.empty
  | .block body => do
    let body ← placeStmts body
    Builder.block body
  | .ifThen test ifTrue => do
    let test ← test.place
    let ifTrue ← ifTrue.place
    Builder.ite test ifTrue none
  | .ite test ifTrue ifFalse => do
    let test ← test.place
    let ifTrue ← ifTrue.place
    let ifFalse ← ifFalse.place
    Builder.ite test ifTrue (some ifFalse)
  | .whileDo test body => do
    let test ← test.place
    let body ← body.place
    Builder.whileDo test body
  | .doWhile body test => do
    let body ← body.place
    let test ← test.place
    Builder.doWhile body test
  | .forLoop init test step body => do
    let init ← ForInit.place init
    let test ← placeOption test
    let step ← placeOption step
    let body ← body.place
    Builder.forLoop init test step body
  | .brk => Builder.brk
  | .cont => Builder.cont
  | .ret value => do
    let value ← value.place
    Builder.ret value

/-- Places a list of statements. -/
def placeStmts : List Stmt → Build (List Source.Stmt)
  | [] => return []
  | s :: rest => do
    let s ← s.place
    let rest ← placeStmts rest
    return s :: rest

end

/-- Places a parameter. -/
def Param.place (p : Param) : Build Source.Param := Builder.param p.name p.ty

/-- Places a function. -/
def Function.place (f : Function) : Build Source.Function := do
  let params ← f.params.mapM Param.place
  let body ← placeStmts f.body
  Builder.function f.name params f.returnTy body

/-- Places a program. -/
def Program.place (p : Program) : Build Source.Program := do
  let functions ← p.functions.mapM Function.place
  Builder.program functions

end MiddleEnd.Draft
