import MiddleEnd.Position
import MiddleEnd.Source.Ty
import MiddleEnd.Source.Operator

/-!
# Source trees

The trees that the passes read: expressions, statements, functions, programs. Every node carries its
span. The nodes that own a scope (program, function body, block, `for`) also carry an id, under
which the scope is found again.
-/

namespace MiddleEnd

/-- The id of a node that owns a scope. -/
abbrev NodeId := Int

namespace Source

/-- A use of a variable by name. -/
structure Ref where
  name : String
  span : Span
deriving DecidableEq

/-- An expression. `assign` yields the assigned value; `cond` yields one of two branches. -/
inductive Expr
  | const (value : Int) (span : Span)
  | var (ref : Ref) (span : Span)
  | unary (op : UnaryOp) (operand : Expr) (span : Span)
  | binary (op : BinaryOp) (left right : Expr) (span : Span)
  | assign (target : Ref) (value : Expr) (span : Span)
  | cond (test ifTrue ifFalse : Expr) (span : Span)
deriving DecidableEq

/-- The declaration of a local variable, with or without an initializer. -/
structure VarDecl where
  name : String
  ty : Ty
  init : Option Expr
  span : Span
deriving DecidableEq

/-- The first clause of a `for`: a declared loop variable or an expression. -/
inductive ForInit
  | decl (decl : VarDecl)
  | expr (expr : Expr)
deriving DecidableEq

/-- A statement. `block` and `forLoop` own a scope. An `ite` always has both branches. -/
inductive Stmt
  | decl (decl : VarDecl)
  | expr (expr : Expr) (span : Span)
  | empty (span : Span)
  | block (body : List Stmt) (id : NodeId) (span : Span)
  | ite (test : Expr) (ifTrue ifFalse : Stmt) (span : Span)
  | whileDo (test : Expr) (body : Stmt) (span : Span)
  | doWhile (body : Stmt) (test : Expr) (span : Span)
  | forLoop (init : Option ForInit) (test step : Option Expr) (body : Stmt) (id : NodeId)
      (span : Span)
  | brk (span : Span)
  | cont (span : Span)
  | ret (value : Expr) (span : Span)

/-- A formal parameter. -/
structure Param where
  name : String
  ty : Ty
  span : Span
deriving DecidableEq

/-- The body of a function. It owns the scope that parameters and top-level statements share. -/
structure Body where
  stmts : List Stmt
  id : NodeId
  span : Span

/-- A function definition. -/
structure Function where
  name : String
  params : List Param
  returnTy : Ty
  body : Body
  span : Span

/-- A unit: its functions in source order. It owns the global scope. -/
structure Program where
  functions : List Function
  id : NodeId
  span : Span

/-- The span of an expression. -/
def Expr.span : Expr → Span
  | .const _ s | .var _ s | .unary _ _ s | .binary _ _ _ s | .assign _ _ s | .cond _ _ _ s => s

/-- The span of a statement. -/
def Stmt.span : Stmt → Span
  | .decl d => d.span
  | .expr _ s | .empty s | .block _ _ s | .ite _ _ _ s | .whileDo _ _ s | .doWhile _ _ s
  | .forLoop _ _ _ _ _ s | .brk s | .cont s | .ret _ s => s

/-- The declaration that a `for` starts with, if it starts with one. -/
def ForInit.decl? : ForInit → Option VarDecl
  | .decl d => some d
  | .expr _ => none

end Source
end MiddleEnd
