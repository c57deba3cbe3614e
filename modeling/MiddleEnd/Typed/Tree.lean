import MiddleEnd.Scope.Symbol

/-!
# Typed trees

What checking makes of a source tree: every expression carries its type, every reference the symbol
it was resolved to, every declaration and parameter its symbol. Lowering reads these trees and never
asks for a type again. Statements keep a span only where lowering may have to report one.
-/

namespace MiddleEnd.Typed

/-- A resolved use of a name. A use that could not be resolved has no symbol, no storage and the
type `error`. -/
structure Ref where
  name : String
  symbol : Option SymbolId
  storage : Option Storage
  ty : Ty
  span : Span
deriving DecidableEq

/-- An expression with its type. -/
inductive Expr
  | const (value : Int) (ty : Ty) (span : Span)
  | var (ref : Ref) (ty : Ty) (span : Span)
  | unary (op : UnaryOp) (operand : Expr) (ty : Ty) (span : Span)
  | binary (op : BinaryOp) (left right : Expr) (ty : Ty) (span : Span)
  | assign (target : Ref) (value : Expr) (ty : Ty) (span : Span)
  | cond (test ifTrue ifFalse : Expr) (ty : Ty) (span : Span)
deriving DecidableEq

/-- A declaration of a local variable. -/
structure VarDecl where
  name : String
  symbol : SymbolId
  ty : Ty
  init : Option Expr
  span : Span
deriving DecidableEq

/-- The first clause of a `for`. -/
inductive ForInit
  | decl (decl : VarDecl)
  | expr (expr : Expr)
deriving DecidableEq

/-- A statement. -/
inductive Stmt
  | decl (decl : VarDecl)
  | expr (expr : Expr)
  | empty
  | block (body : List Stmt)
  | ite (test : Expr) (ifTrue ifFalse : Stmt)
  | whileDo (test : Expr) (body : Stmt)
  | doWhile (body : Stmt) (test : Expr)
  | forLoop (init : Option ForInit) (test step : Option Expr) (body : Stmt)
  | brk (span : Span)
  | cont (span : Span)
  | ret (value : Expr)

/-- A formal parameter. -/
structure Param where
  name : String
  symbol : SymbolId
  span : Span
deriving DecidableEq

/-- A function. -/
structure Function where
  name : String
  symbol : SymbolId
  params : List Param
  returnTy : Ty
  body : List Stmt
  span : Span

/-- A checked unit. -/
structure Program where
  functions : List Function

/-- The type of an expression. -/
def Expr.ty : Expr → Ty
  | .const _ t _ | .var _ t _ | .unary _ _ t _ | .binary _ _ _ t _ | .assign _ _ t _
  | .cond _ _ _ t _ => t

/-- The span of an expression. -/
def Expr.span : Expr → Span
  | .const _ _ s | .var _ _ s | .unary _ _ _ s | .binary _ _ _ _ s | .assign _ _ _ s
  | .cond _ _ _ _ s => s

/-- A use of a name that could not be resolved. -/
def Ref.unresolved (name : String) (span : Span) : Ref := ⟨name, none, none, .error, span⟩

end MiddleEnd.Typed
