import MiddleEnd.Source.Tree

/-!
# Nodes in reading order

`Stmt.nodes s` lists `s` and everything below it, each node before its children and the children
from left to right as they are written. Three places need a word: the declaration that a `for`
starts with is part of the `for` and no node of its own, so that only its initializer is listed; a
reference is part of the expression that holds it; and the body of a `do` stands before its test.
-/

namespace MiddleEnd.Source

/-- What a node is. -/
inductive Kind
  | const | var | unary | binary | assign | cond
  | decl | exprStmt | empty | block | ite | whileDo | doWhile | forLoop | brk | cont | ret
deriving DecidableEq

/-- A node of a function's body. -/
inductive Node
  | expr (expr : Expr)
  | stmt (stmt : Stmt)

/-- What an expression is. -/
def Expr.kind : Expr → Kind
  | .const .. => .const
  | .var .. => .var
  | .unary .. => .unary
  | .binary .. => .binary
  | .assign .. => .assign
  | .cond .. => .cond

/-- What a statement is. -/
def Stmt.kind : Stmt → Kind
  | .decl .. => .decl
  | .expr .. => .exprStmt
  | .empty .. => .empty
  | .block .. => .block
  | .ite .. => .ite
  | .whileDo .. => .whileDo
  | .doWhile .. => .doWhile
  | .forLoop .. => .forLoop
  | .brk .. => .brk
  | .cont .. => .cont
  | .ret .. => .ret

/-- What a node is. -/
def Node.kind : Node → Kind
  | .expr e => e.kind
  | .stmt s => s.kind

/-- Where a node stands. -/
def Node.span : Node → Span
  | .expr e => e.span
  | .stmt s => s.span

/-- The scope that a node owns. -/
def Node.id? : Node → Option NodeId
  | .stmt (.block _ id _) | .stmt (.forLoop _ _ _ _ id _) => some id
  | _ => none

/-- The declaration that a `for` starts with. -/
def Node.loopDecl? : Node → Option VarDecl
  | .stmt (.forLoop init _ _ _ _ _) => init.bind ForInit.decl?
  | _ => none

/-- The nodes of an expression. -/
def Expr.nodes (e : Expr) : List Node :=
  .expr e ::
    match e with
    | .const .. | .var .. => []
    | .unary _ operand _ => operand.nodes
    | .binary _ left right _ => left.nodes ++ right.nodes
    | .assign _ value _ => value.nodes
    | .cond test ifTrue ifFalse _ => test.nodes ++ ifTrue.nodes ++ ifFalse.nodes

/-- The nodes of an expression that may be absent. -/
def optionNodes : Option Expr → List Node
  | some e => e.nodes
  | none => []

/-- The nodes of the first clause of a `for`. -/
def ForInit.nodes : ForInit → List Node
  | .decl d => optionNodes d.init
  | .expr e => e.nodes

mutual

/-- The nodes of a statement. -/
def Stmt.nodes (s : Stmt) : List Node :=
  .stmt s ::
    match s with
    | .decl d => optionNodes d.init
    | .expr e _ | .ret e _ => e.nodes
    | .empty _ | .brk _ | .cont _ => []
    | .block body _ _ => stmtsNodes body
    | .ite test ifTrue ifFalse _ => test.nodes ++ ifTrue.nodes ++ ifFalse.nodes
    | .whileDo test body _ => test.nodes ++ body.nodes
    | .doWhile body test _ => body.nodes ++ test.nodes
    | .forLoop init test step body _ _ =>
      (match init with
        | some i => i.nodes
        | none => []) ++ optionNodes test ++ optionNodes step ++ body.nodes

/-- The nodes of a list of statements. -/
def stmtsNodes : List Stmt → List Node
  | [] => []
  | s :: rest => s.nodes ++ stmtsNodes rest

end

/-- The nodes of a function's body. The body itself is none of them. -/
def Function.nodes (f : Function) : List Node := stmtsNodes f.body.stmts

end MiddleEnd.Source
