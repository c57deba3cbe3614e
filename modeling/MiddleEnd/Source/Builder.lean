import MiddleEnd.Source.Tree

/-!
# Building trees

A builder hands out the positions of one file and the ids of scope-owning nodes, both counting up.
Each operation makes one node around finished children: it takes the next position, and `block`,
`forLoop`, `function` and `program` take the next id as well. A tree built bottom up is therefore
positioned after its parts, and no two of its scope owners share an id.
-/

namespace MiddleEnd.Source

/-- The file being built and the next position and id in it. -/
structure Builder where
  file : String
  pos : Nat := 0
  nextId : NodeId := 0
deriving DecidableEq

/-- A step of building. -/
abbrev Build := StateM Builder

namespace Builder

/-- Takes the next position. -/
def span : Build Span := fun b => (.at ⟨b.pos, b.file⟩, { b with pos := b.pos + 1 })

/-- Takes the next id. -/
def freshId : Build NodeId := fun b => (b.nextId, { b with nextId := b.nextId + 1 })

/-! ## Expressions -/

def const (value : Int) : Build Expr := return .const value (← span)

def ref (name : String) : Build Ref := return ⟨name, ← span⟩

/-- A variable as an expression stands where its name stands. -/
def var (name : String) : Build Expr := do
  let r ← ref name
  return .var r r.span

def unary (op : UnaryOp) (operand : Expr) : Build Expr := return .unary op operand (← span)

def binary (op : BinaryOp) (left right : Expr) : Build Expr :=
  return .binary op left right (← span)

/-- The target is positioned after the value and before the assignment. -/
def assign (target : String) (value : Expr) : Build Expr := do
  let r ← ref target
  return .assign r value (← span)

def cond (test ifTrue ifFalse : Expr) : Build Expr := return .cond test ifTrue ifFalse (← span)

/-! ## Statements -/

def varDecl (name : String) (ty : Ty) (init : Option Expr) : Build VarDecl :=
  return ⟨name, ty, init, ← span⟩

def decl (name : String) (ty : Ty) (init : Option Expr) : Build Stmt :=
  return .decl (← varDecl name ty init)

def expr (e : Expr) : Build Stmt := return .expr e (← span)

def empty : Build Stmt := return .empty (← span)

def block (body : List Stmt) : Build Stmt := do
  let id ← freshId
  return .block body id (← span)

/-- A missing second branch becomes an empty statement that stands where the `if` stands. -/
def ite (test : Expr) (ifTrue : Stmt) (ifFalse : Option Stmt) : Build Stmt := do
  let s ← span
  return .ite test ifTrue (ifFalse.getD (.empty s)) s

def whileDo (test : Expr) (body : Stmt) : Build Stmt := return .whileDo test body (← span)

def doWhile (body : Stmt) (test : Expr) : Build Stmt := return .doWhile body test (← span)

def forLoop (init : Option ForInit) (test step : Option Expr) (body : Stmt) : Build Stmt := do
  let id ← freshId
  return .forLoop init test step body id (← span)

def brk : Build Stmt := return .brk (← span)

def cont : Build Stmt := return .cont (← span)

def ret (value : Expr) : Build Stmt := return .ret value (← span)

/-! ## Functions and programs -/

def param (name : String) (ty : Ty) : Build Param := return ⟨name, ty, ← span⟩

/-- The body takes its id and position first, then the function its position. -/
def function (name : String) (params : List Param) (returnTy : Ty) (body : List Stmt) :
    Build Function := do
  let id ← freshId
  let s ← span
  return ⟨name, params, returnTy, ⟨body, id, s⟩, ← span⟩

def program (functions : List Function) : Build Program := do
  let id ← freshId
  return ⟨functions, id, ← span⟩

end Builder
end MiddleEnd.Source
