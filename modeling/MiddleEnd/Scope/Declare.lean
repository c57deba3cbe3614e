import MiddleEnd.Scope.Table

/-!
# Declaring a program

The first pass makes a scope for every node that owns one and a symbol for every declaration. All
functions are declared before any body is read. Parameters and the top-level statements of a body
share the scope of the function; each block and each `for` opens one of its own, and a declaration
that is the body of an `if` or a loop belongs to the scope around it.

A name that is declared twice in one scope keeps its first symbol. The later declaration still gets
a symbol, which no scope names, and is reported.
-/

namespace MiddleEnd

/-- What the first pass has built so far. -/
structure Declarations where
  table : SymbolTable := {}
  log : Log := []

/-- A step of the first pass. -/
abbrev Declare := StateM Declarations

namespace Declare

/-- Adds an empty scope for a node. -/
def openScope (id : NodeId) (kind : ScopeKind) : Declare ScopeIndex := fun d =>
  let (index, table) := d.table.addScope { id, kind }
  (index, { d with table })

/-- The report on a symbol whose name was taken. -/
def redeclared (symbol : Symbol) (error : Error) : Error :=
  match symbol with
  | .var _ => error
  | .fn f => { error with cause := .functionAlreadyDeclared f.name }

/-- Adds a symbol and declares it in a scope. The answer is `none` if its name was taken. -/
def symbol (scope : ScopeIndex) (s : Symbol) : Declare (Option SymbolId) := fun d =>
  let (id, table) := d.table.addSymbol s
  match table.scopes[scope]? with
  | none => (none, { d with table })
  | some here =>
    match here.declare s.name id s.pos with
    | .ok here => (some id, { d with table := table.setScope scope here })
    | .error e => (none, { table, log := d.log.push (redeclared s e) })

/-- Declares a local variable. -/
def varDecl (scope : ScopeIndex) (v : Source.VarDecl) : Declare Unit := do
  let _ ← symbol scope (.var ⟨v.name, v.ty, v.span.start, false, none, none, none⟩)

/-- Declares the loop variable of a `for`, if it has one. -/
def forInit (scope : ScopeIndex) : Option Source.ForInit → Declare Unit
  | some (.decl v) => varDecl scope v
  | some (.expr _) | none => pure ()

mutual

/-- Declares what a statement declares. -/
def stmt (scope : ScopeIndex) : Source.Stmt → Declare Unit
  | .decl v => varDecl scope v
  | .block body id _ => do
    let inner ← openScope id .block
    stmts inner body
  | .ite _ ifTrue ifFalse _ => do
    stmt scope ifTrue
    stmt scope ifFalse
  | .whileDo _ body _ => stmt scope body
  | .doWhile body _ _ => stmt scope body
  | .forLoop init _ _ body id _ => do
    let inner ← openScope id .block
    forInit inner init
    stmt inner body
  | .expr .. | .empty .. | .brk .. | .cont .. | .ret .. => pure ()

/-- Declares what a list of statements declares. -/
def stmts (scope : ScopeIndex) : List Source.Stmt → Declare Unit
  | [] => pure ()
  | s :: rest => do
    stmt scope s
    stmts scope rest

end

/-- Declares the parameters of a function. The answer leaves out those whose name was taken. -/
def params (scope : ScopeIndex) : List Source.Param → Declare (List SymbolId)
  | [] => return []
  | p :: rest => do
    let id ← symbol scope (.var ⟨p.name, p.ty, p.span.start, true, none, none, none⟩)
    let ids ← params scope rest
    return id.toList ++ ids

/-- Records the parameters of a function, unless its name was taken. -/
def setParams (fn : Option SymbolId) (ids : List SymbolId) : Declare Unit := fun d =>
  match fn with
  | none => ((), d)
  | some id => ((), { d with table := d.table.modifyFunction id fun f => { f with params := ids } })

/-- Declares a function in the global scope. -/
def function (scope : ScopeIndex) (f : Source.Function) : Declare (Option SymbolId) :=
  symbol scope (.fn ⟨f.name, f.returnTy, [], f.body.id, f.span.start, 0, none⟩)

/-- Declares everything inside a function. -/
def body (f : Source.Function) (fn : Option SymbolId) : Declare Unit := do
  let scope ← openScope f.body.id .function
  let ids ← params scope f.params
  setParams fn ids
  stmts scope f.body.stmts

/-- Declares a whole program. -/
def program (p : Source.Program) : Declare Unit := do
  let scope ← openScope p.id .global
  let ids ← p.functions.mapM (function scope)
  (p.functions.zip ids).forM fun (f, fn) => body f fn

end Declare

/-- The table of a program and the reports on repeated declarations. -/
def Declarations.ofProgram (p : Source.Program) : Declarations := (Declare.program p |>.run {}).2

end MiddleEnd
