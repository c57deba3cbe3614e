import MiddleEnd.Config
import MiddleEnd.Scope.Lookup

/-!
# The state of a check

Checking walks a tree against a finished symbol table. It keeps the path of open scopes and a log of
what it issued. Issuing goes on; only a table that does not belong to the tree ends the walk, with
an error, or with a fault when the table does not even hang together.

`inScope` is the only way to open a scope, and it closes the scope again however its body ends.
-/

namespace MiddleEnd

/-- What the second pass reads but never changes. -/
structure CheckContext where
  symbols : SymbolTable
  config : Config := {}

/-- What the second pass changes. -/
structure CheckState where
  /-- The open scopes, innermost first. -/
  path : ScopePath := []
  log : Log := []
deriving DecidableEq

/-- Why a check ended before its tree did. -/
inductive Abort
  | fault (fault : Fault)
  | error (error : Error)
deriving DecidableEq

/-- A step of the second pass. A step that aborts keeps the log. -/
abbrev CheckM := EStateM Abort CheckState

namespace CheckM

/-- Ends the check with an error. -/
def fail (cause : Cause) (pos : Pos) : CheckM α := throw (.error ⟨cause, pos⟩)

/-- Reports a cause and goes on. -/
def issue (cause : Cause) (pos : Pos) : CheckM Unit :=
  modify fun s => { s with log := s.log.issue pos cause }

/-- Reports a cause unless the condition holds. -/
def require (condition : Bool) (cause : Cause) (pos : Pos) : CheckM Unit :=
  if condition then pure () else issue cause pos

/-- A value of a type `received` may only stand where exactly `expected` is asked for; a type that
was already reported passes. -/
def expectTy (pos : Pos) (expected received : Ty) : CheckM Unit :=
  require (received.isError || received == expected)
    (.unexpectedType expected.text received.text) pos

/-- A value of type `received` must fit `expected`. -/
def expectFits (pos : Pos) (expected received : Ty) : CheckM Unit :=
  require (received.fits expected) (.incompatible expected.text received.text) pos

/-- A condition must be an `int`; a type that was already reported passes. -/
def expectTest (pos : Pos) (ty : Ty) : CheckM Unit :=
  require (ty.isError || ty == .int) .badTestExpr pos

/-- Where the settings are strict, the second branch of a conditional must fit the first. -/
def expectBranches (config : Config) (pos : Pos) (ifTrue ifFalse : Ty) : CheckM Unit :=
  if config.strictConditionals then expectFits pos ifTrue ifFalse else pure ()

/-- Runs `body` with the scope of a node open. A node without a scope is an error, and then `body`
does not run. -/
def inScope (Γ : CheckContext) (id : NodeId) (pos : Pos) (body : CheckM α) : CheckM α := fun s =>
  match Γ.symbols.scopeIndex? id with
  | none => .error (.error ⟨.unknownScope id, pos⟩) s
  | some index =>
    match body { s with path := index :: s.path } with
    | .ok a s => .ok a { s with path := s.path.tail }
    | .error e s => .error e { s with path := s.path.tail }

/-- The symbol that a name stands for at a position. -/
def lookup (Γ : CheckContext) (name : String) (pos : Pos) : CheckM (Option SymbolId) := do
  match Γ.symbols.lookup name pos (← get).path with
  | .ok id => return id
  | .error fault => throw (.fault fault)

/-- The symbol of an id that a scope gave. -/
def symbol (Γ : CheckContext) (id : SymbolId) : CheckM Symbol :=
  match Γ.symbols.symbols[id]? with
  | some s => pure s
  | none => throw (.fault (.noSymbol id))

/-- The symbol that the innermost scope has under the name of a declaration. -/
def declared (Γ : CheckContext) (name : String) (pos : Pos) : CheckM SymbolId := do
  match (← get).path with
  | [] => fail (.unresolvedSymbol name) pos
  | index :: _ =>
    match Γ.symbols.scopes[index]? with
    | none => throw (.fault (.noScope index))
    | some scope =>
      match scope.find? name with
      | some id => return id
      | none => fail (.unresolvedSymbol name) pos

/-- The symbol that the innermost scope has under the name of a function. -/
def declaredFunction (Γ : CheckContext) (name : String) (pos : Pos) : CheckM SymbolId := do
  let id ← declared Γ name pos
  match Γ.symbols.functionAt id with
  | some _ => return id
  | none => fail (.unresolvedSymbol name) pos

end CheckM
end MiddleEnd
