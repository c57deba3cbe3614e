import MiddleEnd.Scope.Table

/-!
# Looking up a name

A name is looked up through the open scopes, the innermost first. Inside functions and blocks a
symbol is visible only after its declaration: a use that stands before it, or at the same place,
falls through to the scopes around. The global scope shows its symbols everywhere.
-/

namespace MiddleEnd

/-- The open scopes, innermost first. -/
abbrev ScopePath := List ScopeIndex

/-- A place named by a path or a scope that the table does not have. Looking up in the table of a
program through the scopes of that program meets none. -/
inductive Fault
  | noScope (index : ScopeIndex)
  | noSymbol (id : SymbolId)
deriving DecidableEq

/-- A symbol of this scope is visible from `pos`. -/
def Scope.shows (s : Scope) (symbol : Symbol) (pos : Pos) : Bool :=
  s.kind == .global || decide (symbol.pos.offset < pos.offset)

namespace SymbolTable

/-- The symbol that a name stands for at `pos`. -/
def lookup (t : SymbolTable) (name : String) (pos : Pos) :
    ScopePath → Except Fault (Option SymbolId)
  | [] => .ok none
  | index :: outer =>
    match t.scopes[index]? with
    | none => .error (.noScope index)
    | some scope =>
      match scope.find? name with
      | none => t.lookup name pos outer
      | some id =>
        match t.symbols[id]? with
        | none => .error (.noSymbol id)
        | some symbol =>
          if scope.shows symbol pos then .ok (some id) else t.lookup name pos outer

end SymbolTable
end MiddleEnd
