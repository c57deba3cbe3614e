import MiddleEnd.Config
import MiddleEnd.Code.Emitter
import MiddleEnd.Scope.Table

/-!
# The state of a lowering

Lowering emits code and records in the symbol table where every variable and function ended up. A
step that fails keeps what was emitted and recorded before it failed.
-/

namespace MiddleEnd

/-- What lowering changes. -/
structure Lowering where
  emitter : Emitter := {}
  symbols : SymbolTable
deriving DecidableEq

/-- A step of lowering. -/
abbrev Lower := EStateM Error Lowering

namespace Lower

/-- Ends the lowering with an error. -/
def fail (cause : Cause) (pos : Pos) : Lower α := throw ⟨cause, pos⟩

/-- Emits. -/
def emit (step : Emit α) : Lower α := fun s =>
  match step.run s.emitter with
  | .ok a emitter => .ok a { s with emitter }
  | .error e emitter => .error e { s with emitter }

/-- Records something about a variable. -/
def record (id : SymbolId) (f : VariableInfo → VariableInfo) : Lower Unit :=
  modify fun s => { s with symbols := s.symbols.modifyVariable id f }

/-- Records something about a function. -/
def recordFunction (id : SymbolId) (f : FunctionInfo → FunctionInfo) : Lower Unit :=
  modify fun s => { s with symbols := s.symbols.modifyFunction id f }

/-- The function of an id. -/
def function (id : SymbolId) (name : String) (span : Span) : Lower FunctionInfo := do
  match (← get).symbols.functionAt id with
  | some f => return f
  | none => fail (.unresolvedSymbol name) span.start

/-- The temporary that a variable was bound to. -/
def boundTemp (id : SymbolId) (name : String) (span : Span) : Lower Temp := do
  match (← get).symbols.variableAt id |>.bind VariableInfo.temp with
  | some t => return t
  | none => fail (.unresolvedSymbol name) span.start

/-- Binds a variable to a fresh temporary. -/
def bindTemp (id : SymbolId) (name : String) (span : Span) : Lower Temp := do
  match (← get).symbols.variableAt id with
  | none => fail (.unresolvedSymbol name) span.start
  | some _ =>
    let t ← emit .freshTemp
    record id fun v => { v with temp := some t }
    return t

end Lower
end MiddleEnd
