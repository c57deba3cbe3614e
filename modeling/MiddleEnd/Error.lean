import MiddleEnd.Position
import MiddleEnd.Text.Quoted

/-!
# Errors

An error is a cause at a position. Most causes are diagnostics: something in the unit is wrong, the
pass reports it and goes on. The others end the pass: the tree and the tables do not belong
together, or the code asks for something that cannot be lowered.
-/

namespace MiddleEnd

/-- Why something was reported. -/
inductive Cause
  | symbolNotFound (symbol : String)
  | notVariable (symbol : String)
  | unexpectedType (expected received : String)
  | incompatible (expected received : String)
  | badTestExpr
  | variableAlreadyDeclared (name : String)
  | functionAlreadyDeclared (name : String)
  | unknownScope (id : Int)
  | unresolvedSymbol (symbol : String)
  | unsupportedLvalue (symbol : String)
  | breakOutsideLoop
  | continueOutsideLoop
  | noOpenFunction
deriving DecidableEq

namespace Cause

/-- The name a cause is known by. -/
def name : Cause → String
  | symbolNotFound _ => "SymbolNotFound"
  | notVariable _ => "NotVariable"
  | unexpectedType _ _ => "UnexpectedType"
  | incompatible _ _ => "Incompatible"
  | badTestExpr => "BadTestExpr"
  | variableAlreadyDeclared _ => "VariableAlreadyDeclared"
  | functionAlreadyDeclared _ => "FunctionAlreadyDeclared"
  | unknownScope _ => "UnknownScope"
  | unresolvedSymbol _ => "UnresolvedSymbol"
  | unsupportedLvalue _ => "UnsupportedLvalue"
  | breakOutsideLoop => "BreakOutsideLoop"
  | continueOutsideLoop => "ContinueOutsideLoop"
  | noOpenFunction => "NoOpenFunction"

/-- What a cause reads as. Names are quoted, types are not. -/
def message : Cause → String
  | symbolNotFound s => "symbol " ++ Text.quote s ++ " not found"
  | notVariable s => Text.quote s ++ " is not a variable"
  | unexpectedType e r => "unexpected type: expected " ++ e ++ ", received " ++ r
  | incompatible e r => "incompatible types: expected " ++ e ++ ", received " ++ r
  | badTestExpr => "bad test expression"
  | variableAlreadyDeclared n => "variable " ++ Text.quote n ++ " already declared"
  | functionAlreadyDeclared n => "function " ++ Text.quote n ++ " already declared"
  | unknownScope id => "no scope was built for node " ++ toString id
  | unresolvedSymbol s =>
    "symbol " ++ Text.quote s ++ " reached lowering without a resolved temporary"
  | unsupportedLvalue s => "unsupported lvalue " ++ Text.quote s
  | breakOutsideLoop => "break outside of a loop"
  | continueOutsideLoop => "continue outside of a loop"
  | noOpenFunction => "instruction emitted outside of a function"

/-- A hint for the writer of the unit, in which names stand as they are. -/
def tip : Cause → Option String
  | symbolNotFound s => some ("`" ++ s ++ "` is not declared in this scope")
  | notVariable s => some ("`" ++ s ++ "` is a function, not a variable")
  | unexpectedType e r => some ("Expected type `" ++ e ++ "`, received `" ++ r ++ "`")
  | incompatible e r =>
    some ("Cannot use a value of type `" ++ r ++ "` where `" ++ e ++ "` is expected")
  | badTestExpr => some "Test expressions must have type `int`"
  | variableAlreadyDeclared n => some ("Variable `" ++ n ++ "` already declared")
  | functionAlreadyDeclared n => some ("Function `" ++ n ++ "` already declared")
  | breakOutsideLoop => some "`break` must appear inside a loop"
  | continueOutsideLoop => some "`continue` must appear inside a loop"
  | unknownScope _ | unresolvedSymbol _ | unsupportedLvalue _ | noOpenFunction => none

/-- Whether a cause lies in the unit and not between the passes. -/
def isDiagnostic : Cause → Bool
  | unknownScope _ | unresolvedSymbol _ | unsupportedLvalue _
  | breakOutsideLoop | continueOutsideLoop | noOpenFunction => false
  | _ => true

end Cause

/-- A cause at a position. -/
structure Error where
  cause : Cause
  pos : Pos
deriving DecidableEq

/-- The line that reports an error. -/
def Error.text (e : Error) : String :=
  e.pos.file ++ ":" ++ toString e.pos.offset ++ ": " ++ e.cause.message

/-! ## Logs -/

/-- The errors issued so far, in order. Issuing never ends a pass. -/
abbrev Log := List Error

/-- Adds an error at the end. -/
def Log.push (log : Log) (e : Error) : Log := log ++ [e]

/-- Adds a cause at a position. -/
def Log.issue (log : Log) (pos : Pos) (cause : Cause) : Log := log.push ⟨cause, pos⟩

end MiddleEnd
