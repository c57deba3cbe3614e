import MiddleEnd.Position
import MiddleEnd.Source.Tree
import MiddleEnd.Code.Instr

/-!
# Symbols

What a name stands for: a variable or a function. A symbol is made when its declaration is met;
lowering later fills in where it lives.
-/

namespace MiddleEnd

/-- A symbol, by its place in the table. -/
abbrev SymbolId := Nat

/-- Where a variable lives. Parameters and locals alike live in the frame of their function. -/
inductive Storage
  | frame
deriving DecidableEq

/-- A variable or parameter. -/
structure VariableInfo where
  name : String
  ty : Ty
  pos : Pos
  isParameter : Bool
  /-- Which parameter it is, counted from zero. -/
  order : Option Nat := none
  /-- The temporary that holds its value. -/
  temp : Option Temp := none
  /-- Where it begins among the parameters of the frame. -/
  offset : Option Int := none
deriving DecidableEq

/-- A function. -/
structure FunctionInfo where
  name : String
  returnTy : Ty
  /-- Its parameters in order, without those whose name was taken. -/
  params : List SymbolId := []
  /-- The id of its body, which owns the scope of the function. -/
  bodyId : NodeId
  pos : Pos
  /-- The bytes that its parameters take. -/
  offset : Int := 0
  /-- The name it is entered by, once it was lowered. -/
  entry : Option String := none
deriving DecidableEq

/-- What a name stands for. -/
inductive Symbol
  | var (info : VariableInfo)
  | fn (info : FunctionInfo)
deriving DecidableEq

/-- Where a variable lives. -/
def VariableInfo.storage (_ : VariableInfo) : Storage := .frame

/-- Whether a variable lives in the frame of a function. -/
def VariableInfo.isLocal (v : VariableInfo) : Bool := v.storage == .frame

/-- The name a function is entered by: the one attached to it, else its own. -/
def FunctionInfo.entryName (f : FunctionInfo) : String := f.entry.getD f.name

namespace Symbol

/-- The name a symbol was declared with. -/
def name : Symbol → String
  | var v => v.name
  | fn f => f.name

/-- Where a symbol was declared. -/
def pos : Symbol → Pos
  | var v => v.pos
  | fn f => f.pos

/-- The variable that a symbol is. -/
def asVariable : Symbol → Option VariableInfo
  | var v => some v
  | fn _ => none

/-- The function that a symbol is. -/
def asFunction : Symbol → Option FunctionInfo
  | var _ => none
  | fn f => some f

/-- Whether a symbol is a variable. -/
def isVariable (s : Symbol) : Bool := s.asVariable.isSome

end Symbol
end MiddleEnd
