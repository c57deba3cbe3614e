import MiddleEnd.Source.Operator

/-!
# Three-address code

Flat code over numbered temporaries. An instruction writes at most one temporary; control moves by
jumps to numbered labels. The numbers of temporaries and labels belong to the whole unit, so a label
of one function is never one of another.
-/

namespace MiddleEnd

/-- A temporary, by number. Each holds one integer. -/
abbrev Temp := Nat

/-- A place that can be jumped to, by number. -/
abbrev Label := Nat

/-- An instruction. -/
inductive Instr
  /-- Puts a constant into `dst`. -/
  | load (dst : Temp) (value : Int)
  /-- Puts the result of an operator into `dst`. -/
  | unary (op : UnaryOp) (dst src : Temp)
  /-- Puts the result of an operator into `dst`. -/
  | binary (op : BinaryOp) (dst left right : Temp)
  /-- Puts the value of `src` into `dst`. -/
  | copy (dst src : Temp)
  /-- Goes on at the label. -/
  | jump (target : Label)
  /-- Goes on at the label if the temporary holds zero. -/
  | jumpIfZero (target : Label) (test : Temp)
  /-- Marks the place of a label and does nothing. -/
  | mark (label : Label)
  /-- Ends the function with the value of a temporary. -/
  | ret (value : Temp)
deriving DecidableEq

/-- The code of one function. -/
structure Piece where
  /-- The name the function is entered by, without the decoration that listings add. -/
  entry : String
  /-- Where the frame begins: the bytes that the parameters take. -/
  offset : Int
  /-- The temporaries that hold the arguments on entry. -/
  params : List Temp
  body : List Instr
deriving DecidableEq

/-- The code of a unit, a piece for each function in source order. -/
structure Code where
  pieces : List Piece
deriving DecidableEq

/-- The first piece entered by a name. -/
def Code.find? (code : Code) (name : String) : Option Piece :=
  code.pieces.find? fun piece => piece.entry == name

end MiddleEnd
