import MiddleEnd.Code.Instr

/-!
# Listings

The text of code. A piece is a header line with its entry and parameters, a line for each
instruction and an end line; labels stand at the margin and all else is indented. Pieces are
separated by an empty line. Labels and entries share a leading underscore, and a temporary is its
number after a `T`.
-/

namespace MiddleEnd

namespace Listing

/-- The text of a temporary. -/
def ofTemp (t : Temp) : String := "T" ++ toString t

/-- The text of a label. -/
def ofLabel (l : Label) : String := "_L" ++ toString l

/-- The text of the label that a function is entered by. -/
def ofEntry (name : String) : String := "_" ++ name

/-- What stands before every instruction but a label. -/
def indent : String := "    "

/-- The text of an instruction that writes `dst`. -/
def write (dst : Temp) (value : String) : String := indent ++ ofTemp dst ++ " <- " ++ value

end Listing

open Listing

/-- The line of an instruction. -/
def Instr.text : Instr → String
  | load dst value => write dst (toString value)
  | unary op dst src => write dst (op.symbol ++ ofTemp src)
  | binary op dst left right =>
    write dst ("(" ++ ofTemp left ++ " " ++ op.symbol ++ " " ++ ofTemp right ++ ")")
  | copy dst src => write dst (ofTemp src)
  | jump target => indent ++ "JUMP " ++ ofLabel target
  | jumpIfZero target test => indent ++ "IF (" ++ ofTemp test ++ " == 0) JUMP " ++ ofLabel target
  | mark l => ofLabel l ++ ":"
  | ret value => indent ++ "RETURN " ++ ofTemp value

/-- The lines of a piece. -/
def Piece.lines (p : Piece) : List String :=
  ("FUNCTION<" ++ ofEntry p.entry ++ ">(" ++ ", ".intercalate (p.params.map ofTemp) ++ "):")
    :: p.body.map Instr.text ++ ["END"]

/-- The text of a piece, without a line end after its last line. -/
def Piece.text (p : Piece) : String := "\n".intercalate p.lines

/-- The text of a unit: each piece ends its line, and an empty line comes before the next. -/
def Code.text (c : Code) : String := "\n".intercalate (c.pieces.map fun p => p.text ++ "\n")

end MiddleEnd
