/-!
# Positions

A position is a number inside a named file, a span runs from one position to another. The passes
compare positions by number alone; the file only shows up in reports.
-/

namespace MiddleEnd

/-- A place in a source file. -/
structure Pos where
  /-- How far into the file the place lies. -/
  offset : Nat
  /-- The file it lies in. -/
  file : String
deriving DecidableEq, Inhabited

/-- The place of things that stand in no file. -/
def Pos.null : Pos := ⟨0, "<null>"⟩

/-- The extent of a node. -/
structure Span where
  start : Pos
  stop : Pos
deriving DecidableEq, Inhabited

/-- The extent of a node that occupies one place. -/
def Span.at (p : Pos) : Span := ⟨p, p⟩

/-- The extent of things that stand in no file. -/
def Span.null : Span := Span.at Pos.null

end MiddleEnd
