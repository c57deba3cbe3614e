/-!
# Settings

What the checking and lowering of one unit depend on beside its tree.
-/

namespace MiddleEnd

/-- The settings of one run. -/
structure Config where
  /-- Bytes that one parameter takes in a frame. -/
  pointerSize : Int := 4
  /-- Whether the two branches of a conditional expression must fit each other. -/
  strictConditionals : Bool := false
  /-- Whether every function ends by returning zero. -/
  implicitReturn : Bool := true
deriving DecidableEq

end MiddleEnd
