/-!
# Types

The language has one value type, `int`. `void` only comes from declarations, and `error` stands for
the type of an expression that was already reported, so that it is never reported again.
-/

namespace MiddleEnd

/-- A type of the language. -/
inductive Ty
  | int
  | void
  | error
deriving DecidableEq, Inhabited

namespace Ty

/-- The name of a type in messages. -/
def text : Ty → String
  | int => "int"
  | void => "void"
  | error => "error"

/-- Whether a type stands for a failed check. -/
def isError (t : Ty) : Bool := t == error

/-- `t.fits u`: a value of type `t` may stand where `u` is expected. Equal types fit, and `error`
fits on either side. -/
def fits (t u : Ty) : Bool := t.isError || u.isError || t == u

theorem fits_iff {t u : Ty} : t.fits u = true ↔ t = error ∨ u = error ∨ t = u := by
  simp [fits, isError, or_assoc]

end Ty
end MiddleEnd
