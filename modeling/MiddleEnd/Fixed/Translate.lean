import MiddleEnd.Fixed.Lower
import MiddleEnd.Translate

/-!
# Translating a unit with counters of fixed width

The passes in a row, where lowering counts in words. The first two count nothing.
-/

namespace MiddleEnd.Fixed

/-- Why a unit was not translated. -/
inductive Rejection
  /-- A pass had something to say about the unit. -/
  | rejected (rejection : MiddleEnd.Rejection)
  /-- A result was one that no word holds. -/
  | overflow

/-- The rejection for a lowering that ended early. -/
def Rejection.ofStop : Stop → Rejection
  | .error e => rejected (.aborted e)
  | .overflow => overflow

/-- Translates a program into code. -/
def translate (o : Overflow) (config : Config) (p : Source.Program) : Except Rejection Code :=
  let declared := Declarations.ofProgram p
  match checkProgram ⟨declared.table, config.unbounded⟩ p with
  | .error abort => .error (.rejected (.ofAbort abort))
  | .ok (typed, issued) =>
    match declared.log ++ issued with
    | [] =>
      match (lowerProgram o config declared.table typed).1 with
      | .ok code => .ok code
      | .error stop => .error (.ofStop stop)
    | log => .error (.rejected (.diagnosed log))

end MiddleEnd.Fixed
