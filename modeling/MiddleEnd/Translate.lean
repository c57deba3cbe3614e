import MiddleEnd.Code.Lower
import MiddleEnd.Scope.Declare
import MiddleEnd.Typed.Check

/-!
# Translating a unit

The three passes in a row. Code is only made of a unit that both earlier passes accept without a
word; otherwise everything they issued is reported in order. An error that ends a pass is reported
alone.
-/

namespace MiddleEnd

/-- Why a unit was not translated. -/
inductive Rejection
  /-- The first two passes issued something. -/
  | diagnosed (log : Log)
  /-- A pass ended early with an error. -/
  | aborted (error : Error)
  /-- The symbol table does not hang together. -/
  | fault (fault : Fault)

/-- What is reported about a rejected unit. -/
def Rejection.errors : Rejection → List Error
  | diagnosed log => log
  | aborted error => [error]
  | fault _ => []

/-- The rejection for a check that ended early. -/
def Rejection.ofAbort : Abort → Rejection
  | .error e => aborted e
  | .fault f => fault f

/-- Translates a program into code. -/
def translate (config : Config) (p : Source.Program) : Except Rejection Code :=
  let declared := Declarations.ofProgram p
  match checkProgram ⟨declared.table, config⟩ p with
  | .error abort => .error (.ofAbort abort)
  | .ok (typed, issued) =>
    match declared.log ++ issued with
    | [] =>
      match (lowerProgram config declared.table typed).1 with
      | .ok code => .ok code
      | .error e => .error (.aborted e)
    | log => .error (.diagnosed log)

end MiddleEnd
