import MiddleEnd.Error
import MiddleEnd.Scope.Symbol

/-!
# Emitting code

An emitter numbers the temporaries and labels of one unit and collects instructions into the
function that is open. Functions are opened and ended one at a time; ending one files it behind
those ended before, and opening another while one is open drops the open one.

Emitting while no function is open is an error, which leaves the emitter as it was: not even a
temporary is used up.
-/

namespace MiddleEnd

/-- What was numbered and emitted so far. -/
structure Emitter where
  /-- The next temporary. -/
  temps : Temp := 0
  /-- The next label. -/
  labels : Label := 0
  /-- The next offset for a parameter of the function being lowered. -/
  paramOffset : Int := 0
  /-- The function that is open. -/
  current : Option Piece := none
  /-- The functions that were ended, in order. -/
  finished : List Piece := []
deriving DecidableEq

/-- A step of emitting. A step that fails keeps what it did before it failed. -/
abbrev Emit := EStateM Error Emitter

namespace Emit

/-- The error of a step that needs an open function. -/
def noOpenFunction : Error := ⟨.noOpenFunction, .null⟩

/-- Takes the next temporary. -/
def freshTemp : Emit Temp := fun e => .ok e.temps { e with temps := e.temps + 1 }

/-- Takes the next label. -/
def freshLabel : Emit Label := fun e => .ok e.labels { e with labels := e.labels + 1 }

/-- Starts the parameter offsets over. -/
def resetOffset : Emit Unit := fun e => .ok () { e with paramOffset := 0 }

/-- Takes `size` bytes for a parameter and answers where they begin. -/
def nextOffset (size : Int) : Emit Int := fun e =>
  .ok e.paramOffset { e with paramOffset := e.paramOffset + size }

/-- Opens a function whose arguments are in `params`. -/
def start (f : FunctionInfo) (params : List Temp) : Emit Unit := fun e =>
  .ok () { e with current := some ⟨f.entryName, f.offset, params, []⟩ }

/-- The piece of the open function. -/
def opened : Emit Piece := fun e =>
  match e.current with
  | none => .error noOpenFunction e
  | some piece => .ok piece e

/-- Ends the open function. -/
def finish : Emit Unit := do
  let piece ← opened
  modify fun e => { e with current := none, finished := e.finished ++ [piece] }

/-- Appends an instruction to the open function. -/
def emit (i : Instr) : Emit Unit := do
  let piece ← opened
  modify fun e => { e with current := some { piece with body := piece.body ++ [i] } }

/-- Appends an instruction that writes a fresh temporary and answers that temporary. The temporary
is only taken if a function is open. -/
def emitFresh (write : Temp → Instr) : Emit Temp := do
  let _ ← opened
  let dst ← freshTemp
  emit (write dst)
  return dst

theorem opened_of_open {e : Emitter} {piece : Piece} (h : e.current = some piece) :
    opened e = .ok piece e := by
  simp [opened, h]

theorem opened_of_closed {e : Emitter} (h : e.current = none) :
    opened e = .error noOpenFunction e := by
  simp [opened, h]

theorem finish_of_open {e : Emitter} {piece : Piece} (h : e.current = some piece) :
    finish e = .ok () { e with current := none, finished := e.finished ++ [piece] } := by
  show EStateM.bind opened _ e = _
  simp only [EStateM.bind, opened_of_open h]
  rfl

theorem finish_of_closed {e : Emitter} (h : e.current = none) :
    finish e = .error noOpenFunction e := by
  show EStateM.bind opened _ e = _
  simp only [EStateM.bind, opened_of_closed h]

theorem emit_of_open {e : Emitter} {piece : Piece} (i : Instr) (h : e.current = some piece) :
    emit i e = .ok () { e with current := some { piece with body := piece.body ++ [i] } } := by
  show EStateM.bind opened _ e = _
  simp only [EStateM.bind, opened_of_open h]
  rfl

theorem emit_of_closed {e : Emitter} (i : Instr) (h : e.current = none) :
    emit i e = .error noOpenFunction e := by
  show EStateM.bind opened _ e = _
  simp only [EStateM.bind, opened_of_closed h]

/-- The temporary that is written is the next one, and it is used up. -/
theorem emitFresh_of_open {e : Emitter} {piece : Piece} (write : Temp → Instr)
    (h : e.current = some piece) :
    emitFresh write e =
      .ok e.temps { e with
        temps := e.temps + 1
        current := some { piece with body := piece.body ++ [write e.temps] } } := by
  show EStateM.bind opened _ e = _
  simp only [EStateM.bind, opened_of_open h]
  have emitted := @emit_of_open { e with temps := e.temps + 1 } piece (write e.temps) h
  show EStateM.bind (emit (write e.temps)) _ { e with temps := e.temps + 1 } = _
  simp only [EStateM.bind, emitted]
  rfl

/-- No temporary is used up. -/
theorem emitFresh_of_closed {e : Emitter} (write : Temp → Instr) (h : e.current = none) :
    emitFresh write e = .error noOpenFunction e := by
  show EStateM.bind opened _ e = _
  simp only [EStateM.bind, opened_of_closed h]

/-! ## The instructions -/

/-- Loads a constant. -/
def load (value : Int) : Emit Temp := emitFresh fun dst => .load dst value

/-- Applies a unary operator. -/
def unary (op : UnaryOp) (src : Temp) : Emit Temp := emitFresh fun dst => .unary op dst src

/-- Applies a binary operator. -/
def binary (op : BinaryOp) (left right : Temp) : Emit Temp :=
  emitFresh fun dst => .binary op dst left right

/-- Copies a temporary into another. -/
def copy (dst src : Temp) : Emit Unit := emit (.copy dst src)

/-- Jumps. -/
def jump (target : Label) : Emit Unit := emit (.jump target)

/-- Jumps if a temporary is zero. -/
def jumpIfZero (target : Label) (test : Temp) : Emit Unit := emit (.jumpIfZero target test)

/-- Marks a label. -/
def mark (label : Label) : Emit Unit := emit (.mark label)

/-- Returns a temporary. -/
def ret (value : Temp) : Emit Unit := emit (.ret value)

end Emit

/-- The code of the functions that were ended. -/
def Emitter.code (e : Emitter) : Code := ⟨e.finished⟩

end MiddleEnd
