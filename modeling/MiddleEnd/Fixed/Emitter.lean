import MiddleEnd.Code.Emitter
import MiddleEnd.Fixed.Word

/-!
# Emitting code with counters of fixed width

The emitter with its counters in words. A number that is given away is that of the counter as it
was; a run that stops for want of a word stops before the counter is changed, so that the emitter is
left as it was.
-/

namespace MiddleEnd.Fixed

/-- Why a run ended early. -/
inductive Stop
  /-- Something failed. -/
  | error (error : Error)
  /-- A result was one that no word holds. -/
  | overflow
deriving DecidableEq

/-- What was numbered and emitted so far. -/
structure Emitter where
  /-- The next temporary. -/
  temps : UInt32 := 0
  /-- The next label. -/
  labels : UInt32 := 0
  /-- The next offset for a parameter of the function being lowered. -/
  paramOffset : Int32 := 0
  /-- The function that is open. -/
  current : Option Piece := none
  /-- The functions that were ended, in order. -/
  finished : List Piece := []
deriving DecidableEq

/-- A step of emitting. A step that ends early keeps what it did before. -/
abbrev Emit := EStateM Stop Emitter

namespace Emit

/-- The end of a step that needs an open function. -/
def noOpenFunction : Stop := .error MiddleEnd.Emit.noOpenFunction

/-- Takes the next temporary. -/
def freshTemp (o : Overflow) : Emit Temp := fun e =>
  match o.succ e.temps with
  | none => .error .overflow e
  | some next => .ok e.temps.toNat { e with temps := next }

/-- Takes the next label. -/
def freshLabel (o : Overflow) : Emit Label := fun e =>
  match o.succ e.labels with
  | none => .error .overflow e
  | some next => .ok e.labels.toNat { e with labels := next }

/-- Starts the parameter offsets over. -/
def resetOffset : Emit Unit := fun e => .ok () { e with paramOffset := 0 }

/-- Takes `size` bytes for a parameter and answers where they begin. -/
def nextOffset (o : Overflow) (size : Int32) : Emit Int := fun e =>
  match o.add e.paramOffset size with
  | none => .error .overflow e
  | some next => .ok e.paramOffset.toInt { e with paramOffset := next }

/-- Opens a function whose arguments are in `params`. -/
def start (f : FunctionInfo) (params : List Temp) : Emit Unit := fun e =>
  .ok () { e with current := some ⟨f.entryName, f.offset, params, []⟩ }

/-- The piece of the open function. -/
def opened : Emit Piece := fun e =>
  match e.current with
  | none => .error noOpenFunction e
  | some piece => .ok piece e

/-- Ends the open function. -/
def finish : Emit Unit := do
  let piece ← opened
  modify fun e => { e with current := none, finished := e.finished ++ [piece] }

/-- Appends an instruction to the open function. -/
def emit (i : Instr) : Emit Unit := do
  let piece ← opened
  modify fun e => { e with current := some { piece with body := piece.body ++ [i] } }

/-- Appends an instruction that writes a fresh temporary and answers that temporary. The temporary
is only taken if a function is open. -/
def emitFresh (o : Overflow) (write : Temp → Instr) : Emit Temp := do
  let _ ← opened
  let dst ← freshTemp o
  emit (write dst)
  return dst

variable {o : Overflow} {e : Emitter} {piece : Piece} {next : UInt32}

theorem opened_of_open (h : e.current = some piece) : opened e = .ok piece e := by
  simp [opened, h]

theorem opened_of_closed (h : e.current = none) : opened e = .error noOpenFunction e := by
  simp [opened, h]

theorem freshTemp_of_succ (h : o.succ e.temps = some next) :
    freshTemp o e = .ok e.temps.toNat { e with temps := next } := by
  simp only [freshTemp, h]

theorem freshTemp_of_overflow (h : o.succ e.temps = none) :
    freshTemp o e = .error .overflow e := by
  simp only [freshTemp, h]

theorem freshLabel_of_succ (h : o.succ e.labels = some next) :
    freshLabel o e = .ok e.labels.toNat { e with labels := next } := by
  simp only [freshLabel, h]

theorem freshLabel_of_overflow (h : o.succ e.labels = none) :
    freshLabel o e = .error .overflow e := by
  simp only [freshLabel, h]

theorem nextOffset_of_add {size sum : Int32} (h : o.add e.paramOffset size = some sum) :
    nextOffset o size e = .ok e.paramOffset.toInt { e with paramOffset := sum } := by
  simp only [nextOffset, h]

theorem nextOffset_of_overflow {size : Int32} (h : o.add e.paramOffset size = none) :
    nextOffset o size e = .error .overflow e := by
  simp only [nextOffset, h]

theorem finish_of_open (h : e.current = some piece) :
    finish e = .ok () { e with current := none, finished := e.finished ++ [piece] } := by
  show EStateM.bind opened _ e = _
  simp only [EStateM.bind, opened_of_open h]
  rfl

theorem finish_of_closed (h : e.current = none) : finish e = .error noOpenFunction e := by
  show EStateM.bind opened _ e = _
  simp only [EStateM.bind, opened_of_closed h]

theorem emit_of_open (i : Instr) (h : e.current = some piece) :
    emit i e = .ok () { e with current := some { piece with body := piece.body ++ [i] } } := by
  show EStateM.bind opened _ e = _
  simp only [EStateM.bind, opened_of_open h]
  rfl

theorem emit_of_closed (i : Instr) (h : e.current = none) :
    emit i e = .error noOpenFunction e := by
  show EStateM.bind opened _ e = _
  simp only [EStateM.bind, opened_of_closed h]

/-- The temporary that is written is the next one, and it is used up. -/
theorem emitFresh_of_open (write : Temp → Instr) (h : e.current = some piece)
    (counted : o.succ e.temps = some next) :
    emitFresh o write e =
      .ok e.temps.toNat { e with
        temps := next
        current := some { piece with body := piece.body ++ [write e.temps.toNat] } } := by
  show EStateM.bind opened _ e = _
  simp only [EStateM.bind, opened_of_open h]
  show EStateM.bind (freshTemp o) _ e = _
  simp only [EStateM.bind, freshTemp_of_succ counted]
  have emitted := @emit_of_open { e with temps := next } piece (write e.temps.toNat) h
  show EStateM.bind (emit (write e.temps.toNat)) _ { e with temps := next } = _
  simp only [EStateM.bind, emitted]
  rfl

/-- Nothing is emitted if there is no word for the next temporary. -/
theorem emitFresh_of_overflow (write : Temp → Instr) (h : e.current = some piece)
    (overflows : o.succ e.temps = none) : emitFresh o write e = .error .overflow e := by
  show EStateM.bind opened _ e = _
  simp only [EStateM.bind, opened_of_open h]
  show EStateM.bind (freshTemp o) _ e = _
  simp only [EStateM.bind, freshTemp_of_overflow overflows]

/-- No temporary is used up. -/
theorem emitFresh_of_closed (write : Temp → Instr) (h : e.current = none) :
    emitFresh o write e = .error noOpenFunction e := by
  show EStateM.bind opened _ e = _
  simp only [EStateM.bind, opened_of_closed h]

/-! ## The instructions -/

/-- Loads a constant. -/
def load (o : Overflow) (value : Int) : Emit Temp := emitFresh o fun dst => .load dst value

/-- Applies a unary operator. -/
def unary (o : Overflow) (op : UnaryOp) (src : Temp) : Emit Temp :=
  emitFresh o fun dst => .unary op dst src

/-- Applies a binary operator. -/
def binary (o : Overflow) (op : BinaryOp) (left right : Temp) : Emit Temp :=
  emitFresh o fun dst => .binary op dst left right

/-- Copies a temporary into another. -/
def copy (dst src : Temp) : Emit Unit := emit (.copy dst src)

/-- Jumps. -/
def jump (target : Label) : Emit Unit := emit (.jump target)

/-- Jumps if a temporary is zero. -/
def jumpIfZero (target : Label) (test : Temp) : Emit Unit := emit (.jumpIfZero target test)

/-- Marks a label. -/
def mark (label : Label) : Emit Unit := emit (.mark label)

/-- Returns a temporary. -/
def ret (value : Temp) : Emit Unit := emit (.ret value)

end Emit

/-- The code of the functions that were ended. -/
def Emitter.code (e : Emitter) : Code := ⟨e.finished⟩

end MiddleEnd.Fixed
