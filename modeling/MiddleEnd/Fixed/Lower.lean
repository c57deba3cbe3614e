import MiddleEnd.Code.Lower
import MiddleEnd.Fixed.Emitter

/-!
# Lowering with counters of fixed width

The third pass over the emitter of fixed width. It makes the same walk as `MiddleEnd.lowerProgram`,
and beside the counters two more results may be such that no word holds them: the offset behind a
parameter, and the bytes that all parameters of a function take. How many parameters a function has
is cut to a word before it is multiplied, and that never stops a run.
-/

namespace MiddleEnd.Fixed

/-- The settings of one run. -/
structure Config where
  /-- Bytes that one parameter takes in a frame. -/
  pointerSize : Int32 := 4
  /-- Whether the two branches of a conditional expression must fit each other. -/
  strictConditionals : Bool := false
  /-- Whether every function ends by returning zero. -/
  implicitReturn : Bool := true
deriving DecidableEq

/-- The settings with their size as a number. -/
def Config.unbounded (config : Config) : MiddleEnd.Config :=
  ⟨config.pointerSize.toInt, config.strictConditionals, config.implicitReturn⟩

/-- What lowering changes. -/
structure Lowering where
  emitter : Emitter := {}
  symbols : SymbolTable
deriving DecidableEq

/-- A step of lowering. -/
abbrev Lower := EStateM Stop Lowering

namespace Lower

/-- Ends the lowering with an error. -/
def fail (cause : Cause) (pos : Pos) : Lower α := throw (.error ⟨cause, pos⟩)

/-- Emits. -/
def emit (step : Emit α) : Lower α := fun s =>
  match step.run s.emitter with
  | .ok a emitter => .ok a { s with emitter }
  | .error e emitter => .error e { s with emitter }

/-- Records something about a variable. -/
def record (id : SymbolId) (f : VariableInfo → VariableInfo) : Lower Unit :=
  modify fun s => { s with symbols := s.symbols.modifyVariable id f }

/-- Records something about a function. -/
def recordFunction (id : SymbolId) (f : FunctionInfo → FunctionInfo) : Lower Unit :=
  modify fun s => { s with symbols := s.symbols.modifyFunction id f }

/-- The function of an id. -/
def function (id : SymbolId) (name : String) (span : Span) : Lower FunctionInfo := do
  match (← get).symbols.functionAt id with
  | some f => return f
  | none => fail (.unresolvedSymbol name) span.start

/-- The temporary that a variable was bound to. -/
def boundTemp (id : SymbolId) (name : String) (span : Span) : Lower Temp := do
  match (← get).symbols.variableAt id |>.bind VariableInfo.temp with
  | some t => return t
  | none => fail (.unresolvedSymbol name) span.start

/-- Binds a variable to a fresh temporary. -/
def bindTemp (o : Overflow) (id : SymbolId) (name : String) (span : Span) : Lower Temp := do
  match (← get).symbols.variableAt id with
  | none => fail (.unresolvedSymbol name) span.start
  | some _ =>
    let t ← emit (.freshTemp o)
    record id fun v => { v with temp := some t }
    return t

/-- The number of a word, if there is one for the result. -/
def word (result : Option Int32) : Lower Int :=
  match result with
  | none => throw .overflow
  | some w => return w.toInt

end Lower

open MiddleEnd.Fixed.Lower

/-- The temporary of a reference. -/
def lowerRef (r : Typed.Ref) : Lower Temp :=
  match r.symbol with
  | none => fail (.unresolvedSymbol r.name) r.span.start
  | some id =>
    match r.storage with
    | some .frame => boundTemp id r.name r.span
    | none => fail (.unsupportedLvalue r.name) r.span.start

variable (o : Overflow)

/-- Lowers an expression. -/
def lowerExpr : Typed.Expr → Lower Temp
  | .const value _ _ => emit (.load o value)
  | .var ref _ _ => lowerRef ref
  | .unary op operand _ _ => do
    let src ← lowerExpr operand
    emit (.unary o op src)
  | .binary op left right _ _ => do
    let left ← lowerExpr left
    let right ← lowerExpr right
    emit (.binary o op left right)
  | .assign target value _ _ => do
    let dst ← lowerRef target
    let src ← lowerExpr value
    emit (.copy dst src)
    return dst
  | .cond test ifTrue ifFalse _ _ => do
    let result ← emit (.freshTemp o)
    let otherwise ← emit (.freshLabel o)
    let done ← emit (.freshLabel o)
    let test ← lowerExpr test
    emit (.jumpIfZero otherwise test)
    let src ← lowerExpr ifTrue
    emit (.copy result src)
    emit (.jump done)
    emit (.mark otherwise)
    let src ← lowerExpr ifFalse
    emit (.copy result src)
    emit (.mark done)
    return result

/-- Lowers an expression for its effects. -/
def lowerEffect (e : Typed.Expr) : Lower Unit := do
  let _ ← lowerExpr o e

/-- Lowers an expression that may be absent for its effects. -/
def lowerOption : Option Typed.Expr → Lower Unit
  | none => pure ()
  | some e => lowerEffect o e

/-- Jumps away when the condition is zero. -/
def lowerTest (exit : Label) (test : Typed.Expr) : Lower Unit := do
  let test ← lowerExpr o test
  emit (.jumpIfZero exit test)

/-- Jumps away when the condition is zero, and never without a condition. -/
def lowerTestOption (exit : Label) : Option Typed.Expr → Lower Unit
  | none => pure ()
  | some test => lowerTest o exit test

/-- Binds a local variable and stores its initializer. -/
def lowerVarDecl (d : Typed.VarDecl) : Lower Unit := do
  let dst ← bindTemp o d.symbol d.name d.span
  match d.init with
  | none => pure ()
  | some init =>
    let src ← lowerExpr o init
    emit (.copy dst src)

/-- Lowers the first clause of a `for`. -/
def lowerForInit : Option Typed.ForInit → Lower Unit
  | none => pure ()
  | some (.decl d) => lowerVarDecl o d
  | some (.expr e) => lowerEffect o e

/-- A loop that tests first. The body is given the targets of the loop. -/
def lowerLoop (test : Typed.Expr) (body : LoopTargets → Lower Unit) : Lower Unit := do
  let top ← emit (.freshLabel o)
  let exit ← emit (.freshLabel o)
  emit (.mark top)
  lowerTest o exit test
  body ⟨exit, top⟩
  emit (.jump top)
  emit (.mark exit)

mutual

/-- Lowers a statement that stands in the loop of `targets`, or in none. -/
def lowerStmt (targets : Option LoopTargets) : Typed.Stmt → Lower Unit
  | .decl d => lowerVarDecl o d
  | .expr e => lowerEffect o e
  | .empty => pure ()
  | .block body => lowerStmts targets body
  | .ite test ifTrue ifFalse => do
    let otherwise ← emit (.freshLabel o)
    let done ← emit (.freshLabel o)
    lowerTest o otherwise test
    lowerStmt targets ifTrue
    emit (.jump done)
    emit (.mark otherwise)
    lowerStmt targets ifFalse
    emit (.mark done)
  | .whileDo test body | .doWhile body test =>
    lowerLoop o test fun targets => lowerStmt (some targets) body
  | .forLoop init test step body => do
    let top ← emit (.freshLabel o)
    let exit ← emit (.freshLabel o)
    let next ← emit (.freshLabel o)
    lowerForInit o init
    emit (.mark top)
    lowerTestOption o exit test
    lowerStmt (some ⟨exit, next⟩) body
    emit (.mark next)
    lowerOption o step
    emit (.jump top)
    emit (.mark exit)
  | .brk span =>
    match targets with
    | none => fail .breakOutsideLoop span.start
    | some t => emit (.jump t.exit)
  | .cont span =>
    match targets with
    | none => fail .continueOutsideLoop span.start
    | some t => emit (.jump t.next)
  | .ret value => do
    let value ← lowerExpr o value
    emit (.ret value)

/-- Lowers statements one after the other. -/
def lowerStmts (targets : Option LoopTargets) : List Typed.Stmt → Lower Unit
  | [] => pure ()
  | s :: rest => do
    lowerStmt targets s
    lowerStmts targets rest

end

/-- Binds the parameters, which are numbered from `order` on, to fresh temporaries. -/
def bindParams (order : Nat) : List Typed.Param → Lower (List Temp)
  | [] => return []
  | p :: rest => do
    let t ← bindTemp o p.symbol p.name p.span
    record p.symbol fun v => { v with order := some order }
    let ts ← bindParams (order + 1) rest
    return t :: ts

/-- Gives each parameter the next place among the parameters of the frame. -/
def placeParams (size : Int32) : List Typed.Param → Lower Unit
  | [] => pure ()
  | p :: rest => do
    let offset ← emit (.nextOffset o size)
    record p.symbol fun v => { v with offset := some offset }
    placeParams size rest

/-- Returns zero, where the settings ask for it. -/
def lowerImplicitReturn (config : Config) : Lower Unit :=
  if config.implicitReturn then do
    let value ← emit (.load o 0)
    emit (.ret value)
  else
    pure ()

/-- Lowers a function. The function gets its entry, the parameters their temporaries and places,
and only then is the function opened and its body lowered. -/
def lowerFunction (config : Config) (f : Typed.Function) : Lower Unit := do
  let info ← function f.symbol f.name f.span
  recordFunction f.symbol fun g => { g with entry := some info.name }
  let params ← bindParams o 0 f.params
  emit .resetOffset
  placeParams o config.pointerSize f.params
  let bytes ← word (o.mul (.ofNat params.length) config.pointerSize)
  recordFunction f.symbol fun g => { g with offset := bytes }
  let info ← function f.symbol f.name f.span
  emit (.start info params)
  lowerStmts o none f.body
  lowerImplicitReturn o config
  emit .finish

/-- Lowers the functions of a program in order. -/
def lowerFunctions (config : Config) (p : Typed.Program) : Lower Unit :=
  p.functions.forM (lowerFunction o config)

/-- Lowers a program against its table: the code or why there is none, and the table as it is
then. -/
def lowerProgram (config : Config) (symbols : SymbolTable) (p : Typed.Program) :
    Except Stop Code × SymbolTable :=
  match (lowerFunctions o config p).run { symbols } with
  | .ok _ s => (.ok s.emitter.code, s.symbols)
  | .error e s => (.error e, s.symbols)

end MiddleEnd.Fixed
