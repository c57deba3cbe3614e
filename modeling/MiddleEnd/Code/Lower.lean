import MiddleEnd.Code.LowerState
import MiddleEnd.Typed.Tree

/-!
# Lowering a program

The third pass turns typed trees into three-address code. An expression answers the temporary that
holds its value.

* A variable is its own temporary, and a reference to it emits nothing.
* `t = e` is `<e>; t <- v` and answers `t`.
* `c ? a : b` is `<c>; IF v JUMP f; <a>; r <- v; JUMP e; f: <b>; r <- v; e:` and answers `r`.
* `if (c) a else b` is `<c>; IF v JUMP f; <a>; JUMP e; f: <b>; e:`.
* `while (c) a` is `t: <c>; IF v JUMP e; <a>; JUMP t; e:`, and `do a while (c)` is the same: its
  condition is tested before the first round as well.
* `for (i; c; s) a` is `<i>; t: <c>; IF v JUMP e; <a>; n: <s>; JUMP t; e:`, where an absent test
  emits no jump.
* `break` jumps to `e` of the innermost loop; `continue` jumps to `t`, in a `for` to `n`.

Where labels and a result temporary are needed, they are taken before anything below is lowered.
-/

namespace MiddleEnd

open Lower

/-- Where `break` and `continue` go. -/
structure LoopTargets where
  exit : Label
  next : Label
deriving DecidableEq

/-- The temporary of a reference. -/
def lowerRef (r : Typed.Ref) : Lower Temp :=
  match r.symbol with
  | none => fail (.unresolvedSymbol r.name) r.span.start
  | some id =>
    match r.storage with
    | some .frame => boundTemp id r.name r.span
    | none => fail (.unsupportedLvalue r.name) r.span.start

/-- Lowers an expression. -/
def lowerExpr : Typed.Expr → Lower Temp
  | .const value _ _ => emit (.load value)
  | .var ref _ _ => lowerRef ref
  | .unary op operand _ _ => do
    let src ← lowerExpr operand
    emit (.unary op src)
  | .binary op left right _ _ => do
    let left ← lowerExpr left
    let right ← lowerExpr right
    emit (.binary op left right)
  | .assign target value _ _ => do
    let dst ← lowerRef target
    let src ← lowerExpr value
    emit (.copy dst src)
    return dst
  | .cond test ifTrue ifFalse _ _ => do
    let result ← emit .freshTemp
    let otherwise ← emit .freshLabel
    let done ← emit .freshLabel
    let test ← lowerExpr test
    emit (.jumpIfZero otherwise test)
    let src ← lowerExpr ifTrue
    emit (.copy result src)
    emit (.jump done)
    emit (.mark otherwise)
    let src ← lowerExpr ifFalse
    emit (.copy result src)
    emit (.mark done)
    return result

/-- Lowers an expression for its effects. -/
def lowerEffect (e : Typed.Expr) : Lower Unit := do
  let _ ← lowerExpr e

/-- Lowers an expression that may be absent for its effects. -/
def lowerOption : Option Typed.Expr → Lower Unit
  | none => pure ()
  | some e => lowerEffect e

/-- Jumps away when the condition is zero. -/
def lowerTest (exit : Label) (test : Typed.Expr) : Lower Unit := do
  let test ← lowerExpr test
  emit (.jumpIfZero exit test)

/-- Jumps away when the condition is zero, and never without a condition. -/
def lowerTestOption (exit : Label) : Option Typed.Expr → Lower Unit
  | none => pure ()
  | some test => lowerTest exit test

/-- Binds a local variable and stores its initializer. -/
def lowerVarDecl (d : Typed.VarDecl) : Lower Unit := do
  let dst ← bindTemp d.symbol d.name d.span
  match d.init with
  | none => pure ()
  | some init =>
    let src ← lowerExpr init
    emit (.copy dst src)

/-- Lowers the first clause of a `for`. -/
def lowerForInit : Option Typed.ForInit → Lower Unit
  | none => pure ()
  | some (.decl d) => lowerVarDecl d
  | some (.expr e) => lowerEffect e

/-- A loop that tests first. The body is given the targets of the loop. -/
def lowerLoop (test : Typed.Expr) (body : LoopTargets → Lower Unit) : Lower Unit := do
  let top ← emit .freshLabel
  let exit ← emit .freshLabel
  emit (.mark top)
  lowerTest exit test
  body ⟨exit, top⟩
  emit (.jump top)
  emit (.mark exit)

mutual

/-- Lowers a statement that stands in the loop of `targets`, or in none. -/
def lowerStmt (targets : Option LoopTargets) : Typed.Stmt → Lower Unit
  | .decl d => lowerVarDecl d
  | .expr e => lowerEffect e
  | .empty => pure ()
  | .block body => lowerStmts targets body
  | .ite test ifTrue ifFalse => do
    let otherwise ← emit .freshLabel
    let done ← emit .freshLabel
    lowerTest otherwise test
    lowerStmt targets ifTrue
    emit (.jump done)
    emit (.mark otherwise)
    lowerStmt targets ifFalse
    emit (.mark done)
  | .whileDo test body | .doWhile body test =>
    lowerLoop test fun targets => lowerStmt (some targets) body
  | .forLoop init test step body => do
    let top ← emit .freshLabel
    let exit ← emit .freshLabel
    let next ← emit .freshLabel
    lowerForInit init
    emit (.mark top)
    lowerTestOption exit test
    lowerStmt (some ⟨exit, next⟩) body
    emit (.mark next)
    lowerOption step
    emit (.jump top)
    emit (.mark exit)
  | .brk span =>
    match targets with
    | none => fail .breakOutsideLoop span.start
    | some t => emit (.jump t.exit)
  | .cont span =>
    match targets with
    | none => fail .continueOutsideLoop span.start
    | some t => emit (.jump t.next)
  | .ret value => do
    let value ← lowerExpr value
    emit (.ret value)

/-- Lowers statements one after the other. -/
def lowerStmts (targets : Option LoopTargets) : List Typed.Stmt → Lower Unit
  | [] => pure ()
  | s :: rest => do
    lowerStmt targets s
    lowerStmts targets rest

end

/-- Binds the parameters, which are numbered from `order` on, to fresh temporaries. -/
def bindParams (order : Nat) : List Typed.Param → Lower (List Temp)
  | [] => return []
  | p :: rest => do
    let t ← bindTemp p.symbol p.name p.span
    record p.symbol fun v => { v with order := some order }
    let ts ← bindParams (order + 1) rest
    return t :: ts

/-- Gives each parameter the next place among the parameters of the frame. -/
def placeParams (size : Int) : List Typed.Param → Lower Unit
  | [] => pure ()
  | p :: rest => do
    let offset ← emit (.nextOffset size)
    record p.symbol fun v => { v with offset := some offset }
    placeParams size rest

/-- Returns zero, where the settings ask for it. -/
def lowerImplicitReturn (config : Config) : Lower Unit :=
  if config.implicitReturn then do
    let value ← emit (.load 0)
    emit (.ret value)
  else
    pure ()

/-- Lowers a function. The function gets its entry, the parameters their temporaries and places,
and only then is the function opened and its body lowered. -/
def lowerFunction (config : Config) (f : Typed.Function) : Lower Unit := do
  let info ← function f.symbol f.name f.span
  recordFunction f.symbol fun g => { g with entry := some info.name }
  let params ← bindParams 0 f.params
  emit .resetOffset
  placeParams config.pointerSize f.params
  recordFunction f.symbol fun g => { g with offset := params.length * config.pointerSize }
  let info ← function f.symbol f.name f.span
  emit (.start info params)
  lowerStmts none f.body
  lowerImplicitReturn config
  emit .finish

/-- Lowers the functions of a program in order. -/
def lowerFunctions (config : Config) (p : Typed.Program) : Lower Unit :=
  p.functions.forM (lowerFunction config)

/-- Lowers a program against its table: the code or the first error, and the table as it is then. -/
def lowerProgram (config : Config) (symbols : SymbolTable) (p : Typed.Program) :
    Except Error Code × SymbolTable :=
  match (lowerFunctions config p).run { symbols } with
  | .ok _ s => (.ok s.emitter.code, s.symbols)
  | .error e s => (.error e, s.symbols)

end MiddleEnd
