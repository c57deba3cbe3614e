import Mathlib.Order.Monotone.Basic
import MiddleEnd.Translate

/-!
# Renaming

A renaming changes names, node ids and the numbers of positions. It keeps apart what was apart and
leaves the order of positions as it was. Everything the passes read or make is renamed by renaming
all that is in it. Typed trees also name symbols by number, and those may be numbered anew with it.

Results:
1. `Source.Program.rename_refl`, `Typed.Function.rename_refl`: the renaming that changes nothing.
-/

namespace MiddleEnd

/-- A change of names, node ids and positions. -/
structure Renaming where
  name : String → String
  node : NodeId → NodeId
  offset : Nat → Nat
  name_injective : Function.Injective name
  node_injective : Function.Injective node
  offset_strictMono : StrictMono offset

/-- The renaming that changes nothing. -/
def Renaming.refl : Renaming :=
  ⟨id, id, id, Function.injective_id, Function.injective_id, strictMono_id⟩

variable (ρ : Renaming) (σ : SymbolId → SymbolId)

/-! ## Positions and errors -/

/-- A position under a renaming. The file stays. -/
def Pos.rename (p : Pos) : Pos := { p with offset := ρ.offset p.offset }

/-- A span under a renaming. -/
def Span.rename (s : Span) : Span := ⟨s.start.rename ρ, s.stop.rename ρ⟩

/-- A cause under a renaming. The texts of types stay. -/
def Cause.rename : Cause → Cause
  | symbolNotFound s => symbolNotFound (ρ.name s)
  | notVariable s => notVariable (ρ.name s)
  | variableAlreadyDeclared n => variableAlreadyDeclared (ρ.name n)
  | functionAlreadyDeclared n => functionAlreadyDeclared (ρ.name n)
  | unknownScope id => unknownScope (ρ.node id)
  | unresolvedSymbol s => unresolvedSymbol (ρ.name s)
  | unsupportedLvalue s => unsupportedLvalue (ρ.name s)
  | unexpectedType e r => unexpectedType e r
  | incompatible e r => incompatible e r
  | badTestExpr => badTestExpr
  | breakOutsideLoop => breakOutsideLoop
  | continueOutsideLoop => continueOutsideLoop
  | noOpenFunction => noOpenFunction

/-- An error under a renaming. -/
def Error.rename (e : Error) : Error := ⟨e.cause.rename ρ, e.pos.rename ρ⟩

/-- A log under a renaming. -/
def Log.rename (log : Log) : Log := log.map (Error.rename ρ)

/-- The end of a check under a renaming. -/
def Abort.rename : Abort → Abort
  | error e => error (e.rename ρ)
  | fault f => fault f

/-- A rejection under a renaming. -/
def Rejection.rename : Rejection → Rejection
  | diagnosed log => diagnosed (log.rename ρ)
  | aborted e => aborted (e.rename ρ)
  | fault f => fault f

/-! ## Source trees -/

namespace Source

/-- A reference under a renaming. -/
def Ref.rename (r : Ref) : Ref := ⟨ρ.name r.name, r.span.rename ρ⟩

/-- An expression under a renaming. -/
def Expr.rename : Expr → Expr
  | .const value span => .const value (span.rename ρ)
  | .var r span => .var (r.rename ρ) (span.rename ρ)
  | .unary op operand span => .unary op operand.rename (span.rename ρ)
  | .binary op left right span => .binary op left.rename right.rename (span.rename ρ)
  | .assign target value span => .assign (target.rename ρ) value.rename (span.rename ρ)
  | .cond test ifTrue ifFalse span =>
    .cond test.rename ifTrue.rename ifFalse.rename (span.rename ρ)

/-- A declaration under a renaming. -/
def VarDecl.rename (d : VarDecl) : VarDecl :=
  ⟨ρ.name d.name, d.ty, d.init.map (Expr.rename ρ), d.span.rename ρ⟩

/-- The first clause of a `for` under a renaming. -/
def ForInit.rename : ForInit → ForInit
  | .decl d => .decl (d.rename ρ)
  | .expr e => .expr (e.rename ρ)

mutual

/-- A statement under a renaming. -/
def Stmt.rename : Stmt → Stmt
  | .decl d => .decl (d.rename ρ)
  | .expr e span => .expr (e.rename ρ) (span.rename ρ)
  | .empty span => .empty (span.rename ρ)
  | .block body id span => .block (renameOf body) (ρ.node id) (span.rename ρ)
  | .ite test ifTrue ifFalse span =>
    .ite (test.rename ρ) ifTrue.rename ifFalse.rename (span.rename ρ)
  | .whileDo test body span => .whileDo (test.rename ρ) body.rename (span.rename ρ)
  | .doWhile body test span => .doWhile body.rename (test.rename ρ) (span.rename ρ)
  | .forLoop init test step body id span =>
    .forLoop (init.map (ForInit.rename ρ)) (test.map (Expr.rename ρ)) (step.map (Expr.rename ρ))
      body.rename (ρ.node id) (span.rename ρ)
  | .brk span => .brk (span.rename ρ)
  | .cont span => .cont (span.rename ρ)
  | .ret value span => .ret (value.rename ρ) (span.rename ρ)

/-- Statements under a renaming. -/
def renameOf : List Stmt → List Stmt
  | [] => []
  | s :: rest => s.rename :: renameOf rest

end

/-- A parameter under a renaming. -/
def Param.rename (p : Param) : Param := ⟨ρ.name p.name, p.ty, p.span.rename ρ⟩

/-- A body under a renaming. -/
def Body.rename (b : Body) : Body := ⟨renameOf ρ b.stmts, ρ.node b.id, b.span.rename ρ⟩

/-- A function under a renaming. -/
def Function.rename (f : Function) : Function :=
  ⟨ρ.name f.name, f.params.map (Param.rename ρ), f.returnTy, f.body.rename ρ, f.span.rename ρ⟩

/-- A program under a renaming. -/
def Program.rename (p : Program) : Program :=
  ⟨p.functions.map (Function.rename ρ), ρ.node p.id, p.span.rename ρ⟩

end Source

/-! ## Typed trees -/

namespace Typed

/-- A reference under a renaming, with symbols numbered by `σ`. -/
def Ref.rename (r : Ref) : Ref :=
  ⟨ρ.name r.name, r.symbol.map σ, r.storage, r.ty, r.span.rename ρ⟩

/-- An expression under a renaming, with symbols numbered by `σ`. -/
def Expr.rename : Expr → Expr
  | .const value ty span => .const value ty (span.rename ρ)
  | .var r ty span => .var (r.rename ρ σ) ty (span.rename ρ)
  | .unary op operand ty span => .unary op operand.rename ty (span.rename ρ)
  | .binary op left right ty span => .binary op left.rename right.rename ty (span.rename ρ)
  | .assign target value ty span => .assign (target.rename ρ σ) value.rename ty (span.rename ρ)
  | .cond test ifTrue ifFalse ty span =>
    .cond test.rename ifTrue.rename ifFalse.rename ty (span.rename ρ)

/-- A declaration under a renaming, with symbols numbered by `σ`. -/
def VarDecl.rename (d : VarDecl) : VarDecl :=
  ⟨ρ.name d.name, σ d.symbol, d.ty, d.init.map (Expr.rename ρ σ), d.span.rename ρ⟩

/-- The first clause of a `for` under a renaming, with symbols numbered by `σ`. -/
def ForInit.rename : ForInit → ForInit
  | .decl d => .decl (d.rename ρ σ)
  | .expr e => .expr (e.rename ρ σ)

mutual

/-- A statement under a renaming, with symbols numbered by `σ`. -/
def Stmt.rename : Stmt → Stmt
  | .decl d => .decl (d.rename ρ σ)
  | .expr e => .expr (e.rename ρ σ)
  | .empty => .empty
  | .block body => .block (renameOf body)
  | .ite test ifTrue ifFalse => .ite (test.rename ρ σ) ifTrue.rename ifFalse.rename
  | .whileDo test body => .whileDo (test.rename ρ σ) body.rename
  | .doWhile body test => .doWhile body.rename (test.rename ρ σ)
  | .forLoop init test step body =>
    .forLoop (init.map (ForInit.rename ρ σ)) (test.map (Expr.rename ρ σ))
      (step.map (Expr.rename ρ σ)) body.rename
  | .brk span => .brk (span.rename ρ)
  | .cont span => .cont (span.rename ρ)
  | .ret value => .ret (value.rename ρ σ)

/-- Statements under a renaming, with symbols numbered by `σ`. -/
def renameOf : List Stmt → List Stmt
  | [] => []
  | s :: rest => s.rename :: renameOf rest

end

/-- A parameter under a renaming, with symbols numbered by `σ`. -/
def Param.rename (p : Param) : Param := ⟨ρ.name p.name, σ p.symbol, p.span.rename ρ⟩

/-- A function under a renaming, with symbols numbered by `σ`. -/
def Function.rename (f : Function) : Function :=
  ⟨ρ.name f.name, σ f.symbol, f.params.map (Param.rename ρ σ), f.returnTy, renameOf ρ σ f.body,
    f.span.rename ρ⟩

/-- A program under a renaming. -/
def Program.rename (p : Program) : Program := ⟨p.functions.map (Function.rename ρ id)⟩

@[simp] theorem Expr.rename_ty (e : Expr) : (e.rename ρ σ).ty = e.ty := by cases e <;> rfl

@[simp] theorem Expr.rename_span (e : Expr) : (e.rename ρ σ).span = e.span.rename ρ := by
  cases e <;> rfl

end Typed

/-! ## Tables and code -/

/-- A symbol under a renaming. -/
def Symbol.rename : Symbol → Symbol
  | var v => var { v with name := ρ.name v.name, pos := v.pos.rename ρ }
  | fn f => fn { f with
      name := ρ.name f.name
      bodyId := ρ.node f.bodyId
      pos := f.pos.rename ρ
      entry := f.entry.map ρ.name }

/-- A scope under a renaming. -/
def Scope.rename (s : Scope) : Scope :=
  ⟨ρ.node s.id, s.kind, s.names.map fun (name, id) => (ρ.name name, id)⟩

/-- A table under a renaming. Symbols and scopes keep their places. -/
def SymbolTable.rename (t : SymbolTable) : SymbolTable :=
  ⟨t.symbols.map (Symbol.rename ρ), t.scopes.map (Scope.rename ρ)⟩

/-- A piece under a renaming: the name it is entered by changes, and nothing else. -/
def Piece.rename (p : Piece) : Piece := { p with entry := ρ.name p.entry }

/-- Code under a renaming. -/
def Code.rename (c : Code) : Code := ⟨c.pieces.map (Piece.rename ρ)⟩

/-! ## The renaming that changes nothing -/

@[simp] theorem Renaming.refl_name (n : String) : Renaming.refl.name n = n := rfl

@[simp] theorem Renaming.refl_node (id : NodeId) : Renaming.refl.node id = id := rfl

@[simp] theorem Pos.rename_refl (p : Pos) : p.rename .refl = p := rfl

@[simp] theorem Span.rename_refl (s : Span) : s.rename .refl = s := rfl

@[simp] theorem Error.rename_refl (e : Error) : e.rename .refl = e := by
  obtain ⟨cause, pos⟩ := e
  cases cause <;> rfl

@[simp] theorem Abort.rename_refl (e : Abort) : e.rename .refl = e := by
  cases e with
  | error e => exact congrArg Abort.error e.rename_refl
  | fault f => rfl

namespace Source

@[simp] theorem Ref.rename_refl (r : Ref) : r.rename .refl = r := rfl

@[simp] theorem Expr.rename_refl (e : Expr) : e.rename .refl = e := by
  induction e <;> simp_all [Expr.rename]

@[simp] theorem VarDecl.rename_refl (d : VarDecl) : d.rename .refl = d := by
  obtain ⟨name, ty, init, span⟩ := d
  cases init <;> simp [VarDecl.rename]

@[simp] theorem ForInit.rename_refl (i : ForInit) : i.rename .refl = i := by
  cases i <;> simp [ForInit.rename]

mutual

@[simp] theorem Stmt.rename_refl (s : Stmt) : s.rename .refl = s := by
  cases s with
  | block body id span => simp [Stmt.rename, renameOf_refl body]
  | ite test ifTrue ifFalse span => simp [Stmt.rename, ifTrue.rename_refl, ifFalse.rename_refl]
  | whileDo test body span | doWhile body test span => simp [Stmt.rename, body.rename_refl]
  | forLoop init test step body id span =>
    cases init <;> cases test <;> cases step <;> simp [Stmt.rename, body.rename_refl]
  | decl | expr | empty | brk | cont | ret => simp [Stmt.rename]

@[simp] theorem renameOf_refl (ss : List Stmt) : renameOf .refl ss = ss := by
  cases ss with
  | nil => rfl
  | cons s rest => simp [renameOf, s.rename_refl, renameOf_refl rest]

end

@[simp] theorem Function.rename_refl (f : Function) : f.rename .refl = f := by
  obtain ⟨name, params, returnTy, ⟨stmts, id, span⟩, span'⟩ := f
  have params : params.map (Param.rename .refl) = params := List.map_id params
  simp [Function.rename, Body.rename, params]

@[simp] theorem Program.rename_refl (p : Program) : p.rename .refl = p := by
  obtain ⟨functions, id, span⟩ := p
  have functions : functions.map (Function.rename .refl) = functions := by
    rw [List.map_congr_left fun f _ => f.rename_refl, List.map_id']
  simp [Program.rename, functions]

end Source

namespace Typed

@[simp] theorem Ref.rename_refl (r : Ref) : r.rename .refl id = r := by
  obtain ⟨name, symbol, storage, ty, span⟩ := r
  cases symbol <;> rfl

@[simp] theorem Expr.rename_refl (e : Expr) : e.rename .refl id = e := by
  induction e <;> simp_all [Expr.rename]

@[simp] theorem VarDecl.rename_refl (d : VarDecl) : d.rename .refl id = d := by
  obtain ⟨name, symbol, ty, init, span⟩ := d
  cases init <;> simp [VarDecl.rename]

@[simp] theorem ForInit.rename_refl (i : ForInit) : i.rename .refl id = i := by
  cases i <;> simp [ForInit.rename]

mutual

@[simp] theorem Stmt.rename_refl (s : Stmt) : s.rename .refl id = s := by
  cases s with
  | block body => simp [Stmt.rename, renameOf_refl body]
  | ite test ifTrue ifFalse => simp [Stmt.rename, ifTrue.rename_refl, ifFalse.rename_refl]
  | whileDo test body | doWhile body test => simp [Stmt.rename, body.rename_refl]
  | forLoop init test step body =>
    cases init <;> cases test <;> cases step <;> simp [Stmt.rename, body.rename_refl]
  | decl | expr | empty | brk | cont | ret => simp [Stmt.rename]

@[simp] theorem renameOf_refl (ss : List Stmt) : renameOf .refl id ss = ss := by
  cases ss with
  | nil => rfl
  | cons s rest => simp [renameOf, s.rename_refl, renameOf_refl rest]

end

@[simp] theorem Function.rename_refl (f : Function) : f.rename .refl id = f := by
  obtain ⟨name, symbol, params, returnTy, body, span⟩ := f
  have params : params.map (Param.rename .refl id) = params := List.map_id params
  simp [Function.rename, params]

@[simp] theorem Program.rename_refl (p : Program) : p.rename .refl = p := by
  obtain ⟨functions⟩ := p
  have functions : functions.map (Function.rename .refl id) = functions := by
    rw [List.map_congr_left fun f _ => f.rename_refl, List.map_id']
  simp [Program.rename, functions]

end Typed
end MiddleEnd
