import MiddleEnd.Typed.Check
import MiddleEnd.Proofs.Steps

/-!
# The shape of a check

Checking is a monadic walk. This module says what a walk that succeeds leaves behind, without the
monad: `ExprCheck Γ path e e' log` means that `e`, checked with the scopes of `path` open, becomes
`e'` and has `log` issued. There is one rule for each construct, and the rules are the ones that the
module of the checker lists.

Results:
1. `checkExpr_shape`, `checkStmt_shape`, `checkProgram_shape`: a check that succeeds follows the
   rules.
2. `ExprCheck.run`, `StmtCheck.run`, `ProgramCheck.run`: a check that can follow the rules succeeds.
-/

namespace MiddleEnd

/-- A report, unless the condition holds. -/
def reportUnless (condition : Bool) (cause : Cause) (pos : Pos) : Log :=
  if condition then [] else [⟨cause, pos⟩]

/-- The report on a value that must have exactly one type. -/
def tyReport (pos : Pos) (expected received : Ty) : Log :=
  reportUnless (received.isError || received == expected)
    (.unexpectedType expected.text received.text) pos

/-- The report on a value that must fit a type. -/
def fitsReport (pos : Pos) (expected received : Ty) : Log :=
  reportUnless (received.fits expected) (.incompatible expected.text received.text) pos

/-- The report on a condition. -/
def testReport (pos : Pos) (ty : Ty) : Log :=
  reportUnless (ty.isError || ty == .int) .badTestExpr pos

/-- The report on the branches of a conditional. -/
def branchesReport (config : Config) (pos : Pos) (ifTrue ifFalse : Ty) : Log :=
  if config.strictConditionals then fitsReport pos ifTrue ifFalse else []

/-- The symbol that the innermost scope of a path has under a name. -/
def SymbolTable.innermost? (t : SymbolTable) : ScopePath → String → Option SymbolId
  | [], _ => none
  | index :: _, name => t.scopes[index]?.bind fun scope => scope.find? name

/-! ## Expressions -/

/-- What becomes of a reference. -/
inductive RefCheck (t : SymbolTable) (path : ScopePath) : Source.Ref → Typed.Ref → Log → Prop
  | notFound {r : Source.Ref} :
      t.lookup r.name r.span.start path = .ok none →
      RefCheck t path r (.unresolved r.name r.span) [⟨.symbolNotFound r.name, r.span.start⟩]
  | notVariable {r : Source.Ref} {id : SymbolId} {g : FunctionInfo} :
      t.lookup r.name r.span.start path = .ok (some id) → t.symbols[id]? = some (.fn g) →
      RefCheck t path r (.unresolved r.name r.span) [⟨.notVariable r.name, r.span.start⟩]
  | found {r : Source.Ref} {id : SymbolId} {v : VariableInfo} :
      t.lookup r.name r.span.start path = .ok (some id) → t.symbols[id]? = some (.var v) →
      RefCheck t path r ⟨r.name, some id, some v.storage, v.ty, r.span⟩ []

/-- What becomes of an expression. -/
inductive ExprCheck (Γ : CheckContext) (path : ScopePath) :
    Source.Expr → Typed.Expr → Log → Prop
  | const {value : Int} {span : Span} :
      ExprCheck Γ path (.const value span) (.const value .int span) []
  | var {r : Source.Ref} {r' : Typed.Ref} {span : Span} {log : Log} :
      RefCheck Γ.symbols path r r' log →
      ExprCheck Γ path (.var r span) (.var r' r'.ty span) log
  | unary {op : UnaryOp} {operand : Source.Expr} {o : Typed.Expr} {span : Span} {log : Log} :
      ExprCheck Γ path operand o log →
      ExprCheck Γ path (.unary op operand span) (.unary op o .int span)
        (log ++ tyReport o.span.start .int o.ty)
  | binary {op : BinaryOp} {left right : Source.Expr} {l r : Typed.Expr} {span : Span}
      {log₁ log₂ : Log} :
      ExprCheck Γ path left l log₁ → ExprCheck Γ path right r log₂ →
      ExprCheck Γ path (.binary op left right span) (.binary op l r .int span)
        (log₁ ++ tyReport l.span.start .int l.ty ++ log₂ ++ tyReport r.span.start .int r.ty)
  | assign {target : Source.Ref} {value : Source.Expr} {t : Typed.Ref} {v : Typed.Expr}
      {span : Span} {log₁ log₂ : Log} :
      RefCheck Γ.symbols path target t log₁ → ExprCheck Γ path value v log₂ →
      ExprCheck Γ path (.assign target value span) (.assign t v t.ty span)
        (log₁ ++ log₂ ++ fitsReport span.start t.ty v.ty)
  | cond {test ifTrue ifFalse : Source.Expr} {t a b : Typed.Expr} {span : Span}
      {log₁ log₂ log₃ : Log} :
      ExprCheck Γ path test t log₁ → ExprCheck Γ path ifTrue a log₂ →
      ExprCheck Γ path ifFalse b log₃ →
      ExprCheck Γ path (.cond test ifTrue ifFalse span) (.cond t a b b.ty span)
        (log₁ ++ testReport t.span.start t.ty ++ log₂ ++ log₃ ++
          branchesReport Γ.config b.span.start a.ty b.ty)

/-- What becomes of an expression that may be absent. -/
inductive OptionCheck (Γ : CheckContext) (path : ScopePath) :
    Option Source.Expr → Option Typed.Expr → Log → Prop
  | none : OptionCheck Γ path none none []
  | some {e : Source.Expr} {e' : Typed.Expr} {log : Log} :
      ExprCheck Γ path e e' log → OptionCheck Γ path (some e) (some e') log

/-- What becomes of the condition of a statement. -/
inductive TestCheck (Γ : CheckContext) (path : ScopePath) : Source.Expr → Typed.Expr → Log → Prop
  | mk {test : Source.Expr} {t : Typed.Expr} {log : Log} :
      ExprCheck Γ path test t log →
      TestCheck Γ path test t (log ++ testReport t.span.start t.ty)

/-- What becomes of an expression whose value must fit a type. -/
inductive FitsCheck (Γ : CheckContext) (path : ScopePath) (ty : Ty) :
    Source.Expr → Typed.Expr → Log → Prop
  | mk {e : Source.Expr} {e' : Typed.Expr} {log : Log} :
      ExprCheck Γ path e e' log →
      FitsCheck Γ path ty e e' (log ++ fitsReport e'.span.start ty e'.ty)

/-! ## Statements -/

/-- What becomes of a declaration. -/
inductive VarDeclCheck (Γ : CheckContext) (path : ScopePath) :
    Source.VarDecl → Typed.VarDecl → Log → Prop
  | plain {d : Source.VarDecl} {id : SymbolId} :
      Γ.symbols.innermost? path d.name = some id → d.init = none →
      VarDeclCheck Γ path d ⟨d.name, id, d.ty, none, d.span⟩ []
  | init {d : Source.VarDecl} {id : SymbolId} {init : Source.Expr} {e : Typed.Expr} {log : Log} :
      Γ.symbols.innermost? path d.name = some id → d.init = some init →
      FitsCheck Γ path d.ty init e log →
      VarDeclCheck Γ path d ⟨d.name, id, d.ty, some e, d.span⟩ log

/-- What becomes of the first clause of a `for`. -/
inductive ForInitCheck (Γ : CheckContext) (path : ScopePath) :
    Option Source.ForInit → Option Typed.ForInit → Log → Prop
  | none : ForInitCheck Γ path none none []
  | decl {d : Source.VarDecl} {d' : Typed.VarDecl} {log : Log} :
      VarDeclCheck Γ path d d' log → ForInitCheck Γ path (some (.decl d)) (some (.decl d')) log
  | expr {e : Source.Expr} {e' : Typed.Expr} {log : Log} :
      ExprCheck Γ path e e' log → ForInitCheck Γ path (some (.expr e)) (some (.expr e')) log

mutual

/-- What becomes of a statement of a function that returns `returnTy`. -/
inductive StmtCheck (Γ : CheckContext) (returnTy : Ty) :
    ScopePath → Source.Stmt → Typed.Stmt → Log → Prop
  | decl {path : ScopePath} {d : Source.VarDecl} {d' : Typed.VarDecl} {log : Log} :
      VarDeclCheck Γ path d d' log → StmtCheck Γ returnTy path (.decl d) (.decl d') log
  | expr {path : ScopePath} {e : Source.Expr} {e' : Typed.Expr} {span : Span} {log : Log} :
      ExprCheck Γ path e e' log → StmtCheck Γ returnTy path (.expr e span) (.expr e') log
  | empty {path : ScopePath} {span : Span} : StmtCheck Γ returnTy path (.empty span) .empty []
  | block {path : ScopePath} {body : List Source.Stmt} {body' : List Typed.Stmt} {id : NodeId}
      {span : Span} {index : ScopeIndex} {log : Log} :
      Γ.symbols.scopeIndex? id = some index →
      StmtsCheck Γ returnTy (index :: path) body body' log →
      StmtCheck Γ returnTy path (.block body id span) (.block body') log
  | ite {path : ScopePath} {test : Source.Expr} {ifTrue ifFalse : Source.Stmt} {t : Typed.Expr}
      {a b : Typed.Stmt} {span : Span} {log₁ log₂ log₃ : Log} :
      TestCheck Γ path test t log₁ → StmtCheck Γ returnTy path ifTrue a log₂ →
      StmtCheck Γ returnTy path ifFalse b log₃ →
      StmtCheck Γ returnTy path (.ite test ifTrue ifFalse span) (.ite t a b) (log₁ ++ log₂ ++ log₃)
  | whileDo {path : ScopePath} {test : Source.Expr} {body : Source.Stmt} {t : Typed.Expr}
      {b : Typed.Stmt} {span : Span} {log₁ log₂ : Log} :
      TestCheck Γ path test t log₁ → StmtCheck Γ returnTy path body b log₂ →
      StmtCheck Γ returnTy path (.whileDo test body span) (.whileDo t b) (log₁ ++ log₂)
  | doWhile {path : ScopePath} {test : Source.Expr} {body : Source.Stmt} {t : Typed.Expr}
      {b : Typed.Stmt} {span : Span} {log₁ log₂ : Log} :
      TestCheck Γ path test t log₁ → StmtCheck Γ returnTy path body b log₂ →
      StmtCheck Γ returnTy path (.doWhile body test span) (.doWhile b t) (log₁ ++ log₂)
  | forLoop {path : ScopePath} {init : Option Source.ForInit} {test step : Option Source.Expr}
      {body : Source.Stmt} {i : Option Typed.ForInit} {t s : Option Typed.Expr} {b : Typed.Stmt}
      {id : NodeId} {span : Span} {index : ScopeIndex} {log₁ log₂ log₃ log₄ : Log} :
      Γ.symbols.scopeIndex? id = some index →
      ForInitCheck Γ (index :: path) init i log₁ → OptionCheck Γ (index :: path) test t log₂ →
      OptionCheck Γ (index :: path) step s log₃ →
      StmtCheck Γ returnTy (index :: path) body b log₄ →
      StmtCheck Γ returnTy path (.forLoop init test step body id span) (.forLoop i t s b)
        (log₁ ++ log₂ ++ log₃ ++ log₄)
  | brk {path : ScopePath} {span : Span} : StmtCheck Γ returnTy path (.brk span) (.brk span) []
  | cont {path : ScopePath} {span : Span} : StmtCheck Γ returnTy path (.cont span) (.cont span) []
  | ret {path : ScopePath} {value : Source.Expr} {v : Typed.Expr} {span : Span} {log : Log} :
      FitsCheck Γ path returnTy value v log →
      StmtCheck Γ returnTy path (.ret value span) (.ret v) log

/-- What becomes of statements in one scope. -/
inductive StmtsCheck (Γ : CheckContext) (returnTy : Ty) :
    ScopePath → List Source.Stmt → List Typed.Stmt → Log → Prop
  | nil {path : ScopePath} : StmtsCheck Γ returnTy path [] [] []
  | cons {path : ScopePath} {s : Source.Stmt} {s' : Typed.Stmt} {rest : List Source.Stmt}
      {rest' : List Typed.Stmt} {log₁ log₂ : Log} :
      StmtCheck Γ returnTy path s s' log₁ → StmtsCheck Γ returnTy path rest rest' log₂ →
      StmtsCheck Γ returnTy path (s :: rest) (s' :: rest') (log₁ ++ log₂)

end

/-! ## Programs -/

/-- What becomes of parameters. -/
inductive ParamsCheck (Γ : CheckContext) (path : ScopePath) :
    List Source.Param → List Typed.Param → Prop
  | nil : ParamsCheck Γ path [] []
  | cons {p : Source.Param} {rest : List Source.Param} {rest' : List Typed.Param} {id : SymbolId} :
      Γ.symbols.innermost? path p.name = some id → ParamsCheck Γ path rest rest' →
      ParamsCheck Γ path (p :: rest) (⟨p.name, id, p.span⟩ :: rest')

/-- What becomes of a function. -/
inductive FunctionCheck (Γ : CheckContext) (path : ScopePath) :
    Source.Function → Typed.Function → Log → Prop
  | mk {f : Source.Function} {id : SymbolId} {index : ScopeIndex} {params : List Typed.Param}
      {body : List Typed.Stmt} {log : Log} :
      Γ.symbols.innermost? path f.name = some id → (Γ.symbols.functionAt id).isSome →
      Γ.symbols.scopeIndex? f.body.id = some index →
      ParamsCheck Γ (index :: path) f.params params →
      StmtsCheck Γ f.returnTy (index :: path) f.body.stmts body log →
      FunctionCheck Γ path f ⟨f.name, id, params, f.returnTy, body, f.span⟩ log

/-- What becomes of functions. -/
inductive FunctionsCheck (Γ : CheckContext) (path : ScopePath) :
    List Source.Function → List Typed.Function → Log → Prop
  | nil : FunctionsCheck Γ path [] [] []
  | cons {f : Source.Function} {f' : Typed.Function} {rest : List Source.Function}
      {rest' : List Typed.Function} {log₁ log₂ : Log} :
      FunctionCheck Γ path f f' log₁ → FunctionsCheck Γ path rest rest' log₂ →
      FunctionsCheck Γ path (f :: rest) (f' :: rest') (log₁ ++ log₂)

/-- What becomes of a program. -/
inductive ProgramCheck (Γ : CheckContext) : Source.Program → Typed.Program → Log → Prop
  | mk {p : Source.Program} {index : ScopeIndex} {functions : List Typed.Function} {log : Log} :
      Γ.symbols.scopeIndex? p.id = some index →
      FunctionsCheck Γ [index] p.functions functions log →
      ProgramCheck Γ p ⟨functions⟩ log

/-! ## The walk -/

namespace CheckState

/-- A check after more was issued. -/
def issued (s : CheckState) (log : Log) : CheckState := { s with log := s.log ++ log }

@[simp] theorem issued_nil (s : CheckState) : s.issued [] = s := by simp [issued]

@[simp] theorem issued_issued (s : CheckState) (log₁ log₂ : Log) :
    (s.issued log₁).issued log₂ = s.issued (log₁ ++ log₂) := by simp [issued]

/-- A check with a scope more open. -/
def inside (s : CheckState) (index : ScopeIndex) : CheckState := { s with path := index :: s.path }

@[simp] theorem inside_path (s : CheckState) (index : ScopeIndex) :
    (s.inside index).path = index :: s.path := rfl

end CheckState

namespace CheckM

variable {Γ : CheckContext} {s s' : CheckState}

theorem require_eq (condition : Bool) (cause : Cause) (pos : Pos) (s : CheckState) :
    require condition cause pos s = .ok () (s.issued (reportUnless condition cause pos)) := by
  unfold require reportUnless
  cases condition with
  | false => rfl
  | true =>
    rw [if_pos rfl, if_pos rfl, CheckState.issued_nil]
    rfl

theorem expectTy_eq (pos : Pos) (expected received : Ty) (s : CheckState) :
    expectTy pos expected received s = .ok () (s.issued (tyReport pos expected received)) :=
  require_eq ..

theorem expectFits_eq (pos : Pos) (expected received : Ty) (s : CheckState) :
    expectFits pos expected received s = .ok () (s.issued (fitsReport pos expected received)) :=
  require_eq ..

theorem expectTest_eq (pos : Pos) (ty : Ty) (s : CheckState) :
    expectTest pos ty s = .ok () (s.issued (testReport pos ty)) := require_eq ..

theorem expectBranches_eq (config : Config) (pos : Pos) (ifTrue ifFalse : Ty) (s : CheckState) :
    expectBranches config pos ifTrue ifFalse s =
      .ok () (s.issued (branchesReport config pos ifTrue ifFalse)) := by
  unfold expectBranches branchesReport
  split
  · exact expectFits_eq ..
  · rw [CheckState.issued_nil]
    rfl

theorem lookup_eq_ok {name : String} {pos : Pos} {found : Option SymbolId} :
    lookup Γ name pos s = .ok found s' ↔
      Γ.symbols.lookup name pos s.path = .ok found ∧ s' = s := by
  unfold lookup
  rw [get_bind]
  cases Γ.symbols.lookup name pos s.path with
  | error fault => exact ⟨nofun, nofun⟩
  | ok id => simp [pure_eq_ok, eq_comm]

theorem symbol_eq_ok {id : SymbolId} {found : Symbol} :
    symbol Γ id s = .ok found s' ↔ Γ.symbols.symbols[id]? = some found ∧ s' = s := by
  unfold symbol
  cases Γ.symbols.symbols[id]? with
  | none => exact ⟨nofun, nofun⟩
  | some symbol => simp [pure_eq_ok, eq_comm]

theorem declared_eq_ok {name : String} {pos : Pos} {id : SymbolId} :
    declared Γ name pos s = .ok id s' ↔
      Γ.symbols.innermost? s.path name = some id ∧ s' = s := by
  obtain ⟨path, log⟩ := s
  cases path with
  | nil => exact ⟨nofun, fun h => nomatch h.1⟩
  | cons index outer =>
    unfold declared
    rw [get_bind]
    dsimp only
    show _ ↔ (Γ.symbols.scopes[index]?.bind fun scope => scope.find? name) = some id ∧ _
    cases Γ.symbols.scopes[index]? with
    | none => exact ⟨nofun, fun h => nomatch h.1⟩
    | some scope =>
      show _ ↔ scope.find? name = some id ∧ _
      dsimp only
      cases scope.find? name with
      | none => exact ⟨nofun, fun h => nomatch h.1⟩
      | some id =>
        rw [Option.some_inj]
        exact pure_eq_ok.trans (and_congr_right fun _ => eq_comm)

theorem declaredFunction_eq_ok {name : String} {pos : Pos} {id : SymbolId} :
    declaredFunction Γ name pos s = .ok id s' ↔
      Γ.symbols.innermost? s.path name = some id ∧ (Γ.symbols.functionAt id).isSome ∧ s' = s := by
  rw [declaredFunction, bind_eq_ok]
  constructor
  · rintro ⟨found, s₁, looked, rest⟩
    obtain ⟨here, rfl⟩ := declared_eq_ok.1 looked
    cases isFn : Γ.symbols.functionAt found with
    | none =>
      rw [isFn] at rest
      cases rest
    | some f =>
      rw [isFn] at rest
      obtain ⟨rfl, rfl⟩ := pure_eq_ok.1 rest
      exact ⟨here, by simp [isFn], rfl⟩
  · rintro ⟨here, isFn, rfl⟩
    obtain ⟨f, isFn⟩ := Option.isSome_iff_exists.1 isFn
    exact ⟨id, s', declared_eq_ok.2 ⟨here, rfl⟩, by simp [isFn, pure_eq_ok]⟩

/-- A body that leaves the open scopes as it found them. -/
theorem inScope_eq_ok {id : NodeId} {pos : Pos} {body : CheckM α} {a : α} :
    inScope Γ id pos body s = .ok a s' ↔
      ∃ index s₁, Γ.symbols.scopeIndex? id = some index ∧ body (s.inside index) = .ok a s₁ ∧
        s' = { s₁ with path := s₁.path.tail } := by
  unfold inScope
  cases Γ.symbols.scopeIndex? id with
  | none => exact ⟨nofun, nofun⟩
  | some index =>
    simp only [CheckState.inside]
    split
    · next b s₁ ran =>
      constructor
      · intro ok
        cases ok
        exact ⟨index, s₁, rfl, ran, rfl⟩
      · rintro ⟨_, _, found, ok, rfl⟩
        cases found
        cases ran.symm.trans ok
        rfl
    · next e s₁ ran =>
      refine ⟨nofun, ?_⟩
      rintro ⟨_, _, found, ok, -⟩
      cases found
      cases ran.symm.trans ok

end CheckM

open CheckM

theorem checkRef_shape {Γ : CheckContext} {r : Source.Ref} {s s' : CheckState} {r' : Typed.Ref}
    (h : checkRef Γ r s = .ok r' s') :
    ∃ log, RefCheck Γ.symbols s.path r r' log ∧ s' = s.issued log := by
  obtain ⟨found, s₁, looked, rest⟩ := bind_eq_ok.1 h
  obtain ⟨looked, rfl⟩ := lookup_eq_ok.1 looked
  cases found with
  | none =>
    cases rest
    exact ⟨_, .notFound looked, rfl⟩
  | some id =>
    obtain ⟨symbol, s₂, read, rest⟩ := bind_eq_ok.1 rest
    obtain ⟨here, rfl⟩ := symbol_eq_ok.1 read
    cases symbol with
    | var v =>
      obtain ⟨rfl, rfl⟩ := pure_eq_ok.1 rest
      exact ⟨_, .found looked here, by rw [CheckState.issued_nil]⟩
    | fn g =>
      cases rest
      exact ⟨_, .notVariable looked here, rfl⟩

theorem RefCheck.run {Γ : CheckContext} {r : Source.Ref} {r' : Typed.Ref} {log : Log}
    {s : CheckState} (h : RefCheck Γ.symbols s.path r r' log) :
    checkRef Γ r s = .ok r' (s.issued log) := by
  cases h with
  | notFound looked =>
    rw [checkRef, bind_of_ok (lookup_eq_ok.2 ⟨looked, rfl⟩)]
    rfl
  | notVariable looked here =>
    rw [checkRef, bind_of_ok (lookup_eq_ok.2 ⟨looked, rfl⟩)]
    dsimp only
    rw [bind_of_ok (symbol_eq_ok.2 ⟨here, rfl⟩)]
    rfl
  | found looked here =>
    rw [checkRef, bind_of_ok (lookup_eq_ok.2 ⟨looked, rfl⟩)]
    dsimp only
    rw [bind_of_ok (symbol_eq_ok.2 ⟨here, rfl⟩), CheckState.issued_nil]
    rfl

/-- Checking an expression follows its rule. -/
theorem checkExpr_shape {Γ : CheckContext} {e : Source.Expr} {s s' : CheckState} {e' : Typed.Expr}
    (h : checkExpr Γ e s = .ok e' s') :
    ∃ log, ExprCheck Γ s.path e e' log ∧ s' = s.issued log := by
  induction e generalizing s s' e' with
  | const value span =>
    obtain ⟨rfl, rfl⟩ := pure_eq_ok.1 h
    exact ⟨_, .const, by rw [CheckState.issued_nil]⟩
  | var r span =>
    obtain ⟨r', s₁, checked, rest⟩ := bind_eq_ok.1 h
    obtain ⟨rfl, rfl⟩ := pure_eq_ok.1 rest
    obtain ⟨log, shape, rfl⟩ := checkRef_shape checked
    exact ⟨_, .var shape, rfl⟩
  | unary op operand span ih =>
    obtain ⟨o, s₁, checked, rest⟩ := bind_eq_ok.1 h
    obtain ⟨log, shape, rfl⟩ := ih checked
    rw [bind_of_ok (expectTy_eq ..)] at rest
    obtain ⟨rfl, rfl⟩ := pure_eq_ok.1 rest
    exact ⟨_, .unary shape, by simp⟩
  | binary op left right span ihl ihr =>
    obtain ⟨l, s₁, checked₁, rest⟩ := bind_eq_ok.1 h
    obtain ⟨log₁, shape₁, rfl⟩ := ihl checked₁
    rw [bind_of_ok (expectTy_eq ..)] at rest
    obtain ⟨r, s₂, checked₂, rest⟩ := bind_eq_ok.1 rest
    obtain ⟨log₂, shape₂, rfl⟩ := ihr checked₂
    rw [bind_of_ok (expectTy_eq ..)] at rest
    obtain ⟨rfl, rfl⟩ := pure_eq_ok.1 rest
    exact ⟨_, .binary shape₁ shape₂, by simp⟩
  | assign target value span ih =>
    obtain ⟨t, s₁, checked₁, rest⟩ := bind_eq_ok.1 h
    obtain ⟨log₁, shape₁, rfl⟩ := checkRef_shape checked₁
    obtain ⟨v, s₂, checked₂, rest⟩ := bind_eq_ok.1 rest
    obtain ⟨log₂, shape₂, rfl⟩ := ih checked₂
    rw [bind_of_ok (expectFits_eq ..)] at rest
    obtain ⟨rfl, rfl⟩ := pure_eq_ok.1 rest
    exact ⟨_, .assign shape₁ shape₂, by simp⟩
  | cond test ifTrue ifFalse span iht iha ihb =>
    obtain ⟨t, s₁, checked₁, rest⟩ := bind_eq_ok.1 h
    obtain ⟨log₁, shape₁, rfl⟩ := iht checked₁
    rw [bind_of_ok (expectTest_eq ..)] at rest
    obtain ⟨a, s₂, checked₂, rest⟩ := bind_eq_ok.1 rest
    obtain ⟨log₂, shape₂, rfl⟩ := iha checked₂
    obtain ⟨b, s₃, checked₃, rest⟩ := bind_eq_ok.1 rest
    obtain ⟨log₃, shape₃, rfl⟩ := ihb checked₃
    rw [bind_of_ok (expectBranches_eq ..)] at rest
    obtain ⟨rfl, rfl⟩ := pure_eq_ok.1 rest
    exact ⟨_, .cond shape₁ shape₂ shape₃, by simp⟩

theorem ExprCheck.run {Γ : CheckContext} {path : ScopePath} {e : Source.Expr} {e' : Typed.Expr}
    {log : Log} (h : ExprCheck Γ path e e' log) {s : CheckState} (here : s.path = path) :
    checkExpr Γ e s = .ok e' (s.issued log) := by
  induction h generalizing s with
  | const =>
    rw [CheckState.issued_nil]
    rfl
  | var h =>
    rw [checkExpr, bind_of_ok (RefCheck.run (here ▸ h))]
    rfl
  | unary _ ih =>
    rw [checkExpr, bind_of_ok (ih here), bind_of_ok (expectTy_eq ..), CheckState.issued_issued]
    rfl
  | binary _ _ ih₁ ih₂ =>
    rw [checkExpr, bind_of_ok (ih₁ here), bind_of_ok (expectTy_eq ..), CheckState.issued_issued,
      bind_of_ok (ih₂ (s := s.issued _) here), CheckState.issued_issued,
      bind_of_ok (expectTy_eq ..), CheckState.issued_issued]
    rfl
  | assign h _ ih =>
    rw [checkExpr, bind_of_ok (RefCheck.run (here ▸ h)), bind_of_ok (ih (s := s.issued _) here),
      CheckState.issued_issued, bind_of_ok (expectFits_eq ..), CheckState.issued_issued]
    rfl
  | cond _ _ _ ih₁ ih₂ ih₃ =>
    rw [checkExpr, bind_of_ok (ih₁ here), bind_of_ok (expectTest_eq ..), CheckState.issued_issued,
      bind_of_ok (ih₂ (s := s.issued _) here), CheckState.issued_issued,
      bind_of_ok (ih₃ (s := s.issued _) here), CheckState.issued_issued,
      bind_of_ok (expectBranches_eq ..), CheckState.issued_issued]
    rfl

theorem checkOption_shape {Γ : CheckContext} {e : Option Source.Expr} {s s' : CheckState}
    {e' : Option Typed.Expr} (h : checkOption Γ e s = .ok e' s') :
    ∃ log, OptionCheck Γ s.path e e' log ∧ s' = s.issued log := by
  cases e with
  | none =>
    obtain ⟨rfl, rfl⟩ := pure_eq_ok.1 h
    exact ⟨_, .none, by rw [CheckState.issued_nil]⟩
  | some e =>
    obtain ⟨_, s₁, checked, rest⟩ := bind_eq_ok.1 h
    obtain ⟨rfl, rfl⟩ := pure_eq_ok.1 rest
    obtain ⟨log, shape, rfl⟩ := checkExpr_shape checked
    exact ⟨_, .some shape, rfl⟩

theorem OptionCheck.run {Γ : CheckContext} {path : ScopePath} {e : Option Source.Expr}
    {e' : Option Typed.Expr} {log : Log} (h : OptionCheck Γ path e e' log) {s : CheckState}
    (here : s.path = path) : checkOption Γ e s = .ok e' (s.issued log) := by
  cases h with
  | none =>
    rw [CheckState.issued_nil]
    rfl
  | some h =>
    rw [checkOption, bind_of_ok (h.run here)]
    rfl

theorem checkTest_shape {Γ : CheckContext} {test : Source.Expr} {s s' : CheckState}
    {t : Typed.Expr} (h : checkTest Γ test s = .ok t s') :
    ∃ log, TestCheck Γ s.path test t log ∧ s' = s.issued log := by
  obtain ⟨_, s₁, checked, rest⟩ := bind_eq_ok.1 h
  obtain ⟨log, shape, rfl⟩ := checkExpr_shape checked
  rw [bind_of_ok (expectTest_eq ..)] at rest
  obtain ⟨rfl, rfl⟩ := pure_eq_ok.1 rest
  exact ⟨_, .mk shape, CheckState.issued_issued ..⟩

theorem TestCheck.run {Γ : CheckContext} {path : ScopePath} {test : Source.Expr} {t : Typed.Expr}
    {log : Log} (h : TestCheck Γ path test t log) {s : CheckState} (here : s.path = path) :
    checkTest Γ test s = .ok t (s.issued log) := by
  cases h with
  | mk h =>
    rw [checkTest, bind_of_ok (h.run here), bind_of_ok (expectTest_eq ..),
      CheckState.issued_issued]
    rfl

theorem checkFits_shape {Γ : CheckContext} {ty : Ty} {e : Source.Expr} {s s' : CheckState}
    {e' : Typed.Expr} (h : checkFits Γ ty e s = .ok e' s') :
    ∃ log, FitsCheck Γ s.path ty e e' log ∧ s' = s.issued log := by
  obtain ⟨_, s₁, checked, rest⟩ := bind_eq_ok.1 h
  obtain ⟨log, shape, rfl⟩ := checkExpr_shape checked
  rw [bind_of_ok (expectFits_eq ..)] at rest
  obtain ⟨rfl, rfl⟩ := pure_eq_ok.1 rest
  exact ⟨_, .mk shape, CheckState.issued_issued ..⟩

theorem FitsCheck.run {Γ : CheckContext} {path : ScopePath} {ty : Ty} {e : Source.Expr}
    {e' : Typed.Expr} {log : Log} (h : FitsCheck Γ path ty e e' log) {s : CheckState}
    (here : s.path = path) : checkFits Γ ty e s = .ok e' (s.issued log) := by
  cases h with
  | mk h =>
    rw [checkFits, bind_of_ok (h.run here), bind_of_ok (expectFits_eq ..),
      CheckState.issued_issued]
    rfl

theorem checkVarDecl_shape {Γ : CheckContext} {d : Source.VarDecl} {s s' : CheckState}
    {d' : Typed.VarDecl} (h : checkVarDecl Γ d s = .ok d' s') :
    ∃ log, VarDeclCheck Γ s.path d d' log ∧ s' = s.issued log := by
  obtain ⟨id, s₁, named, rest₁⟩ := bind_eq_ok.1 h
  obtain ⟨here, rfl⟩ := declared_eq_ok.1 named
  obtain ⟨init', s₂, checked, rest₂⟩ := bind_eq_ok.1 rest₁
  cases init : d.init with
  | none =>
    rw [init] at checked
    obtain ⟨rfl, rfl⟩ := pure_eq_ok.1 checked
    obtain ⟨rfl, rfl⟩ := pure_eq_ok.1 rest₂
    exact ⟨_, .plain here init, by rw [CheckState.issued_nil]⟩
  | some e =>
    rw [init] at checked
    obtain ⟨e', s₃, checked', rest₃⟩ := bind_eq_ok.1 checked
    obtain ⟨rfl, rfl⟩ := pure_eq_ok.1 rest₃
    obtain ⟨rfl, rfl⟩ := pure_eq_ok.1 rest₂
    obtain ⟨log, shape, rfl⟩ := checkFits_shape checked'
    exact ⟨_, .init here init shape, rfl⟩

theorem VarDeclCheck.run {Γ : CheckContext} {path : ScopePath} {d : Source.VarDecl}
    {d' : Typed.VarDecl} {log : Log} (h : VarDeclCheck Γ path d d' log) {s : CheckState}
    (here : s.path = path) : checkVarDecl Γ d s = .ok d' (s.issued log) := by
  cases h with
  | plain named absent =>
    rw [checkVarDecl, bind_of_ok (declared_eq_ok.2 ⟨here ▸ named, rfl⟩), absent,
      CheckState.issued_nil]
    rfl
  | @init _ init e _ named present h =>
    rw [checkVarDecl, bind_of_ok (declared_eq_ok.2 ⟨here ▸ named, rfl⟩), present]
    have checked : checkInit Γ d.ty (Option.some init) s = .ok (Option.some e) (s.issued log) := by
      rw [checkInit, bind_of_ok (h.run here)]
      rfl
    rw [bind_of_ok checked]
    rfl

theorem checkForInit_shape {Γ : CheckContext} {init : Option Source.ForInit} {s s' : CheckState}
    {init' : Option Typed.ForInit} (h : checkForInit Γ init s = .ok init' s') :
    ∃ log, ForInitCheck Γ s.path init init' log ∧ s' = s.issued log := by
  match init with
  | none =>
    obtain ⟨rfl, rfl⟩ := pure_eq_ok.1 h
    exact ⟨_, .none, by rw [CheckState.issued_nil]⟩
  | some (.decl d) =>
    obtain ⟨_, s₁, checked, rest⟩ := bind_eq_ok.1 h
    obtain ⟨rfl, rfl⟩ := pure_eq_ok.1 rest
    obtain ⟨log, shape, rfl⟩ := checkVarDecl_shape checked
    exact ⟨_, .decl shape, rfl⟩
  | some (.expr e) =>
    obtain ⟨_, s₁, checked, rest⟩ := bind_eq_ok.1 h
    obtain ⟨rfl, rfl⟩ := pure_eq_ok.1 rest
    obtain ⟨log, shape, rfl⟩ := checkExpr_shape checked
    exact ⟨_, .expr shape, rfl⟩

theorem ForInitCheck.run {Γ : CheckContext} {path : ScopePath} {init : Option Source.ForInit}
    {init' : Option Typed.ForInit} {log : Log} (h : ForInitCheck Γ path init init' log)
    {s : CheckState} (here : s.path = path) :
    checkForInit Γ init s = .ok init' (s.issued log) := by
  cases h with
  | none =>
    rw [CheckState.issued_nil]
    rfl
  | decl h =>
    rw [checkForInit, bind_of_ok (h.run here)]
    rfl
  | expr h =>
    rw [checkForInit, bind_of_ok (h.run here)]
    rfl

mutual

/-- Checking a statement follows its rule. -/
theorem checkStmt_shape {Γ : CheckContext} {returnTy : Ty} {stmt : Source.Stmt} {s s' : CheckState}
    {stmt' : Typed.Stmt} (h : checkStmt Γ returnTy stmt s = .ok stmt' s') :
    ∃ log, StmtCheck Γ returnTy s.path stmt stmt' log ∧ s' = s.issued log := by
  cases stmt with
  | decl d =>
    obtain ⟨_, s₁, checked, rest⟩ := bind_eq_ok.1 h
    obtain ⟨rfl, rfl⟩ := pure_eq_ok.1 rest
    obtain ⟨log, shape, rfl⟩ := checkVarDecl_shape checked
    exact ⟨_, .decl shape, rfl⟩
  | expr e span =>
    obtain ⟨_, s₁, checked, rest⟩ := bind_eq_ok.1 h
    obtain ⟨rfl, rfl⟩ := pure_eq_ok.1 rest
    obtain ⟨log, shape, rfl⟩ := checkExpr_shape checked
    exact ⟨_, .expr shape, rfl⟩
  | empty span =>
    obtain ⟨rfl, rfl⟩ := pure_eq_ok.1 h
    exact ⟨_, .empty, by rw [CheckState.issued_nil]⟩
  | block body id span =>
    obtain ⟨_, s₁, checked, rest⟩ := bind_eq_ok.1 h
    obtain ⟨rfl, rfl⟩ := pure_eq_ok.1 rest
    obtain ⟨index, s₂, owned, checked', rfl⟩ := inScope_eq_ok.1 checked
    obtain ⟨log, shape, rfl⟩ := checkStmts_shape checked'
    exact ⟨_, .block owned shape, rfl⟩
  | ite test ifTrue ifFalse span =>
    obtain ⟨_, s₁, checked₁, rest₁⟩ := bind_eq_ok.1 h
    obtain ⟨log₁, shape₁, rfl⟩ := checkTest_shape checked₁
    obtain ⟨_, s₂, checked₂, rest₂⟩ := bind_eq_ok.1 rest₁
    obtain ⟨log₂, shape₂, rfl⟩ := checkStmt_shape checked₂
    obtain ⟨_, s₃, checked₃, rest₃⟩ := bind_eq_ok.1 rest₂
    obtain ⟨log₃, shape₃, rfl⟩ := checkStmt_shape checked₃
    obtain ⟨rfl, rfl⟩ := pure_eq_ok.1 rest₃
    exact ⟨_, .ite shape₁ shape₂ shape₃, by simp⟩
  | whileDo test body span =>
    obtain ⟨_, s₁, checked₁, rest₁⟩ := bind_eq_ok.1 h
    obtain ⟨log₁, shape₁, rfl⟩ := checkTest_shape checked₁
    obtain ⟨_, s₂, checked₂, rest₂⟩ := bind_eq_ok.1 rest₁
    obtain ⟨log₂, shape₂, rfl⟩ := checkStmt_shape checked₂
    obtain ⟨rfl, rfl⟩ := pure_eq_ok.1 rest₂
    exact ⟨_, .whileDo shape₁ shape₂, by simp⟩
  | doWhile body test span =>
    obtain ⟨_, s₁, checked₁, rest₁⟩ := bind_eq_ok.1 h
    obtain ⟨log₁, shape₁, rfl⟩ := checkTest_shape checked₁
    obtain ⟨_, s₂, checked₂, rest₂⟩ := bind_eq_ok.1 rest₁
    obtain ⟨log₂, shape₂, rfl⟩ := checkStmt_shape checked₂
    obtain ⟨rfl, rfl⟩ := pure_eq_ok.1 rest₂
    exact ⟨_, .doWhile shape₁ shape₂, by simp⟩
  | forLoop init test step body id span =>
    obtain ⟨index, s₀, owned, checked, rfl⟩ := inScope_eq_ok.1 h
    obtain ⟨_, s₁, checked₁, rest₁⟩ := bind_eq_ok.1 checked
    obtain ⟨log₁, shape₁, rfl⟩ := checkForInit_shape checked₁
    obtain ⟨_, s₂, checked₂, rest₂⟩ := bind_eq_ok.1 rest₁
    obtain ⟨log₂, shape₂, rfl⟩ := checkOption_shape checked₂
    obtain ⟨_, s₃, checked₃, rest₃⟩ := bind_eq_ok.1 rest₂
    obtain ⟨log₃, shape₃, rfl⟩ := checkOption_shape checked₃
    obtain ⟨_, s₄, checked₄, rest₄⟩ := bind_eq_ok.1 rest₃
    obtain ⟨log₄, shape₄, rfl⟩ := checkStmt_shape checked₄
    obtain ⟨rfl, rfl⟩ := pure_eq_ok.1 rest₄
    refine ⟨_, .forLoop owned shape₁ shape₂ shape₃ shape₄, ?_⟩
    simp [CheckState.issued, CheckState.inside]
  | brk span =>
    obtain ⟨rfl, rfl⟩ := pure_eq_ok.1 h
    exact ⟨_, .brk, by rw [CheckState.issued_nil]⟩
  | cont span =>
    obtain ⟨rfl, rfl⟩ := pure_eq_ok.1 h
    exact ⟨_, .cont, by rw [CheckState.issued_nil]⟩
  | ret value span =>
    obtain ⟨_, s₁, checked, rest⟩ := bind_eq_ok.1 h
    obtain ⟨rfl, rfl⟩ := pure_eq_ok.1 rest
    obtain ⟨log, shape, rfl⟩ := checkFits_shape checked
    exact ⟨_, .ret shape, rfl⟩

theorem checkStmts_shape {Γ : CheckContext} {returnTy : Ty} {stmts : List Source.Stmt}
    {s s' : CheckState} {stmts' : List Typed.Stmt}
    (h : checkStmts Γ returnTy stmts s = .ok stmts' s') :
    ∃ log, StmtsCheck Γ returnTy s.path stmts stmts' log ∧ s' = s.issued log := by
  cases stmts with
  | nil =>
    obtain ⟨rfl, rfl⟩ := pure_eq_ok.1 h
    exact ⟨_, .nil, by rw [CheckState.issued_nil]⟩
  | cons stmt rest =>
    obtain ⟨_, s₁, checked₁, rest₁⟩ := bind_eq_ok.1 h
    obtain ⟨log₁, shape₁, rfl⟩ := checkStmt_shape checked₁
    obtain ⟨_, s₂, checked₂, rest₂⟩ := bind_eq_ok.1 rest₁
    obtain ⟨log₂, shape₂, rfl⟩ := checkStmts_shape checked₂
    obtain ⟨rfl, rfl⟩ := pure_eq_ok.1 rest₂
    exact ⟨_, .cons shape₁ shape₂, by simp⟩

end

mutual

/-- A statement that can follow its rule is checked. -/
theorem StmtCheck.run {Γ : CheckContext} {returnTy : Ty} {path : ScopePath} {stmt : Source.Stmt}
    {stmt' : Typed.Stmt} {log : Log} (h : StmtCheck Γ returnTy path stmt stmt' log)
    {s : CheckState} (here : s.path = path) :
    checkStmt Γ returnTy stmt s = .ok stmt' (s.issued log) := by
  cases h with
  | decl h =>
    rw [checkStmt, bind_of_ok (h.run here)]
    rfl
  | expr h =>
    rw [checkStmt, bind_of_ok (h.run here)]
    rfl
  | empty | brk | cont =>
    rw [CheckState.issued_nil]
    rfl
  | @block _ _ _ _ _ index _ owned h =>
    have inner := h.run (s := s.inside index) (by rw [CheckState.inside_path, here])
    rw [checkStmt, bind_of_ok (inScope_eq_ok.2 ⟨index, _, owned, inner, rfl⟩)]
    rfl
  | ite h₁ h₂ h₃ =>
    rw [checkStmt, bind_of_ok (h₁.run here), bind_of_ok (h₂.run (s := s.issued _) here),
      CheckState.issued_issued, bind_of_ok (h₃.run (s := s.issued _) here),
      CheckState.issued_issued]
    rfl
  | whileDo h₁ h₂ =>
    rw [checkStmt, bind_of_ok (h₁.run here), bind_of_ok (h₂.run (s := s.issued _) here),
      CheckState.issued_issued]
    rfl
  | doWhile h₁ h₂ =>
    rw [checkStmt, bind_of_ok (h₁.run here), bind_of_ok (h₂.run (s := s.issued _) here),
      CheckState.issued_issued]
    rfl
  | @forLoop _ _ _ _ _ _ _ _ _ _ _ index log₁ log₂ log₃ log₄ owned h₁ h₂ h₃ h₄ =>
    have inside : (s.inside index).path = index :: path := by rw [CheckState.inside_path, here]
    refine inScope_eq_ok.2
      ⟨index, (s.inside index).issued (log₁ ++ log₂ ++ log₃ ++ log₄), owned, ?_, rfl⟩
    rw [bind_of_ok (h₁.run inside), bind_of_ok (h₂.run (s := (s.inside index).issued _) inside),
      CheckState.issued_issued, bind_of_ok (h₃.run (s := (s.inside index).issued _) inside),
      CheckState.issued_issued, bind_of_ok (h₄.run (s := (s.inside index).issued _) inside),
      CheckState.issued_issued]
    rfl
  | ret h =>
    rw [checkStmt, bind_of_ok (h.run here)]
    rfl

theorem StmtsCheck.run {Γ : CheckContext} {returnTy : Ty} {path : ScopePath}
    {stmts : List Source.Stmt} {stmts' : List Typed.Stmt} {log : Log}
    (h : StmtsCheck Γ returnTy path stmts stmts' log) {s : CheckState} (here : s.path = path) :
    checkStmts Γ returnTy stmts s = .ok stmts' (s.issued log) := by
  cases h with
  | nil =>
    rw [CheckState.issued_nil]
    rfl
  | cons h₁ h₂ =>
    rw [checkStmts, bind_of_ok (h₁.run here), bind_of_ok (h₂.run (s := s.issued _) here),
      CheckState.issued_issued]
    rfl

end

theorem mapM_checkParam_shape {Γ : CheckContext} {ps : List Source.Param} {s s' : CheckState}
    {ps' : List Typed.Param} (h : ps.mapM (checkParam Γ) s = .ok ps' s') :
    ParamsCheck Γ s.path ps ps' ∧ s' = s := by
  induction ps generalizing s s' ps' with
  | nil =>
    obtain ⟨rfl, rfl⟩ := pure_eq_ok.1 h
    exact ⟨.nil, rfl⟩
  | cons p rest ih =>
    rw [List.mapM_cons] at h
    obtain ⟨p', s₁, checked, rest₁⟩ := bind_eq_ok.1 h
    obtain ⟨id, s₂, named, rest₂⟩ := bind_eq_ok.1 checked
    obtain ⟨here, rfl⟩ := declared_eq_ok.1 named
    obtain ⟨rfl, rfl⟩ := pure_eq_ok.1 rest₂
    obtain ⟨others, s₃, checked', rest₃⟩ := bind_eq_ok.1 rest₁
    obtain ⟨shape, rfl⟩ := ih checked'
    obtain ⟨rfl, rfl⟩ := pure_eq_ok.1 rest₃
    exact ⟨.cons here shape, rfl⟩

theorem ParamsCheck.run {Γ : CheckContext} {path : ScopePath} {ps : List Source.Param}
    {ps' : List Typed.Param} (h : ParamsCheck Γ path ps ps') {s : CheckState}
    (here : s.path = path) : ps.mapM (checkParam Γ) s = .ok ps' s := by
  induction h with
  | nil => rfl
  | @cons p _ _ id named _ ih =>
    have checked : checkParam Γ p s = .ok ⟨p.name, id, p.span⟩ s := by
      rw [checkParam, bind_of_ok (declared_eq_ok.2 ⟨here ▸ named, rfl⟩)]
      rfl
    rw [List.mapM_cons, bind_of_ok checked, bind_of_ok ih]
    rfl

theorem checkFunction_shape {Γ : CheckContext} {f : Source.Function} {s s' : CheckState}
    {f' : Typed.Function} (h : checkFunction Γ f s = .ok f' s') :
    ∃ log, FunctionCheck Γ s.path f f' log ∧ s' = s.issued log := by
  obtain ⟨id, s₁, named, rest₁⟩ := bind_eq_ok.1 h
  obtain ⟨here, isFn, rfl⟩ := declaredFunction_eq_ok.1 named
  obtain ⟨index, s₂, owned, checked, rfl⟩ := inScope_eq_ok.1 rest₁
  obtain ⟨params, s₃, checkedParams, rest₂⟩ := bind_eq_ok.1 checked
  obtain ⟨params', rfl⟩ := mapM_checkParam_shape checkedParams
  obtain ⟨body, s₄, checkedBody, rest₃⟩ := bind_eq_ok.1 rest₂
  obtain ⟨log, shape, rfl⟩ := checkStmts_shape checkedBody
  obtain ⟨rfl, rfl⟩ := pure_eq_ok.1 rest₃
  exact ⟨_, .mk here isFn owned params' shape, rfl⟩

theorem FunctionCheck.run {Γ : CheckContext} {path : ScopePath} {f : Source.Function}
    {f' : Typed.Function} {log : Log} (h : FunctionCheck Γ path f f' log) {s : CheckState}
    (here : s.path = path) : checkFunction Γ f s = .ok f' (s.issued log) := by
  cases h with
  | @mk id index params body _ named isFn owned paramsCheck bodyCheck =>
    rw [checkFunction, bind_of_ok (declaredFunction_eq_ok.2 ⟨here ▸ named, isFn, rfl⟩)]
    have inside : (s.inside index).path = index :: path := by rw [CheckState.inside_path, here]
    refine inScope_eq_ok.2 ⟨index, (s.inside index).issued log, owned, ?_, rfl⟩
    rw [bind_of_ok (paramsCheck.run inside), bind_of_ok (bodyCheck.run inside)]
    rfl

theorem mapM_checkFunction_shape {Γ : CheckContext} {fs : List Source.Function} {s s' : CheckState}
    {fs' : List Typed.Function} (h : fs.mapM (checkFunction Γ) s = .ok fs' s') :
    ∃ log, FunctionsCheck Γ s.path fs fs' log ∧ s' = s.issued log := by
  induction fs generalizing s s' fs' with
  | nil =>
    obtain ⟨rfl, rfl⟩ := pure_eq_ok.1 h
    exact ⟨_, .nil, by rw [CheckState.issued_nil]⟩
  | cons f rest ih =>
    rw [List.mapM_cons] at h
    obtain ⟨f', s₁, checked₁, rest₁⟩ := bind_eq_ok.1 h
    obtain ⟨log₁, shape₁, rfl⟩ := checkFunction_shape checked₁
    obtain ⟨others, s₂, checked₂, rest₂⟩ := bind_eq_ok.1 rest₁
    obtain ⟨log₂, shape₂, rfl⟩ := ih checked₂
    obtain ⟨rfl, rfl⟩ := pure_eq_ok.1 rest₂
    exact ⟨_, .cons shape₁ shape₂, by simp⟩

theorem FunctionsCheck.run {Γ : CheckContext} {path : ScopePath} {fs : List Source.Function}
    {fs' : List Typed.Function} {log : Log} (h : FunctionsCheck Γ path fs fs' log)
    {s : CheckState} (here : s.path = path) :
    fs.mapM (checkFunction Γ) s = .ok fs' (s.issued log) := by
  induction h generalizing s with
  | nil =>
    rw [CheckState.issued_nil]
    rfl
  | cons h _ ih =>
    rw [List.mapM_cons, bind_of_ok (h.run here), bind_of_ok (ih (s := s.issued _) here),
      CheckState.issued_issued]
    rfl

/-- Checking a program follows the rules. -/
theorem checkProgram_shape {Γ : CheckContext} {p : Source.Program} {p' : Typed.Program} {log : Log}
    (h : checkProgram Γ p = .ok (p', log)) : ProgramCheck Γ p p' log := by
  unfold checkProgram at h
  split at h
  · next functions s checked =>
    cases h
    obtain ⟨index, s₁, owned, checked', rfl⟩ := inScope_eq_ok.1 checked
    obtain ⟨log, shape, rfl⟩ := mapM_checkFunction_shape checked'
    have issued : (({} : CheckState).inside index |>.issued log).log = log := List.nil_append log
    rw [issued]
    exact .mk owned shape
  · cases h

/-- A program that can follow the rules is checked. -/
theorem ProgramCheck.run {Γ : CheckContext} {p : Source.Program} {p' : Typed.Program} {log : Log}
    (h : ProgramCheck Γ p p' log) : checkProgram Γ p = .ok (p', log) := by
  cases h with
  | @mk index functions log owned h =>
    have ran : (checkFunctions Γ p).run {} =
        .ok functions { ({} : CheckState).inside index |>.issued log with path := [] } :=
      inScope_eq_ok.2 ⟨index, _, owned, h.run rfl, rfl⟩
    rw [checkProgram, ran]
    exact congrArg (fun log => Except.ok (_, log)) (List.nil_append log)

end MiddleEnd
