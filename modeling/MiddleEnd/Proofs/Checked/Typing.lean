import MiddleEnd.Proofs.Checked.Shape

/-!
# The type system

What it means for a program to be well typed, without reports and without an error type: `HasType Γ
path e τ` is derivable if `e` has type `τ` with the scopes of `path` open. A check issues nothing
exactly if what it checks is well typed. It goes on behind a mistake, with `error` for the type that
it does not know and no report on what depends on it; but the mistake itself was reported, so no
mistake is overlooked.

Results:
1. `HasType.unique`: an expression has one type at most.
2. `ExprCheck.silent_iff`, `StmtCheck.silent_iff`, `ProgramCheck.silent_iff`: what is checked
   without a word is what is well typed.
-/

namespace MiddleEnd

/-! ## Rules -/

/-- The type of an expression. -/
inductive HasType (Γ : CheckContext) (path : ScopePath) : Source.Expr → Ty → Prop
  | const {value : Int} {span : Span} : HasType Γ path (.const value span) .int
  | var {r : Source.Ref} {span : Span} {id : SymbolId} {v : VariableInfo} :
      Γ.symbols.lookup r.name r.span.start path = .ok (some id) →
      Γ.symbols.symbols[id]? = some (.var v) → HasType Γ path (.var r span) v.ty
  | unary {op : UnaryOp} {operand : Source.Expr} {span : Span} :
      HasType Γ path operand .int → HasType Γ path (.unary op operand span) .int
  | binary {op : BinaryOp} {left right : Source.Expr} {span : Span} :
      HasType Γ path left .int → HasType Γ path right .int →
      HasType Γ path (.binary op left right span) .int
  | assign {target : Source.Ref} {value : Source.Expr} {span : Span} {id : SymbolId}
      {v : VariableInfo} :
      Γ.symbols.lookup target.name target.span.start path = .ok (some id) →
      Γ.symbols.symbols[id]? = some (.var v) → HasType Γ path value v.ty →
      HasType Γ path (.assign target value span) v.ty
  | cond {test ifTrue ifFalse : Source.Expr} {span : Span} {τ τ' : Ty} :
      HasType Γ path test .int → HasType Γ path ifTrue τ → HasType Γ path ifFalse τ' →
      (Γ.config.strictConditionals = true → τ = τ') →
      HasType Γ path (.cond test ifTrue ifFalse span) τ'

/-- An expression that may be absent, of any type. -/
def OptionTyped (Γ : CheckContext) (path : ScopePath) (e : Option Source.Expr) : Prop :=
  ∀ e' ∈ e, ∃ τ, HasType Γ path e' τ

/-- A declaration whose initializer has the declared type. -/
def VarDeclTyped (Γ : CheckContext) (path : ScopePath) (d : Source.VarDecl) : Prop :=
  ∀ e ∈ d.init, HasType Γ path e d.ty

/-- A well-typed first clause of a `for`. -/
def ForInitTyped (Γ : CheckContext) (path : ScopePath) : Option Source.ForInit → Prop
  | none => True
  | some (.decl d) => VarDeclTyped Γ path d
  | some (.expr e) => ∃ τ, HasType Γ path e τ

mutual

/-- A well-typed statement of a function that returns `returnTy`. -/
inductive StmtTyped (Γ : CheckContext) (returnTy : Ty) : ScopePath → Source.Stmt → Prop
  | decl {path : ScopePath} {d : Source.VarDecl} :
      VarDeclTyped Γ path d → StmtTyped Γ returnTy path (.decl d)
  | expr {path : ScopePath} {e : Source.Expr} {span : Span} {τ : Ty} :
      HasType Γ path e τ → StmtTyped Γ returnTy path (.expr e span)
  | empty {path : ScopePath} {span : Span} : StmtTyped Γ returnTy path (.empty span)
  | block {path : ScopePath} {body : List Source.Stmt} {id : NodeId} {span : Span}
      {index : ScopeIndex} :
      Γ.symbols.scopeIndex? id = some index → StmtsTyped Γ returnTy (index :: path) body →
      StmtTyped Γ returnTy path (.block body id span)
  | ite {path : ScopePath} {test : Source.Expr} {ifTrue ifFalse : Source.Stmt} {span : Span} :
      HasType Γ path test .int → StmtTyped Γ returnTy path ifTrue →
      StmtTyped Γ returnTy path ifFalse → StmtTyped Γ returnTy path (.ite test ifTrue ifFalse span)
  | whileDo {path : ScopePath} {test : Source.Expr} {body : Source.Stmt} {span : Span} :
      HasType Γ path test .int → StmtTyped Γ returnTy path body →
      StmtTyped Γ returnTy path (.whileDo test body span)
  | doWhile {path : ScopePath} {test : Source.Expr} {body : Source.Stmt} {span : Span} :
      HasType Γ path test .int → StmtTyped Γ returnTy path body →
      StmtTyped Γ returnTy path (.doWhile body test span)
  | forLoop {path : ScopePath} {init : Option Source.ForInit} {test step : Option Source.Expr}
      {body : Source.Stmt} {id : NodeId} {span : Span} {index : ScopeIndex} :
      Γ.symbols.scopeIndex? id = some index → ForInitTyped Γ (index :: path) init →
      OptionTyped Γ (index :: path) test → OptionTyped Γ (index :: path) step →
      StmtTyped Γ returnTy (index :: path) body →
      StmtTyped Γ returnTy path (.forLoop init test step body id span)
  | brk {path : ScopePath} {span : Span} : StmtTyped Γ returnTy path (.brk span)
  | cont {path : ScopePath} {span : Span} : StmtTyped Γ returnTy path (.cont span)
  | ret {path : ScopePath} {value : Source.Expr} {span : Span} :
      HasType Γ path value returnTy → StmtTyped Γ returnTy path (.ret value span)

/-- Well-typed statements in one scope. -/
inductive StmtsTyped (Γ : CheckContext) (returnTy : Ty) : ScopePath → List Source.Stmt → Prop
  | nil {path : ScopePath} : StmtsTyped Γ returnTy path []
  | cons {path : ScopePath} {s : Source.Stmt} {rest : List Source.Stmt} :
      StmtTyped Γ returnTy path s → StmtsTyped Γ returnTy path rest →
      StmtsTyped Γ returnTy path (s :: rest)

end

/-- A function with a well-typed body. -/
def FunctionTyped (Γ : CheckContext) (path : ScopePath) (f : Source.Function) : Prop :=
  ∃ index, Γ.symbols.scopeIndex? f.body.id = some index ∧
    StmtsTyped Γ f.returnTy (index :: path) f.body.stmts

/-- A program whose functions have well-typed bodies. -/
def ProgramTyped (Γ : CheckContext) (p : Source.Program) : Prop :=
  ∃ index, Γ.symbols.scopeIndex? p.id = some index ∧ ∀ f ∈ p.functions, FunctionTyped Γ [index] f

/-! ## Declared types -/

namespace Source

/-- The declared type of the first clause of a `for`. -/
def ForInit.declaredTys : Option ForInit → List Ty
  | some (.decl d) => [d.ty]
  | some (.expr _) | none => []

mutual

/-- The types that are declared in a statement. -/
def Stmt.declaredTys : Stmt → List Ty
  | .decl d => [d.ty]
  | .block body _ _ => declaredTysOf body
  | .ite _ ifTrue ifFalse _ => ifTrue.declaredTys ++ ifFalse.declaredTys
  | .whileDo _ body _ | .doWhile body _ _ => body.declaredTys
  | .forLoop init _ _ body _ _ => ForInit.declaredTys init ++ body.declaredTys
  | .expr .. | .empty _ | .brk _ | .cont _ | .ret .. => []

/-- The same for statements. -/
def declaredTysOf : List Stmt → List Ty
  | [] => []
  | s :: rest => s.declaredTys ++ declaredTysOf rest

end

/-- The types that a function declares: what it returns, its parameters and its variables. -/
def Function.declaredTys (f : Function) : List Ty :=
  f.returnTy :: f.params.map Param.ty ++ declaredTysOf f.body.stmts

/-- The types that a program declares. -/
def Program.declaredTys (p : Program) : List Ty := p.functions.flatMap Function.declaredTys

end Source

/-- No variable of a table has the type of a failed check. -/
def SymbolTable.Proper (t : SymbolTable) : Prop :=
  ∀ (id : SymbolId) (v : VariableInfo), t.symbols[id]? = some (.var v) → v.ty ≠ .error

variable {Γ : CheckContext} {path : ScopePath}

/-! ## Expressions -/

/-- A name stands for one variable at most. -/
theorem variable_unique {t : SymbolTable} {r : Source.Ref} {id id' : SymbolId}
    {v v' : VariableInfo} (looked : t.lookup r.name r.span.start path = .ok (some id))
    (isVar : t.symbols[id]? = some (.var v))
    (looked' : t.lookup r.name r.span.start path = .ok (some id'))
    (isVar' : t.symbols[id']? = some (.var v')) : v = v' := by
  cases looked.symm.trans looked'
  cases isVar.symm.trans isVar'
  rfl

/-- An expression has one type at most. -/
theorem HasType.unique {e : Source.Expr} {τ τ' : Ty} (h : HasType Γ path e τ)
    (h' : HasType Γ path e τ') : τ = τ' := by
  induction h generalizing τ' with
  | const | unary | binary => cases h'; rfl
  | var looked isVar =>
    cases h' with
    | var looked' isVar' => rw [variable_unique looked isVar looked' isVar']
  | assign looked isVar =>
    cases h' with
    | assign looked' isVar' => rw [variable_unique looked isVar looked' isVar']
  | cond _ _ _ _ _ _ ih =>
    cases h' with
    | cond _ _ h' => exact ih h'

/-- A reference to a variable is resolved without a word. -/
theorem RefCheck.of_variable {t : SymbolTable} {r : Source.Ref} {id : SymbolId} {v : VariableInfo}
    (looked : t.lookup r.name r.span.start path = .ok (some id))
    (isVar : t.symbols[id]? = some (.var v)) {r' : Typed.Ref} {log : Log}
    (h : RefCheck t path r r' log) : log = [] ∧ r'.ty = v.ty := by
  cases h with
  | notFound looked' => cases looked.symm.trans looked'
  | notVariable looked' isFn =>
    cases looked.symm.trans looked'
    cases isVar.symm.trans isFn
  | found looked' isVar' => exact ⟨rfl, by rw [variable_unique looked isVar looked' isVar']⟩

theorem reportUnless_eq_nil {condition : Bool} {cause : Cause} {pos : Pos} :
    reportUnless condition cause pos = [] ↔ condition = true := by
  cases condition <;> simp [reportUnless]

theorem tyReport_eq_nil {pos : Pos} {expected received : Ty} (known : received ≠ .error) :
    tyReport pos expected received = [] ↔ received = expected := by
  simp [tyReport, reportUnless_eq_nil, Ty.isError, known]

theorem testReport_eq_nil {pos : Pos} {ty : Ty} (known : ty ≠ .error) :
    testReport pos ty = [] ↔ ty = .int := by
  simp [testReport, reportUnless_eq_nil, Ty.isError, known]

theorem fitsReport_eq_nil {pos : Pos} {expected received : Ty} (known : received ≠ .error)
    (proper : expected ≠ .error) : fitsReport pos expected received = [] ↔ received = expected := by
  rw [fitsReport, reportUnless_eq_nil, Ty.fits_iff]
  simp [known, proper]

theorem branchesReport_eq_nil {config : Config} {pos : Pos} {ifTrue ifFalse : Ty}
    (known : ifTrue ≠ .error) (known' : ifFalse ≠ .error) :
    branchesReport config pos ifTrue ifFalse = [] ↔
      (config.strictConditionals = true → ifTrue = ifFalse) := by
  unfold branchesReport
  split
  · next strict => simp [fitsReport_eq_nil known' known, strict, eq_comm]
  · next lax => simp [lax]

/-- An expression that is checked without a word is well typed, and its type is known. -/
theorem ExprCheck.hasType (proper : Γ.symbols.Proper) {e : Source.Expr} {e' : Typed.Expr}
    {log : Log} (h : ExprCheck Γ path e e' log) (silent : log = []) :
    HasType Γ path e e'.ty ∧ e'.ty ≠ .error := by
  induction h with
  | const => exact ⟨.const, nofun⟩
  | var h =>
    subst silent
    cases h with
    | found looked isVar => exact ⟨.var looked isVar, proper _ _ isVar⟩
  | unary _ ih =>
    obtain ⟨silent, isInt⟩ := List.append_eq_nil_iff.1 silent
    obtain ⟨typed, known⟩ := ih silent
    rw [(tyReport_eq_nil known).1 isInt] at typed
    exact ⟨.unary typed, nofun⟩
  | binary _ _ ih₁ ih₂ =>
    simp only [List.append_eq_nil_iff] at silent
    obtain ⟨⟨⟨silent₁, isInt₁⟩, silent₂⟩, isInt₂⟩ := silent
    obtain ⟨typed₁, known₁⟩ := ih₁ silent₁
    obtain ⟨typed₂, known₂⟩ := ih₂ silent₂
    rw [(tyReport_eq_nil known₁).1 isInt₁] at typed₁
    rw [(tyReport_eq_nil known₂).1 isInt₂] at typed₂
    exact ⟨.binary typed₁ typed₂, nofun⟩
  | assign h _ ih =>
    simp only [List.append_eq_nil_iff] at silent
    obtain ⟨⟨rfl, silent⟩, same⟩ := silent
    obtain ⟨typed, known⟩ := ih silent
    cases h with
    | found looked isVar =>
      rw [(fitsReport_eq_nil known (proper _ _ isVar)).1 same] at typed
      exact ⟨.assign looked isVar typed, proper _ _ isVar⟩
  | cond _ _ _ ih₁ ih₂ ih₃ =>
    simp only [List.append_eq_nil_iff] at silent
    obtain ⟨⟨⟨⟨silent₁, isInt⟩, silent₂⟩, silent₃⟩, same⟩ := silent
    obtain ⟨typed₁, known₁⟩ := ih₁ silent₁
    obtain ⟨typed₂, known₂⟩ := ih₂ silent₂
    obtain ⟨typed₃, known₃⟩ := ih₃ silent₃
    rw [(testReport_eq_nil known₁).1 isInt] at typed₁
    exact ⟨.cond typed₁ typed₂ typed₃ ((branchesReport_eq_nil known₂ known₃).1 same), known₃⟩

/-- A well-typed expression is checked without a word, and gets its type. -/
theorem HasType.silent (proper : Γ.symbols.Proper) {e : Source.Expr} {τ : Ty}
    (typed : HasType Γ path e τ) {e' : Typed.Expr} {log : Log} (h : ExprCheck Γ path e e' log) :
    log = [] ∧ e'.ty = τ ∧ τ ≠ .error := by
  induction typed generalizing e' log with
  | const =>
    cases h
    exact ⟨rfl, rfl, nofun⟩
  | var looked isVar =>
    cases h with
    | var h =>
      obtain ⟨rfl, ty⟩ := h.of_variable looked isVar
      exact ⟨rfl, ty, proper _ _ isVar⟩
  | unary _ ih =>
    cases h with
    | unary h =>
      obtain ⟨rfl, ty, known⟩ := ih h
      exact ⟨(tyReport_eq_nil (ty ▸ known)).2 ty, rfl, nofun⟩
  | binary _ _ ih₁ ih₂ =>
    cases h with
    | binary h₁ h₂ =>
      obtain ⟨rfl, ty₁, known₁⟩ := ih₁ h₁
      obtain ⟨rfl, ty₂, known₂⟩ := ih₂ h₂
      rw [(tyReport_eq_nil (ty₁ ▸ known₁)).2 ty₁, (tyReport_eq_nil (ty₂ ▸ known₂)).2 ty₂]
      exact ⟨rfl, rfl, nofun⟩
  | assign looked isVar _ ih =>
    cases h with
    | assign h₁ h₂ =>
      obtain ⟨rfl, target⟩ := h₁.of_variable looked isVar
      obtain ⟨rfl, ty, known⟩ := ih h₂
      rw [target]
      exact ⟨(fitsReport_eq_nil (ty ▸ known) known).2 ty, rfl, known⟩
  | cond _ _ _ same ih₁ ih₂ ih₃ =>
    cases h with
    | cond h₁ h₂ h₃ =>
      obtain ⟨rfl, ty₁, known₁⟩ := ih₁ h₁
      obtain ⟨rfl, ty₂, known₂⟩ := ih₂ h₂
      obtain ⟨rfl, ty₃, known₃⟩ := ih₃ h₃
      rw [(testReport_eq_nil (ty₁ ▸ known₁)).2 ty₁,
        (branchesReport_eq_nil (ty₂ ▸ known₂) (ty₃ ▸ known₃)).2 (by rwa [ty₂, ty₃])]
      exact ⟨rfl, ty₃, known₃⟩

/-! ## Statements -/

theorem ExprCheck.silent_iff (proper : Γ.symbols.Proper) {e : Source.Expr} {e' : Typed.Expr}
    {log : Log} (h : ExprCheck Γ path e e' log) : log = [] ↔ ∃ τ, HasType Γ path e τ :=
  ⟨fun silent => ⟨_, (h.hasType proper silent).1⟩, fun ⟨_, typed⟩ => (typed.silent proper h).1⟩

theorem FitsCheck.silent_iff (proper : Γ.symbols.Proper) {ty : Ty} (known : ty ≠ .error)
    {e : Source.Expr} {e' : Typed.Expr} {log : Log} (h : FitsCheck Γ path ty e e' log) :
    log = [] ↔ HasType Γ path e ty := by
  cases h with
  | mk h =>
    constructor
    · intro silent
      obtain ⟨silent, same⟩ := List.append_eq_nil_iff.1 silent
      obtain ⟨typed, known'⟩ := h.hasType proper silent
      rwa [(fitsReport_eq_nil known' known).1 same] at typed
    · intro typed
      obtain ⟨rfl, ty, -⟩ := typed.silent proper h
      exact (fitsReport_eq_nil (ty ▸ known) known).2 ty

theorem TestCheck.silent_iff (proper : Γ.symbols.Proper) {e : Source.Expr} {e' : Typed.Expr}
    {log : Log} (h : TestCheck Γ path e e' log) : log = [] ↔ HasType Γ path e .int := by
  cases h with
  | mk h =>
    constructor
    · intro silent
      obtain ⟨silent, isInt⟩ := List.append_eq_nil_iff.1 silent
      obtain ⟨typed, known⟩ := h.hasType proper silent
      rwa [(testReport_eq_nil known).1 isInt] at typed
    · intro typed
      obtain ⟨rfl, ty, known⟩ := typed.silent proper h
      exact (testReport_eq_nil (ty ▸ known)).2 ty

theorem OptionCheck.silent_iff (proper : Γ.symbols.Proper) {e : Option Source.Expr}
    {e' : Option Typed.Expr} {log : Log} (h : OptionCheck Γ path e e' log) :
    log = [] ↔ OptionTyped Γ path e := by
  cases h with
  | none => simp [OptionTyped]
  | some h =>
    rw [h.silent_iff proper]
    simp [OptionTyped]

theorem VarDeclCheck.silent_iff (proper : Γ.symbols.Proper) {d : Source.VarDecl}
    (known : d.ty ≠ .error) {d' : Typed.VarDecl} {log : Log}
    (h : VarDeclCheck Γ path d d' log) : log = [] ↔ VarDeclTyped Γ path d := by
  cases h with
  | plain _ absent => simp [VarDeclTyped, absent]
  | init _ present h =>
    rw [h.silent_iff proper known]
    simp [VarDeclTyped, present]

theorem ForInitCheck.silent_iff (proper : Γ.symbols.Proper) {init : Option Source.ForInit}
    (known : .error ∉ Source.ForInit.declaredTys init) {init' : Option Typed.ForInit} {log : Log}
    (h : ForInitCheck Γ path init init' log) : log = [] ↔ ForInitTyped Γ path init := by
  cases h with
  | none => simp [ForInitTyped]
  | decl h =>
    rw [h.silent_iff proper fun same => known (same ▸ List.mem_singleton_self _)]
    exact Iff.rfl
  | expr h => exact h.silent_iff proper

mutual

/-- A statement is checked without a word if it is well typed, and only then. -/
theorem StmtCheck.silent_iff {Γ : CheckContext} {returnTy : Ty} {path : ScopePath}
    {s : Source.Stmt} {s' : Typed.Stmt} {log : Log} (proper : Γ.symbols.Proper)
    (returns : returnTy ≠ .error) (known : .error ∉ s.declaredTys)
    (h : StmtCheck Γ returnTy path s s' log) : log = [] ↔ StmtTyped Γ returnTy path s := by
  cases h with
  | decl h =>
    rw [h.silent_iff proper fun same => known (same ▸ List.mem_singleton_self _)]
    exact ⟨.decl, fun | .decl typed => typed⟩
  | expr h =>
    rw [h.silent_iff proper]
    exact ⟨fun ⟨_, typed⟩ => .expr typed, fun | .expr typed => ⟨_, typed⟩⟩
  | empty => exact iff_of_true rfl .empty
  | brk => exact iff_of_true rfl .brk
  | cont => exact iff_of_true rfl .cont
  | ret h =>
    rw [h.silent_iff proper returns]
    exact ⟨.ret, fun | .ret typed => typed⟩
  | block owned h =>
    rw [h.silent_iff proper returns known]
    refine ⟨.block owned, fun typed => ?_⟩
    cases typed with
    | block owned' typed =>
      cases owned.symm.trans owned'
      exact typed
  | ite h₁ h₂ h₃ =>
    rw [Source.Stmt.declaredTys, List.mem_append, not_or] at known
    rw [List.append_eq_nil_iff, List.append_eq_nil_iff, h₁.silent_iff proper,
      h₂.silent_iff proper returns known.1, h₃.silent_iff proper returns known.2]
    exact ⟨fun ⟨⟨test, first⟩, second⟩ => .ite test first second,
      fun | .ite test first second => ⟨⟨test, first⟩, second⟩⟩
  | whileDo h₁ h₂ =>
    rw [Source.Stmt.declaredTys] at known
    rw [List.append_eq_nil_iff, h₁.silent_iff proper, h₂.silent_iff proper returns known]
    exact ⟨fun ⟨test, body⟩ => .whileDo test body, fun | .whileDo test body => ⟨test, body⟩⟩
  | doWhile h₁ h₂ =>
    rw [Source.Stmt.declaredTys] at known
    rw [List.append_eq_nil_iff, h₁.silent_iff proper, h₂.silent_iff proper returns known]
    exact ⟨fun ⟨test, body⟩ => .doWhile test body, fun | .doWhile test body => ⟨test, body⟩⟩
  | forLoop owned h₁ h₂ h₃ h₄ =>
    rw [Source.Stmt.declaredTys, List.mem_append, not_or] at known
    rw [List.append_eq_nil_iff, List.append_eq_nil_iff, List.append_eq_nil_iff,
      h₁.silent_iff proper known.1, h₂.silent_iff proper, h₃.silent_iff proper,
      h₄.silent_iff proper returns known.2]
    constructor
    · rintro ⟨⟨⟨init, test⟩, step⟩, body⟩
      exact .forLoop owned init test step body
    · intro typed
      cases typed with
      | forLoop owned' init test step body =>
        cases owned.symm.trans owned'
        exact ⟨⟨⟨init, test⟩, step⟩, body⟩

theorem StmtsCheck.silent_iff {Γ : CheckContext} {returnTy : Ty} {path : ScopePath}
    {ss : List Source.Stmt} {ss' : List Typed.Stmt} {log : Log} (proper : Γ.symbols.Proper)
    (returns : returnTy ≠ .error) (known : .error ∉ Source.declaredTysOf ss)
    (h : StmtsCheck Γ returnTy path ss ss' log) : log = [] ↔ StmtsTyped Γ returnTy path ss := by
  cases h with
  | nil => exact iff_of_true rfl .nil
  | cons h₁ h₂ =>
    rw [Source.declaredTysOf, List.mem_append, not_or] at known
    rw [List.append_eq_nil_iff, h₁.silent_iff proper returns known.1,
      h₂.silent_iff proper returns known.2]
    exact ⟨fun ⟨first, rest⟩ => .cons first rest, fun | .cons first rest => ⟨first, rest⟩⟩

end

/-! ## Programs -/

theorem FunctionCheck.silent_iff (proper : Γ.symbols.Proper) {f : Source.Function}
    (known : .error ∉ f.declaredTys) {f' : Typed.Function} {log : Log}
    (h : FunctionCheck Γ path f f' log) : log = [] ↔ FunctionTyped Γ path f := by
  simp only [Source.Function.declaredTys, List.cons_append, List.mem_cons, List.mem_append,
    not_or] at known
  obtain ⟨returns, -, known⟩ := known
  cases h with
  | mk _ _ owned _ body =>
    rw [body.silent_iff proper (Ne.symm returns) known]
    constructor
    · exact fun typed => ⟨_, owned, typed⟩
    · rintro ⟨index, owned', typed⟩
      cases owned.symm.trans owned'
      exact typed

theorem FunctionsCheck.silent_iff (proper : Γ.symbols.Proper) {fs : List Source.Function}
    (known : ∀ f ∈ fs, .error ∉ f.declaredTys) {fs' : List Typed.Function} {log : Log}
    (h : FunctionsCheck Γ path fs fs' log) : log = [] ↔ ∀ f ∈ fs, FunctionTyped Γ path f := by
  induction h with
  | nil => simp
  | cons h₁ _ ih =>
    obtain ⟨known₁, known₂⟩ := List.forall_mem_cons.1 known
    rw [List.append_eq_nil_iff, h₁.silent_iff proper known₁, ih known₂, List.forall_mem_cons]

/-- A program is checked without a word if it is well typed, and only then. -/
theorem ProgramCheck.silent_iff (proper : Γ.symbols.Proper) {p : Source.Program}
    (known : .error ∉ p.declaredTys) {p' : Typed.Program} {log : Log}
    (h : ProgramCheck Γ p p' log) : log = [] ↔ ProgramTyped Γ p := by
  cases h with
  | mk owned h =>
    rw [h.silent_iff proper fun f mem error => known (List.mem_flatMap.2 ⟨f, mem, error⟩)]
    constructor
    · exact fun typed => ⟨_, owned, typed⟩
    · rintro ⟨index, owned', typed⟩
      cases owned.symm.trans owned'
      exact typed

end MiddleEnd
