import MiddleEnd.Scope.Lookup
import MiddleEnd.Source.Tree

/-!
# The expressions of a tree

The expressions of a program are the expressions of its statements and the parts of these at any
depth. They are listed in the order of the source, each with the scopes that are open around it. A
context is what is left of a tree when one of its expressions is taken out; `fill` puts an
expression in that place.

Results:
1. `Expr.mem_sites_iff`, `Stmt.mem_sites_iff`, `Program.mem_sites_iff`: an expression stands
   somewhere in a tree exactly if the tree is a context filled with it.
-/

namespace MiddleEnd

/-- The scopes that are open inside a node that owns one. -/
def SymbolTable.inside (t : SymbolTable) (path : ScopePath) (id : NodeId) : ScopePath :=
  (t.scopeIndex? id).toList ++ path

theorem SymbolTable.inside_eq {t : SymbolTable} {path : ScopePath} {id : NodeId} {i : ScopeIndex}
    (owned : t.scopeIndex? id = some i) : t.inside path id = i :: path := by
  rw [inside, owned]
  rfl

namespace Source

/-! ## Lists of expressions -/

/-- An expression and the scopes around it. -/
abbrev Site := ScopePath × Expr

/-- An expression and its parts at any depth. -/
def Expr.sites (path : ScopePath) (e : Expr) : List Site :=
  (path, e) :: match e with
    | .const .. | .var .. => []
    | .unary _ operand _ => operand.sites path
    | .binary _ left right _ => left.sites path ++ right.sites path
    | .assign _ value _ => value.sites path
    | .cond test ifTrue ifFalse _ => test.sites path ++ ifTrue.sites path ++ ifFalse.sites path

/-- The same for an expression that may be absent. -/
def optionSites (path : ScopePath) : Option Expr → List Site
  | none => []
  | some e => e.sites path

/-- The expressions of the first clause of a `for`. -/
def ForInit.sites (path : ScopePath) : Option ForInit → List Site
  | none => []
  | some (.decl d) => optionSites path d.init
  | some (.expr e) => e.sites path

mutual

/-- The expressions of a statement. -/
def Stmt.sites (t : SymbolTable) (path : ScopePath) : Stmt → List Site
  | .decl d => optionSites path d.init
  | .expr e _ | .ret e _ => e.sites path
  | .empty _ | .brk _ | .cont _ => []
  | .block body id _ => sitesOf t (t.inside path id) body
  | .ite test ifTrue ifFalse _ =>
    test.sites path ++ ifTrue.sites t path ++ ifFalse.sites t path
  | .whileDo test body _ => test.sites path ++ body.sites t path
  | .doWhile body test _ => body.sites t path ++ test.sites path
  | .forLoop init test step body id _ =>
    ForInit.sites (t.inside path id) init ++ optionSites (t.inside path id) test ++
      optionSites (t.inside path id) step ++ body.sites t (t.inside path id)

/-- The expressions of statements. -/
def sitesOf (t : SymbolTable) (path : ScopePath) : List Stmt → List Site
  | [] => []
  | s :: rest => s.sites t path ++ sitesOf t path rest

end

/-- The expressions of a program. -/
def Program.sites (t : SymbolTable) (p : Program) : List Site :=
  p.functions.flatMap fun f => sitesOf t (t.inside (t.inside [] p.id) f.body.id) f.body.stmts

/-! ## Contexts -/

/-- What stands around an expression in an expression. -/
inductive ExprCtx
  | here
  | inOperand (op : UnaryOp) (C : ExprCtx) (span : Span)
  | inLeft (op : BinaryOp) (C : ExprCtx) (right : Expr) (span : Span)
  | inRight (op : BinaryOp) (left : Expr) (C : ExprCtx) (span : Span)
  | inValue (target : Ref) (C : ExprCtx) (span : Span)
  | inTest (C : ExprCtx) (ifTrue ifFalse : Expr) (span : Span)
  | inIfTrue (test : Expr) (C : ExprCtx) (ifFalse : Expr) (span : Span)
  | inIfFalse (test ifTrue : Expr) (C : ExprCtx) (span : Span)

/-- Puts an expression into its place. -/
def ExprCtx.fill (s : Expr) : ExprCtx → Expr
  | .here => s
  | .inOperand op C span => .unary op (C.fill s) span
  | .inLeft op C right span => .binary op (C.fill s) right span
  | .inRight op left C span => .binary op left (C.fill s) span
  | .inValue target C span => .assign target (C.fill s) span
  | .inTest C ifTrue ifFalse span => .cond (C.fill s) ifTrue ifFalse span
  | .inIfTrue test C ifFalse span => .cond test (C.fill s) ifFalse span
  | .inIfFalse test ifTrue C span => .cond test ifTrue (C.fill s) span

/-- What stands around an expression in a declaration. -/
structure VarDeclCtx where
  name : String
  ty : Ty
  init : ExprCtx
  span : Span

/-- Puts an expression into its place. -/
def VarDeclCtx.fill (s : Expr) (C : VarDeclCtx) : VarDecl :=
  ⟨C.name, C.ty, some (C.init.fill s), C.span⟩

/-- What stands around an expression in the first clause of a `for`. -/
inductive ForInitCtx
  | inDecl (C : VarDeclCtx)
  | inExpr (C : ExprCtx)

/-- Puts an expression into its place. -/
def ForInitCtx.fill (s : Expr) : ForInitCtx → ForInit
  | .inDecl C => .decl (C.fill s)
  | .inExpr C => .expr (C.fill s)

/-- What stands around an expression in a statement. -/
inductive StmtCtx
  | inDecl (C : VarDeclCtx)
  | inExpr (C : ExprCtx) (span : Span)
  | inRet (C : ExprCtx) (span : Span)
  | inBlock (before : List Stmt) (C : StmtCtx) (behind : List Stmt) (id : NodeId) (span : Span)
  | inTest (C : ExprCtx) (ifTrue ifFalse : Stmt) (span : Span)
  | inIfTrue (test : Expr) (C : StmtCtx) (ifFalse : Stmt) (span : Span)
  | inIfFalse (test : Expr) (ifTrue : Stmt) (C : StmtCtx) (span : Span)
  | inWhileTest (C : ExprCtx) (body : Stmt) (span : Span)
  | inWhileBody (test : Expr) (C : StmtCtx) (span : Span)
  | inDoBody (C : StmtCtx) (test : Expr) (span : Span)
  | inDoTest (body : Stmt) (C : ExprCtx) (span : Span)
  | inForInit (C : ForInitCtx) (test step : Option Expr) (body : Stmt) (id : NodeId) (span : Span)
  | inForTest (init : Option ForInit) (C : ExprCtx) (step : Option Expr) (body : Stmt)
      (id : NodeId) (span : Span)
  | inForStep (init : Option ForInit) (test : Option Expr) (C : ExprCtx) (body : Stmt)
      (id : NodeId) (span : Span)
  | inForBody (init : Option ForInit) (test step : Option Expr) (C : StmtCtx) (id : NodeId)
      (span : Span)

namespace StmtCtx

/-- Puts an expression into its place. -/
def fill (s : Expr) : StmtCtx → Stmt
  | .inDecl C => .decl (C.fill s)
  | .inExpr C span => .expr (C.fill s) span
  | .inRet C span => .ret (C.fill s) span
  | .inBlock before C behind id span => .block (before ++ C.fill s :: behind) id span
  | .inTest C ifTrue ifFalse span => .ite (C.fill s) ifTrue ifFalse span
  | .inIfTrue test C ifFalse span => .ite test (C.fill s) ifFalse span
  | .inIfFalse test ifTrue C span => .ite test ifTrue (C.fill s) span
  | .inWhileTest C body span => .whileDo (C.fill s) body span
  | .inWhileBody test C span => .whileDo test (C.fill s) span
  | .inDoBody C test span => .doWhile (C.fill s) test span
  | .inDoTest body C span => .doWhile body (C.fill s) span
  | .inForInit C test step body id span => .forLoop (some (C.fill s)) test step body id span
  | .inForTest init C step body id span => .forLoop init (some (C.fill s)) step body id span
  | .inForStep init test C body id span => .forLoop init test (some (C.fill s)) body id span
  | .inForBody init test step C id span => .forLoop init test step (C.fill s) id span

/-- The scopes that are open in the place. -/
def path (t : SymbolTable) (outer : ScopePath) : StmtCtx → ScopePath
  | .inDecl _ | .inExpr .. | .inRet .. | .inTest .. | .inWhileTest .. | .inDoTest .. => outer
  | .inIfTrue _ C _ _ | .inIfFalse _ _ C _ | .inWhileBody _ C _ | .inDoBody C _ _ => C.path t outer
  | .inBlock _ C _ id _ | .inForBody _ _ _ C id _ => C.path t (t.inside outer id)
  | .inForInit _ _ _ _ id _ | .inForTest _ _ _ _ id _ | .inForStep _ _ _ _ id _ => t.inside outer id

end StmtCtx

/-- What stands around an expression in a function. -/
structure FunctionCtx where
  name : String
  params : List Param
  returnTy : Ty
  before : List Stmt
  stmt : StmtCtx
  behind : List Stmt
  id : NodeId
  bodySpan : Span
  span : Span

/-- Puts an expression into its place. -/
def FunctionCtx.fill (s : Expr) (C : FunctionCtx) : Function :=
  ⟨C.name, C.params, C.returnTy, ⟨C.before ++ C.stmt.fill s :: C.behind, C.id, C.bodySpan⟩, C.span⟩

/-- The scopes that are open in the place. -/
def FunctionCtx.path (t : SymbolTable) (outer : ScopePath) (C : FunctionCtx) : ScopePath :=
  C.stmt.path t (t.inside outer C.id)

/-- What stands around an expression in a program. -/
structure ProgramCtx where
  before : List Function
  function : FunctionCtx
  behind : List Function
  id : NodeId
  span : Span

/-- Puts an expression into its place. -/
def ProgramCtx.fill (s : Expr) (C : ProgramCtx) : Program :=
  ⟨C.before ++ C.function.fill s :: C.behind, C.id, C.span⟩

/-- The scopes that are open in the place. -/
def ProgramCtx.path (t : SymbolTable) (C : ProgramCtx) : ScopePath :=
  C.function.path t (t.inside [] C.id)

/-! ## Contexts of what is listed -/

variable {t : SymbolTable} {path outer : ScopePath} {s : Expr}

theorem Expr.sites_self (e : Expr) : (path, e) ∈ e.sites path := by
  cases e <;> exact List.mem_cons_self

/-- What is listed in an expression has a context. -/
theorem Expr.exists_ctx {e : Expr} (mem : (path, s) ∈ e.sites outer) :
    path = outer ∧ ∃ C : ExprCtx, C.fill s = e := by
  induction e with
  | const | var =>
    cases List.mem_singleton.1 mem
    exact ⟨rfl, .here, rfl⟩
  | unary op operand span ih =>
    rcases List.mem_cons.1 mem with same | mem
    · cases same
      exact ⟨rfl, .here, rfl⟩
    · obtain ⟨rfl, C, rfl⟩ := ih mem
      exact ⟨rfl, .inOperand op C span, rfl⟩
  | binary op left right span ih₁ ih₂ =>
    rcases List.mem_cons.1 mem with same | mem
    · cases same
      exact ⟨rfl, .here, rfl⟩
    rcases List.mem_append.1 mem with mem | mem
    · obtain ⟨rfl, C, rfl⟩ := ih₁ mem
      exact ⟨rfl, .inLeft op C right span, rfl⟩
    · obtain ⟨rfl, C, rfl⟩ := ih₂ mem
      exact ⟨rfl, .inRight op left C span, rfl⟩
  | assign target value span ih =>
    rcases List.mem_cons.1 mem with same | mem
    · cases same
      exact ⟨rfl, .here, rfl⟩
    · obtain ⟨rfl, C, rfl⟩ := ih mem
      exact ⟨rfl, .inValue target C span, rfl⟩
  | cond test ifTrue ifFalse span ih₁ ih₂ ih₃ =>
    rcases List.mem_cons.1 mem with same | mem
    · cases same
      exact ⟨rfl, .here, rfl⟩
    rcases List.mem_append.1 mem with mem | mem
    · rcases List.mem_append.1 mem with mem | mem
      · obtain ⟨rfl, C, rfl⟩ := ih₁ mem
        exact ⟨rfl, .inTest C ifTrue ifFalse span, rfl⟩
      · obtain ⟨rfl, C, rfl⟩ := ih₂ mem
        exact ⟨rfl, .inIfTrue test C ifFalse span, rfl⟩
    · obtain ⟨rfl, C, rfl⟩ := ih₃ mem
      exact ⟨rfl, .inIfFalse test ifTrue C span, rfl⟩

/-- What fills a context is listed. -/
theorem ExprCtx.mem_sites (C : ExprCtx) : (path, s) ∈ (C.fill s).sites path := by
  induction C with
  | here => exact s.sites_self
  | inOperand _ _ _ ih | inValue _ _ _ ih => exact List.mem_cons_of_mem _ ih
  | inLeft _ _ _ _ ih => exact List.mem_cons_of_mem _ (List.mem_append_left _ ih)
  | inRight _ _ _ _ ih => exact List.mem_cons_of_mem _ (List.mem_append_right _ ih)
  | inTest _ _ _ _ ih =>
    exact List.mem_cons_of_mem _ (List.mem_append_left _ (List.mem_append_left _ ih))
  | inIfTrue _ _ _ _ ih =>
    exact List.mem_cons_of_mem _ (List.mem_append_left _ (List.mem_append_right _ ih))
  | inIfFalse _ _ _ _ ih => exact List.mem_cons_of_mem _ (List.mem_append_right _ ih)

/-- An expression stands in another if that is a context filled with it. -/
theorem Expr.mem_sites_iff {e : Expr} :
    (path, s) ∈ e.sites outer ↔ path = outer ∧ ∃ C : ExprCtx, C.fill s = e := by
  refine ⟨Expr.exists_ctx, ?_⟩
  rintro ⟨rfl, C, rfl⟩
  exact C.mem_sites

theorem mem_optionSites_iff {e : Option Expr} :
    (path, s) ∈ optionSites outer e ↔ path = outer ∧ ∃ C : ExprCtx, some (C.fill s) = e := by
  cases e with
  | none => simp [optionSites]
  | some e => simp [optionSites, Expr.mem_sites_iff]

theorem VarDecl.mem_sites_iff {d : VarDecl} :
    (path, s) ∈ optionSites outer d.init ↔ path = outer ∧ ∃ C : VarDeclCtx, C.fill s = d := by
  rw [mem_optionSites_iff]
  refine and_congr_right fun _ => ⟨?_, ?_⟩
  · rintro ⟨C, filled⟩
    exact ⟨⟨d.name, d.ty, C, d.span⟩, by rw [VarDeclCtx.fill, filled]⟩
  · rintro ⟨C, rfl⟩
    exact ⟨C.init, rfl⟩

theorem ForInit.mem_sites_iff {init : Option ForInit} :
    (path, s) ∈ ForInit.sites outer init ↔
      path = outer ∧ ∃ C : ForInitCtx, some (C.fill s) = init := by
  match init with
  | none => simp [ForInit.sites]
  | some (.decl d) =>
    rw [ForInit.sites, VarDecl.mem_sites_iff]
    refine and_congr_right fun _ => ⟨?_, ?_⟩
    · rintro ⟨C, rfl⟩
      exact ⟨.inDecl C, rfl⟩
    · rintro ⟨C, filled⟩
      cases C with
      | inDecl C =>
        cases filled
        exact ⟨C, rfl⟩
      | inExpr => cases filled
  | some (.expr e) =>
    rw [ForInit.sites, Expr.mem_sites_iff]
    refine and_congr_right fun _ => ⟨?_, ?_⟩
    · rintro ⟨C, rfl⟩
      exact ⟨.inExpr C, rfl⟩
    · rintro ⟨C, filled⟩
      cases C with
      | inDecl => cases filled
      | inExpr C =>
        cases filled
        exact ⟨C, rfl⟩

theorem mem_sitesOf_append {before behind : List Stmt} {stmt : Stmt}
    (mem : (path, s) ∈ stmt.sites t outer) :
    (path, s) ∈ sitesOf t outer (before ++ stmt :: behind) := by
  induction before with
  | nil => exact List.mem_append_left _ mem
  | cons _ _ ih => exact List.mem_append_right _ ih

mutual

/-- What is listed in a statement has a context. -/
theorem Stmt.exists_ctx {t : SymbolTable} {path outer : ScopePath} {s : Expr} (stmt : Stmt)
    (mem : (path, s) ∈ stmt.sites t outer) :
    ∃ C : StmtCtx, C.fill s = stmt ∧ C.path t outer = path := by
  cases stmt with
  | decl d =>
    obtain ⟨rfl, C, rfl⟩ := VarDecl.mem_sites_iff.1 mem
    exact ⟨.inDecl C, rfl, rfl⟩
  | expr e span =>
    obtain ⟨rfl, C, rfl⟩ := Expr.mem_sites_iff.1 mem
    exact ⟨.inExpr C span, rfl, rfl⟩
  | ret e span =>
    obtain ⟨rfl, C, rfl⟩ := Expr.mem_sites_iff.1 mem
    exact ⟨.inRet C span, rfl, rfl⟩
  | empty | brk | cont => cases mem
  | block body id span =>
    obtain ⟨before, C, behind, rfl, rfl⟩ := exists_ctx body mem
    exact ⟨.inBlock before C behind id span, rfl, rfl⟩
  | ite test ifTrue ifFalse span =>
    rcases List.mem_append.1 mem with mem | mem
    · rcases List.mem_append.1 mem with mem | mem
      · obtain ⟨rfl, C, rfl⟩ := Expr.mem_sites_iff.1 mem
        exact ⟨.inTest C ifTrue ifFalse span, rfl, rfl⟩
      · obtain ⟨C, rfl, rfl⟩ := ifTrue.exists_ctx mem
        exact ⟨.inIfTrue test C ifFalse span, rfl, rfl⟩
    · obtain ⟨C, rfl, rfl⟩ := ifFalse.exists_ctx mem
      exact ⟨.inIfFalse test ifTrue C span, rfl, rfl⟩
  | whileDo test body span =>
    rcases List.mem_append.1 mem with mem | mem
    · obtain ⟨rfl, C, rfl⟩ := Expr.mem_sites_iff.1 mem
      exact ⟨.inWhileTest C body span, rfl, rfl⟩
    · obtain ⟨C, rfl, rfl⟩ := body.exists_ctx mem
      exact ⟨.inWhileBody test C span, rfl, rfl⟩
  | doWhile body test span =>
    rcases List.mem_append.1 mem with mem | mem
    · obtain ⟨C, rfl, rfl⟩ := body.exists_ctx mem
      exact ⟨.inDoBody C test span, rfl, rfl⟩
    · obtain ⟨rfl, C, rfl⟩ := Expr.mem_sites_iff.1 mem
      exact ⟨.inDoTest body C span, rfl, rfl⟩
  | forLoop init test step body id span =>
    rcases List.mem_append.1 mem with mem | mem
    · rcases List.mem_append.1 mem with mem | mem
      · rcases List.mem_append.1 mem with mem | mem
        · obtain ⟨rfl, C, rfl⟩ := ForInit.mem_sites_iff.1 mem
          exact ⟨.inForInit C test step body id span, rfl, rfl⟩
        · obtain ⟨rfl, C, rfl⟩ := mem_optionSites_iff.1 mem
          exact ⟨.inForTest init C step body id span, rfl, rfl⟩
      · obtain ⟨rfl, C, rfl⟩ := mem_optionSites_iff.1 mem
        exact ⟨.inForStep init test C body id span, rfl, rfl⟩
    · obtain ⟨C, rfl, rfl⟩ := body.exists_ctx mem
      exact ⟨.inForBody init test step C id span, rfl, rfl⟩

theorem exists_ctx {t : SymbolTable} {path outer : ScopePath} {s : Expr} (stmts : List Stmt)
    (mem : (path, s) ∈ sitesOf t outer stmts) :
    ∃ before, ∃ C : StmtCtx, ∃ behind, before ++ C.fill s :: behind = stmts ∧
      C.path t outer = path := by
  cases stmts with
  | nil => cases mem
  | cons stmt rest =>
    rcases List.mem_append.1 mem with mem | mem
    · obtain ⟨C, rfl, rfl⟩ := stmt.exists_ctx mem
      exact ⟨[], C, rest, rfl, rfl⟩
    · obtain ⟨before, C, behind, rfl, rfl⟩ := exists_ctx rest mem
      exact ⟨stmt :: before, C, behind, rfl, rfl⟩

end

/-- What fills a context is listed. -/
theorem StmtCtx.mem_sites (C : StmtCtx) : (C.path t outer, s) ∈ (C.fill s).sites t outer := by
  induction C generalizing outer with
  | inDecl C => exact VarDecl.mem_sites_iff.2 ⟨rfl, C, rfl⟩
  | inExpr C | inRet C => exact C.mem_sites
  | inBlock _ _ _ _ _ ih => exact mem_sitesOf_append ih
  | inTest C =>
    exact List.mem_append_left _ (List.mem_append_left _ C.mem_sites)
  | inIfTrue _ _ _ _ ih => exact List.mem_append_left _ (List.mem_append_right _ ih)
  | inIfFalse _ _ _ _ ih | inWhileBody _ _ _ ih | inForBody _ _ _ _ _ _ ih =>
    exact List.mem_append_right _ ih
  | inWhileTest C => exact List.mem_append_left _ C.mem_sites
  | inDoBody _ _ _ ih => exact List.mem_append_left _ ih
  | inDoTest _ C => exact List.mem_append_right _ C.mem_sites
  | inForInit C =>
    exact List.mem_append_left _ (List.mem_append_left _ (List.mem_append_left _
      (ForInit.mem_sites_iff.2 ⟨rfl, C, rfl⟩)))
  | inForTest _ C =>
    exact List.mem_append_left _ (List.mem_append_left _ (List.mem_append_right _
      (mem_optionSites_iff.2 ⟨rfl, C, rfl⟩)))
  | inForStep _ _ C =>
    exact List.mem_append_left _ (List.mem_append_right _ (mem_optionSites_iff.2 ⟨rfl, C, rfl⟩))

theorem Stmt.mem_sites_iff {stmt : Stmt} :
    (path, s) ∈ stmt.sites t outer ↔ ∃ C : StmtCtx, C.fill s = stmt ∧ C.path t outer = path := by
  refine ⟨stmt.exists_ctx, ?_⟩
  rintro ⟨C, rfl, rfl⟩
  exact C.mem_sites

/-- An expression stands somewhere in a program if that is a context filled with it. -/
theorem Program.mem_sites_iff {p : Program} :
    (path, s) ∈ p.sites t ↔ ∃ C : ProgramCtx, C.fill s = p ∧ C.path t = path := by
  constructor
  · intro mem
    obtain ⟨f, inside, mem⟩ := List.mem_flatMap.1 mem
    obtain ⟨before, behind, split⟩ := List.append_of_mem inside
    obtain ⟨first, C, last, filled, rfl⟩ := exists_ctx f.body.stmts mem
    refine ⟨⟨before, ⟨f.name, f.params, f.returnTy, first, C, last, f.body.id, f.body.span,
      f.span⟩, behind, p.id, p.span⟩, ?_, rfl⟩
    rw [ProgramCtx.fill, FunctionCtx.fill, filled, ← split]
  · rintro ⟨C, rfl, rfl⟩
    refine List.mem_flatMap.2 ⟨C.function.fill s, by simp [ProgramCtx.fill], ?_⟩
    exact mem_sitesOf_append C.function.stmt.mem_sites

end Source
end MiddleEnd
