import MiddleEnd.Proofs.Scoping.Visible

/-!
# What a check resolves

A program whose positions do not mislead is checked to the end, and each of its references gets the
symbol that lexical scoping gives it. What the scoping rules do not find is reported, once for
each use, and nothing else is reported as missing or as no variable.

Results:
1. `stmtCheck_of_follows`: a statement in a table that follows its script.
2. `programCheck_of_ordered`: programs whose positions do not mislead.
3. `placed_references_resolved`: programs that were built.
-/

namespace MiddleEnd

open Survey

namespace Typed

/-! ## References of typed trees -/

/-- The references of an expression. An assigned value comes before the name it goes to. -/
def Expr.refs : Expr → List Ref
  | .const .. => []
  | .var r .. => [r]
  | .unary _ operand .. => operand.refs
  | .binary _ left right .. => left.refs ++ right.refs
  | .assign target value .. => value.refs ++ [target]
  | .cond test ifTrue ifFalse .. => test.refs ++ ifTrue.refs ++ ifFalse.refs

/-- The references of an expression that may be absent. -/
def optionRefs : Option Expr → List Ref
  | none => []
  | some e => e.refs

/-- The references of a declaration. -/
def VarDecl.refs (d : VarDecl) : List Ref := optionRefs d.init

/-- The references of the first clause of a `for`. -/
def ForInit.refs : Option ForInit → List Ref
  | none => []
  | some (.decl d) => d.refs
  | some (.expr e) => e.refs

mutual

/-- The references of a statement. The body of a `do` comes before its test. -/
def Stmt.refs : Stmt → List Ref
  | .decl d => d.refs
  | .expr e | .ret e => e.refs
  | .empty | .brk _ | .cont _ => []
  | .block body => refsOf body
  | .ite test ifTrue ifFalse => test.refs ++ ifTrue.refs ++ ifFalse.refs
  | .whileDo test body => test.refs ++ body.refs
  | .doWhile body test => body.refs ++ test.refs
  | .forLoop init test step body =>
    ForInit.refs init ++ optionRefs test ++ optionRefs step ++ body.refs

/-- The references of statements. -/
def refsOf : List Stmt → List Ref
  | [] => []
  | s :: rest => s.refs ++ refsOf rest

end

/-- The references of a program. -/
def Program.refs (p : Program) : List Ref := p.functions.flatMap fun f => refsOf f.body

end Typed

/-! ## References and reports -/

/-- The report on a use. -/
def Resolution.report (r : Source.Ref) : Resolution → Log
  | notFound => [⟨.symbolNotFound r.name, r.span.start⟩]
  | notVariable => [⟨.notVariable r.name, r.span.start⟩]
  | var _ => []

/-- Whether a cause is that a name does not stand for a variable. -/
def Cause.isUnresolved : Cause → Bool
  | symbolNotFound _ | notVariable _ => true
  | _ => false

/-- A report for another cause is about no use. -/
theorem filter_reportUnless {condition : Bool} {cause : Cause} {pos : Pos}
    (other : cause.isUnresolved = false) :
    (reportUnless condition cause pos).filter (fun e => e.cause.isUnresolved) = [] := by
  unfold reportUnless
  split
  · rfl
  · rw [List.filter_singleton, other]
    rfl

/-- References and reports that agree with what the uses stand for. -/
structure Resolved (refs : List Typed.Ref) (log : Log) (answers : List (Source.Ref × Resolution)) :
    Prop where
  refs : refs.map (fun r => (r.name, r.span, r.symbol)) =
    answers.map fun (r, ρ) => (r.name, r.span, ρ.symbol?)
  reports : (log.filter fun e => e.cause.isUnresolved).Perm
    (answers.flatMap fun (r, ρ) => ρ.report r)

namespace Resolved

variable {refs₁ refs₂ : List Typed.Ref} {log₁ log₂ : Log}
  {answers₁ answers₂ : List (Source.Ref × Resolution)}

theorem nil : Resolved [] [] [] := ⟨rfl, .nil⟩

theorem append (h₁ : Resolved refs₁ log₁ answers₁) (h₂ : Resolved refs₂ log₂ answers₂) :
    Resolved (refs₁ ++ refs₂) (log₁ ++ log₂) (answers₁ ++ answers₂) := by
  constructor
  · rw [List.map_append, List.map_append, h₁.refs, h₂.refs]
  · rw [List.filter_append, List.flatMap_append]
    exact h₁.reports.append h₂.reports

/-- The checker may take two parts in the other order. -/
theorem swap (h₁ : Resolved refs₁ log₁ answers₁) (h₂ : Resolved refs₂ log₂ answers₂) :
    Resolved (refs₁ ++ refs₂) (log₂ ++ log₁) (answers₁ ++ answers₂) := by
  refine ⟨(h₁.append h₂).refs, ?_⟩
  rw [List.filter_append]
  refine List.perm_append_comm.trans ?_
  rw [← List.filter_append]
  exact (h₁.append h₂).reports

/-- Reports on types are about no use. -/
theorem quiet (h : Resolved refs₁ log₁ answers₁) {condition : Bool} {cause : Cause} {pos : Pos}
    (other : cause.isUnresolved = false) :
    Resolved refs₁ (log₁ ++ reportUnless condition cause pos) answers₁ := by
  refine ⟨h.refs, ?_⟩
  rw [List.filter_append, filter_reportUnless other, List.append_nil]
  exact h.reports

theorem branches (h : Resolved refs₁ log₁ answers₁) (config : Config) (pos : Pos)
    (ifTrue ifFalse : Ty) :
    Resolved refs₁ (log₁ ++ branchesReport config pos ifTrue ifFalse) answers₁ := by
  unfold branchesReport
  split
  · exact h.quiet rfl
  · rw [List.append_nil]
    exact h

end Resolved

/-! ## Checking -/

variable {Γ : CheckContext} {w : Survey}

theorem refCheck_of_shows {t : SymbolTable} {path : ScopePath} {r : Source.Ref}
    {ρ : Resolution} (shows : Shows t path r ρ) :
    ∃ r' log, RefCheck t path r r' log ∧ Resolved [r'] log [(r, ρ)] := by
  cases shows with
  | notFound looked => exact ⟨_, _, .notFound looked, rfl, .refl _⟩
  | notVariable looked symbol => exact ⟨_, _, .notVariable looked symbol, rfl, .refl _⟩
  | var looked symbol => exact ⟨_, _, .found looked symbol, rfl, .nil⟩

/-- An expression is checked to the end and resolved by the scoping rules. -/
theorem exprCheck_of_follows (e : Source.Expr)
    (follows : w.All (Follows Γ.symbols) e.script) :
    ∃ e' log, ExprCheck Γ w.path e e' log ∧ Resolved e'.refs log (w.answers e.script) := by
  unfold Source.Expr.script
  rw [answers_uses]
  have each := all_uses.1 follows
  clear follows
  induction e with
  | const value span => exact ⟨_, _, .const, .nil⟩
  | var r span =>
    obtain ⟨r', log, check, resolved⟩ := refCheck_of_shows (each r List.mem_cons_self)
    exact ⟨_, log, .var check, resolved⟩
  | unary op operand span ih =>
    obtain ⟨o, log, check, resolved⟩ := ih each
    exact ⟨_, _, .unary check, resolved.quiet rfl⟩
  | binary op left right span ihl ihr =>
    obtain ⟨eachLeft, eachRight⟩ := List.forall_mem_append.1 each
    obtain ⟨l, log₁, check₁, resolved₁⟩ := ihl eachLeft
    obtain ⟨r, log₂, check₂, resolved₂⟩ := ihr eachRight
    refine ⟨_, _, .binary check₁ check₂, ?_⟩
    unfold Source.Expr.uses
    rw [List.map_append]
    exact ((resolved₁.quiet rfl).append resolved₂).quiet rfl
  | assign target value span ih =>
    obtain ⟨eachValue, eachTarget⟩ := List.forall_mem_append.1 each
    obtain ⟨v, log₁, check₁, resolved₁⟩ := ih eachValue
    obtain ⟨t, log₂, check₂, resolved₂⟩ :=
      refCheck_of_shows (eachTarget target List.mem_cons_self)
    -- the target is checked first, but the value stands before it
    refine ⟨_, _, .assign check₂ check₁, ?_⟩
    unfold Source.Expr.uses
    rw [List.map_append]
    exact (resolved₁.swap resolved₂).quiet rfl
  | cond test ifTrue ifFalse span iht iha ihb =>
    obtain ⟨eachFirst, eachFalse⟩ := List.forall_mem_append.1 each
    obtain ⟨eachTest, eachTrue⟩ := List.forall_mem_append.1 eachFirst
    obtain ⟨t, log₁, check₁, resolved₁⟩ := iht eachTest
    obtain ⟨a, log₂, check₂, resolved₂⟩ := iha eachTrue
    obtain ⟨b, log₃, check₃, resolved₃⟩ := ihb eachFalse
    refine ⟨_, _, .cond check₁ check₂ check₃, ?_⟩
    unfold Source.Expr.uses
    rw [List.map_append, List.map_append]
    exact (((resolved₁.quiet rfl).append resolved₂).append resolved₃).branches ..

theorem optionCheck_of_follows (e : Option Source.Expr)
    (follows : w.All (Follows Γ.symbols) (Source.optionScript e)) :
    ∃ e' log, OptionCheck Γ w.path e e' log ∧
      Resolved (Typed.optionRefs e') log (w.answers (Source.optionScript e)) := by
  cases e with
  | none => exact ⟨none, [], .none, .nil⟩
  | some e =>
    obtain ⟨e', log, check, resolved⟩ := exprCheck_of_follows e follows
    exact ⟨some e', log, .some check, resolved⟩

theorem varDeclCheck_of_follows (d : Source.VarDecl)
    (follows : w.All (Follows Γ.symbols) d.script) :
    ∃ d' log, VarDeclCheck Γ w.path d d' log ∧ Resolved d'.refs log (w.answers d.script) := by
  obtain ⟨followsInit, ⟨id, named⟩, -⟩ := all_append.1 follows
  rw [run_option] at named
  rw [answers_varDecl]
  cases init : d.init with
  | none => exact ⟨_, _, .plain named init, .nil⟩
  | some e =>
    rw [init] at followsInit
    obtain ⟨e', log, check, resolved⟩ := exprCheck_of_follows e followsInit
    exact ⟨_, _, .init named init (.mk check), resolved.quiet rfl⟩

theorem forInitCheck_of_follows (init : Option Source.ForInit)
    (follows : w.All (Follows Γ.symbols) (Source.ForInit.script init)) :
    ∃ init' log, ForInitCheck Γ w.path init init' log ∧
      Resolved (Typed.ForInit.refs init') log (w.answers (Source.ForInit.script init)) := by
  match init with
  | none => exact ⟨none, [], .none, .nil⟩
  | some (.decl d) =>
    obtain ⟨d', log, check, resolved⟩ := varDeclCheck_of_follows d follows
    exact ⟨some (.decl d'), log, .decl check, resolved⟩
  | some (.expr e) =>
    obtain ⟨e', log, check, resolved⟩ := exprCheck_of_follows e follows
    exact ⟨some (.expr e'), log, .expr check, resolved⟩

mutual

/-- A statement is checked to the end and resolved by the scoping rules. -/
theorem stmtCheck_of_follows {Γ : CheckContext} {w : Survey} (returnTy : Ty)
    (s : Source.Stmt) (follows : w.All (Follows Γ.symbols) s.script) :
    ∃ s' log, StmtCheck Γ returnTy w.path s s' log ∧
      Resolved s'.refs log (w.answers s.script) := by
  cases s with
  | decl d =>
    obtain ⟨d', log, check, resolved⟩ := varDeclCheck_of_follows d follows
    exact ⟨.decl d', log, .decl check, resolved⟩
  | expr e span =>
    obtain ⟨e', log, check, resolved⟩ := exprCheck_of_follows e follows
    exact ⟨.expr e', log, .expr check, resolved⟩
  | empty span => exact ⟨.empty, [], .empty, .nil⟩
  | brk span => exact ⟨.brk span, [], .brk, .nil⟩
  | cont span => exact ⟨.cont span, [], .cont, .nil⟩
  | ret value span =>
    obtain ⟨v, log, check, resolved⟩ := exprCheck_of_follows value follows
    exact ⟨.ret v, _, .ret (.mk check), resolved.quiet rfl⟩
  | block body id span =>
    obtain ⟨owned, followsBody⟩ := all_scope follows
    obtain ⟨body', log, check, resolved⟩ := stmtsCheck_of_follows returnTy body followsBody
    refine ⟨.block body', log, .block owned check, ?_⟩
    unfold Source.Stmt.script
    rw [answers_scope]
    exact resolved
  | ite test ifTrue ifFalse span =>
    obtain ⟨followsFirst, followsFalse⟩ := all_append.1 follows
    obtain ⟨followsTest, followsTrue⟩ := all_append.1 followsFirst
    rw [run_append, run_expr] at followsFalse
    rw [run_expr] at followsTrue
    obtain ⟨t, log₁, check₁, resolved₁⟩ := exprCheck_of_follows test followsTest
    obtain ⟨a, log₂, check₂, resolved₂⟩ := stmtCheck_of_follows returnTy ifTrue followsTrue
    obtain ⟨b, log₃, check₃, resolved₃⟩ := stmtCheck_of_follows returnTy ifFalse followsFalse
    rw [path_run_stmt] at check₃
    refine ⟨.ite t a b, _, .ite (.mk check₁) check₂ check₃, ?_⟩
    unfold Source.Stmt.script
    rw [answers_append, answers_append, run_append, run_expr]
    exact ((resolved₁.quiet rfl).append resolved₂).append resolved₃
  | whileDo test body span =>
    obtain ⟨followsTest, followsBody⟩ := all_append.1 follows
    rw [run_expr] at followsBody
    obtain ⟨t, log₁, check₁, resolved₁⟩ := exprCheck_of_follows test followsTest
    obtain ⟨b, log₂, check₂, resolved₂⟩ := stmtCheck_of_follows returnTy body followsBody
    refine ⟨.whileDo t b, _, .whileDo (.mk check₁) check₂, ?_⟩
    unfold Source.Stmt.script
    rw [answers_append, run_expr]
    exact (resolved₁.quiet rfl).append resolved₂
  | doWhile body test span =>
    obtain ⟨followsBody, followsTest⟩ := all_append.1 follows
    obtain ⟨b, log₁, check₁, resolved₁⟩ := stmtCheck_of_follows returnTy body followsBody
    obtain ⟨t, log₂, check₂, resolved₂⟩ := exprCheck_of_follows test followsTest
    rw [path_run_stmt] at check₂
    -- the test is checked first, but the body stands before it
    refine ⟨.doWhile b t, _, .doWhile (.mk check₂) check₁, ?_⟩
    unfold Source.Stmt.script
    rw [answers_append]
    exact resolved₁.swap (resolved₂.quiet rfl)
  | forLoop init test step body id span =>
    obtain ⟨owned, followsRest⟩ := all_scope follows
    obtain ⟨followsClauses, followsBody⟩ := all_append.1 followsRest
    obtain ⟨followsClauses, followsStep⟩ := all_append.1 followsClauses
    obtain ⟨followsInit, followsTest⟩ := all_append.1 followsClauses
    rw [run_append, run_option] at followsStep
    rw [run_append, run_append, run_option, run_option] at followsBody
    obtain ⟨i, log₁, check₁, resolved₁⟩ := forInitCheck_of_follows init followsInit
    obtain ⟨t, log₂, check₂, resolved₂⟩ := optionCheck_of_follows test followsTest
    obtain ⟨s, log₃, check₃, resolved₃⟩ := optionCheck_of_follows step followsStep
    obtain ⟨b, log₄, check₄, resolved₄⟩ := stmtCheck_of_follows returnTy body followsBody
    rw [path_forInit] at check₂ check₃ check₄
    refine ⟨.forLoop i t s b, _, .forLoop owned check₁ check₂ check₃ check₄, ?_⟩
    unfold Source.Stmt.script
    rw [answers_scope]
    simp only [answers_append, run_append, run_option]
    exact ((resolved₁.append resolved₂).append resolved₃).append resolved₄

theorem stmtsCheck_of_follows {Γ : CheckContext} {w : Survey} (returnTy : Ty)
    (ss : List Source.Stmt) (follows : w.All (Follows Γ.symbols) (Source.scriptOf ss)) :
    ∃ ss' log, StmtsCheck Γ returnTy w.path ss ss' log ∧
      Resolved (Typed.refsOf ss') log (w.answers (Source.scriptOf ss)) := by
  cases ss with
  | nil => exact ⟨[], [], .nil, .nil⟩
  | cons s rest =>
    obtain ⟨followsFirst, followsRest⟩ := all_append.1 follows
    obtain ⟨s', log₁, check₁, resolved₁⟩ := stmtCheck_of_follows returnTy s followsFirst
    obtain ⟨rest', log₂, check₂, resolved₂⟩ :=
      stmtsCheck_of_follows returnTy rest followsRest
    rw [path_run_stmt] at check₂
    refine ⟨s' :: rest', _, .cons check₁ check₂, ?_⟩
    unfold Source.scriptOf
    rw [answers_append]
    exact resolved₁.append resolved₂

end

theorem paramsCheck_of_follows (ps : List Source.Param)
    (follows : w.All (Follows Γ.symbols) (ps.map fun p => .declare p.symbol)) :
    ∃ ps', ParamsCheck Γ w.path ps ps' := by
  induction ps generalizing w with
  | nil => exact ⟨[], .nil⟩
  | cons p rest ih =>
    obtain ⟨⟨id, named⟩, followsRest⟩ := follows
    obtain ⟨rest', checks⟩ := ih followsRest
    exact ⟨⟨p.name, id, p.span⟩ :: rest', .cons named checks⟩

theorem functionCheck_of_follows (f : Source.Function)
    (named : ∃ id, Γ.symbols.innermost? w.path f.name = some id ∧ (Γ.symbols.functionAt id).isSome)
    (follows : w.All (Follows Γ.symbols) f.script) :
    ∃ f' log, FunctionCheck Γ w.path f f' log ∧
      Resolved (Typed.refsOf f'.body) log (w.answers f.script) := by
  obtain ⟨id, innermost, isFn⟩ := named
  obtain ⟨owned, followsRest⟩ := all_scope follows
  obtain ⟨followsParams, followsBody⟩ := all_append.1 followsRest
  obtain ⟨params, check₁⟩ := paramsCheck_of_follows f.params followsParams
  obtain ⟨body, log, check₂, resolved⟩ := stmtsCheck_of_follows f.returnTy f.body.stmts followsBody
  rw [path_run_declares] at check₂
  refine ⟨⟨f.name, id, params, f.returnTy, body, f.span⟩, log,
    .mk innermost isFn owned check₁ check₂, ?_⟩
  unfold Source.Function.script
  rw [answers_scope, answers_append, answers_declares]
  exact resolved

theorem functionsCheck_of_follows (fs : List Source.Function)
    (named : ∀ f ∈ fs, ∃ id, Γ.symbols.innermost? w.path f.name = some id ∧
      (Γ.symbols.functionAt id).isSome)
    (follows : w.All (Follows Γ.symbols) (fs.flatMap Source.Function.script)) :
    ∃ fs' log, FunctionsCheck Γ w.path fs fs' log ∧
      Resolved (fs'.flatMap fun f => Typed.refsOf f.body) log
        (w.answers (fs.flatMap Source.Function.script)) := by
  induction fs generalizing w with
  | nil => exact ⟨[], [], .nil, .nil⟩
  | cons f rest ih =>
    obtain ⟨namedHere, namedRest⟩ := List.forall_mem_cons.1 named
    obtain ⟨followsHere, followsRest⟩ := all_append.1 follows
    obtain ⟨f', log₁, check₁, resolved₁⟩ := functionCheck_of_follows f namedHere followsHere
    obtain ⟨rest', log₂, check₂, resolved₂⟩ :=
      ih (by rwa [path_run_function]) followsRest
    rw [path_run_function] at check₂
    refine ⟨f' :: rest', _, .cons check₁ check₂, ?_⟩
    rw [List.flatMap_cons, List.flatMap_cons, answers_append]
    exact resolved₁.append resolved₂

/-- Checking a program ends, and resolves every reference as the scoping rules do. -/
theorem programCheck_of_ordered {p : Source.Program} (ordered : p.Ordered) (config : Config) :
    ∃ typed log, ProgramCheck ⟨(Declarations.ofProgram p).table, config⟩ p typed log ∧
      Resolved typed.refs log p.resolve := by
  have named : ∀ f ∈ p.functions, ∃ id,
      (Declarations.ofProgram p).table.innermost? p.globals.path f.name = some id ∧
        ((Declarations.ofProgram p).table.functionAt id).isSome := by
    rw [p.globals_path]
    exact fun f mem => function_at p mem
  obtain ⟨functions, log, check, resolved⟩ :=
    functionsCheck_of_follows (Γ := ⟨(Declarations.ofProgram p).table, config⟩) p.functions named
      (follows ordered)
  rw [p.globals_path] at check
  refine ⟨⟨functions⟩, log, .mk (scopeIndex_global ordered.owners) check, ?_⟩
  rw [p.resolve_eq_answers]
  exact resolved

/-- Of a program that was built, every reference gets the symbol that lexical scoping finds for it,
and the reports on names are those on the uses for which it finds none. -/
theorem placed_references_resolved (d : Draft.Program) (b : Source.Builder) (config : Config) :
    ∃ typed log,
      checkProgram ⟨(Declarations.ofProgram (d.place b).1).table, config⟩ (d.place b).1 =
        .ok (typed, log) ∧
      Resolved typed.refs log (d.place b).1.resolve := by
  obtain ⟨typed, log, check, resolved⟩ := programCheck_of_ordered (d.place_ordered b) config
  exact ⟨typed, log, check.run, resolved⟩

end MiddleEnd
