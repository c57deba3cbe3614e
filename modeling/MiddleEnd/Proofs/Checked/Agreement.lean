import MiddleEnd.Proofs.Checked.Linked
import MiddleEnd.Proofs.Scoping.Owned

/-!
# Both passes walk alike

The two passes walk over a program on their own, and the second one finds the scopes of the first by
the ids of the nodes that own them. Where these ids differ, it finds every scope and, in the
innermost one, every declaration. Positions and names do not matter to that: a name that was
declared twice is found too, as the first declaration of that name.

Results:
1. `stmtCheck_of_provides`: a statement in a table that has its scopes and declarations.
2. `passes_agree`: the check of a program against its own table comes to its end.
-/

namespace MiddleEnd

open Survey

/-! ## Declarations of typed trees -/

/-- A number is the one of a variable with this name. -/
def SymbolTable.HasVariable (t : SymbolTable) (id : SymbolId) (name : String) : Prop :=
  ∃ v, t.variableAt id = some v ∧ v.name = name

/-- A number is the one of a function with this name. -/
def SymbolTable.HasFunction (t : SymbolTable) (id : SymbolId) (name : String) : Prop :=
  ∃ g, t.functionAt id = some g ∧ g.name = name

namespace Typed

/-- The variable that the first clause of a `for` declares. -/
def ForInit.vars : Option ForInit → List VarDecl
  | some (.decl d) => [d]
  | some (.expr _) | none => []

mutual

/-- The variables that a statement declares. -/
def Stmt.vars : Stmt → List VarDecl
  | .decl d => [d]
  | .expr _ | .empty | .brk _ | .cont _ | .ret _ => []
  | .block body => varsOf body
  | .ite _ ifTrue ifFalse => ifTrue.vars ++ ifFalse.vars
  | .whileDo _ body | .doWhile body _ => body.vars
  | .forLoop init _ _ body => ForInit.vars init ++ body.vars

/-- The variables that statements declare. -/
def varsOf : List Stmt → List VarDecl
  | [] => []
  | s :: rest => s.vars ++ varsOf rest

end

/-- The declarations of variables have variables of the table with their names. -/
def NamedVars (t : SymbolTable) (ds : List VarDecl) : Prop :=
  ∀ d ∈ ds, t.HasVariable d.symbol d.name

/-- A function, its parameters and its variables have symbols of the table with their names. -/
structure Function.Named (t : SymbolTable) (f : Function) : Prop where
  name : t.HasFunction f.symbol f.name
  params : ∀ q ∈ f.params, t.HasVariable q.symbol q.name
  vars : NamedVars t (varsOf f.body)

end Typed

open Typed (NamedVars)

/-! ## Checking -/

variable {Γ : CheckContext} {w : Survey}

theorem SymbolTable.Finds.variable {t : SymbolTable} {path : ScopePath} {v : VariableInfo}
    (finds : t.Finds path (.var v)) :
    ∃ id, t.innermost? path v.name = some id ∧ t.HasVariable id v.name := by
  obtain ⟨id, found, named, symbol, name, isFn⟩ := finds
  refine ⟨id, named, ?_⟩
  cases found with
  | var u => exact ⟨u, by rw [SymbolTable.variableAt, symbol]; rfl, name⟩
  | fn g => cases isFn.1 rfl

theorem SymbolTable.Finds.function {t : SymbolTable} {path : ScopePath} {f : FunctionInfo}
    (finds : t.Finds path (.fn f)) :
    ∃ id, t.innermost? path f.name = some id ∧ t.HasFunction id f.name := by
  obtain ⟨id, found, named, symbol, name, isFn⟩ := finds
  refine ⟨id, named, ?_⟩
  cases found with
  | var u => cases isFn.2 rfl
  | fn g => exact ⟨g, by rw [SymbolTable.functionAt, symbol]; rfl, name⟩

theorem varDeclCheck_of_provides (linked : Γ.symbols.Linked) (within : Γ.symbols.Within w.path)
    (d : Source.VarDecl) (provided : w.All Γ.symbols.Provides d.script) :
    ∃ d' log, VarDeclCheck Γ w.path d d' log ∧ Γ.symbols.HasVariable d'.symbol d'.name := by
  obtain ⟨-, finds, -⟩ := all_append.1 provided
  rw [run_option] at finds
  obtain ⟨id, named, hasVariable⟩ := SymbolTable.Finds.variable finds
  cases init : d.init with
  | none => exact ⟨_, _, .plain named init, hasVariable⟩
  | some e =>
    obtain ⟨e', log, check⟩ := exprCheck_of_linked linked within e
    exact ⟨_, _, .init named init (.mk check), hasVariable⟩

theorem forInitCheck_of_provides (linked : Γ.symbols.Linked) (within : Γ.symbols.Within w.path)
    (init : Option Source.ForInit)
    (provided : w.All Γ.symbols.Provides (Source.ForInit.script init)) :
    ∃ init' log, ForInitCheck Γ w.path init init' log ∧
      NamedVars Γ.symbols (Typed.ForInit.vars init') := by
  match init with
  | none => exact ⟨none, [], .none, nofun⟩
  | some (.decl d) =>
    obtain ⟨d', log, check, named⟩ := varDeclCheck_of_provides linked within d provided
    exact ⟨some (.decl d'), log, .decl check, List.forall_mem_singleton.2 named⟩
  | some (.expr e) =>
    obtain ⟨e', log, check⟩ := exprCheck_of_linked linked within e
    exact ⟨some (.expr e'), log, .expr check, nofun⟩

mutual

/-- A statement whose scopes and declarations the table has is checked to the end. -/
theorem stmtCheck_of_provides {Γ : CheckContext} {w : Survey} (linked : Γ.symbols.Linked)
    (within : Γ.symbols.Within w.path) (returnTy : Ty) (s : Source.Stmt)
    (provided : w.All Γ.symbols.Provides s.script) :
    ∃ s' log, StmtCheck Γ returnTy w.path s s' log ∧ NamedVars Γ.symbols s'.vars := by
  cases s with
  | decl d =>
    obtain ⟨d', log, check, named⟩ := varDeclCheck_of_provides linked within d provided
    exact ⟨.decl d', log, .decl check, List.forall_mem_singleton.2 named⟩
  | expr e span =>
    obtain ⟨e', log, check⟩ := exprCheck_of_linked linked within e
    exact ⟨.expr e', log, .expr check, nofun⟩
  | empty span => exact ⟨.empty, [], .empty, nofun⟩
  | brk span => exact ⟨.brk span, [], .brk, nofun⟩
  | cont span => exact ⟨.cont span, [], .cont, nofun⟩
  | ret value span =>
    obtain ⟨v, log, check⟩ := exprCheck_of_linked linked within value
    exact ⟨.ret v, _, .ret (.mk check), nofun⟩
  | block body id span =>
    obtain ⟨owned, providedBody⟩ := all_scope provided
    obtain ⟨body', log, check, named⟩ :=
      stmtsCheck_of_provides linked (within.cons owned) returnTy body providedBody
    exact ⟨.block body', log, .block owned check, named⟩
  | ite test ifTrue ifFalse span =>
    obtain ⟨providedFirst, providedFalse⟩ := all_append.1 provided
    have providedTrue := (all_append.1 providedFirst).2
    rw [run_append, run_expr] at providedFalse
    rw [run_expr] at providedTrue
    obtain ⟨t, log₁, check₁⟩ := exprCheck_of_linked linked within test
    obtain ⟨a, log₂, check₂, named₂⟩ :=
      stmtCheck_of_provides linked within returnTy ifTrue providedTrue
    obtain ⟨b, log₃, check₃, named₃⟩ :=
      stmtCheck_of_provides linked (by rwa [path_run_stmt]) returnTy ifFalse providedFalse
    rw [path_run_stmt] at check₃
    exact ⟨.ite t a b, _, .ite (.mk check₁) check₂ check₃,
      List.forall_mem_append.2 ⟨named₂, named₃⟩⟩
  | whileDo test body span =>
    have providedBody := (all_append.1 provided).2
    rw [run_expr] at providedBody
    obtain ⟨t, log₁, check₁⟩ := exprCheck_of_linked linked within test
    obtain ⟨b, log₂, check₂, named⟩ :=
      stmtCheck_of_provides linked within returnTy body providedBody
    exact ⟨.whileDo t b, _, .whileDo (.mk check₁) check₂, named⟩
  | doWhile body test span =>
    have providedBody := (all_append.1 provided).1
    obtain ⟨t, log₁, check₁⟩ := exprCheck_of_linked linked within test
    obtain ⟨b, log₂, check₂, named⟩ :=
      stmtCheck_of_provides linked within returnTy body providedBody
    exact ⟨.doWhile b t, _, .doWhile (.mk check₁) check₂, named⟩
  | forLoop init test step body id span =>
    obtain ⟨owned, providedRest⟩ := all_scope provided
    obtain ⟨providedClauses, providedBody⟩ := all_append.1 providedRest
    have providedInit := (all_append.1 (all_append.1 providedClauses).1).1
    rw [run_append, run_append, run_option, run_option] at providedBody
    have inside := within.cons owned
    obtain ⟨i, log₁, check₁, named₁⟩ := forInitCheck_of_provides linked inside init providedInit
    obtain ⟨t, log₂, check₂⟩ := optionCheck_of_linked linked inside test
    obtain ⟨s, log₃, check₃⟩ := optionCheck_of_linked linked inside step
    obtain ⟨b, log₄, check₄, named₄⟩ :=
      stmtCheck_of_provides linked (by rw [path_forInit]; exact inside) returnTy body providedBody
    rw [path_forInit] at check₄
    exact ⟨.forLoop i t s b, _, .forLoop owned check₁ check₂ check₃ check₄,
      List.forall_mem_append.2 ⟨named₁, named₄⟩⟩

theorem stmtsCheck_of_provides {Γ : CheckContext} {w : Survey} (linked : Γ.symbols.Linked)
    (within : Γ.symbols.Within w.path) (returnTy : Ty) (ss : List Source.Stmt)
    (provided : w.All Γ.symbols.Provides (Source.scriptOf ss)) :
    ∃ ss' log, StmtsCheck Γ returnTy w.path ss ss' log ∧
      NamedVars Γ.symbols (Typed.varsOf ss') := by
  cases ss with
  | nil => exact ⟨[], [], .nil, nofun⟩
  | cons s rest =>
    obtain ⟨providedFirst, providedRest⟩ := all_append.1 provided
    obtain ⟨s', log₁, check₁, named₁⟩ :=
      stmtCheck_of_provides linked within returnTy s providedFirst
    obtain ⟨rest', log₂, check₂, named₂⟩ :=
      stmtsCheck_of_provides linked (by rwa [path_run_stmt]) returnTy rest providedRest
    rw [path_run_stmt] at check₂
    exact ⟨s' :: rest', _, .cons check₁ check₂, List.forall_mem_append.2 ⟨named₁, named₂⟩⟩

end

theorem paramsCheck_of_provides (ps : List Source.Param)
    (provided : w.All Γ.symbols.Provides (ps.map fun q => .declare q.symbol)) :
    ∃ ps', ParamsCheck Γ w.path ps ps' ∧ ∀ q ∈ ps', Γ.symbols.HasVariable q.symbol q.name := by
  induction ps generalizing w with
  | nil => exact ⟨[], .nil, nofun⟩
  | cons q rest ih =>
    obtain ⟨finds, providedRest⟩ := provided
    obtain ⟨id, named, hasVariable⟩ := SymbolTable.Finds.variable finds
    obtain ⟨rest', checks, others⟩ := ih providedRest
    exact ⟨⟨q.name, id, q.span⟩ :: rest', .cons named checks,
      List.forall_mem_cons.2 ⟨hasVariable, others⟩⟩

theorem functionCheck_of_provides (linked : Γ.symbols.Linked) (within : Γ.symbols.Within w.path)
    (f : Source.Function) (finds : Γ.symbols.Finds w.path f.symbol)
    (provided : w.All Γ.symbols.Provides f.script) :
    ∃ f' log, FunctionCheck Γ w.path f f' log ∧ f'.Named Γ.symbols := by
  obtain ⟨id, named, g, isFn, name⟩ := SymbolTable.Finds.function finds
  obtain ⟨owned, providedRest⟩ := all_scope provided
  obtain ⟨providedParams, providedBody⟩ := all_append.1 providedRest
  obtain ⟨params, check₁, namedParams⟩ := paramsCheck_of_provides f.params providedParams
  obtain ⟨body, log, check₂, namedBody⟩ :=
    stmtsCheck_of_provides linked (by rw [path_run_declares]; exact within.cons owned) f.returnTy
      f.body.stmts providedBody
  rw [path_run_declares] at check₂
  exact ⟨⟨f.name, id, params, f.returnTy, body, f.span⟩, log,
    .mk named (by rw [isFn]; rfl) owned check₁ check₂, ⟨g, isFn, name⟩, namedParams, namedBody⟩

theorem functionsCheck_of_provides (linked : Γ.symbols.Linked) (within : Γ.symbols.Within w.path)
    (fs : List Source.Function) (finds : ∀ f ∈ fs, Γ.symbols.Finds w.path f.symbol)
    (provided : w.All Γ.symbols.Provides (fs.flatMap Source.Function.script)) :
    ∃ fs' log, FunctionsCheck Γ w.path fs fs' log ∧ ∀ f ∈ fs', f.Named Γ.symbols := by
  induction fs generalizing w with
  | nil => exact ⟨[], [], .nil, nofun⟩
  | cons f rest ih =>
    obtain ⟨findsHere, findsRest⟩ := List.forall_mem_cons.1 finds
    obtain ⟨providedHere, providedRest⟩ := all_append.1 provided
    obtain ⟨f', log₁, check₁, named⟩ :=
      functionCheck_of_provides linked within f findsHere providedHere
    obtain ⟨rest', log₂, check₂, others⟩ :=
      ih (by rwa [path_run_function]) (by rwa [path_run_function]) providedRest
    rw [path_run_function] at check₂
    exact ⟨f' :: rest', _, .cons check₁ check₂, List.forall_mem_cons.2 ⟨named, others⟩⟩

/-! ## Programs -/

/-- A program in which no two scopes have one owner is checked to the end against its own table. The
scope of a node is the one that the first pass made for it, and every declaration takes from the
innermost open scope a symbol with its name: functions a function, parameters and variables a
variable. -/
theorem passes_agree (p : Source.Program) (config : Config)
    (distinct : (p.owners.map Prod.fst).Nodup) :
    (∀ i id kind, p.owners[i]? = some (id, kind) →
      (Declarations.ofProgram p).table.scopeIndex? id = some i) ∧
    ∃ typed issued,
      checkProgram ⟨(Declarations.ofProgram p).table, config⟩ p = .ok (typed, issued) ∧
      ProgramCheck ⟨(Declarations.ofProgram p).table, config⟩ p typed issued ∧
      ∀ f ∈ typed.functions, f.Named (Declarations.ofProgram p).table := by
  rw [← owners_ofProgram] at distinct
  constructor
  · intro i id kind owner
    refine scopeIndex_at distinct ?_
    rw [List.getElem?_map, owners_ofProgram, owner]
    rfl
  · have owned := scopeIndex_global distinct
    have within : (Declarations.ofProgram p).table.Within p.globals.path := by
      rw [p.globals_path]
      exact SymbolTable.Within.cons (.nil _) owned
    have finds : ∀ f ∈ p.functions,
        (Declarations.ofProgram p).table.Finds p.globals.path f.symbol := by
      intro f mem
      rw [p.globals_path]
      exact finds_of_mem (function_mem_entries mem) []
    obtain ⟨functions, issued, check, named⟩ :=
      functionsCheck_of_provides (Γ := ⟨(Declarations.ofProgram p).table, config⟩)
        (linked_ofProgram p) within p.functions finds (provides distinct)
    rw [p.globals_path] at check
    have program := ProgramCheck.mk (Γ := ⟨(Declarations.ofProgram p).table, config⟩) owned check
    exact ⟨⟨functions⟩, issued, program.run, program, named⟩

/-- `int f(int a, int a) { int a; if (a) int b; else int b; }`,
`int f(void) { for (int i; ; ) int i; do int f; while (f); { int f; } }`, everything at one place,
with names declared twice and declarations that are bodies of statements. -/
def crowded : Source.Program :=
  let span : Span := .at ⟨7, "t"⟩
  let decl (name : String) : Source.Stmt := .decl ⟨name, .int, none, span⟩
  let use (name : String) : Source.Expr := .var ⟨name, span⟩ span
  ⟨[⟨"f", [⟨"a", .int, span⟩, ⟨"a", .int, span⟩], .int,
      ⟨[decl "a", .ite (use "a") (decl "b") (decl "b") span], 5, span⟩, span⟩,
    ⟨"f", [], .int,
      ⟨[.forLoop (some (.decl ⟨"i", .int, none, span⟩)) none none (decl "i") 2 span,
        .doWhile (decl "f") (use "f") span, .block [decl "f"] 0 span], 3, span⟩, span⟩],
    -1, span⟩

theorem passes_agree_of_crowded :
    (crowded.owners.map Prod.fst).Nodup ∧
      (Declarations.ofProgram crowded).log.length = 5 ∧
      (Declarations.ofProgram crowded).table.scopeIndex? 2 = some 3 ∧
      ∃ typed issued,
        checkProgram ⟨(Declarations.ofProgram crowded).table, {}⟩ crowded = .ok (typed, issued) ∧
        ∀ f ∈ typed.functions, f.Named (Declarations.ofProgram crowded).table := by
  have distinct : (crowded.owners.map Prod.fst).Nodup := by decide +kernel
  obtain ⟨scopes, typed, issued, check, -, named⟩ := passes_agree crowded {} distinct
  exact ⟨distinct, by decide +kernel, scopes 3 2 .block (by decide +kernel), typed, issued, check,
    named⟩

end MiddleEnd
