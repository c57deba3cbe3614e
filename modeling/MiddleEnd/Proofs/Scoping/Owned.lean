import MiddleEnd.Source.Node
import MiddleEnd.Proofs.Scoping.Script

/-!
# Scopes and their declarations

What a program owns and declares, read off its tree: the nodes that own a scope, each before those
inside it, and the declarations in the same order, each with the number of the scope that it belongs
to. A declaration belongs to the innermost owner around it, so one that is the body of an `if` or a
loop belongs to the scope around that statement, and the variable that a `for` starts with to the
`for`.

Results:
1. `Survey.owners_ofProgram`, `Survey.entries_ofProgram`: the survey of a script finds them.
2. `Source.Program.map_declarations`: without their scopes they are the declarations of the nodes in
   reading order.
-/

namespace MiddleEnd

namespace Source

/-! ## Owners -/

/-- The scope that a node inside a function owns. -/
def Node.owner? (n : Node) : Option (NodeId × ScopeKind) := n.id?.map fun id => (id, .block)

/-- The scopes that a statement owns. -/
def Stmt.owners (s : Stmt) : List (NodeId × ScopeKind) := s.nodes.filterMap Node.owner?

/-- The scopes that statements own. -/
def ownersOf (ss : List Stmt) : List (NodeId × ScopeKind) := (stmtsNodes ss).filterMap Node.owner?

/-- The scopes that a function owns: the one of its body, then those inside. -/
def Function.owners (f : Function) : List (NodeId × ScopeKind) :=
  (f.body.id, .function) :: f.nodes.filterMap Node.owner?

/-- The scopes that a program owns: the global one, then those of its functions. -/
def Program.owners (p : Program) : List (NodeId × ScopeKind) :=
  (p.id, .global) :: p.functions.flatMap Function.owners

/-! ## Declarations -/

/-- The variable that a node declares. A `for` declares the one that it starts with. -/
def Node.variable? : Node → Option VarDecl
  | .stmt (.decl d) => some d
  | n => n.loopDecl?

/-- What a function declares inside: its parameters, then its variables. -/
def Function.locals (f : Function) : List Symbol :=
  f.params.map Param.symbol ++ (f.nodes.filterMap Node.variable?).map VarDecl.symbol

/-- What a program declares: all functions, then what each declares inside. -/
def Program.symbols (p : Program) : List Symbol :=
  p.functions.map Function.symbol ++ p.functions.flatMap Function.locals

/-- The declaration that a `for` starts with, in its scope. -/
def ForInit.declarations (scope : ScopeIndex) : Option ForInit → List Entry
  | some (.decl d) => [⟨scope, d.symbol⟩]
  | some (.expr _) | none => []

mutual

/-- The declarations of a statement in the scope of number `scope`. The scopes that the statement
owns are numbered from `next` on. -/
def Stmt.declarations (scope next : ScopeIndex) : Stmt → List Entry
  | .decl d => [⟨scope, d.symbol⟩]
  | .block body _ _ => declarationsOf next (next + 1) body
  | .ite _ ifTrue ifFalse _ =>
    ifTrue.declarations scope next ++ ifFalse.declarations scope (next + ifTrue.owners.length)
  | .whileDo _ body _ | .doWhile body _ _ => body.declarations scope next
  | .forLoop init _ _ body _ _ =>
    ForInit.declarations next init ++ body.declarations next (next + 1)
  | .expr .. | .empty _ | .brk _ | .cont _ | .ret .. => []

/-- The declarations of statements in one scope. -/
def declarationsOf (scope next : ScopeIndex) : List Stmt → List Entry
  | [] => []
  | s :: rest =>
    s.declarations scope next ++ declarationsOf scope (next + s.owners.length) rest

end

/-- The declarations inside a function whose scope has the number `next`. -/
def Function.declarations (next : ScopeIndex) (f : Function) : List Entry :=
  f.params.map (fun q => ⟨next, q.symbol⟩) ++ declarationsOf next (next + 1) f.body.stmts

/-- The declarations inside functions whose scopes are numbered from `next` on. -/
def declarationsIn (next : ScopeIndex) : List Function → List Entry
  | [] => []
  | f :: rest => f.declarations next ++ declarationsIn (next + f.owners.length) rest

/-- The declarations of a program, each with the scope that it belongs to. The global scope has the
number zero. -/
def Program.declarations (p : Program) : List Entry :=
  p.functions.map (fun f => ⟨0, f.symbol⟩) ++ declarationsIn 1 p.functions

/-! ## Nodes of expressions -/

theorem Expr.exists_of_mem_nodes {e : Expr} {n : Node} (mem : n ∈ e.nodes) :
    ∃ e', n = .expr e' := by
  induction e with
  | const | var => exact ⟨_, List.mem_singleton.1 mem⟩
  | unary op operand span ih | assign target operand span ih =>
    rcases List.mem_cons.1 mem with here | mem
    · exact ⟨_, here⟩
    · exact ih mem
  | binary op left right span ihl ihr =>
    rcases List.mem_cons.1 mem with here | mem
    · exact ⟨_, here⟩
    · exact (List.mem_append.1 mem).elim ihl ihr
  | cond test ifTrue ifFalse span iht iha ihb =>
    rcases List.mem_cons.1 mem with here | mem
    · exact ⟨_, here⟩
    · rcases List.mem_append.1 mem with mem | mem
      · exact (List.mem_append.1 mem).elim iht iha
      · exact ihb mem

/-- What no expression has is not found among the nodes of one. -/
theorem Expr.filterMap_nodes {f : Node → Option α} (none : ∀ e, f (.expr e) = none) (e : Expr) :
    e.nodes.filterMap f = [] := by
  refine List.filterMap_eq_nil_iff.2 ?_
  intro n mem
  obtain ⟨e', rfl⟩ := Expr.exists_of_mem_nodes mem
  exact none e'

theorem filterMap_optionNodes {f : Node → Option α} (none : ∀ e, f (.expr e) = none)
    (e : Option Expr) : (optionNodes e).filterMap f = [] := by
  cases e with
  | none => rfl
  | some e => exact e.filterMap_nodes none

theorem ForInit.filterMap_nodes {f : Node → Option α} (none : ∀ e, f (.expr e) = none)
    (i : ForInit) : i.nodes.filterMap f = [] := by
  cases i with
  | decl d => exact filterMap_optionNodes none d.init
  | expr e => exact e.filterMap_nodes none

@[simp] theorem Expr.owners_nodes (e : Expr) : e.nodes.filterMap Node.owner? = [] :=
  e.filterMap_nodes fun _ => rfl

@[simp] theorem owners_optionNodes (e : Option Expr) :
    (optionNodes e).filterMap Node.owner? = [] := filterMap_optionNodes (fun _ => rfl) e

@[simp] theorem ForInit.owners_nodes (i : ForInit) : i.nodes.filterMap Node.owner? = [] :=
  i.filterMap_nodes fun _ => rfl

@[simp] theorem Expr.variables_nodes (e : Expr) : e.nodes.filterMap Node.variable? = [] :=
  e.filterMap_nodes fun _ => rfl

@[simp] theorem variables_optionNodes (e : Option Expr) :
    (optionNodes e).filterMap Node.variable? = [] := filterMap_optionNodes (fun _ => rfl) e

@[simp] theorem ForInit.variables_nodes (i : ForInit) : i.nodes.filterMap Node.variable? = [] :=
  i.filterMap_nodes fun _ => rfl

/-! ## Nodes of statements -/

@[simp] theorem Stmt.owners_block (body : List Stmt) (id : NodeId) (span : Span) :
    (Stmt.block body id span).owners = (id, .block) :: ownersOf body := by
  simp [Stmt.owners, Stmt.nodes, ownersOf, Node.owner?, Node.id?]

@[simp] theorem Stmt.owners_ite (test : Expr) (ifTrue ifFalse : Stmt) (span : Span) :
    (Stmt.ite test ifTrue ifFalse span).owners = ifTrue.owners ++ ifFalse.owners := by
  simp [Stmt.owners, Stmt.nodes, Node.owner?, Node.id?, List.filterMap_cons]

@[simp] theorem Stmt.owners_whileDo (test : Expr) (body : Stmt) (span : Span) :
    (Stmt.whileDo test body span).owners = body.owners := by
  simp [Stmt.owners, Stmt.nodes, Node.owner?, Node.id?, List.filterMap_cons]

@[simp] theorem Stmt.owners_doWhile (test : Expr) (body : Stmt) (span : Span) :
    (Stmt.doWhile body test span).owners = body.owners := by
  simp [Stmt.owners, Stmt.nodes, Node.owner?, Node.id?, List.filterMap_cons]

@[simp] theorem Stmt.owners_forLoop (init : Option ForInit) (test step : Option Expr) (body : Stmt)
    (id : NodeId) (span : Span) :
    (Stmt.forLoop init test step body id span).owners = (id, .block) :: body.owners := by
  cases init <;> simp [Stmt.owners, Stmt.nodes, Node.owner?, Node.id?]

@[simp] theorem ownersOf_cons (s : Stmt) (rest : List Stmt) :
    ownersOf (s :: rest) = s.owners ++ ownersOf rest := by
  simp [ownersOf, stmtsNodes, Stmt.owners]

theorem Function.owners_eq (f : Function) :
    f.owners = (f.body.id, .function) :: ownersOf f.body.stmts := rfl

mutual

/-- Without their scopes, the declarations of a statement are those of its nodes in order. -/
theorem Stmt.map_declarations (s : Stmt) (scope next : ScopeIndex) :
    (s.declarations scope next).map Entry.symbol =
      (s.nodes.filterMap Node.variable?).map VarDecl.symbol := by
  cases s with
  | decl d => simp [Stmt.declarations, Stmt.nodes, Node.variable?]
  | expr | ret | empty | brk | cont =>
    simp [Stmt.declarations, Stmt.nodes, Node.variable?, Node.loopDecl?, List.filterMap_cons]
  | block body id span =>
    simpa [Stmt.declarations, Stmt.nodes, Node.variable?, Node.loopDecl?, List.filterMap_cons] using
      map_declarationsOf body next (next + 1)
  | ite test ifTrue ifFalse span =>
    simp [Stmt.declarations, Stmt.nodes, Node.variable?, Node.loopDecl?, List.filterMap_cons,
      ifTrue.map_declarations, ifFalse.map_declarations]
  | whileDo test body span | doWhile body test span =>
    simp [Stmt.declarations, Stmt.nodes, Node.variable?, Node.loopDecl?, List.filterMap_cons,
      body.map_declarations]
  | forLoop init test step body id span =>
    rcases init with _ | d | e <;>
      simp [Stmt.declarations, ForInit.declarations, Stmt.nodes, Node.variable?, Node.loopDecl?,
        ForInit.decl?, List.filterMap_cons, body.map_declarations]

theorem map_declarationsOf (ss : List Stmt) (scope next : ScopeIndex) :
    (declarationsOf scope next ss).map Entry.symbol =
      ((stmtsNodes ss).filterMap Node.variable?).map VarDecl.symbol := by
  cases ss with
  | nil => rfl
  | cons s rest =>
    simp [declarationsOf, stmtsNodes, s.map_declarations, map_declarationsOf rest]

end

theorem map_declarationsIn (fs : List Function) (next : ScopeIndex) :
    (declarationsIn next fs).map Entry.symbol = fs.flatMap Function.locals := by
  induction fs generalizing next with
  | nil => rfl
  | cons f rest ih =>
    simp [declarationsIn, Function.declarations, Function.locals, Function.nodes,
      map_declarationsOf, ih]

/-- Without their scopes, the declarations of a program are its functions and then the parameters
and variables of each in order. -/
theorem Program.map_declarations (p : Program) :
    p.declarations.map Entry.symbol = p.symbols := by
  simp [Program.declarations, Program.symbols, map_declarationsIn]

end Source

/-! ## The survey of a program -/

namespace Survey

@[simp] theorem entered_expr (e : Source.Expr) : e.script.filterMap Step.entered? = [] := by
  simp [Source.Expr.script, List.filterMap_map, Function.comp_def, Step.entered?]

@[simp] theorem entered_option (e : Option Source.Expr) :
    (Source.optionScript e).filterMap Step.entered? = [] := by
  cases e with
  | none => rfl
  | some e => exact entered_expr e

@[simp] theorem entered_varDecl (d : Source.VarDecl) : d.script.filterMap Step.entered? = [] := by
  simp [Source.VarDecl.script, Step.entered?]

@[simp] theorem entered_forInit (init : Option Source.ForInit) :
    (Source.ForInit.script init).filterMap Step.entered? = [] := by
  match init with
  | none => rfl
  | some (.decl d) => exact entered_varDecl d
  | some (.expr e) => exact entered_expr e

mutual

/-- A statement enters the scopes that it owns. -/
theorem entered_stmt (s : Source.Stmt) : s.script.filterMap Step.entered? = s.owners := by
  cases s with
  | decl d =>
    rw [Source.Stmt.script, entered_varDecl]
    exact (Source.owners_optionNodes d.init).symm
  | expr e | ret e =>
    rw [Source.Stmt.script, entered_expr]
    exact e.owners_nodes.symm
  | empty | brk | cont => rfl
  | block body id span =>
    simp [Source.Stmt.script, Step.entered?, List.filterMap_cons, entered_stmts body]
  | ite test ifTrue ifFalse span =>
    simp [Source.Stmt.script, entered_stmt ifTrue, entered_stmt ifFalse]
  | whileDo test body span | doWhile body test span =>
    simp [Source.Stmt.script, entered_stmt body]
  | forLoop init test step body id span =>
    simp [Source.Stmt.script, Step.entered?, List.filterMap_cons, entered_stmt body]

theorem entered_stmts (ss : List Source.Stmt) :
    (Source.scriptOf ss).filterMap Step.entered? = Source.ownersOf ss := by
  cases ss with
  | nil => rfl
  | cons s rest =>
    simp [Source.scriptOf, entered_stmt s, entered_stmts rest]

end

theorem entered_declares (symbol : α → Symbol) (as : List α) :
    (as.map fun a => Step.declare (symbol a)).filterMap Step.entered? = [] := by
  simp [List.filterMap_map, Function.comp_def, Step.entered?]

theorem entered_function (f : Source.Function) :
    f.script.filterMap Step.entered? = f.owners := by
  rw [f.owners_eq]
  simp [Source.Function.script, Step.entered?, List.filterMap_cons, entered_stmts]

theorem owners_run_function (w : Survey) (f : Source.Function) :
    (w.run f.script).owners = w.owners ++ f.owners := by
  rw [owners_run, entered_function]

/-- The scopes of a survey are the ones that the program owns. -/
theorem owners_ofProgram (p : Source.Program) : (ofProgram p).owners = p.owners := by
  rw [ofProgram, owners_run, Source.Program.script, List.filterMap_append, Source.Program.header,
    entered_declares, Source.Program.main, List.filterMap_flatMap]
  simp only [entered_function]
  rfl

theorem entries_forInit (w : Survey) (init : Option Source.ForInit) :
    (w.run (Source.ForInit.script init)).entries =
      w.entries ++ Source.ForInit.declarations (w.path.headD 0) init := by
  match init with
  | none => exact (List.append_nil _).symm
  | some (.decl d) =>
    unfold Source.ForInit.script
    rw [run_varDecl]
    rfl
  | some (.expr e) => simp [Source.ForInit.script, Source.ForInit.declarations]

theorem owners_run_forInit (w : Survey) (init : Option Source.ForInit) :
    (w.run (Source.ForInit.script init)).owners = w.owners := by
  rw [owners_run, entered_forInit, List.append_nil]

mutual

/-- A statement adds its declarations. -/
theorem entries_stmt (w : Survey) (s : Source.Stmt) :
    (w.run s.script).entries =
      w.entries ++ s.declarations (w.path.headD 0) w.owners.length := by
  cases s with
  | decl d =>
    unfold Source.Stmt.script
    rw [run_varDecl]
    rfl
  | expr e | ret e => simp [Source.Stmt.script, Source.Stmt.declarations]
  | empty | brk | cont => simp [Source.Stmt.script, Source.Stmt.declarations]
  | block body id span =>
    have inner := entries_stmts (w.step (.enter id .block)) body
    rw [step, List.length_append, List.length_singleton] at inner
    unfold Source.Stmt.script
    rw [List.cons_append, run_cons, run_append]
    exact inner
  | ite test ifTrue ifFalse span =>
    unfold Source.Stmt.script
    rw [run_append, run_append, run_expr, entries_stmt _ ifFalse, entries_stmt w ifTrue,
      path_run_stmt, owners_run, entered_stmt, List.length_append, List.append_assoc]
    rfl
  | whileDo test body span | doWhile body test span =>
    unfold Source.Stmt.script
    rw [run_append, run_expr]
    exact entries_stmt w body
  | forLoop init test step body id span =>
    have inner := entries_stmt ((w.step (.enter id .block)).run (Source.ForInit.script init)) body
    rw [path_forInit, owners_run_forInit, entries_forInit, List.append_assoc, Survey.step,
      List.length_append, List.length_singleton] at inner
    unfold Source.Stmt.script
    simp only [List.cons_append, run_cons, run_append, run_option]
    exact inner

theorem entries_stmts (w : Survey) (ss : List Source.Stmt) :
    (w.run (Source.scriptOf ss)).entries =
      w.entries ++ Source.declarationsOf (w.path.headD 0) w.owners.length ss := by
  cases ss with
  | nil => exact (List.append_nil _).symm
  | cons s rest =>
    unfold Source.scriptOf
    rw [run_append, entries_stmts _ rest, entries_stmt w s, path_run_stmt, owners_run, entered_stmt,
      List.length_append, List.append_assoc]
    rfl

end

theorem entries_function (w : Survey) (f : Source.Function) :
    (w.run f.script).entries = w.entries ++ f.declarations w.owners.length := by
  have inner := entries_stmts ((w.step (.enter f.body.id .function)).run
    (f.params.map fun q => .declare q.symbol)) f.body.stmts
  rw [path_run_declares, entries_run_declares, owners_run, entered_declares, List.append_nil, step,
    List.length_append, List.length_singleton, List.append_assoc] at inner
  unfold Source.Function.script
  rw [List.cons_append, run_cons, run_append, run_append]
  exact inner

theorem entries_functions (w : Survey) (fs : List Source.Function) :
    (w.run (fs.flatMap Source.Function.script)).entries =
      w.entries ++ Source.declarationsIn w.owners.length fs := by
  induction fs generalizing w with
  | nil => exact (List.append_nil _).symm
  | cons f rest ih =>
    rw [List.flatMap_cons, run_append, ih, entries_function, owners_run_function,
      List.length_append, List.append_assoc]
    rfl

/-- The entries of a survey are the declarations of the program. -/
theorem entries_ofProgram (p : Source.Program) : (ofProgram p).entries = p.declarations := by
  rw [ofProgram, Source.Program.script, run_append, Source.Program.main, entries_functions,
    Source.Program.header, entries_run_declares, owners_run, entered_declares]
  rfl

end Survey
end MiddleEnd
