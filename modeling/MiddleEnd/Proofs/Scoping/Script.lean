import MiddleEnd.Scope.Table
import Mathlib.Data.List.Nodup

/-!
# The script of a program

A program read as a list of steps, in the order in which a builder makes its nodes: a scope is
entered or left, a symbol is declared, a name is used. An initializer is used up before its variable
is declared, the body of a `do` comes before its test, the clauses of a `for` come before its body.
The global scope is open from start to end, and all functions are declared in it before any body.

A `Survey` numbers what a script enters and declares. Scopes and symbols get the numbers that the
first pass gives them.

Results:
1. `Survey.path_run_stmt`: a statement leaves the open scopes as it found them.
2. `Survey.Sound.run`: only scopes that were entered are open, and each once.
3. `firstIn_append_eq_some`: the first declaration of a name in a scope, seen from the middle of a
   script.
-/

namespace MiddleEnd

/-- A step of a script. -/
inductive Step
  | enter (id : NodeId) (kind : ScopeKind)
  | leave
  | declare (symbol : Symbol)
  | use (ref : Source.Ref)

namespace Step

/-- The scope that a step enters. -/
def entered? : Step → Option (NodeId × ScopeKind)
  | enter id kind => some (id, kind)
  | _ => none

/-- Where a step stands that declares or uses a name. -/
def offset? : Step → Option Nat
  | declare s => some s.pos.offset
  | use r => some r.span.start.offset
  | _ => none

end Step

namespace Source

/-! ## Scripts -/

/-- The names that an expression uses. An assigned value comes before the name it goes to. -/
def Expr.uses : Expr → List Ref
  | .const .. => []
  | .var r _ => [r]
  | .unary _ operand _ => operand.uses
  | .binary _ left right _ => left.uses ++ right.uses
  | .assign target value _ => value.uses ++ [target]
  | .cond test ifTrue ifFalse _ => test.uses ++ ifTrue.uses ++ ifFalse.uses

/-- The script of an expression. -/
def Expr.script (e : Expr) : List Step := e.uses.map .use

/-- The script of an expression that may be absent. -/
def optionScript : Option Expr → List Step
  | none => []
  | some e => e.script

/-- The symbol that a declaration makes. -/
def VarDecl.symbol (d : VarDecl) : Symbol :=
  .var ⟨d.name, d.ty, d.span.start, false, none, none, none⟩

/-- The symbol that a parameter makes. -/
def Param.symbol (p : Param) : Symbol := .var ⟨p.name, p.ty, p.span.start, true, none, none, none⟩

/-- The symbol that a function makes. -/
def Function.symbol (f : Function) : Symbol :=
  .fn ⟨f.name, f.returnTy, [], f.body.id, f.span.start, 0, none⟩

/-- The script of a declaration. -/
def VarDecl.script (d : VarDecl) : List Step := optionScript d.init ++ [.declare d.symbol]

/-- The script of the first clause of a `for`. -/
def ForInit.script : Option ForInit → List Step
  | none => []
  | some (.decl d) => d.script
  | some (.expr e) => e.script

mutual

/-- The script of a statement. -/
def Stmt.script : Stmt → List Step
  | .decl d => d.script
  | .expr e _ | .ret e _ => e.script
  | .empty _ | .brk _ | .cont _ => []
  | .block body id _ => .enter id .block :: scriptOf body ++ [.leave]
  | .ite test ifTrue ifFalse _ => test.script ++ ifTrue.script ++ ifFalse.script
  | .whileDo test body _ => test.script ++ body.script
  | .doWhile body test _ => body.script ++ test.script
  | .forLoop init test step body id _ =>
    .enter id .block ::
      (ForInit.script init ++ optionScript test ++ optionScript step ++ body.script) ++ [.leave]

/-- The script of statements. -/
def scriptOf : List Stmt → List Step
  | [] => []
  | s :: rest => s.script ++ scriptOf rest

end

/-- The script of a function, without the declaration of its name. -/
def Function.script (f : Function) : List Step :=
  .enter f.body.id .function ::
    (f.params.map (fun p => .declare p.symbol) ++ scriptOf f.body.stmts) ++ [.leave]

/-- The declarations of all functions. -/
def Program.header (p : Program) : List Step := p.functions.map fun f => .declare f.symbol

/-- The script of everything inside the functions. -/
def Program.main (p : Program) : List Step := p.functions.flatMap Function.script

/-- The script of a program. -/
def Program.script (p : Program) : List Step := p.header ++ p.main

end Source

/-! ## Surveys -/

/-- A symbol and the scope that declares it. -/
structure Entry where
  scope : ScopeIndex
  symbol : Symbol

/-- What a script entered and declared, in order, and the scopes that are open. -/
structure Survey where
  path : List ScopeIndex
  owners : List (NodeId × ScopeKind)
  entries : List Entry

namespace Survey

/-- The global scope of a program, open and empty. -/
def start (id : NodeId) : Survey := ⟨[0], [(id, .global)], []⟩

/-- One step more. -/
def step (w : Survey) : Step → Survey
  | .enter id kind =>
    { w with path := w.owners.length :: w.path, owners := w.owners ++ [(id, kind)] }
  | .leave => { w with path := w.path.tail }
  | .declare s => { w with entries := w.entries ++ [⟨w.path.headD 0, s⟩] }
  | .use _ => w

/-- Some steps more. -/
def run (w : Survey) (steps : List Step) : Survey := steps.foldl step w

@[simp] theorem run_nil (w : Survey) : w.run [] = w := rfl

@[simp] theorem run_cons (w : Survey) (s : Step) (steps : List Step) :
    w.run (s :: steps) = (w.step s).run steps := rfl

@[simp] theorem run_append (w : Survey) (steps steps' : List Step) :
    w.run (steps ++ steps') = (w.run steps).run steps' := List.foldl_append ..

/-- Uses leave no trace. -/
@[simp] theorem run_uses (w : Survey) (refs : List Source.Ref) : w.run (refs.map .use) = w := by
  induction refs with
  | nil => rfl
  | cons r rest ih => exact ih

@[simp] theorem run_expr (w : Survey) (e : Source.Expr) : w.run e.script = w := run_uses w e.uses

@[simp] theorem run_option (w : Survey) (e : Option Source.Expr) :
    w.run (Source.optionScript e) = w := by
  cases e with
  | none => rfl
  | some e => exact run_expr w e

@[simp] theorem run_varDecl (w : Survey) (d : Source.VarDecl) :
    w.run d.script = w.step (.declare d.symbol) := by
  simp [Source.VarDecl.script]

/-- The survey of a whole program. -/
def ofProgram (p : Source.Program) : Survey := (start p.id).run p.script

/-! ### Open scopes -/

@[simp] theorem path_forInit (w : Survey) (init : Option Source.ForInit) :
    (w.run (Source.ForInit.script init)).path = w.path := by
  match init with
  | none => rfl
  | some (.decl d) =>
    unfold Source.ForInit.script
    rw [run_varDecl]
    rfl
  | some (.expr e) => rw [Source.ForInit.script, run_expr]

mutual

/-- A statement leaves the open scopes as it found them. -/
@[simp] theorem path_run_stmt (w : Survey) (s : Source.Stmt) : (w.run s.script).path = w.path := by
  cases s with
  | decl d =>
    unfold Source.Stmt.script
    rw [run_varDecl]
    rfl
  | expr e | ret e => rw [Source.Stmt.script, run_expr]
  | empty | brk | cont => rfl
  | block body id span => simp [Source.Stmt.script, step, path_run_stmts]
  | ite test ifTrue ifFalse span => simp [Source.Stmt.script, path_run_stmt]
  | whileDo test body span => simp [Source.Stmt.script, path_run_stmt]
  | doWhile body test span => simp [Source.Stmt.script, path_run_stmt]
  | forLoop init test step body id span => simp [Source.Stmt.script, Survey.step, path_run_stmt]

@[simp] theorem path_run_stmts (w : Survey) (ss : List Source.Stmt) :
    (w.run (Source.scriptOf ss)).path = w.path := by
  cases ss with
  | nil => rfl
  | cons s rest => simp [Source.scriptOf, path_run_stmt w s, path_run_stmts _ rest]

end

@[simp] theorem path_run_declares (w : Survey) (symbol : α → Symbol) (as : List α) :
    (w.run (as.map fun a => .declare (symbol a))).path = w.path := by
  induction as generalizing w with
  | nil => rfl
  | cons a rest ih => exact ih _

@[simp] theorem path_run_function (w : Survey) (f : Source.Function) :
    (w.run f.script).path = w.path := by
  unfold Source.Function.script
  rw [List.cons_append, run_cons, run_append, run_append]
  show ((_ : Survey).path).tail = w.path
  rw [path_run_stmts, path_run_declares]
  rfl

@[simp] theorem path_run_functions (w : Survey) (fs : List Source.Function) :
    (w.run (fs.flatMap Source.Function.script)).path = w.path := by
  induction fs generalizing w with
  | nil => rfl
  | cons f rest ih => rw [List.flatMap_cons, run_append, ih, path_run_function]

theorem entries_run_declares (w : Survey) (symbol : α → Symbol) (as : List α) :
    (w.run (as.map fun a => .declare (symbol a))).entries =
      w.entries ++ as.map fun a => ⟨w.path.headD 0, symbol a⟩ := by
  induction as generalizing w with
  | nil => simp
  | cons a rest ih =>
    rw [List.map_cons, run_cons, ih (w.step _), step, List.append_assoc]
    rfl

/-- What a survey found was there before or is declared by a step. -/
theorem declare_of_mem {w : Survey} {steps : List Step} {e : Entry}
    (mem : e ∈ (w.run steps).entries) : e ∈ w.entries ∨ .declare e.symbol ∈ steps := by
  induction steps generalizing w with
  | nil => exact .inl mem
  | cons s rest ih =>
    rcases ih mem with here | later
    · cases s with
      | declare s =>
        rcases List.mem_append.1 here with old | new
        · exact .inl old
        · cases List.mem_singleton.1 new
          exact .inr List.mem_cons_self
      | enter | leave | use => exact .inl here
    · exact .inr (List.mem_cons_of_mem _ later)

/-! ### Every step of a script -/

/-- Every step of a script satisfies `P` where it stands. -/
def All (P : Survey → Step → Prop) : Survey → List Step → Prop
  | _, [] => True
  | w, s :: rest => P w s ∧ All P (w.step s) rest

theorem all_append {P : Survey → Step → Prop} {w : Survey} {steps steps' : List Step} :
    w.All P (steps ++ steps') ↔ w.All P steps ∧ (w.run steps).All P steps' := by
  induction steps generalizing w with
  | nil => simp [All]
  | cons s rest ih => simp [All, ih, and_assoc]

theorem all_uses {P : Survey → Step → Prop} {w : Survey} {refs : List Source.Ref} :
    w.All P (refs.map .use) ↔ ∀ r ∈ refs, P w (.use r) := by
  induction refs with
  | nil => simp [All]
  | cons r rest ih =>
    rw [List.forall_mem_cons]
    exact and_congr_right fun _ => ih

theorem all_scope {P : Survey → Step → Prop} {w : Survey} {id : NodeId} {kind : ScopeKind}
    {steps : List Step} (all : w.All P (.enter id kind :: steps ++ [.leave])) :
    P w (.enter id kind) ∧ (w.step (.enter id kind)).All P steps :=
  ⟨all.1, (all_append.1 all.2).1⟩

/-- Every step where the script is cut before it. -/
theorem all_iff {P : Survey → Step → Prop} {w : Survey} {steps : List Step} :
    w.All P steps ↔ ∀ pre s post, steps = pre ++ s :: post → P (w.run pre) s := by
  constructor
  · rintro all pre s post rfl
    exact (all_append.1 all).2.1
  · intro each
    induction steps generalizing w with
    | nil => trivial
    | cons s rest ih =>
      refine ⟨each [] s rest rfl, ih ?_⟩
      intro pre s' post split
      exact each (s :: pre) s' post (by rw [split, List.cons_append])

theorem All.mono {P Q : Survey → Step → Prop} (h : ∀ w s, P w s → Q w s) {w : Survey}
    {steps : List Step} (all : w.All P steps) : w.All Q steps :=
  all_iff.2 fun pre s post split => h _ _ (all_iff.1 all pre s post split)

/-- A variable that lives nowhere yet. -/
def Unplaced (s : Symbol) : Prop := ∃ v : VariableInfo, s = .var v ∧ v.temp = none

/-- A step that stands inside a function: it declares nothing but variables, none of them globally,
and enters no second global scope. -/
def Inside (w : Survey) : Step → Prop
  | .declare s => w.path.headD 0 ≠ 0 ∧ Unplaced s
  | .enter _ kind => kind ≠ .global
  | .leave | .use _ => True

theorem inside_uses (w : Survey) (refs : List Source.Ref) : w.All Inside (refs.map .use) := by
  induction refs with
  | nil => trivial
  | cons r rest ih => exact ⟨trivial, ih⟩

theorem inside_option (w : Survey) (e : Option Source.Expr) :
    w.All Inside (Source.optionScript e) := by
  cases e with
  | none => trivial
  | some e => exact inside_uses w e.uses

theorem inside_varDecl {w : Survey} (inner : w.path.headD 0 ≠ 0) (d : Source.VarDecl) :
    w.All Inside d.script := by
  refine all_append.2 ⟨inside_option w d.init, ?_, trivial⟩
  rw [run_option]
  exact ⟨inner, _, rfl, rfl⟩

theorem inside_forInit {w : Survey} (inner : w.path.headD 0 ≠ 0) (init : Option Source.ForInit) :
    w.All Inside (Source.ForInit.script init) := by
  match init with
  | none => trivial
  | some (.decl d) => exact inside_varDecl inner d
  | some (.expr e) => exact inside_uses w e.uses

/-- A scope that is entered is not the global one. -/
theorem headD_enter {w : Survey} (nonempty : 0 < w.owners.length) (id : NodeId)
    (kind : ScopeKind) : (w.step (.enter id kind)).path.headD 0 ≠ 0 :=
  Nat.ne_of_gt nonempty

theorem owners_run_pos {w : Survey} (nonempty : 0 < w.owners.length) (steps : List Step) :
    0 < (w.run steps).owners.length := by
  induction steps generalizing w with
  | nil => exact nonempty
  | cons s rest ih =>
    refine ih ?_
    cases s with
    | enter id kind => simp [step]
    | leave | declare | use => exact nonempty

mutual

theorem inside_stmt {w : Survey} (nonempty : 0 < w.owners.length) (inner : w.path.headD 0 ≠ 0)
    (s : Source.Stmt) : w.All Inside s.script := by
  cases s with
  | decl d => exact inside_varDecl inner d
  | expr e | ret e => exact inside_uses w e.uses
  | empty | brk | cont => trivial
  | block body id span =>
    have entered := headD_enter nonempty id .block
    refine ⟨nofun, all_append.2 ⟨inside_stmts ?_ entered body, trivial, trivial⟩⟩
    exact owners_run_pos nonempty [.enter id .block]
  | ite test ifTrue ifFalse span =>
    refine all_append.2 ⟨all_append.2 ⟨inside_uses w test.uses, ?_⟩, ?_⟩
    · rw [run_expr]
      exact inside_stmt nonempty inner ifTrue
    · rw [run_append, run_expr]
      refine inside_stmt (owners_run_pos nonempty _) ?_ ifFalse
      rwa [path_run_stmt]
  | whileDo test body span =>
    refine all_append.2 ⟨inside_uses w test.uses, ?_⟩
    rw [run_expr]
    exact inside_stmt nonempty inner body
  | doWhile body test span =>
    exact all_append.2 ⟨inside_stmt nonempty inner body, inside_uses _ test.uses⟩
  | forLoop init test step body id span =>
    have entered := headD_enter nonempty id .block
    have nonempty := owners_run_pos nonempty [.enter id .block]
    have clauses := all_append.2 ⟨inside_forInit entered init, inside_option _ test⟩
    have clauses := all_append.2 ⟨clauses, inside_option _ step⟩
    refine ⟨nofun, all_append.2 ⟨all_append.2 ⟨clauses, ?_⟩, trivial, trivial⟩⟩
    -- the clauses of the loop leave its scope open for the body
    refine inside_stmt (owners_run_pos nonempty _) ?_ body
    show ((w.step (.enter id .block)).run (Source.ForInit.script init ++
      Source.optionScript test ++ Source.optionScript step)).path.headD 0 ≠ 0
    rw [run_append, run_append, run_option, run_option, path_forInit]
    exact entered

theorem inside_stmts {w : Survey} (nonempty : 0 < w.owners.length) (inner : w.path.headD 0 ≠ 0)
    (ss : List Source.Stmt) : w.All Inside (Source.scriptOf ss) := by
  cases ss with
  | nil => trivial
  | cons s rest =>
    refine all_append.2 ⟨inside_stmt nonempty inner s, ?_⟩
    refine inside_stmts (owners_run_pos nonempty _) ?_ rest
    rwa [path_run_stmt]

end

theorem inside_params {w : Survey} (inner : w.path.headD 0 ≠ 0) (ps : List Source.Param) :
    w.All Inside (ps.map fun p => .declare p.symbol) := by
  induction ps generalizing w with
  | nil => trivial
  | cons p rest ih => exact ⟨⟨inner, _, rfl, rfl⟩, ih inner⟩

theorem inside_function {w : Survey} (nonempty : 0 < w.owners.length) (f : Source.Function) :
    w.All Inside f.script := by
  have entered := headD_enter nonempty f.body.id .function
  have nonempty := owners_run_pos nonempty [.enter f.body.id .function]
  refine ⟨nofun, all_append.2 ⟨all_append.2 ⟨inside_params entered _, ?_⟩, trivial, trivial⟩⟩
  refine inside_stmts (owners_run_pos nonempty _) ?_ f.body.stmts
  rwa [path_run_declares]

/-- Everything but the declarations of the functions stands inside a function. -/
theorem inside_functions {w : Survey} (nonempty : 0 < w.owners.length)
    (fs : List Source.Function) : w.All Inside (fs.flatMap Source.Function.script) := by
  induction fs generalizing w with
  | nil => trivial
  | cons f rest ih =>
    exact all_append.2 ⟨inside_function nonempty f, ih (owners_run_pos nonempty _)⟩

/-! ### What was entered and declared -/

theorem owners_run (w : Survey) (steps : List Step) :
    (w.run steps).owners = w.owners ++ steps.filterMap Step.entered? := by
  induction steps generalizing w with
  | nil => simp
  | cons s rest ih => cases s <;> simp [ih, step, Step.entered?, List.filterMap_cons]

/-- A run adds entries at the end, one for each symbol that it declares. -/
theorem entries_run (w : Survey) (steps : List Step) :
    ∃ later, (w.run steps).entries = w.entries ++ later ∧
      ∀ e ∈ later, .declare e.symbol ∈ steps := by
  induction steps generalizing w with
  | nil => exact ⟨[], by simp⟩
  | cons s rest ih =>
    obtain ⟨later, eq, declared⟩ := ih (w.step s)
    have inRest : ∀ e ∈ later, .declare e.symbol ∈ s :: rest := fun e mem =>
      List.mem_cons_of_mem s (declared e mem)
    cases s with
    | declare symbol =>
      refine ⟨⟨w.path.headD 0, symbol⟩ :: later, ?_, List.forall_mem_cons.2 ⟨?_, inRest⟩⟩
      · rw [run_cons, eq, step, List.append_assoc, List.singleton_append]
      · exact List.mem_cons_self
    | enter | leave | use => exact ⟨later, eq, inRest⟩

/-- Inside functions only variables are declared, and not globally. -/
theorem local_of_inside {w : Survey} {steps : List Step} (inside : w.All Inside steps)
    {later : List Entry} (eq : (w.run steps).entries = w.entries ++ later) :
    ∀ e ∈ later, e.scope ≠ 0 ∧ Unplaced e.symbol := by
  induction steps generalizing w later with
  | nil =>
    obtain rfl : [] = later := by simpa using eq
    exact fun e mem => absurd mem List.not_mem_nil
  | cons s rest ih =>
    obtain ⟨here, inside⟩ := inside
    cases s with
    | declare symbol =>
      obtain ⟨others, eq', -⟩ := entries_run (w.step (.declare symbol)) rest
      have split : w.entries ++ later = w.entries ++ ⟨w.path.headD 0, symbol⟩ :: others := by
        rw [← eq, run_cons, eq', step, List.append_assoc, List.singleton_append]
      rw [List.append_cancel_left split]
      exact List.forall_mem_cons.2 ⟨here, ih inside eq'⟩
    | enter | leave | use => exact ih inside eq

/-- Inside functions no second global scope is entered. -/
theorem kind_ne_global {w : Survey} {steps : List Step} (inside : w.All Inside steps) :
    ∀ o ∈ steps.filterMap Step.entered?, o.2 ≠ .global := by
  induction steps generalizing w with
  | nil => exact fun o mem => absurd mem List.not_mem_nil
  | cons s rest ih =>
    obtain ⟨here, inside⟩ := inside
    cases s with
    | enter id kind => exact List.forall_mem_cons.2 ⟨here, ih inside⟩
    | declare | leave | use => exact ih inside

/-- A scope that is open after a run was open before or was entered in it. -/
theorem mem_path_run {w : Survey} {steps : List Step} {i : ScopeIndex}
    (mem : i ∈ (w.run steps).path) : i ∈ w.path ∨ w.owners.length ≤ i := by
  induction steps generalizing w with
  | nil => exact .inl mem
  | cons s rest ih =>
    have others := ih mem
    cases s with
    | enter id kind =>
      simp only [step, List.mem_cons, List.length_append, List.length_singleton] at others
      rcases others with (rfl | opened) | later
      · exact .inr (Nat.le_refl _)
      · exact .inl opened
      · exact .inr (Nat.le_of_succ_le later)
    | leave => exact others.imp_left List.mem_of_mem_tail
    | declare | use => exact others

/-- Only scopes that were entered are open or declare anything, and none is open twice. -/
structure Sound (w : Survey) : Prop where
  nonempty : 0 < w.owners.length
  nodup : w.path.Nodup
  open_lt : ∀ i ∈ w.path, i < w.owners.length
  entry_lt : ∀ e ∈ w.entries, e.scope < w.owners.length

theorem Sound.start (id : NodeId) : (start id).Sound :=
  ⟨Nat.one_pos, List.nodup_singleton 0, by simp [Survey.start], by simp [Survey.start]⟩

theorem Sound.step {w : Survey} (h : w.Sound) (s : Step) : (w.step s).Sound := by
  obtain ⟨nonempty, nodup, open_lt, entry_lt⟩ := h
  cases s with
  | enter id kind =>
    have fresh : w.owners.length ∉ w.path := fun mem => Nat.lt_irrefl _ (open_lt _ mem)
    refine ⟨by simp [Survey.step], List.nodup_cons.2 ⟨fresh, nodup⟩, ?_, ?_⟩
    · intro i mem
      rw [Survey.step, List.length_append, List.length_singleton]
      rcases List.mem_cons.1 mem with rfl | mem
      · exact Nat.lt_succ_self _
      · exact Nat.lt_succ_of_lt (open_lt i mem)
    · intro e mem
      rw [Survey.step, List.length_append, List.length_singleton]
      exact Nat.lt_succ_of_lt (entry_lt e mem)
  | leave =>
    refine ⟨nonempty, nodup.tail, ?_, entry_lt⟩
    intro i mem
    exact open_lt i (List.mem_of_mem_tail mem)
  | declare symbol =>
    refine ⟨nonempty, nodup, open_lt, ?_⟩
    intro e mem
    rcases List.mem_append.1 mem with mem | mem
    · exact entry_lt e mem
    · rw [List.mem_singleton.1 mem]
      cases path : w.path with
      | nil => exact nonempty
      | cons i rest => exact open_lt i (path ▸ List.mem_cons_self ..)
  | use r => exact ⟨nonempty, nodup, open_lt, entry_lt⟩

/-- Only scopes that were entered are open, and each once. -/
theorem Sound.run {w : Survey} (h : w.Sound) (steps : List Step) : (w.run steps).Sound := by
  induction steps generalizing w with
  | nil => exact h
  | cons s rest ih => exact ih (h.step s)

end Survey

/-! ## The first declaration of a name -/

/-- The first entry under a name in a scope. -/
def firstIn (entries : List Entry) (scope : ScopeIndex) (name : String) : Option SymbolId :=
  entries.findIdx? fun e => e.scope == scope && e.symbol.name == name

theorem firstIn_concat (entries : List Entry) (e : Entry) (scope : ScopeIndex) (name : String) :
    firstIn (entries ++ [e]) scope name =
      (firstIn entries scope name).or
        (if e.scope = scope ∧ e.symbol.name = name then some entries.length else none) := by
  unfold firstIn
  rw [List.findIdx?_append]
  by_cases same : e.scope = scope ∧ e.symbol.name = name
  · simp [same]
  · have differs : (e.scope == scope && e.symbol.name == name) = false := by simpa using same
    simp [List.findIdx?_cons, differs, same]

theorem firstIn_eq_some {entries : List Entry} {scope : ScopeIndex} {name : String} {id : SymbolId}
    (h : firstIn entries scope name = some id) :
    ∃ e, entries[id]? = some e ∧ e.scope = scope ∧ e.symbol.name = name := by
  obtain ⟨inside, passes, -⟩ := List.findIdx?_eq_some_iff_getElem.1 h
  exact ⟨entries[id], List.getElem?_eq_getElem inside, by simpa using passes⟩

theorem firstIn_eq_none {entries : List Entry} {scope : ScopeIndex} {name : String} :
    firstIn entries scope name = none ↔
      ∀ e ∈ entries, e.scope = scope → e.symbol.name ≠ name := by
  simp [firstIn, List.findIdx?_eq_none_iff]

/-- What was declared first in the whole script was declared first up to the middle of it, if it was
declared by then. -/
theorem firstIn_append_eq_some {earlier later : List Entry} {scope : ScopeIndex} {name : String}
    {id : SymbolId} (h : firstIn (earlier ++ later) scope name = some id) :
    firstIn earlier scope name = if id < earlier.length then some id else none := by
  unfold firstIn at h ⊢
  rw [List.findIdx?_append] at h
  cases found : earlier.findIdx? fun e => e.scope == scope && e.symbol.name == name with
  | some i =>
    rw [found] at h
    obtain rfl : i = id := by simpa using h
    rw [if_pos (List.findIdx?_eq_some_iff_getElem.1 found).1]
  | none =>
    rw [found] at h
    obtain ⟨i, -, rfl⟩ : ∃ i, _ ∧ i + earlier.length = id := by simpa using h
    rw [if_neg (Nat.not_lt.2 (Nat.le_add_left _ i))]

theorem firstIn_append_of_eq_some {earlier : List Entry} {scope : ScopeIndex} {name : String}
    {id : SymbolId} (h : firstIn earlier scope name = some id) (later : List Entry) :
    firstIn (earlier ++ later) scope name = some id := by
  unfold firstIn at h ⊢
  rw [List.findIdx?_append, h, Option.some_or]

theorem firstIn_append_eq_none {earlier later : List Entry} {scope : ScopeIndex} {name : String}
    (h : firstIn (earlier ++ later) scope name = none) : firstIn earlier scope name = none :=
  firstIn_eq_none.2 fun e mem => firstIn_eq_none.1 h e (List.mem_append_left _ mem)

end MiddleEnd
