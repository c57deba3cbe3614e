import MiddleEnd.Scope.Declare
import MiddleEnd.Proofs.Scoping.Script

/-!
# What the first pass declares

The first pass does what the script of the program says, and a survey of the script tells its
result: one scope for each that is entered, one symbol for each that is declared, each name of a
scope standing for its first declaration there, and a report on every later one.

Results:
1. `Survey.Describes.enter`, `Survey.Describes.declare`: the two steps of the pass.
2. `declared_describes`: the table and the reports of a program.
3. `firstIn_of_clashes_eq_nil`: without reports every declaration is the first of its name.
-/

namespace MiddleEnd

/-- A symbol without the parameters that are recorded after it was declared. -/
def Symbol.bare : Symbol → Symbol
  | .var v => .var v
  | .fn f => .fn { f with params := [] }

@[simp] theorem Symbol.bare_pos (s : Symbol) : s.bare.pos = s.pos := by cases s <;> rfl

/-- The report on an entry whose name was taken. -/
def Entry.clash (e : Entry) : Error :=
  Declare.redeclared e.symbol ⟨.variableAlreadyDeclared e.symbol.name, e.symbol.pos⟩

/-- The reports on entries whose name was taken, after the entries `seen`. -/
def clashesAfter (seen : List Entry) : List Entry → Log
  | [] => []
  | e :: rest =>
    (if (firstIn seen e.scope e.symbol.name).isSome then [e.clash] else []) ++
      clashesAfter (seen ++ [e]) rest

/-- The reports on a list of entries. -/
def clashes (entries : List Entry) : Log := clashesAfter [] entries

theorem clashesAfter_append (seen entries later : List Entry) :
    clashesAfter seen (entries ++ later) =
      clashesAfter seen entries ++ clashesAfter (seen ++ entries) later := by
  induction entries generalizing seen with
  | nil => simp [clashesAfter]
  | cons e rest ih => simp [clashesAfter, ih, List.append_assoc]

theorem clashes_concat (entries : List Entry) (e : Entry) :
    clashes (entries ++ [e]) = clashes entries ++
      if (firstIn entries e.scope e.symbol.name).isSome then [e.clash] else [] := by
  simp [clashes, clashesAfter_append, clashesAfter]

/-- Without reports every entry is the first under its name. -/
theorem firstIn_of_clashes_eq_nil {earlier later : List Entry} {e : Entry}
    (clean : clashes (earlier ++ e :: later) = []) :
    firstIn (earlier ++ e :: later) e.scope e.symbol.name = some earlier.length := by
  have fresh : firstIn earlier e.scope e.symbol.name = none := by
    rw [clashes, clashesAfter_append, List.append_eq_nil_iff] at clean
    have unreported := (List.append_eq_nil_iff.1 clean.2).1
    by_contra taken
    rw [List.nil_append, if_pos (Option.isSome_iff_ne_none.2 taken)] at unreported
    cases unreported
  rw [List.append_cons]
  refine firstIn_append_of_eq_some ?_ later
  rw [firstIn_concat, fresh, if_pos ⟨rfl, rfl⟩, Option.none_or]

namespace Survey

/-- A survey tells what the first pass has built. -/
structure Describes (w : Survey) (d : Declarations) : Prop where
  symbols : d.table.symbols.map Symbol.bare = w.entries.map Entry.symbol
  owners : d.table.scopes.map (fun s => (s.id, s.kind)) = w.owners
  names : ∀ i s, d.table.scopes[i]? = some s → ∀ name, s.find? name = firstIn w.entries i name
  log : d.log = clashes w.entries

variable {w : Survey} {d : Declarations}

theorem Describes.scopes_length (h : w.Describes d) : d.table.scopes.length = w.owners.length := by
  rw [← h.owners, List.length_map]

theorem Describes.symbols_length (h : w.Describes d) :
    d.table.symbols.length = w.entries.length := by
  simpa using congrArg List.length h.symbols

theorem Describes.start (id : NodeId) :
    (start id).Describes (Declare.openScope id .global {}).2 := by
  refine ⟨rfl, rfl, ?_, rfl⟩
  intro i s here name
  match i, here with
  | 0, here =>
    cases here
    rfl

/-- Entering a scope. -/
theorem Describes.enter (h : w.Describes d) (sound : w.Sound) (id : NodeId) (kind : ScopeKind) :
    (Declare.openScope id kind d).1 = w.owners.length ∧
      (w.step (.enter id kind)).Describes (Declare.openScope id kind d).2 := by
  refine ⟨h.scopes_length, h.symbols, ?_, ?_, h.log⟩
  · simp [Declare.openScope, SymbolTable.addScope, h.owners, step]
  · intro i s here name
    simp only [Declare.openScope, SymbolTable.addScope] at here
    rcases Nat.lt_or_ge i d.table.scopes.length with inside | outside
    · rw [List.getElem?_append_left inside] at here
      exact h.names i s here name
    · -- nothing was declared in a scope that was not there
      rw [List.getElem?_append_right outside, List.getElem?_singleton] at here
      split at here
      · next zero =>
        cases here
        refine (firstIn_eq_none.2 ?_).symm
        intro e mem same
        have below := sound.entry_lt e mem
        rw [same, ← h.scopes_length] at below
        exact absurd below (Nat.not_lt.2 outside)
      · cases here

/-- Declaring a symbol. The answer is its number if its name was free. -/
theorem Describes.declare (h : w.Describes d) (sound : w.Sound) {scope : ScopeIndex}
    (here : w.path.headD 0 = scope) {s : Symbol} (bare : s.bare = s) :
    (Declare.symbol scope s d).1 =
        (if (firstIn w.entries scope s.name).isSome then none else some w.entries.length) ∧
      (w.step (.declare s)).Describes (Declare.symbol scope s d).2 := by
  have inside : scope < d.table.scopes.length := by
    rw [h.scopes_length, ← here]
    cases path : w.path with
    | nil => exact sound.nonempty
    | cons i rest => exact sound.open_lt i (path ▸ List.mem_cons_self ..)
  have symbols : (d.table.addSymbol s).2.symbols.map Symbol.bare =
      (w.step (.declare s)).entries.map Entry.symbol := by
    simp [SymbolTable.addSymbol, step, h.symbols, bare]
  obtain ⟨found, atScope⟩ : ∃ f, d.table.scopes[scope]? = some f :=
    ⟨_, List.getElem?_eq_getElem inside⟩
  have known := h.names scope found atScope s.name
  have entries : (w.step (.declare s)).entries = w.entries ++ [⟨scope, s⟩] := by
    rw [step, here]
  have log := clashes_concat w.entries ⟨scope, s⟩
  -- the symbol is added to the table even if its name is taken
  cases taken : firstIn w.entries scope s.name with
  | some old =>
    rw [taken] at known log
    have refused : found.declare s.name d.table.symbols.length s.pos =
        .error ⟨.variableAlreadyDeclared s.name, s.pos⟩ := by
      simp [Scope.declare, known]
    simp only [Declare.symbol, SymbolTable.addSymbol, atScope, refused, Option.isSome_some, if_true]
    refine ⟨trivial, symbols, h.owners, ?_, ?_⟩
    · intro i f at_i name
      rw [h.names i f at_i name, entries, firstIn_concat]
      split
      · next same =>
        obtain ⟨rfl, rfl⟩ := same
        rw [taken, Option.some_or]
      · rw [Option.or_none]
    · rw [entries, log, ← h.log]
      rfl
  | none =>
    rw [taken] at known log
    obtain ⟨extended, accepted⟩ : ∃ f,
        found.declare s.name d.table.symbols.length s.pos = .ok f :=
      ⟨_, Scope.declare_eq_ok_iff.2 ⟨known, rfl⟩⟩
    simp only [Declare.symbol, SymbolTable.addSymbol, atScope, accepted, Option.isSome_none]
    refine ⟨by simp [h.symbols_length], symbols, ?_, ?_, ?_⟩
    · obtain ⟨-, rfl⟩ := Scope.declare_eq_ok_iff.1 accepted
      refine Eq.trans (List.ext_getElem? ?_) h.owners
      intro i
      simp only [SymbolTable.setScope, List.getElem?_map, List.getElem?_set]
      split
      · next same =>
        rw [← same, atScope]
        rfl
      · rfl
    · intro i f at_i name
      simp only [SymbolTable.setScope, List.getElem?_set] at at_i
      rw [entries, firstIn_concat]
      split at at_i
      · next same =>
        subst same
        cases at_i
        rw [Scope.find?_declare accepted, h.names scope found atScope name, h.symbols_length]
        by_cases eq : name = s.name
        · subst eq
          rw [taken, if_pos rfl, if_pos ⟨rfl, rfl⟩, Option.none_or]
        · rw [if_neg eq, if_neg fun both => eq both.2.symm, Option.or_none]
      · next other =>
        rw [if_neg fun both => other both.1, Option.or_none]
        exact h.names i f at_i name
    · rw [entries, log, ← h.log]
      simp

/-! ### The pass -/

/-- Recording parameters of a function changes nothing that a survey tells. -/
theorem Describes.setParams (h : w.Describes d) (fn : Option SymbolId) (ids : List SymbolId) :
    w.Describes (Declare.setParams fn ids d).2 := by
  cases fn with
  | none => exact h
  | some id =>
    refine ⟨?_, h.owners, h.names, h.log⟩
    rw [← h.symbols]
    refine List.ext_getElem? ?_
    intro i
    simp only [Declare.setParams, SymbolTable.modifyFunction, List.getElem?_map,
      List.getElem?_modify]
    split
    · cases d.table.symbols[i]? with
      | none => rfl
      | some s => cases s <;> rfl
    · cases d.table.symbols[i]? <;> rfl

theorem Describes.varDecl (h : w.Describes d) (sound : w.Sound) {scope : ScopeIndex}
    (here : w.path.headD 0 = scope) (v : Source.VarDecl) :
    (w.run v.script).Describes (Declare.varDecl scope v d).2 := by
  rw [run_varDecl]
  exact (h.declare sound here rfl).2

theorem Describes.forInit (h : w.Describes d) (sound : w.Sound) {scope : ScopeIndex}
    (here : w.path.headD 0 = scope) (init : Option Source.ForInit) :
    (w.run (Source.ForInit.script init)).Describes (Declare.forInit scope init d).2 := by
  match init with
  | none => exact h
  | some (.decl v) => exact h.varDecl sound here v
  | some (.expr e) =>
    unfold Source.ForInit.script
    rw [run_expr]
    exact h

mutual

/-- A statement declares what its script says. -/
theorem Describes.stmt {w : Survey} {d : Declarations} (h : w.Describes d) (sound : w.Sound)
    {scope : ScopeIndex} (here : w.path.headD 0 = scope) (s : Source.Stmt) :
    (w.run s.script).Describes (Declare.stmt scope s d).2 := by
  cases s with
  | decl v => exact h.varDecl sound here v
  | expr e | ret e =>
    unfold Source.Stmt.script
    rw [run_expr]
    exact h
  | empty | brk | cont => exact h
  | block body id span =>
    obtain ⟨index, entered⟩ := h.enter sound id .block
    have inner := entered.stmts (sound.step _) index.symm body
    unfold Source.Stmt.script
    rw [List.cons_append, run_cons, run_append]
    exact ⟨inner.symbols, inner.owners, inner.names, inner.log⟩
  | ite test ifTrue ifFalse span =>
    unfold Source.Stmt.script
    rw [run_append, run_append, run_expr]
    have first := h.stmt sound here ifTrue
    exact first.stmt (sound.run _) (by rw [path_run_stmt, here]) ifFalse
  | whileDo test body span =>
    unfold Source.Stmt.script
    rw [run_append, run_expr]
    exact h.stmt sound here body
  | doWhile body test span =>
    unfold Source.Stmt.script
    rw [run_append, run_expr]
    exact h.stmt sound here body
  | forLoop init test step body id span =>
    obtain ⟨index, entered⟩ := h.enter sound id .block
    have first := entered.forInit (sound.step _) index.symm init
    have inside : ((w.step (.enter id .block)).run (Source.ForInit.script init)).path.headD 0 =
        (Declare.openScope id .block d).1 := by
      rw [path_forInit, index]
      rfl
    have inner := first.stmt ((sound.step _).run _) inside body
    simp only [Source.Stmt.script, List.cons_append, run_cons, run_append, run_option]
    exact ⟨inner.symbols, inner.owners, inner.names, inner.log⟩

theorem Describes.stmts {w : Survey} {d : Declarations} (h : w.Describes d) (sound : w.Sound)
    {scope : ScopeIndex} (here : w.path.headD 0 = scope) (ss : List Source.Stmt) :
    (w.run (Source.scriptOf ss)).Describes (Declare.stmts scope ss d).2 := by
  cases ss with
  | nil => exact h
  | cons s rest =>
    unfold Source.scriptOf
    rw [run_append]
    have first := h.stmt sound here s
    exact first.stmts (sound.run _) (by rw [path_run_stmt, here]) rest

end

theorem Describes.params (h : w.Describes d) (sound : w.Sound) {scope : ScopeIndex}
    (here : w.path.headD 0 = scope) (ps : List Source.Param) :
    (w.run (ps.map fun p => .declare p.symbol)).Describes (Declare.params scope ps d).2 := by
  induction ps generalizing w d with
  | nil => exact h
  | cons p rest ih => exact ih (h.declare sound here rfl).2 (sound.step _) here

/-- The inside of a function is declared as its script says. -/
theorem Describes.body (h : w.Describes d) (sound : w.Sound) (f : Source.Function)
    (fn : Option SymbolId) : (w.run f.script).Describes (Declare.body f fn d).2 := by
  obtain ⟨index, entered⟩ := h.enter sound f.body.id .function
  have params := (entered.params (sound.step _) index.symm f.params).setParams fn
    (Declare.params (Declare.openScope f.body.id .function d).1 f.params
      (Declare.openScope f.body.id .function d).2).1
  have inside : ((w.step (.enter f.body.id .function)).run
      (f.params.map fun p => .declare p.symbol)).path.headD 0 =
        (Declare.openScope f.body.id .function d).1 := by
    rw [path_run_declares, index]
    rfl
  have inner := params.stmts ((sound.step _).run _) inside f.body.stmts
  simp only [Source.Function.script, List.cons_append, run_cons, run_append]
  exact ⟨inner.symbols, inner.owners, inner.names, inner.log⟩

theorem Describes.bodies (h : w.Describes d) (sound : w.Sound) (fs : List Source.Function)
    (fns : List (Option SymbolId)) (paired : fns.length = fs.length) :
    (w.run (fs.flatMap Source.Function.script)).Describes
      ((fs.zip fns).forM (fun (f, fn) => Declare.body f fn) d).2 := by
  induction fs generalizing w d fns with
  | nil => exact h
  | cons f rest ih =>
    cases fns with
    | nil => cases paired
    | cons fn fns =>
      rw [List.flatMap_cons, run_append]
      exact ih (h.body sound f fn) (sound.run _) fns (Nat.succ.inj paired)

theorem Describes.header (h : w.Describes d) (sound : w.Sound) {scope : ScopeIndex}
    (here : w.path.headD 0 = scope) (fs : List Source.Function) :
    (w.run (fs.map fun f => .declare f.symbol)).Describes
      (fs.mapM (Declare.function scope) d).2 ∧
    (fs.mapM (Declare.function scope) d).1.length = fs.length := by
  induction fs generalizing w d with
  | nil => exact ⟨h, rfl⟩
  | cons f rest ih =>
    have first := h.declare sound here (show f.symbol.bare = f.symbol from rfl)
    obtain ⟨described, paired⟩ := ih first.2 (sound.step _) here
    rw [List.mapM_cons]
    exact ⟨described, congrArg Nat.succ paired⟩

end Survey

/-- The survey of a program tells what the first pass makes of it. -/
theorem declared_describes (p : Source.Program) :
    (Survey.ofProgram p).Describes (Declarations.ofProgram p) := by
  have sound := Survey.Sound.start p.id
  obtain ⟨header, paired⟩ :=
    (Survey.Describes.start p.id).header sound (show _ = 0 from rfl) p.functions
  rw [Survey.ofProgram, Source.Program.script, Survey.run_append]
  exact header.bodies (sound.run _) p.functions _ paired

end MiddleEnd
