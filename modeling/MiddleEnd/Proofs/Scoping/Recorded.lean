import MiddleEnd.Proofs.Scoping.Visible
import MiddleEnd.Proofs.Scoping.Owned
import Mathlib.Data.List.Induction

/-!
# What the first pass records

The table of a program read off its tree, for every tree: ids may repeat, positions may be anything,
and names may be declared over and over. A name that a scope owns twice keeps its first declaration.
The others still get a symbol, which nothing names, and a report.

Results:
1. `clashes_eq`: the reports are those on the repeated declarations, in order.
2. `Survey.Describes.params_fst`, `functionAt_bodies`: the parameters that a function records.
3. `Source.Program.Recorded`, `recorded_ofProgram`: the table of a program and its reports.
-/

namespace MiddleEnd

open Survey

/-! ## First and repeated declarations -/

/-- Whether an entry is the first under its name in its scope. -/
def firstOfName (entries : List Entry) (id : SymbolId) : Bool :=
  match entries[id]? with
  | some e => firstIn entries e.scope e.symbol.name == some id
  | none => false

/-- The number of an entry that is the first under its name in its scope. -/
def named (entries : List Entry) (id : SymbolId) : Option SymbolId :=
  if firstOfName entries id then some id else none

/-- The entries that are not the first under their name in their scope. -/
def repeated (entries : List Entry) : List Entry :=
  (entries.zipIdx.filter fun x => !firstOfName entries x.2).map Prod.fst

/-- The report on an entry that is repeated. -/
def Entry.report (e : Entry) : Error :=
  match e.symbol with
  | .var v => ⟨.variableAlreadyDeclared v.name, v.pos⟩
  | .fn f => ⟨.functionAlreadyDeclared f.name, f.pos⟩

theorem Entry.clash_eq_report (e : Entry) : e.clash = e.report := by
  obtain ⟨scope, v | f⟩ := e <;> rfl

/-- An entry is the first under its name if the entries before it have none under it. -/
theorem firstOfName_at (earlier later : List Entry) (e : Entry) :
    firstOfName (earlier ++ e :: later) earlier.length =
      (firstIn earlier e.scope e.symbol.name).isNone := by
  have at_e : (earlier ++ e :: later)[earlier.length]? = some e := by simp
  simp only [firstOfName, at_e]
  cases taken : firstIn earlier e.scope e.symbol.name with
  | some i =>
    have below : i < earlier.length := by
      obtain ⟨_, at_i, -⟩ := firstIn_eq_some taken
      exact (List.getElem?_eq_some_iff.1 at_i).1
    simp [firstIn_append_of_eq_some taken, Nat.ne_of_lt below]
  | none =>
    have first : firstIn (earlier ++ [e]) e.scope e.symbol.name = some earlier.length := by
      rw [firstIn_concat, taken, if_pos ⟨rfl, rfl⟩, Option.none_or]
    rw [List.append_cons, firstIn_append_of_eq_some first later]
    simp

/-- What comes later does not matter to an entry. -/
theorem firstOfName_append {earlier : List Entry} {id : SymbolId} (inside : id < earlier.length)
    (later : List Entry) : firstOfName (earlier ++ later) id = firstOfName earlier id := by
  have split : earlier = earlier.take id ++ earlier[id] :: earlier.drop (id + 1) := by simp
  have length : (earlier.take id).length = id := by simp [Nat.le_of_lt inside]
  have short := firstOfName_at (earlier.take id) (earlier.drop (id + 1)) earlier[id]
  have long := firstOfName_at (earlier.take id) (earlier.drop (id + 1) ++ later) earlier[id]
  rw [← split, length] at short
  rw [← List.cons_append, ← List.append_assoc, ← split, length] at long
  rw [short, long]

theorem repeated_concat (entries : List Entry) (e : Entry) :
    repeated (entries ++ [e]) = repeated entries ++
      if (firstIn entries e.scope e.symbol.name).isSome then [e] else [] := by
  have before : (entries.zipIdx.filter fun x => !firstOfName (entries ++ [e]) x.2) =
      entries.zipIdx.filter fun x => !firstOfName entries x.2 := by
    refine List.filter_congr ?_
    rintro ⟨e', id⟩ mem
    rw [firstOfName_append (List.mem_zipIdx' mem).1]
  unfold repeated
  rw [List.zipIdx_append, List.filter_append, List.map_append, before]
  simp only [List.zipIdx_singleton, Nat.zero_add, List.filter_singleton, firstOfName_at]
  cases firstIn entries e.scope e.symbol.name <;> rfl

/-- The reports are those on the repeated entries, in order. -/
theorem clashes_eq (entries : List Entry) :
    clashes entries = (repeated entries).map Entry.report := by
  induction entries using List.reverseRecOn with
  | nil => rfl
  | append_singleton entries e ih =>
    rw [clashes_concat, repeated_concat, List.map_append, ih, e.clash_eq_report]
    split <;> rfl

/-! ## Numbers of declared symbols -/

namespace Survey

variable {w : Survey} {d : Declarations} {whole : List Entry} {scope : ScopeIndex}

theorem entries_grown (w : Survey) (steps : List Step) : w.entries <+: (w.run steps).entries := by
  obtain ⟨later, grown, -⟩ := entries_run w steps
  exact ⟨later, grown.symm⟩

/-- A symbol gets the next number, and it is named if it is the first of its name. -/
theorem Describes.symbol_fst (h : w.Describes d) (sound : w.Sound) (here : w.path.headD 0 = scope)
    {s : Symbol} (bare : s.bare = s) (grown : (w.step (.declare s)).entries <+: whole) :
    (Declare.symbol scope s d).1 = named whole w.entries.length := by
  obtain ⟨later, rfl⟩ := grown
  have first := firstOfName_at w.entries later ⟨scope, s⟩
  rw [(h.declare sound here bare).1, step, here, List.append_assoc, List.singleton_append, named,
    first]
  cases firstIn w.entries scope s.name <;> rfl

/-- The parameters that a function keeps are those that are the first of their name. -/
theorem Describes.params_fst (h : w.Describes d) (sound : w.Sound) (here : w.path.headD 0 = scope)
    (ps : List Source.Param)
    (grown : (w.run (ps.map fun q => .declare q.symbol)).entries <+: whole) :
    (Declare.params scope ps d).1 =
      (List.range' w.entries.length ps.length).filter (firstOfName whole) := by
  induction ps generalizing w d with
  | nil => rfl
  | cons q rest ih =>
    have before := (entries_grown (w.step (.declare q.symbol)) _).trans grown
    have first := h.symbol_fst sound here (show q.symbol.bare = q.symbol from rfl) before
    have others := ih (h.declare sound here rfl).2 (sound.step _) here grown
    have next : (w.step (.declare q.symbol)).entries.length = w.entries.length + 1 := by simp [step]
    rw [next] at others
    show (Declare.symbol scope q.symbol d).1.toList ++
      (Declare.params scope rest (Declare.symbol scope q.symbol d).2).1 = _
    rw [first, others, List.length_cons, List.range'_succ, List.filter_cons, named]
    split <;> rfl

/-- The functions that are named are those that are the first of their name. -/
theorem Describes.header_fst (h : w.Describes d) (sound : w.Sound) (here : w.path.headD 0 = scope)
    (fs : List Source.Function)
    (grown : (w.run (fs.map fun f => .declare f.symbol)).entries <+: whole) :
    (fs.mapM (Declare.function scope) d).1 =
      (List.range' w.entries.length fs.length).map (named whole) := by
  induction fs generalizing w d with
  | nil => rfl
  | cons f rest ih =>
    have before := (entries_grown (w.step (.declare f.symbol)) _).trans grown
    have first := h.symbol_fst sound here (show f.symbol.bare = f.symbol from rfl) before
    have others := ih (h.declare sound here rfl).2 (sound.step _) here grown
    have next : (w.step (.declare f.symbol)).entries.length = w.entries.length + 1 := by simp [step]
    rw [next] at others
    rw [List.mapM_cons]
    show (Declare.symbol scope f.symbol d).1 ::
      (rest.mapM (Declare.function scope) (Declare.symbol scope f.symbol d).2).1 = _
    rw [first, others, List.length_cons, List.range'_succ, List.map_cons]

end Survey

/-! ## Symbols that stay -/

namespace Declare

theorem symbols_symbol (scope : ScopeIndex) (s : Symbol) (d : Declarations) :
    (symbol scope s d).2.table.symbols = d.table.symbols ++ [s] := by
  simp only [symbol, SymbolTable.addSymbol]
  split
  · rfl
  · split <;> rfl

theorem symbols_varDecl (scope : ScopeIndex) (v : Source.VarDecl) (d : Declarations) :
    d.table.symbols <+: (varDecl scope v d).2.table.symbols :=
  ⟨_, (symbols_symbol scope v.symbol d).symm⟩

theorem symbols_forInit (scope : ScopeIndex) (init : Option Source.ForInit) (d : Declarations) :
    d.table.symbols <+: (forInit scope init d).2.table.symbols := by
  match init with
  | none | some (.expr e) => exact List.prefix_rfl
  | some (.decl v) => exact symbols_varDecl scope v d

mutual

/-- A statement only adds symbols behind those that are there. -/
theorem symbols_stmt (scope : ScopeIndex) (s : Source.Stmt) (d : Declarations) :
    d.table.symbols <+: (stmt scope s d).2.table.symbols := by
  cases s with
  | decl v => exact symbols_varDecl scope v d
  | expr | ret | empty | brk | cont => exact List.prefix_rfl
  | block body id span => exact symbols_stmts _ body (openScope id .block d).2
  | ite test ifTrue ifFalse span =>
    exact (symbols_stmt scope ifTrue d).trans (symbols_stmt scope ifFalse _)
  | whileDo test body span | doWhile body test span => exact symbols_stmt scope body d
  | forLoop init test step body id span =>
    have first := symbols_forInit (openScope id .block d).1 init (openScope id .block d).2
    exact first.trans (symbols_stmt _ body _)

theorem symbols_stmts (scope : ScopeIndex) (ss : List Source.Stmt) (d : Declarations) :
    d.table.symbols <+: (stmts scope ss d).2.table.symbols := by
  cases ss with
  | nil => exact List.prefix_rfl
  | cons s rest => exact (symbols_stmt scope s d).trans (symbols_stmts scope rest _)

end

theorem symbols_params (scope : ScopeIndex) (ps : List Source.Param) (d : Declarations) :
    d.table.symbols <+: (params scope ps d).2.table.symbols := by
  induction ps generalizing d with
  | nil => exact List.prefix_rfl
  | cons q rest ih =>
    have first : d.table.symbols <+: (symbol scope q.symbol d).2.table.symbols :=
      ⟨_, (symbols_symbol scope q.symbol d).symm⟩
    exact first.trans (ih _)

theorem symbols_header (scope : ScopeIndex) (fs : List Source.Function) (d : Declarations) :
    (fs.mapM (function scope) d).2.table.symbols =
      d.table.symbols ++ fs.map Source.Function.symbol := by
  induction fs generalizing d with
  | nil => exact (List.append_nil _).symm
  | cons f rest ih =>
    rw [List.mapM_cons]
    show (rest.mapM (function scope) (symbol scope f.symbol d).2).2.table.symbols = _
    rw [ih, symbols_symbol, List.append_assoc]
    rfl

end Declare

/-- A function stays when symbols are added behind. -/
theorem SymbolTable.functionAt_of_prefix {t t' : SymbolTable} (grown : t.symbols <+: t'.symbols)
    {id : SymbolId} {g : FunctionInfo} (found : t.functionAt id = some g) :
    t'.functionAt id = some g := by
  obtain ⟨s, symbol, isFn⟩ := Option.bind_eq_some_iff.1 found
  obtain ⟨later, eq⟩ := grown
  have inside := (List.getElem?_eq_some_iff.1 symbol).1
  rw [functionAt, ← eq, List.getElem?_append_left inside, symbol, Option.bind_some, isFn]

/-! ## Parameters of functions -/

namespace Declare

theorem functionAt_setParams (fn : Option SymbolId) (ids : List SymbolId) (d : Declarations)
    (id : SymbolId) :
    (setParams fn ids d).2.table.functionAt id =
      (d.table.functionAt id).map fun g =>
        if fn = some id then { g with params := ids } else g := by
  cases fn with
  | none => simp [setParams]
  | some named =>
    show (d.table.modifyFunction named fun g => { g with params := ids }).functionAt id = _
    rw [SymbolTable.functionAt_modifyFunction]
    by_cases same : named = id <;> simp [same]

/-- The inside of a function records its parameters, and nothing else in a function. -/
theorem functionAt_body {d : Declarations} {id : SymbolId} {g : FunctionInfo}
    (found : d.table.functionAt id = some g) (f : Source.Function) (fn : Option SymbolId) :
    (body f fn d).2.table.functionAt id = some (if fn = some id then
      { g with params := (params d.table.scopes.length f.params
        (openScope f.body.id .function d).2).1 } else g) := by
  have opened : (openScope f.body.id .function d).2.table.functionAt id = some g := found
  have kept := symbols_params d.table.scopes.length f.params (openScope f.body.id .function d).2
  have recorded := functionAt_setParams fn (params d.table.scopes.length f.params
    (openScope f.body.id .function d).2).1 (params d.table.scopes.length f.params
    (openScope f.body.id .function d).2).2 id
  rw [SymbolTable.functionAt_of_prefix kept opened, Option.map_some] at recorded
  exact SymbolTable.functionAt_of_prefix (symbols_stmts _ f.body.stmts _) recorded

/-- The insides of other functions leave a function alone. -/
theorem functionAt_bodies {d : Declarations} {id : SymbolId} {g : FunctionInfo}
    (found : d.table.functionAt id = some g) (fs : List (Source.Function × Option SymbolId))
    (others : ∀ f ∈ fs, f.2 ≠ some id) :
    (fs.forM (fun (f, fn) => body f fn) d).2.table.functionAt id = some g := by
  induction fs generalizing d with
  | nil => exact found
  | cons f rest ih =>
    obtain ⟨other, others⟩ := List.forall_mem_cons.1 others
    have kept := functionAt_body found f.1 f.2
    rw [if_neg other] at kept
    exact ih kept others

theorem bodies_cut (fs gs : List (Source.Function × Option SymbolId)) (f : Source.Function)
    (fn : Option SymbolId) (d : Declarations) :
    ((fs ++ (f, fn) :: gs).forM (fun (f, fn) => body f fn) d).2 =
      (gs.forM (fun (f, fn) => body f fn)
        (body f fn (fs.forM (fun (f, fn) => body f fn) d).2).2).2 := by
  induction fs generalizing d with
  | nil => rfl
  | cons g rest ih => exact ih _

end Declare

theorem range'_cut (a b c : Nat) :
    List.range' a (b + (c + 1)) = List.range' a b ++ (a + b) :: List.range' (a + b + 1) c := by
  rw [← List.range'_succ, List.range'_append_1]

theorem snd_ne_of_mem_zip {fs : List α} {ids : List SymbolId} {entries : List Entry}
    {id : SymbolId} (absent : id ∉ ids) :
    ∀ x ∈ fs.zip (ids.map (named entries)), x.2 ≠ some id := by
  intro x mem same
  obtain ⟨other, inside, eq⟩ := List.mem_map.1 (List.of_mem_zip mem).2
  rw [same, named] at eq
  split at eq
  · cases eq
    exact absent inside
  · cases eq

section Function

variable {p : Source.Program} {before after : List Source.Function} {f : Source.Function}

/-- The first pass on a program when all functions are declared. -/
def Declare.header (p : Source.Program) : List (Option SymbolId) × Declarations :=
  p.functions.mapM (function 0) (openScope p.id .global {}).2

/-- The first pass on a program when the functions `before` are done. -/
def Declare.upTo (p : Source.Program) (before : List Source.Function) : Declarations :=
  ((before.zip ((List.range' 0 before.length).map (named p.declarations))).forM
    (fun (f, fn) => body f fn) (header p).2).2

theorem header_describes (p : Source.Program) : p.globals.Describes (Declare.header p).2 :=
  ((Describes.start p.id).header (.start p.id) (show _ = 0 from rfl) p.functions).1

theorem upTo_describes (p : Source.Program) (before : List Source.Function) :
    (p.globals.run (before.flatMap Source.Function.script)).Describes (Declare.upTo p before) :=
  (header_describes p).bodies p.globals_sound before _ (by simp)

theorem header_ids (split : p.functions = before ++ f :: after) :
    (Declare.header p).1 = (List.range' 0 before.length).map (named p.declarations) ++
      named p.declarations before.length ::
        (List.range' (before.length + 1) after.length).map (named p.declarations) := by
  have grown : p.globals.entries <+: p.declarations := by
    rw [p.globals_entries]
    exact List.prefix_append ..
  have length : p.functions.length = before.length + (after.length + 1) := by simp [split]
  have ids := (Describes.start p.id).header_fst (.start p.id) (show _ = 0 from rfl) _ grown
  simp only [length, range'_cut, List.map_append, List.map_cons, Nat.zero_add, Survey.start,
    List.length_nil] at ids
  exact ids

/-- The functions before and after leave the parameters of a function alone. -/
theorem functionAt_ofProgram (split : p.functions = before ++ f :: after) :
    (Declarations.ofProgram p).table.functionAt before.length =
      some ⟨f.name, f.returnTy, if named p.declarations before.length = some before.length then
        (Declare.params (Declare.upTo p before).table.scopes.length f.params
          (Declare.openScope f.body.id .function (Declare.upTo p before)).2).1 else [],
        f.body.id, f.span.start, 0, none⟩ := by
  have declared : (Declare.header p).2.table.functionAt before.length =
      some ⟨f.name, f.returnTy, [], f.body.id, f.span.start, 0, none⟩ := by
    have symbols := Declare.symbols_header 0 p.functions (Declare.openScope p.id .global {}).2
    show (Declare.header p).2.table.symbols[_]?.bind _ = _
    rw [Declare.header, symbols, split]
    simp [Declare.openScope, SymbolTable.addScope, Source.Function.symbol, Symbol.asFunction]
  have early := Declare.functionAt_bodies declared
    (before.zip ((List.range' 0 before.length).map (named p.declarations)))
    (snd_ne_of_mem_zip (by simp))
  have here := Declare.functionAt_body early f (named p.declarations before.length)
  have late := Declare.functionAt_bodies here
    (after.zip ((List.range' (before.length + 1) after.length).map (named p.declarations)))
    (snd_ne_of_mem_zip (by rw [List.mem_range'_1]; omega))
  have whole : Declarations.ofProgram p = ((p.functions.zip (Declare.header p).1).forM
    (fun (f, fn) => Declare.body f fn) (Declare.header p).2).2 := rfl
  rw [whole, header_ids split, split, List.zip_append (by simp), List.zip_cons_cons,
    Declare.bodies_cut, late]
  split <;> rfl

/-- The parameters that a function of a program has in its table. -/
theorem params_ofProgram (split : p.functions = before ++ f :: after) :
    ∃ g, (Declarations.ofProgram p).table.functionAt before.length = some g ∧
      g.params = if firstOfName p.declarations before.length then
        (List.range' (p.functions.length + (before.flatMap Source.Function.locals).length)
          f.params.length).filter (firstOfName p.declarations) else [] := by
  refine ⟨_, functionAt_ofProgram split, ?_⟩
  have described := upTo_describes p before
  have sound := p.globals_sound.run (before.flatMap Source.Function.script)
  obtain ⟨index, entered⟩ := described.enter sound f.body.id .function
  have grown : (((p.globals.run (before.flatMap Source.Function.script)).step
      (.enter f.body.id .function)).run (f.params.map fun q => .declare q.symbol)).entries <+:
        p.declarations := by
    rw [← entries_ofProgram, p.ofProgram_eq, Source.Program.main, split, List.flatMap_append,
      List.flatMap_cons, run_append, run_append, Source.Function.script, List.cons_append, run_cons,
      run_append, run_append]
    exact ((entries_grown _ _).trans (entries_grown _ _)).trans (entries_grown _ _)
  have params := entered.params_fst (sound.step _) index.symm f.params grown
  have length : (p.globals.run (before.flatMap Source.Function.script)).entries.length =
      p.functions.length + (before.flatMap Source.Function.locals).length := by
    rw [entries_functions, List.length_append, p.globals_entries, List.length_map,
      ← Source.map_declarationsIn before p.globals.owners.length, List.length_map]
  rw [show ((p.globals.run (before.flatMap Source.Function.script)).step
    (.enter f.body.id .function)).entries.length = _ from length] at params
  by_cases first : firstOfName p.declarations before.length = true
  · rw [if_pos first, named, if_pos first, if_pos rfl]
    exact params
  · rw [if_neg first, named, if_neg first, if_neg (Option.some_ne_none _).symm]

end Function

/-! ## What names stand for -/

variable {p : Source.Program}

/-- A symbol has one name in one scope. -/
theorem named_once {i j : ScopeIndex} {scope scope' : Scope} {name name' : String} {id : SymbolId}
    (at_i : (Declarations.ofProgram p).table.scopes[i]? = some scope)
    (at_j : (Declarations.ofProgram p).table.scopes[j]? = some scope')
    (named : scope.find? name = some id) (named' : scope'.find? name' = some id) :
    i = j ∧ name = name' := by
  rw [(declared_describes p).names i scope at_i name] at named
  rw [(declared_describes p).names j scope' at_j name'] at named'
  obtain ⟨e, at_id, rfl, rfl⟩ := firstIn_eq_some named
  obtain ⟨e', at_id', rfl, rfl⟩ := firstIn_eq_some named'
  obtain rfl : e = e' := by simpa [at_id] using at_id'
  exact ⟨rfl, rfl⟩

/-! ## The table of a program -/

/-- What the first pass builds is what a program owns and declares. -/
structure Source.Program.Recorded (p : Source.Program) (d : Declarations) : Prop where
  /-- One scope for each node that owns one, in order. -/
  scopes : d.table.scopes.map (fun s => (s.id, s.kind)) = p.owners
  /-- The last scope of a node answers for its id. -/
  index : ∀ id i, d.table.scopeIndex? id = some i ↔
    (∃ s, d.table.scopes[i]? = some s ∧ s.id = id) ∧
      ∀ j s, d.table.scopes[j]? = some s → s.id = id → j ≤ i
  /-- One symbol for each declaration, in order, whether or not its name is taken. -/
  symbols : d.table.symbols.map Symbol.bare = p.declarations.map Entry.symbol
  /-- All functions are declared first, then what each declares inside. -/
  order : p.declarations.map Entry.symbol = p.symbols
  /-- A function that is the first of its name has its parameters that are the first of theirs. The
  numbers of its parameters follow those of what the functions before it declare. -/
  params : ∀ before f after, p.functions = before ++ f :: after →
    ∃ g, d.table.functionAt before.length = some g ∧
      g.params = if firstOfName p.declarations before.length then
        (List.range' (p.functions.length + (before.flatMap Source.Function.locals).length)
          f.params.length).filter (firstOfName p.declarations) else []
  /-- A name stands for its first declaration in a scope, and for nothing if there is none. -/
  names : ∀ (i : ScopeIndex) (s : Scope), d.table.scopes[i]? = some s →
    ∀ name, s.find? name = firstIn p.declarations i name
  /-- What a name stands for has that name. It is a function in the global scope and a variable in
  the others. -/
  named : ∀ (i : ScopeIndex) (s : Scope), d.table.scopes[i]? = some s →
    ∀ name id, s.find? name = some id →
      ∃ symbol : Symbol, d.table.symbols[id]? = some symbol ∧ symbol.name = name ∧
        if s.kind = .global then symbol.isVariable = false else symbol.isVariable = true
  /-- No two scopes, and no two names, have one symbol. -/
  once : ∀ (i j : ScopeIndex) (s s' : Scope),
    d.table.scopes[i]? = some s → d.table.scopes[j]? = some s' →
    ∀ name name' id, s.find? name = some id → s'.find? name' = some id → i = j ∧ name = name'
  /-- One report for each declaration that is not the first of its name, in order. -/
  log : d.log = (repeated p.declarations).map Entry.report

/-- The first pass records exactly the declarations of a program. -/
theorem recorded_ofProgram (p : Source.Program) : p.Recorded (Declarations.ofProgram p) where
  scopes := by rw [(declared_describes p).owners, owners_ofProgram]
  index id i := by
    rw [SymbolTable.scopeIndex?, lastIndex?_eq_some_iff]
    simp only [beq_iff_eq]
  symbols := by rw [(declared_describes p).symbols, entries_ofProgram]
  order := p.map_declarations
  params before f after split := params_ofProgram split
  names := by
    rw [← entries_ofProgram]
    exact (declared_describes p).names
  named i s at_i name id isNamed := by
    obtain ⟨symbol, at_id, rfl, isFn⟩ := named_symbol at_i isNamed
    obtain ⟨s', at_i', kind, -⟩ := scope_at p (i := i) (by
      rw [← (declared_describes p).scopes_length]
      exact (List.getElem?_eq_some_iff.1 at_i).1)
    obtain rfl : s = s' := by simpa [at_i] using at_i'
    refine ⟨symbol, at_id, rfl, ?_⟩
    simp only [kind, ← isFn]
    cases symbol <;> simp [Symbol.asFunction, Symbol.isVariable, Symbol.asVariable]
  once i j s s' at_i at_j name name' id isNamed isNamed' :=
    named_once at_i at_j isNamed isNamed'
  log := by rw [(declared_describes p).log, entries_ofProgram, clashes_eq]

end MiddleEnd
