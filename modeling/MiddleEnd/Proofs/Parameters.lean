import MiddleEnd.Proofs.Lowered.Records
import MiddleEnd.Proofs.Scoping.Recorded
import Mathlib.Data.List.Flatten

/-!
# Parameters in the three passes

Three passes write about the parameters of a function. The first makes their symbols and records
them with the function, the second puts symbols into the typed tree, the third binds temporaries and
records numbers and places. Each pass walks the functions with counters of its own. Where nothing is
reported, what they wrote agrees.

Results:
1. `Source.Function.DeclaredAs`, `FunctionsCheck.declaredAs`: the first two passes.
2. `ParamsAgree`, `ProgramCheck.agree`: all three, function by function.
3. `parameters_of_ordered`: a whole program, and what is left alone in it, where positions do not
   mislead.
4. `parameters_agree`: programs that were built.
-/

namespace MiddleEnd

open Survey

/-! ## Symbols of the first pass -/

variable {p : Source.Program} {before after : List Source.Function} {f : Source.Function}

/-- In a program that declares no name twice, every declaration is the first of its name. -/
theorem firstOfName_of_clean (clean : (Declarations.ofProgram p).log = []) {id : SymbolId}
    (inside : id < p.declarations.length) : firstOfName p.declarations id = true := by
  have none := (recorded_ofProgram p).log
  rw [clean] at none
  have none := List.map_eq_nil_iff.1 (List.map_eq_nil_iff.1 none.symm)
  have here : (p.declarations[id], id) ∈ p.declarations.zipIdx := by
    simp [List.mk_mem_zipIdx_iff_getElem?]
  simpa using List.filter_eq_nil_iff.1 none _ here

/-- The variables of the first pass are those that the program declares. -/
theorem variableAt_ofProgram (p : Source.Program) (id : SymbolId) :
    (Declarations.ofProgram p).table.variableAt id = p.symbols[id]?.bind Symbol.asVariable := by
  have recorded := recorded_ofProgram p
  have same := congrArg (·[id]?) (recorded.symbols.trans recorded.order)
  simp only [List.getElem?_map] at same
  rw [SymbolTable.variableAt, ← same]
  cases (Declarations.ofProgram p).table.symbols[id]? with
  | none => rfl
  | some s => cases s <;> rfl

/-- A parameter has the number behind those of what the functions before declare. -/
theorem symbols_param (split : p.functions = before ++ f :: after) {i : Nat} {q : Source.Param}
    (at_i : f.params[i]? = some q) :
    p.symbols[p.functions.length + Source.localCount before + i]? = some q.symbol := by
  have inside := (List.getElem?_eq_some_iff.1 at_i).1
  rw [Source.Program.symbols, Nat.add_assoc, List.getElem?_append_right (by simp), List.length_map,
    Nat.add_sub_cancel_left, split, List.flatMap_append, List.flatMap_cons, Source.localCount,
    List.getElem?_append_right (Nat.le_add_right ..), Nat.add_sub_cancel_left,
    Source.Function.locals, List.append_assoc, List.getElem?_append_left (by simpa using inside),
    List.getElem?_map, at_i, Option.map_some]

/-- The first pass knows no number and no place of a variable. -/
theorem unplaced_of_mem_symbols {v : VariableInfo} (mem : .var v ∈ p.symbols) :
    v.order = none ∧ v.offset = none := by
  rcases List.mem_append.1 mem with global | inner
  · obtain ⟨_, -, eq⟩ := List.mem_map.1 global
    cases eq
  · obtain ⟨f, -, inner⟩ := List.mem_flatMap.1 inner
    rcases List.mem_append.1 inner with param | var
    · obtain ⟨_, -, eq⟩ := List.mem_map.1 param
      cases eq
      exact ⟨rfl, rfl⟩
    · obtain ⟨_, -, eq⟩ := List.mem_map.1 var
      cases eq
      exact ⟨rfl, rfl⟩

/-! ## The first two passes -/

/-- A typed function refers to what the first pass recorded of its function. -/
structure Source.Function.DeclaredAs (table : SymbolTable) (f : Source.Function) (k : Nat)
    (g : Typed.Function) : Prop where
  symbol : g.symbol = k
  named : table.innermost? [0] f.name = some g.symbol
  function : table.functionAt g.symbol =
    some ⟨f.name, f.returnTy, g.paramIds, f.body.id, f.span.start, 0, none⟩
  arity : g.params.length = f.params.length
  param : ∀ (i : Nat) (x : SymbolId), g.paramIds[i]? = some x → ∃ q, f.params[i]? = some q ∧
    table.variableAt x = some ⟨q.name, q.ty, q.span.start, true, none, none, none⟩

variable {Γ : CheckContext} {w : Survey}

/-- The parameters of a function are numbered from where it is entered. -/
theorem FunctionCheck.paramIds_eq {g : Typed.Function} {log : Log}
    (h : FunctionCheck Γ w.path f g log) (numbered : w.All (Numbered Γ.symbols) f.script) :
    g.paramIds = List.range' w.entries.length f.params.length := by
  cases h with
  | mk named isFn owned params body =>
    obtain ⟨entered, numbered⟩ := all_scope numbered
    cases owned.symm.trans entered
    have numbers := ParamsCheck.numbers (w := w.step (.enter f.body.id .function)) params
      (all_append.1 numbered).1
    have count : ((w.step (.enter f.body.id .function)).run
        (f.params.map fun q => .declare q.symbol)).entries.length =
          w.entries.length + f.params.length := by
      rw [entries_run_declares, List.length_append, List.length_map]
      rfl
    have entries : (w.step (.enter f.body.id .function)).entries = w.entries := rfl
    rw [Typed.Function.paramIds, numbers.eq, count, entries, Nat.add_sub_cancel_left]

theorem ParamsCheck.length_eq {path : ScopePath} {ps : List Source.Param} {ps' : List Typed.Param}
    (h : ParamsCheck Γ path ps ps') : ps'.length = ps.length := by
  induction h with
  | nil => rfl
  | cons _ _ ih => rw [List.length_cons, List.length_cons, ih]

theorem FunctionCheck.arity {path : ScopePath} {g : Typed.Function} {log : Log}
    (h : FunctionCheck Γ path f g log) : g.params.length = f.params.length := by
  cases h with
  | mk _ _ _ params => exact params.length_eq

theorem FunctionCheck.innermost {path : ScopePath} {g : Typed.Function} {log : Log}
    (h : FunctionCheck Γ path f g log) : Γ.symbols.innermost? path f.name = some g.symbol := by
  cases h with
  | mk named => exact named

theorem FunctionsCheck.each {path : ScopePath} {fs : List Source.Function}
    {gs : List Typed.Function} {log : Log} (h : FunctionsCheck Γ path fs gs log) :
    List.Forall₂ (fun f g => ∃ log, FunctionCheck Γ path f g log) fs gs := by
  induction h with
  | nil => exact .nil
  | cons first _ ih => exact .cons ⟨_, first⟩ ih

theorem exists_split_at {as : List α} {k : Nat} {a : α} (at_k : as[k]? = some a) :
    ∃ before after, as = before ++ a :: after ∧ before.length = k := by
  obtain ⟨inside, rfl⟩ := List.getElem?_eq_some_iff.1 at_k
  refine ⟨as.take k, as.drop (k + 1), ?_, List.length_take_of_le (Nat.le_of_lt inside)⟩
  rw [← List.drop_eq_getElem_cons inside, List.take_append_drop]

theorem forall₂_at {R : α → β → Prop} {as : List α} {bs : List β} (h : List.Forall₂ R as bs)
    {k : Nat} {a : α} {b : β} (at_a : as[k]? = some a) (at_b : bs[k]? = some b) : R a b := by
  obtain ⟨inside, rfl⟩ := List.getElem?_eq_some_iff.1 at_a
  obtain ⟨inside', rfl⟩ := List.getElem?_eq_some_iff.1 at_b
  exact h.get inside inside'

/-- The first pass records a function with its parameters, if it declares nothing twice. -/
theorem functionAt_of_clean (clean : (Declarations.ofProgram p).log = [])
    (split : p.functions = before ++ f :: after) :
    (Declarations.ofProgram p).table.functionAt before.length = some ⟨f.name, f.returnTy,
      List.range' (p.functions.length + Source.localCount before) f.params.length, f.body.id,
      f.span.start, 0, none⟩ := by
  obtain ⟨info, found, params⟩ := params_ofProgram split
  have first {id : Nat} (inside : id < p.symbols.length) :
      firstOfName p.declarations id = true := by
    rw [← p.map_declarations, List.length_map] at inside
    exact firstOfName_of_clean clean inside
  have global : firstOfName p.declarations before.length = true := by
    refine first ?_
    simp only [Source.Program.symbols, split, List.length_append, List.length_map, List.length_cons]
    omega
  have all : ∀ id ∈ List.range' (p.functions.length + Source.localCount before) f.params.length,
      firstOfName p.declarations id = true := by
    intro id mem
    obtain ⟨i, inside, rfl⟩ := List.mem_range'.1 mem
    have here := symbols_param split (List.getElem?_eq_getElem inside)
    rw [Nat.one_mul]
    exact first (List.getElem?_eq_some_iff.1 here).1
  rw [if_pos global, ← Source.localCount, List.filter_eq_self.2 all] at params
  have whole := functionAt_ofProgram split
  cases found.symm.trans whole
  rw [whole, Option.some_inj, FunctionInfo.mk.injEq]
  exact ⟨rfl, rfl, params, rfl, rfl, rfl, rfl⟩

/-- In a program that declares no name twice, every typed function refers to what the first pass
recorded of its function. -/
theorem ProgramCheck.declaredAs (ordered : p.Ordered)
    (clean : (Declarations.ofProgram p).log = []) {config : Config} {typed : Typed.Program}
    {log : Log} (h : ProgramCheck ⟨(Declarations.ofProgram p).table, config⟩ p typed log) {k : Nat}
    {g : Typed.Function} (at_f : p.functions[k]? = some f) (at_g : typed.functions[k]? = some g) :
    f.DeclaredAs (Declarations.ofProgram p).table k g := by
  obtain ⟨before, after, split, rfl⟩ := exists_split_at at_f
  have names := ((clean_iff p).1 clean).1
  cases h with
  | mk owned checks =>
    cases owned.symm.trans (scopeIndex_global ordered.owners)
    obtain ⟨_, check⟩ := forall₂_at checks.each at_f at_g
    have path : (p.globals.run (before.flatMap Source.Function.script)).path = [0] := by
      rw [path_run_functions, p.globals_path]
    -- where the function is entered, the functions before have declared everything inside them
    have start : (p.globals.run (before.flatMap Source.Function.script)).entries.length =
        p.functions.length + Source.localCount before := by
      rw [entries_functions, List.length_append, p.globals_entries, List.length_map,
        Source.length_declarationsIn]
    have here : (p.globals.run (before.flatMap Source.Function.script)).All
        (Numbered (Declarations.ofProgram p).table) f.script := by
      have whole := numbered ordered clean
      rw [Source.Program.main, split, List.flatMap_append, List.flatMap_cons] at whole
      exact (all_append.1 (all_append.1 whole).2).1
    rw [← path] at check
    have ids := check.paramIds_eq here
    rw [start] at ids
    have isNamed := check.innermost
    rw [path] at isNamed
    have inside : 0 < (Survey.ofProgram p).owners.length := by
      simp [owners_ofProgram, Source.Program.owners]
    have first := innermost_at p [] inside f.name
    rw [entries_ofProgram, Source.firstIn_function names split, Source.Program.symbolIn_zero,
      isNamed, Option.some_inj] at first
    have function := functionAt_of_clean clean split
    rw [← ids, ← first] at function
    refine ⟨first, isNamed, function, check.arity, fun i x at_i => ?_⟩
    have inside : i < f.params.length := by
      have inside := (List.getElem?_eq_some_iff.1 at_i).1
      rwa [ids, List.length_range'] at inside
    refine ⟨f.params[i], List.getElem?_eq_getElem inside, ?_⟩
    rw [ids, List.getElem?_range' inside, Nat.one_mul, Option.some_inj] at at_i
    have here := symbols_param split (List.getElem?_eq_getElem inside)
    rw [← at_i, variableAt_ofProgram, here]
    rfl

theorem ProgramCheck.length_eq {typed : Typed.Program} {log : Log}
    (h : ProgramCheck Γ p typed log) : typed.functions.length = p.functions.length := by
  cases h with
  | mk _ checks => exact checks.each.length_eq.symm

/-- The functions are numbered in order. -/
theorem ProgramCheck.symbols_eq (ordered : p.Ordered)
    (clean : (Declarations.ofProgram p).log = []) {config : Config} {typed : Typed.Program}
    {log : Log} (h : ProgramCheck ⟨(Declarations.ofProgram p).table, config⟩ p typed log) :
    typed.functions.map Typed.Function.symbol = List.range p.functions.length := by
  refine List.ext_getElem (by simp [h.length_eq]) fun k inside inside' => ?_
  rw [List.length_map] at inside
  rw [List.length_range] at inside'
  rw [List.getElem_map, List.getElem_range]
  exact (h.declaredAs ordered clean (List.getElem?_eq_getElem inside')
    (List.getElem?_eq_getElem inside)).symbol

/-- A variable that is none of the parameters of the functions gets no number and no place. -/
theorem Typed.LeaveAlone.unplaced {gs : List Typed.Function} {final : SymbolTable}
    (alone : Typed.LeaveAlone gs (Declarations.ofProgram p).table final) {x : SymbolId}
    {v : VariableInfo} (other : x ∉ gs.flatMap Typed.Function.paramIds)
    (isVar : final.variableAt x = some v) : v.order = none ∧ v.offset = none := by
  have record : final.recordOf x = some v.unbound := congrArg (Option.map _) isVar
  rw [alone.others x other, SymbolTable.recordOf, variableAt_ofProgram] at record
  obtain ⟨u, declared, same⟩ := Option.map_eq_some_iff.1 record
  obtain ⟨s, symbol, isVar'⟩ := Option.bind_eq_some_iff.1 declared
  cases s with
  | fn g => cases isVar'
  | var u' =>
    cases isVar'
    obtain ⟨order, offset⟩ := unplaced_of_mem_symbols (List.mem_of_getElem? symbol)
    exact ⟨(congrArg VariableInfo.order same).symm.trans order,
      (congrArg VariableInfo.offset same).symm.trans offset⟩

/-! ## All three passes -/

/-- What the passes wrote about a function and its parameters agrees. The tables are the one of the
first pass and the one at the end. -/
structure ParamsAgree (size : Int) (table final : SymbolTable) (f : Source.Function)
    (g : Typed.Function) (piece : Piece) : Prop where
  arity : g.params.length = f.params.length
  temps : piece.params.length = f.params.length
  entry : piece.entry = f.name
  offset : piece.offset = f.params.length * size
  named : table.innermost? [0] f.name = some g.symbol
  function : final.functionAt g.symbol = some ⟨f.name, f.returnTy, g.paramIds, f.body.id,
    f.span.start, f.params.length * size, some f.name⟩
  param : ∀ (i : Nat) (q : Source.Param), f.params[i]? = some q →
    ∃ x t, g.paramIds[i]? = some x ∧ piece.params[i]? = some t ∧
      final.variableAt x =
        some ⟨q.name, q.ty, q.span.start, true, some i, some t, some (i * size)⟩

variable {table final : SymbolTable} {g : Typed.Function} {size : Int} {piece : Piece}

/-- What is recorded of a variable, beside its temporary and with it. -/
theorem SymbolTable.variableAt_of_recordOf {t : SymbolTable} {x : SymbolId} {v : VariableInfo}
    {temp : Temp} (record : t.recordOf x = some v) (bound : t.tempOf x = some temp) :
    t.variableAt x = some { v with temp := some temp } := by
  obtain ⟨u, isVar, rfl⟩ := Option.map_eq_some_iff.1 record
  rw [tempOf, isVar, Option.bind_some] at bound
  rw [isVar, ← bound]
  rfl

theorem Source.Function.DeclaredAs.agree {k : Nat} (declared : f.DeclaredAs table k g)
    (records : g.Records size piece table final)
    (homes : g.paramIds.map final.tempOf = piece.params.map some) :
    ParamsAgree size table final f g piece := by
  obtain ⟨info, found, entry, recorded⟩ := records.function
  cases found.symm.trans declared.function
  rw [declared.arity] at recorded
  refine ⟨declared.arity, records.arity.trans declared.arity, entry, ?_, declared.named, recorded,
    fun i q at_i => ?_⟩
  · rw [records.offset, declared.arity]
  · have inside : i < g.paramIds.length := by
      rw [Typed.Function.paramIds, List.length_map, declared.arity]
      exact (List.getElem?_eq_some_iff.1 at_i).1
    have here := List.getElem?_eq_getElem inside
    obtain ⟨q', at_i', isVar⟩ := declared.param i _ here
    cases at_i.symm.trans at_i'
    have home := congrArg (·[i]?) homes
    simp only [List.getElem?_map, here, Option.map_some] at home
    obtain ⟨t, taken, bound⟩ := Option.map_eq_some_iff.1 home.symm
    have record := records.param i _ here
    have first := congrArg (Option.map VariableInfo.unbound) isVar
    rw [← SymbolTable.recordOf] at first
    rw [first] at record
    exact ⟨_, t, here, taken, SymbolTable.variableAt_of_recordOf record bound.symm⟩

/-- Where no two pieces are entered by one name, a piece is found by its own. -/
theorem Code.find?_of_nodup {code : Code} (nodup : (code.pieces.map Piece.entry).Nodup)
    (mem : piece ∈ code.pieces) : code.find? piece.entry = some piece := by
  cases found : code.find? piece.entry with
  | none => simpa using List.find?_eq_none.1 found piece mem
  | some other =>
    have same : other.entry = piece.entry := by simpa using List.find?_some found
    rw [List.inj_on_of_nodup_map nodup (List.mem_of_find?_eq_some found) mem same]

/-- Behind two silent passes and a lowering, everything written about a function agrees, and nothing
else was touched. -/
theorem ProgramCheck.agree (ordered : p.Ordered) (clean : (Declarations.ofProgram p).log = [])
    {config : Config} {typed : Typed.Program} {log : Log}
    (h : ProgramCheck ⟨(Declarations.ofProgram p).table, config⟩ p typed log) {pieces : List Piece}
    {c : Cursor} (codes : FunctionsCode config typed.functions
      ⟨0, 0, (Declarations.ofProgram p).table⟩ pieces c) :
    (∀ (k : Nat) f g piece, p.functions[k]? = some f → typed.functions[k]? = some g →
      pieces[k]? = some piece →
        ParamsAgree config.pointerSize (Declarations.ofProgram p).table c.symbols f g piece) ∧
      Typed.LeaveAlone typed.functions (Declarations.ofProgram p).table c.symbols := by
  have nodup := (h.numbers ordered clean).nodup
  have own : (typed.functions.map Typed.Function.symbol).Nodup := by
    rw [h.symbols_eq ordered clean]
    exact List.nodup_range
  have apart : (typed.functions.flatMap Typed.Function.paramIds).Nodup :=
    nodup.sublist
      (List.Sublist.flatMap_right _ fun g _ => List.sublist_append_left _ (Typed.bindsOf g.body))
  obtain ⟨records, alone⟩ := codes.records own apart
  have homes := codes.homes (Fits.final codes.binds nodup (tempOf_eq_none p))
  refine ⟨fun k f g piece at_f at_g at_piece => ?_, alone⟩
  exact (h.declaredAs ordered clean at_f at_g).agree (forall₂_at records at_g at_piece)
    (forall₂_at homes at_g at_piece)

/-- A variable that is a parameter of a function whose records agree is marked as one. -/
theorem ParamsAgree.isParameter (h : ParamsAgree size table final f g piece) {x : SymbolId}
    (mem : x ∈ g.paramIds) {v : VariableInfo} (isVar : final.variableAt x = some v) :
    v.isParameter = true := by
  obtain ⟨i, at_x⟩ := List.getElem?_of_mem mem
  have inside : i < f.params.length := by
    have inside := (List.getElem?_eq_some_iff.1 at_x).1
    rwa [Typed.Function.paramIds, List.length_map, h.arity] at inside
  obtain ⟨_, _, at_x', -, isParam⟩ := h.param i _ (List.getElem?_eq_getElem inside)
  cases at_x.symm.trans at_x'
  cases isVar.symm.trans isParam
  rfl

/-- What the three passes wrote about parameters agrees in a program that is translated without a
report, if positions do not mislead. -/
theorem parameters_of_ordered (ordered : p.Ordered) {config : Config} {typed : Typed.Program}
    {code : Code} {final : SymbolTable} (declared : (Declarations.ofProgram p).log = [])
    (checked : checkProgram ⟨(Declarations.ofProgram p).table, config⟩ p = .ok (typed, []))
    (lowered : lowerProgram config (Declarations.ofProgram p).table typed = (.ok code, final)) :
    let table := (Declarations.ofProgram p).table
    typed.functions.length = p.functions.length ∧
    code.pieces.map Piece.entry = p.functions.map Source.Function.name ∧
    (code.pieces.map Piece.entry).Nodup ∧
    (∀ (k : Nat) f g piece, p.functions[k]? = some f → typed.functions[k]? = some g →
      code.pieces[k]? = some piece →
        ParamsAgree config.pointerSize table final f g piece ∧
          code.find? f.name = some piece) ∧
    ∀ x v, final.variableAt x = some v → v.isParameter = false →
      v.order = none ∧ v.offset = none := by
  intro table
  have check := checkProgram_shape checked
  obtain ⟨s, -, -, rfl, codes⟩ := lowerProgram_shape lowered
  obtain ⟨agree, alone⟩ := check.agree ordered declared codes
  have count : typed.functions.length = p.functions.length := check.length_eq
  have count' : code.pieces.length = p.functions.length := codes.length_eq.trans count
  have entries : code.pieces.map Piece.entry = p.functions.map Source.Function.name := by
    refine List.ext_getElem (by simp [count']) fun k inside inside' => ?_
    rw [List.length_map] at inside inside'
    rw [List.getElem_map, List.getElem_map]
    exact (agree k _ _ _ (List.getElem?_eq_getElem inside')
      (List.getElem?_eq_getElem (count ▸ inside')) (List.getElem?_eq_getElem inside)).entry
  have nodup : (code.pieces.map Piece.entry).Nodup := by
    rw [entries]
    exact ((clean_iff p).1 declared).1
  refine ⟨count, entries, nodup, ?_, fun x v isVar other => ?_⟩
  · intro k f g piece at_f at_g at_piece
    have here := agree k f g piece at_f at_g at_piece
    exact ⟨here, here.entry ▸ Code.find?_of_nodup nodup (List.mem_of_getElem? at_piece)⟩
  · refine alone.unplaced (fun param => ?_) isVar
    obtain ⟨g, mem, inside⟩ := List.mem_flatMap.1 param
    obtain ⟨k, at_g⟩ := List.getElem?_of_mem mem
    have below : k < typed.functions.length := (List.getElem?_eq_some_iff.1 at_g).1
    have here := agree k _ g _ (List.getElem?_eq_getElem (count ▸ below)) at_g
      (List.getElem?_eq_getElem (codes.length_eq ▸ below))
    cases other.symm.trans (here.isParameter inside isVar)

/-- What the three passes wrote about parameters agrees, in every program that is translated without
a report. The pieces are those of the functions, in order, and each is found by the name of its
function. Nothing that is not a parameter has a number or a place among parameters. -/
theorem parameters_agree (d : Draft.Program) (b : Source.Builder) {config : Config}
    {typed : Typed.Program} {code : Code} {final : SymbolTable}
    (declared : (Declarations.ofProgram (d.place b).1).log = [])
    (checked : checkProgram ⟨(Declarations.ofProgram (d.place b).1).table, config⟩ (d.place b).1 =
      .ok (typed, []))
    (lowered : lowerProgram config (Declarations.ofProgram (d.place b).1).table typed =
      (.ok code, final)) :
    let p := (d.place b).1
    let table := (Declarations.ofProgram p).table
    typed.functions.length = p.functions.length ∧
    code.pieces.map Piece.entry = p.functions.map Source.Function.name ∧
    (code.pieces.map Piece.entry).Nodup ∧
    (∀ (k : Nat) f g piece, p.functions[k]? = some f → typed.functions[k]? = some g →
      code.pieces[k]? = some piece →
        ParamsAgree config.pointerSize table final f g piece ∧
          code.find? f.name = some piece) ∧
    ∀ x v, final.variableAt x = some v → v.isParameter = false →
      v.order = none ∧ v.offset = none :=
  parameters_of_ordered (d.place_ordered b) declared checked lowered

/-- `int sum(int a, int b) { int s = a + b; return s; } int main(int c) { return c; }` -/
def sums : Draft.Program :=
  ⟨[⟨"sum", [⟨"a", .int⟩, ⟨"b", .int⟩], .int,
      [.decl ⟨"s", .int, some (.binary .add (.var "a") (.var "b"))⟩, .ret (.var "s")]⟩,
    ⟨"main", [⟨"c", .int⟩], .int, [.ret (.var "c")]⟩]⟩

theorem parameters_agree_of_sums :
    let p := (sums.place ⟨"t", 0, 0⟩).1
    let table := (Declarations.ofProgram p).table
    ∃ typed code final, (Declarations.ofProgram p).log = [] ∧
      checkProgram ⟨table, {}⟩ p = .ok (typed, []) ∧
      lowerProgram {} table typed = (.ok code, final) ∧
      code.pieces.map Piece.entry = ["sum", "main"] ∧
      (∃ f g piece, p.functions[0]? = some f ∧ typed.functions[0]? = some g ∧
        code.find? "sum" = some piece ∧ piece.offset = 8 ∧ ParamsAgree 4 table final f g piece) ∧
      ∀ x v, final.variableAt x = some v → v.isParameter = false →
        v.order = none ∧ v.offset = none := by
  intro p table
  have declared : (Declarations.ofProgram p).log = [] := by decide +kernel
  have names : p.functions.map Source.Function.name = ["sum", "main"] := by decide +kernel
  have first : p.functions[0]?.map (fun f => (f.name, f.params.length)) = some ("sum", 2) := by
    decide +kernel
  have ok : (checkProgram ⟨table, {}⟩ p).toOption.map (fun result => (result.2,
      (lowerProgram {} table result.1).1.toOption.isSome)) = some ([], true) := by
    decide +kernel
  obtain ⟨f, at_f, facts⟩ := Option.map_eq_some_iff.1 first
  obtain ⟨name, arity⟩ := Prod.mk.inj facts
  rcases checked : checkProgram ⟨table, {}⟩ p with e | ⟨typed, issued⟩
  · simp [checked, Except.toOption] at ok
  · rw [checked] at ok
    obtain ⟨rfl, isLowered⟩ := Prod.mk.inj (Option.some.inj ok)
    rcases lowered : lowerProgram {} table typed with ⟨e | code, final⟩
    · simp [lowered, Except.toOption] at isLowered
    · obtain ⟨count, entries, -, agree, others⟩ :=
        parameters_agree sums ⟨"t", 0, 0⟩ declared checked lowered
      have entries : code.pieces.map Piece.entry = ["sum", "main"] := entries.trans names
      have pieces : code.pieces.length = 2 := by simpa using congrArg List.length entries
      have below : 0 < typed.functions.length := by
        have two : p.functions.length = 2 := by simpa using congrArg List.length names
        rw [count, two]
        exact Nat.two_pos
      obtain ⟨here, found⟩ := agree 0 f _ _ at_f (List.getElem?_eq_getElem below)
        (List.getElem?_eq_getElem (pieces ▸ Nat.two_pos))
      have offset := here.offset
      rw [arity] at offset
      exact ⟨typed, code, final, declared, rfl, lowered, entries,
        ⟨f, _, _, at_f, List.getElem?_eq_getElem below, name ▸ found, offset, here⟩, others⟩

end MiddleEnd
