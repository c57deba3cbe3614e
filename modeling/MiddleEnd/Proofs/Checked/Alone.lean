import MiddleEnd.Proofs.Checked.InStep
import MiddleEnd.Proofs.Scoping.Alone

/-!
# Checking one function of a unit

A function is checked in its unit as it is by itself, but for the numbers of symbols and for what
the reports on a use say: by itself it finds no other function under a name that stands for no
variable. So one check is silent if the other is, and then both make the same tree.

Results:
1. `refCheck_alone`: references.
2. `agree_alone`: what the two checks agree on.
3. `FunctionCheck.in_unit`, `FunctionCheck.alone`: silent checks of a function.
-/

namespace MiddleEnd

open CheckM Survey Source Source.Program

/-- Logs of which both are empty or neither is. -/
def BothSilent (log log' : Log) : Prop := log = [] ↔ log' = []

theorem BothSilent.append {log₁ log₁' log₂ log₂' : Log} (h₁ : BothSilent log₁ log₁')
    (h₂ : BothSilent log₂ log₂') : BothSilent (log₁ ++ log₂) (log₁' ++ log₂') := by
  unfold BothSilent at *
  rw [List.append_eq_nil_iff, List.append_eq_nil_iff, h₁, h₂]

/-- A name stands for no variable. -/
def SymbolTable.NoVariable (t : SymbolTable) (name : String) (pos : Pos) (path : ScopePath) :
    Prop :=
  t.lookup name pos path = .ok none ∨
    ∃ id g, t.lookup name pos path = .ok (some id) ∧ t.symbols[id]? = some (.fn g)

/-! ## Looking up in a unit -/

theorem RefCheck.of_noVariable {t : SymbolTable} {path : ScopePath} {r : Source.Ref}
    (h : t.NoVariable r.name r.span.start path) :
    ∃ log, log ≠ [] ∧ RefCheck t path r (.unresolved r.name r.span) log := by
  rcases h with looked | ⟨id, g, looked, symbol⟩
  · exact ⟨_, List.cons_ne_nil _ _, .notFound looked⟩
  · exact ⟨_, List.cons_ne_nil _ _, .notVariable looked symbol⟩

theorem RefCheck.of_lookup {t : SymbolTable} {path path' : ScopePath} {r : Source.Ref}
    {r' : Typed.Ref} {log : Log} (h : RefCheck t path r r' log)
    (same : t.lookup r.name r.span.start path' = t.lookup r.name r.span.start path) :
    RefCheck t path' r r' log := by
  cases h with
  | notFound looked => exact .notFound (same.trans looked)
  | notVariable looked symbol => exact .notVariable (same.trans looked) symbol
  | found looked symbol => exact .found (same.trans looked) symbol

/-- No name stands for a variable in the global scope. -/
theorem noVariable_global (p : Source.Program) (name : String) (pos : Pos) :
    (Declarations.ofProgram p).table.NoVariable name pos [0] := by
  obtain ⟨scope, found, kind, -⟩ := scope_at p (i := 0) (by simp [owners_ofProgram, Program.owners])
  unfold SymbolTable.NoVariable
  simp only [SymbolTable.lookup, found]
  cases named : scope.find? name with
  | none => exact .inl rfl
  | some id =>
    obtain ⟨s, symbol, -, isFn⟩ := named_symbol found named
    cases s with
    | var v => exact absurd (isFn.2 rfl) Bool.false_ne_true
    | fn g => exact .inr ⟨id, g, by simp [symbol, Scope.shows, kind.2 rfl], symbol⟩

/-- A scope of a function passes on the names that it does not have. -/
theorem lookup_of_firstIn_eq_none (p : Source.Program) {i : ScopeIndex}
    (inside : i < p.owners.length) {name : String} (first : firstIn p.declarations i name = none)
    (pos : Pos) (outer : ScopePath) :
    (Declarations.ofProgram p).table.lookup name pos (i :: outer) =
      (Declarations.ofProgram p).table.lookup name pos outer := by
  obtain ⟨scope, found, -, names⟩ := scope_at p (owners_ofProgram p ▸ inside)
  have missing : scope.find? name = none := by rw [names, entries_ofProgram, first]
  simp only [SymbolTable.lookup, found, missing]

/-- A scope of a function shows its variables behind their declarations. -/
theorem lookup_of_firstIn_eq_some (p : Source.Program) {i : ScopeIndex} (inner : i ≠ 0)
    (inside : i < p.owners.length) {name : String} {id : SymbolId}
    (first : firstIn p.declarations i name = some id) :
    ∃ v, (Declarations.ofProgram p).table.symbols[id]? = some (.var v) ∧
      p.declarations[id]?.map Entry.symbol = some (.var v) ∧
      ∀ (pos : Pos) (outer : ScopePath),
        (Declarations.ofProgram p).table.lookup name pos (i :: outer) =
          if v.pos.offset < pos.offset then .ok (some id)
          else (Declarations.ofProgram p).table.lookup name pos outer := by
  obtain ⟨scope, found, kind, names⟩ := scope_at p (owners_ofProgram p ▸ inside)
  have named : scope.find? name = some id := by rw [names, entries_ofProgram, first]
  obtain ⟨s, symbol, -, isFn⟩ := named_symbol found named
  obtain ⟨e, at_id, -, -⟩ := firstIn_eq_some first
  obtain ⟨_, symbol', bare⟩ := symbol_at p (entries_ofProgram p ▸ at_id)
  obtain rfl := Option.some.inj (symbol.symm.trans symbol')
  cases s with
  | fn g => exact absurd (isFn.1 rfl) inner
  | var v =>
    refine ⟨v, symbol, by rw [at_id, Option.map_some, ← bare]; rfl, fun pos outer => ?_⟩
    have block : (scope.kind == .global) = false := beq_eq_false_iff_ne.2 fun h => inner (kind.1 h)
    simp only [SymbolTable.lookup, found, named, symbol, Scope.shows, block, Bool.false_or,
      decide_eq_true_eq]
    rfl

/-! ## One function -/

variable {p : Source.Program} {before after : List Source.Function} {f : Source.Function}

/-- The scopes of a function that are open in a check of it by itself, and those that are open in
the unit. -/
def Abreast (before : List Source.Function) (f : Source.Function) (path path' : ScopePath) : Prop :=
  ∃ i inner, (∀ j ∈ i :: inner, Among 1 f.owners.length j) ∧ path = i :: inner ++ [0] ∧
    path' = (i :: inner).map (scopeCount before + ·) ++ [0]

theorem lt_owners_alone {i : Nat} (inside : Among 1 f.owners.length i) :
    i < (p.only f).owners.length := by
  rw [owners_only, List.length_cons, Nat.add_comm]
  exact inside.2

theorem lt_owners_unit (split : p.functions = before ++ f :: after) {i : Nat}
    (inside : Among 1 f.owners.length i) : scopeCount before + i < p.owners.length := by
  have owner := owners_alone split inside
  rw [List.getElem?_eq_getElem (lt_owners_alone inside)] at owner
  exact (List.getElem?_eq_some_iff.1 owner).1

/-- A reference in a function is resolved in the unit as it is in the function by itself. -/
theorem refCheck_alone (split : p.functions = before ++ f :: after) (r : Source.Ref)
    {inner : List Nat} (inside : ∀ i ∈ inner, Among 1 f.owners.length i) :
    ∃ r₁ log log', RefCheck (Declarations.ofProgram (p.only f)).table (inner ++ [0]) r r₁ log ∧
      RefCheck (Declarations.ofProgram p).table (inner.map (scopeCount before + ·) ++ [0]) r
        (r₁.rename .refl (p.symbolIn before)) log' ∧ BothSilent log log' := by
  -- what a scope does not show it passes on in both tables, in the end to the global scope
  induction inner with
  | nil =>
    obtain ⟨log, reported, check⟩ := RefCheck.of_noVariable (noVariable_global (p.only f) r.name
      r.span.start)
    obtain ⟨log', reported', check'⟩ := RefCheck.of_noVariable (noVariable_global p r.name
      r.span.start)
    exact ⟨_, log, log', check, check', iff_of_false reported reported'⟩
  | cons i outer ih =>
    obtain ⟨here, others⟩ := List.forall_mem_cons.1 inside
    obtain ⟨r₁, log, log', check, check', silent⟩ := ih others
    have first := firstIn_alone split here r.name
    cases first_lone : firstIn (p.only f).declarations i r.name with
    | none =>
      rw [first_lone] at first
      exact ⟨r₁, log, log',
        check.of_lookup (lookup_of_firstIn_eq_none _ (lt_owners_alone here) first_lone _ _),
        check'.of_lookup (lookup_of_firstIn_eq_none _ (lt_owners_unit split here) first _ _),
        silent⟩
    | some id =>
      rw [first_lone] at first
      have inner : i ≠ 0 := Nat.ne_of_gt here.1
      have inner' : scopeCount before + i ≠ 0 := fun h => inner (Nat.add_eq_zero_iff.1 h).2
      obtain ⟨v, symbol, declared, looked⟩ :=
        lookup_of_firstIn_eq_some _ inner (lt_owners_alone here) first_lone
      obtain ⟨v', symbol', declared', looked'⟩ :=
        lookup_of_firstIn_eq_some _ inner' (lt_owners_unit split here) first
      have inside : id < (p.only f).declarations.length :=
        (List.getElem?_eq_some_iff.1 (firstIn_eq_some first_lone).choose_spec.1).1
      obtain rfl : v' = v := by
        rw [symbols_alone split inside, declared] at declared'
        exact (Symbol.var.inj (Option.some.inj declared')).symm
      -- the variable and its position are the same, so both scopes show it or neither does
      by_cases shown : v'.pos.offset < r.span.start.offset
      · exact ⟨_, [], [], .found ((looked _ _).trans (if_pos shown)) symbol,
          .found ((looked' _ _).trans (if_pos shown)) symbol', Iff.rfl⟩
      · exact ⟨r₁, log, log', check.of_lookup ((looked _ _).trans (if_neg shown)),
          check'.of_lookup ((looked' _ _).trans (if_neg shown)), silent⟩

theorem declared_alone (split : p.functions = before ++ f :: after) {config : Config}
    {path path' : ScopePath} (here : Abreast before f path path') (name : String) (pos : Pos) :
    InStep .refl BothSilent path path' (fun id id' => id' = p.symbolIn before id)
      (declared ⟨(Declarations.ofProgram (p.only f)).table, config⟩ name pos)
      (declared ⟨(Declarations.ofProgram p).table, config⟩ name pos) := by
  obtain ⟨i, inner, inside, rfl, rfl⟩ := here
  have inside := inside i List.mem_cons_self
  obtain ⟨scope, found, -, names⟩ :=
    scope_at (p.only f) (owners_ofProgram _ ▸ lt_owners_alone inside)
  obtain ⟨scope', found', -, names'⟩ :=
    scope_at p (owners_ofProgram _ ▸ lt_owners_unit split inside)
  refine .get_bind fun s s' beside => ?_
  rw [beside.left, beside.right]
  simp only [List.map_cons, List.cons_append, found, found', names, names', entries_ofProgram,
    firstIn_alone split inside]
  cases firstIn (p.only f).declarations i name with
  | none => exact .throw rfl
  | some id => exact .pure rfl

theorem distinct_only (distinct : (p.owners.map Prod.fst).Nodup) (mem : f ∈ p.functions) :
    ((p.only f).owners.map Prod.fst).Nodup := by
  refine distinct.sublist (List.Sublist.map _ ?_)
  rw [owners_only, Program.owners, List.flatMap_def]
  exact (List.sublist_flatten_of_mem (List.mem_map_of_mem mem)).cons_cons _

/-- A node of a function owns the same scope in the unit. -/
theorem opened_alone (split : p.functions = before ++ f :: after)
    (distinct : (p.owners.map Prod.fst).Nodup) {inner : List Nat}
    (inside : ∀ i ∈ inner, Among 1 f.owners.length i) {id : NodeId}
    (owned : id ∈ f.owners.map Prod.fst) :
    Opened .refl (Abreast before f) (Declarations.ofProgram (p.only f)).table
      (Declarations.ofProgram p).table id (inner ++ [0])
      (inner.map (scopeCount before + ·) ++ [0]) := by
  obtain ⟨j, at_j⟩ := List.mem_iff_getElem?.1 owned
  have below : j < f.owners.length := by simpa using (List.getElem?_eq_some_iff.1 at_j).1
  have here : Among 1 f.owners.length (j + 1) := ⟨Nat.le_add_left 1 j, by omega⟩
  have owner : ((p.only f).owners.map Prod.fst)[j + 1]? = some id := by
    rwa [owners_only, List.map_cons, List.getElem?_cons_succ]
  have owner' : (p.owners.map Prod.fst)[scopeCount before + (j + 1)]? = some id := by
    rwa [List.getElem?_map, owners_alone split here, ← List.getElem?_map]
  refine .inr ⟨j + 1, scopeCount before + (j + 1), ?_, ?_, j + 1, inner,
    List.forall_mem_cons.2 ⟨here, inside⟩, rfl, rfl⟩
  · have mem : f ∈ p.functions := by simp [split]
    exact scopeIndex_at (owners_ofProgram _ ▸ distinct_only distinct mem)
      (owners_ofProgram _ ▸ owner)
  · exact scopeIndex_at (owners_ofProgram p ▸ distinct) (owners_ofProgram p ▸ owner')

theorem mem_owners_of_node {n : Node} {id : NodeId} (mem : n ∈ f.nodes) (owns : n.id? = some id) :
    id ∈ f.owners.map Prod.fst := by
  refine List.mem_map.2 ⟨(id, .block), List.mem_cons_of_mem _ ?_, rfl⟩
  exact List.mem_filterMap.2 ⟨n, mem, by rw [Node.owner?, owns]; rfl⟩

/-- A check of a function by itself and a check of it in its unit agree. -/
theorem agree_alone (split : p.functions = before ++ f :: after)
    (distinct : (p.owners.map Prod.fst).Nodup) (config : Config) :
    Agree .refl (p.symbolIn before) (· ∈ f.nodes) (Abreast before f) BothSilent
      ⟨(Declarations.ofProgram (p.only f)).table, config⟩
      ⟨(Declarations.ofProgram p).table, config⟩ where
  ref := by
    rintro _ _ ⟨i, inner, inside, rfl, rfl⟩ r s s' ⟨left, right, silent⟩
    obtain ⟨r₁, log, log', check, check', silent'⟩ := refCheck_alone split r inside
    rw [← left] at check
    rw [← right] at check'
    exact .inl ⟨r₁, _, _, _, check.run, check'.run, rfl, left, right, silent.append silent'⟩
  declared here name pos := declared_alone split here name pos
  opened := by
    rintro _ _ ⟨i, inner, inside, rfl, rfl⟩ n mem id owns
    exact opened_alone split distinct inside (mem_owners_of_node mem owns)
  report _ _ := iff_of_false (List.concat_ne_nil _ _) (List.concat_ne_nil _ _)
  branches silent _ _ _ _ _ _ _ := silent.append Iff.rfl

/-- The name of a function stands for it, by itself and in the unit. -/
theorem declaredFunction_alone (names : (p.functions.map Function.name).Nodup)
    (split : p.functions = before ++ f :: after) (config : Config) :
    InStep .refl BothSilent [0] [0] (fun id id' => id' = p.symbolIn before id)
      (declaredFunction ⟨(Declarations.ofProgram (p.only f)).table, config⟩ f.name f.span.start)
      (declaredFunction ⟨(Declarations.ofProgram p).table, config⟩ f.name f.span.start) := by
  have named {q : Source.Program} {before after : List Source.Function}
      (names : (q.functions.map Function.name).Nodup)
      (split : q.functions = before ++ f :: after) :
      (Declarations.ofProgram q).table.innermost? [0] f.name = some (q.symbolIn before 0) ∧
        ((Declarations.ofProgram q).table.functionAt (q.symbolIn before 0)).isSome := by
    obtain ⟨id, found, isFn⟩ := function_at q (f := f) (by simp [split])
    have inside : 0 < (ofProgram q).owners.length := by simp [owners_ofProgram, Program.owners]
    have first := innermost_at q [] inside f.name
    rw [entries_ofProgram, firstIn_function names split, found] at first
    obtain rfl := Option.some.inj first
    exact ⟨found, isFn⟩
  have lone : (p.only f).functions = [] ++ f :: [] := rfl
  obtain ⟨found, isFn⟩ := named (q := p.only f) (List.nodup_singleton _) lone
  obtain ⟨found', isFn'⟩ := named names split
  rintro ⟨_, log⟩ ⟨_, log'⟩ ⟨rfl, rfl, silent⟩
  exact .inl ⟨_, _, _, _, declaredFunction_eq_ok.2 ⟨found, isFn, rfl⟩,
    declaredFunction_eq_ok.2 ⟨found', isFn', rfl⟩, rfl, rfl, rfl, silent⟩

/-- A function is checked in its unit in step with a check of it by itself. -/
theorem checkFunction_alone (names : (p.functions.map Function.name).Nodup)
    (split : p.functions = before ++ f :: after) (distinct : (p.owners.map Prod.fst).Nodup)
    (config : Config) :
    InStep .refl BothSilent [0] [0] (fun g g' => g' = g.rename .refl (p.symbolIn before))
      (checkFunction ⟨(Declarations.ofProgram (p.only f)).table, config⟩ f)
      (checkFunction ⟨(Declarations.ofProgram p).table, config⟩ f) := by
  have outside : ∀ i ∈ ([] : List Nat), Among 1 f.owners.length i := nofun
  have walk := checkFunction_inStep (agree_alone split distinct config) f (fun _ mem => mem)
    (declaredFunction_alone names split config)
    (opened_alone split distinct outside List.mem_cons_self)
  rwa [Source.Function.rename_refl] at walk

/-! ## Silent checks -/

/-- A function that is checked silently by itself is checked silently in its unit. -/
theorem FunctionCheck.in_unit (names : (p.functions.map Function.name).Nodup)
    (split : p.functions = before ++ f :: after) (distinct : (p.owners.map Prod.fst).Nodup)
    {config : Config} {g : Typed.Function}
    (check : FunctionCheck ⟨(Declarations.ofProgram (p.only f)).table, config⟩ [0] f g []) :
    FunctionCheck ⟨(Declarations.ofProgram p).table, config⟩ [0] f
      (g.rename .refl (p.symbolIn before)) [] := by
  have ran := check.run (s := ⟨[0], []⟩) rfl
  rcases checkFunction_alone names split distinct config ⟨[0], []⟩ ⟨[0], []⟩
    ⟨rfl, rfl, Iff.rfl⟩ with ⟨_, _, _, _, ok, ok', rfl, beside⟩ | ⟨_, _, _, _, failed, -, -⟩
  · cases ran.symm.trans ok
    obtain ⟨log, check', rfl⟩ := checkFunction_shape ok'
    obtain rfl : log = [] := beside.log.1 rfl
    exact check'
  · cases ran.symm.trans failed

/-- A function that is checked silently in its unit is checked silently by itself. -/
theorem FunctionCheck.alone (names : (p.functions.map Function.name).Nodup)
    (split : p.functions = before ++ f :: after) (distinct : (p.owners.map Prod.fst).Nodup)
    {config : Config} {g' : Typed.Function}
    (check : FunctionCheck ⟨(Declarations.ofProgram p).table, config⟩ [0] f g' []) :
    ∃ g, FunctionCheck ⟨(Declarations.ofProgram (p.only f)).table, config⟩ [0] f g [] ∧
      g' = g.rename .refl (p.symbolIn before) := by
  have ran := check.run (s := ⟨[0], []⟩) rfl
  rcases checkFunction_alone names split distinct config ⟨[0], []⟩ ⟨[0], []⟩
    ⟨rfl, rfl, Iff.rfl⟩ with ⟨g, _, _, _, ok, ok', rfl, beside⟩ | ⟨_, _, _, _, -, failed, -⟩
  · cases ran.symm.trans ok'
    obtain ⟨log, check', rfl⟩ := checkFunction_shape ok
    obtain rfl : log = [] := beside.log.2 rfl
    exact ⟨g, check', rfl⟩
  · cases ran.symm.trans failed

end MiddleEnd
