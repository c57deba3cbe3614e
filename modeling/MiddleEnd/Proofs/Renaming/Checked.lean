import MiddleEnd.Proofs.Checked.InStep

/-!
# Checking under a renaming

A renamed table shows under a renamed name, from a renamed position, what the table shows under the
name from the position: names that differ still do, and a position is before another if it was. So a
check of a renamed program against a renamed table is in step with the check of the program.

Results:
1. `SymbolTable.lookup_rename`, `SymbolTable.scopeIndex?_rename`: what a renamed table shows.
2. `agree_rename`: checks against a table and the renamed one agree.
3. `checkProgram_rename`: whole programs, under settings that may differ.
-/

namespace MiddleEnd

open CheckM

variable (ρ : Renaming)

/-! ## Renamed tables -/

theorem Scope.find?_rename (s : Scope) (name : String) :
    (s.rename ρ).find? (ρ.name name) = s.find? name := by
  unfold find? rename
  induction s.names with
  | nil => rfl
  | cons entry rest ih =>
    rw [List.map_cons, List.lookup_cons, List.lookup_cons, ih]
    have same : (ρ.name name == ρ.name entry.1) = (name == entry.1) := by
      rw [Bool.eq_iff_iff, beq_iff_eq, beq_iff_eq]
      exact ρ.name_injective.eq_iff
    rw [same]

theorem Scope.shows_rename (s : Scope) (symbol : Symbol) (pos : Pos) :
    (s.rename ρ).shows (symbol.rename ρ) (pos.rename ρ) = s.shows symbol pos := by
  have order : (symbol.rename ρ).pos.offset < (pos.rename ρ).offset ↔
      symbol.pos.offset < pos.offset := by
    cases symbol <;> exact ρ.offset_strictMono.lt_iff_lt
  simp only [shows, rename, order]

theorem lastIndex?_map {p : β → Bool} {q : α → Bool} {f : α → β} (same : ∀ a, p (f a) = q a)
    (as : List α) : lastIndex? p (as.map f) = lastIndex? q as := by
  induction as with
  | nil => rfl
  | cons a rest ih => rw [List.map_cons, lastIndex?, lastIndex?, ih, same]

namespace SymbolTable

variable (t : SymbolTable)

theorem symbols_rename (id : SymbolId) :
    (t.rename ρ).symbols[id]? = t.symbols[id]?.map (Symbol.rename ρ) := List.getElem?_map

theorem scopes_rename (i : ScopeIndex) :
    (t.rename ρ).scopes[i]? = t.scopes[i]?.map (Scope.rename ρ) := List.getElem?_map

theorem scopeIndex?_rename (id : NodeId) :
    (t.rename ρ).scopeIndex? (ρ.node id) = t.scopeIndex? id := by
  refine lastIndex?_map (fun s => ?_) t.scopes
  rw [Bool.eq_iff_iff, beq_iff_eq, beq_iff_eq]
  exact ρ.node_injective.eq_iff

theorem functionAt_rename (id : SymbolId) :
    ((t.rename ρ).functionAt id).isSome = (t.functionAt id).isSome := by
  rw [functionAt, functionAt, symbols_rename]
  cases t.symbols[id]? with
  | none => rfl
  | some s => cases s <;> rfl

/-- A renamed table shows the same symbols. -/
theorem lookup_rename (name : String) (pos : Pos) (path : ScopePath) :
    (t.rename ρ).lookup (ρ.name name) (pos.rename ρ) path = t.lookup name pos path := by
  induction path with
  | nil => rfl
  | cons index outer ih =>
    simp only [lookup]
    rw [scopes_rename]
    cases t.scopes[index]? with
    | none => rfl
    | some scope =>
      simp only [Option.map_some, scope.find?_rename]
      cases scope.find? name with
      | none => exact ih
      | some id =>
        simp only [symbols_rename]
        cases t.symbols[id]? with
        | none => rfl
        | some symbol => simp only [Option.map_some, scope.shows_rename, ih]

theorem rename_refl : t.rename .refl = t := by
  obtain ⟨symbols, scopes⟩ := t
  have same (s : Symbol) : s.rename .refl = s := by
    cases s with
    | var v => rfl
    | fn f =>
      obtain ⟨_, _, _, _, _, _, entry⟩ := f
      cases entry <;> rfl
  have same' (s : Scope) : s.rename .refl = s := congrArg (Scope.mk s.id s.kind) (List.map_id _)
  rw [rename, List.map_congr_left fun s _ => same s, List.map_congr_left fun s _ => same' s,
    List.map_id', List.map_id']

end SymbolTable

/-! ## Checks -/

variable {ρ} {L : Log → Log → Prop} {t : SymbolTable} {config config' : Config}

theorem checkRef_rename (report : ∀ {log log'}, L log log' → ∀ e : Error,
      L (log ++ [e]) (log' ++ [e.rename ρ])) (path : ScopePath) (r : Source.Ref) :
    InStep ρ L path path (fun r₁ r₁' => r₁' = r₁.rename ρ id) (checkRef ⟨t, config⟩ r)
      (checkRef ⟨t.rename ρ, config'⟩ (r.rename ρ)) := by
  have issue (cause : Cause) : InStep ρ L path path (fun _ _ => True)
      (issue cause r.span.start) (CheckM.issue (cause.rename ρ) (r.span.start.rename ρ)) :=
    fun s s' beside => .inl ⟨(), _, (), _, rfl, rfl, trivial, beside.left, beside.right,
      report beside.log ⟨cause, r.span.start⟩⟩
  have lookup : InStep ρ L path path Eq (lookup ⟨t, config⟩ r.name r.span.start)
      (CheckM.lookup ⟨t.rename ρ, config'⟩ (ρ.name r.name) (r.span.start.rename ρ)) := by
    refine .get_bind fun s s' beside => ?_
    simp only [beside.left, beside.right, t.lookup_rename]
    cases t.lookup r.name r.span.start path with
    | ok id => exact .pure rfl
    | error fault => exact .throw rfl
  refine lookup.bind ?_
  rintro found _ rfl
  cases found with
  | none => exact (issue (.symbolNotFound r.name)).bind fun _ _ _ => .pure rfl
  | some id =>
    have symbol : InStep ρ L path path (fun s s' => s' = s.rename ρ) (symbol ⟨t, config⟩ id)
        (CheckM.symbol ⟨t.rename ρ, config'⟩ id) := by
      unfold CheckM.symbol
      simp only [t.symbols_rename]
      cases t.symbols[id]? with
      | none => exact .throw rfl
      | some s => exact .pure rfl
    refine symbol.bind ?_
    rintro s _ rfl
    cases s with
    | fn g => exact (issue (.notVariable r.name)).bind fun _ _ _ => .pure rfl
    | var v => exact .pure rfl

theorem declared_rename (path : ScopePath) (name : String) (pos : Pos) :
    InStep ρ L path path (fun i i' => i' = i) (declared ⟨t, config⟩ name pos)
      (declared ⟨t.rename ρ, config'⟩ (ρ.name name) (pos.rename ρ)) := by
  refine .get_bind fun s s' beside => ?_
  rw [beside.left, beside.right]
  cases path with
  | nil => exact .throw rfl
  | cons index outer =>
    simp only [t.scopes_rename]
    cases t.scopes[index]? with
    | none => exact .throw rfl
    | some scope =>
      simp only [Option.map_some, scope.find?_rename]
      cases scope.find? name with
      | none => exact .throw rfl
      | some id => exact .pure rfl

theorem declaredFunction_rename (path : ScopePath) (name : String) (pos : Pos) :
    InStep ρ L path path (fun i i' => i' = i) (declaredFunction ⟨t, config⟩ name pos)
      (declaredFunction ⟨t.rename ρ, config'⟩ (ρ.name name) (pos.rename ρ)) := by
  refine (declared_rename path name pos).bind ?_
  rintro _ i rfl
  have known := t.functionAt_rename ρ i
  cases found : t.functionAt i with
  | none =>
    rw [found, Option.isSome_none, Option.isSome_eq_false_iff, Option.isNone_iff_eq_none] at known
    simp only [known]
    exact .throw rfl
  | some g =>
    obtain ⟨g', found'⟩ := Option.isSome_iff_exists.1 (known.trans (by rw [found]; rfl))
    simp only [found']
    exact .pure rfl

theorem opened_rename (path : ScopePath) (id : NodeId) :
    Opened ρ Eq t (t.rename ρ) id path path := by
  unfold Opened
  rw [t.scopeIndex?_rename]
  cases t.scopeIndex? id with
  | none => exact .inl ⟨rfl, rfl⟩
  | some i => exact .inr ⟨i, i, rfl, rfl, rfl⟩

/-- Checks against a table and the renamed one agree if their logs stay alike. -/
theorem agree_rename {N : Source.Node → Prop}
    (report : ∀ {log log'}, L log log' → ∀ e : Error, L (log ++ [e]) (log' ++ [e.rename ρ]))
    (branches : ∀ {log log'}, L log log' → ∀ {test ifTrue ifFalse : Source.Expr} {span : Span},
      N (.expr (.cond test ifTrue ifFalse span)) → ∀ a b : Ty,
        L (log ++ branchesReport config ifFalse.span.start a b)
          (log' ++ branchesReport config' (ifFalse.span.start.rename ρ) a b)) :
    Agree ρ id N Eq L ⟨t, config⟩ ⟨t.rename ρ, config'⟩ where
  ref := by
    rintro path _ rfl r
    exact checkRef_rename report path r
  declared := by
    rintro path _ rfl name pos
    exact declared_rename path name pos
  opened := by
    rintro path _ rfl n - id -
    exact opened_rename path id
  report := report
  branches := branches

/-- The check of a renamed program against a renamed table ends as the check of the program does, if
the logs stay alike: with the same error, or with the same tree and logs that are alike. -/
theorem checkProgram_rename (p : Source.Program) (silent : L [] [])
    (agree : Agree ρ id (fun n => ∃ f ∈ p.functions, n ∈ f.nodes) Eq L ⟨t, config⟩
      ⟨t.rename ρ, config'⟩) :
    (∃ typed log log', checkProgram ⟨t, config⟩ p = .ok (typed, log) ∧
        checkProgram ⟨t.rename ρ, config'⟩ (p.rename ρ) = .ok (typed.rename ρ, log') ∧
        L log log') ∨
      ∃ e, checkProgram ⟨t, config⟩ p = .error e ∧
        checkProgram ⟨t.rename ρ, config'⟩ (p.rename ρ) = .error (e.rename ρ) := by
  have walk : InStep ρ L [] [] (fun fs fs' => fs' = fs.map (Typed.Function.rename ρ id))
      (checkFunctions ⟨t, config⟩ p) (checkFunctions ⟨t.rename ρ, config'⟩ (p.rename ρ)) := by
    refine (opened_rename [] p.id).inScope p.span.start ?_
    rintro i _ ⟨⟩
    refine Lockstep.mapM fun f mem => ?_
    exact checkFunction_inStep agree f (fun n here => ⟨f, mem, here⟩)
      (declaredFunction_rename _ f.name f.span.start) (opened_rename _ f.body.id)
  rcases checkProgram_inStep silent walk with ⟨fs, log, log', checked⟩ | failed
  · exact .inl ⟨⟨fs⟩, log, log', checked⟩
  · exact .inr failed

end MiddleEnd
