import MiddleEnd.Proofs.Checked.Alone
import MiddleEnd.Proofs.Lowered.InStep

/-!
# Lowering one function of a unit

A function is lowered in its unit as it is by itself, with its temporaries moved behind those of the
functions before it and its labels behind theirs. The functions before it cannot interfere: what
they record in the table is about their own symbols.

Results:
1. `lowerFunction_alone`: a function, after others.
2. `lowerFunctions_alone`, `lowerProgram_alone`: the functions of a unit one after the other.
3. `FunctionCode.entry`: the name that a piece is entered by.
-/

namespace MiddleEnd

open Survey Source Source.Program

namespace Source.Program

/-! ## Symbols of later functions -/

/-- The symbols of the functions behind `before`: the functions, and what they declare inside. -/
def Ahead (p : Program) (before : List Function) (id : Nat) : Prop :=
  before.length ≤ id ∧ id < p.functions.length ∨ p.functions.length + localCount before ≤ id

variable {p : Program} {before after : List Function} {f : Function}

theorem ahead_symbolIn (inside : before.length < p.functions.length) (id : SymbolId) :
    p.Ahead before (p.symbolIn before id) := by
  cases id with
  | zero => exact .inl ⟨Nat.le_refl _, inside⟩
  | succ id =>
    rw [symbolIn_succ]
    exact .inr (Nat.le_add_right _ _)

theorem localCount_concat (before : List Function) (f : Function) :
    localCount (before ++ [f]) = localCount before + f.locals.length := by
  simp [localCount]

theorem Ahead.of_concat {id : SymbolId} (ahead : p.Ahead (before ++ [f]) id) :
    p.Ahead before id := by
  unfold Ahead at *
  rw [List.length_append, localCount_concat] at ahead
  exact ahead.imp (fun ⟨above, below⟩ => ⟨Nat.le_of_add_right_le above, below⟩)
    fun above => Nat.le_of_add_right_le (Nat.add_assoc .. ▸ above)

/-- The symbols of a function are none of those behind it. -/
theorem Ahead.ne_symbolIn {id own : Nat} (ahead : p.Ahead (before ++ [f]) id)
    (inside : before.length < p.functions.length) (below : own < 1 + f.locals.length) :
    id ≠ p.symbolIn before own := by
  unfold Ahead at ahead
  rw [List.length_append, List.length_singleton, localCount_concat] at ahead
  rintro rfl
  cases own with
  | zero =>
    rw [symbolIn_zero] at ahead
    omega
  | succ own =>
    rw [symbolIn_succ] at ahead
    omega

end Source.Program

variable {p : Source.Program} {before after : List Source.Function} {f : Source.Function}
  {config : Config}

/-! ## One function -/

theorem length_symbols_only (p : Source.Program) (f : Source.Function) :
    (Declarations.ofProgram (p.only f)).table.symbols.length = 1 + f.locals.length := by
  rw [(declared_describes _).symbols_length, entries_ofProgram, declarations, List.length_append,
    List.length_map, length_declarationsIn, localCount, only, List.flatMap_singleton]
  rfl

/-- A symbol of a function is not bound yet, by itself or in the unit. -/
theorem symbol_alone (split : p.functions = before ++ f :: after) {id : SymbolId}
    (inside : id < (Declarations.ofProgram (p.only f)).table.symbols.length) (a : Int) :
    Option.Rel (Symbol.Moved .refl a) (Declarations.ofProgram (p.only f)).table.symbols[id]?
      (Declarations.ofProgram p).table.symbols[p.symbolIn before id]? := by
  rw [(declared_describes _).symbols_length, entries_ofProgram] at inside
  have same := symbols_alone split inside
  rw [List.getElem?_eq_getElem inside, Option.map_some] at same
  obtain ⟨e', at_id', same⟩ := Option.map_eq_some_iff.1 same
  have at_id : (ofProgram (p.only f)).entries[id]? = some (p.only f).declarations[id] := by
    rw [entries_ofProgram, List.getElem?_eq_getElem inside]
  obtain ⟨s, symbol, bare⟩ := symbol_at (p.only f) at_id
  obtain ⟨s', symbol', bare'⟩ := symbol_at p (entries_ofProgram p ▸ at_id')
  have alike : s'.bare = s.bare := by rw [bare', same, bare]
  rw [symbol, symbol']
  cases s with
  | var v =>
    cases s' with
    | fn g => cases alike
    | var v' =>
      obtain rfl : v' = v := Symbol.var.inj alike
      have unbound := tempOf_eq_none (p.only f) id
      rw [SymbolTable.tempOf, SymbolTable.variableAt, symbol] at unbound
      have unbound : v'.temp = none := unbound
      refine .some (.var ?_)
      rw [VariableInfo.Moved, unbound]
      exact .none
  | fn g =>
    cases s' with
    | var v => cases alike
    | fn g' =>
      obtain ⟨name, -, -, -, -, offset, entry⟩ := FunctionInfo.mk.inj (Symbol.fn.inj alike)
      exact .some (.fn ⟨name, entry.trans (congrFun Option.map_id _).symm, offset⟩)

/-- A lowering that has not met the functions behind `before` yet. -/
def Untouched (p : Source.Program) (before : List Source.Function) (s : Lowering) : Prop :=
  ∀ id, p.Ahead before id → s.symbols.symbols[id]? = (Declarations.ofProgram p).table.symbols[id]?

/-- A function by itself is checked silently and lowered to `code`. -/
def Source.Program.Lowers (p : Source.Program) (config : Config) (f : Source.Function)
    (code : Code) : Prop :=
  ∃ g, FunctionCheck ⟨(Declarations.ofProgram (p.only f)).table, config⟩ [0] f g [] ∧
    (lowerProgram config (Declarations.ofProgram (p.only f)).table ⟨[g]⟩).1 = .ok code

/-- A function is lowered after others as it is by itself, or fails after them as it does by
itself. -/
theorem lowerFunction_alone (config : Config) (split : p.functions = before ++ f :: after)
    {g : Typed.Function}
    (known : ∀ need ∈ g.needs,
      need.Known (Declarations.ofProgram (p.only f)).table.symbols.length)
    {s : Lowering} (untouched : Untouched p before s) :
    (∃ one piece s',
      (lowerProgram config (Declarations.ofProgram (p.only f)).table ⟨[g]⟩).1 = .ok ⟨[one]⟩ ∧
      lowerFunction config (g.rename .refl (p.symbolIn before)) s = .ok () s' ∧
      s'.emitter.finished = s.emitter.finished ++ [piece] ∧
      one.Moved s.emitter.temps s.emitter.labels piece ∧ Untouched p (before ++ [f]) s') ∨
    ∃ e s', (lowerProgram config (Declarations.ofProgram (p.only f)).table ⟨[g]⟩).1 = .error e ∧
      lowerFunction config (g.rename .refl (p.symbolIn before)) s = .error e s' := by
  have inside : before.length < p.functions.length := by simp [split]
  -- by itself the function starts from zero, so it is moved to where the unit stands
  let δ : Shift := ⟨.refl, p.symbolIn before, symbolIn_injective inside,
    (· < (Declarations.ofProgram (p.only f)).table.symbols.length), s.emitter.temps,
    s.emitter.labels⟩
  have start : δ.Beside [] s.emitter.finished s.symbols.symbols (fun _ _ => True)
      { symbols := (Declarations.ofProgram (p.only f)).table } s := by
    refine ⟨(Int.zero_add _).symm, (Int.zero_add _).symm, trivial, rfl, rfl, fun id own => ?_,
      fun _ _ => rfl⟩
    rw [untouched _ (ahead_symbolIn inside id)]
    exact symbol_alone split own _
  have owns : δ.Owns g.needs := fun need mem => (known need mem).symbol
  rcases lowerFunction_inStep config g owns _ _ start with
    ⟨u, s₁, u', s', ran, ran', -, one, piece, moved, beside⟩ |
    ⟨e, s₁, e', s', failed, failed', rfl⟩
  · refine .inl ⟨one, piece, s', ?_, ran', beside.finished', ?_, fun id ahead => ?_⟩
    · exact (lowerProgram_of_ok (bind_of_ok ran)).trans
        (congrArg (fun pieces => Except.ok (Code.mk pieces)) beside.finished)
    · exact moved
    · refine (beside.frame id fun own owned => ?_).trans (untouched id ahead.of_concat)
      exact ahead.ne_symbolIn inside (length_symbols_only p f ▸ owned)
  · have failed' : lowerFunction config (g.rename .refl (p.symbolIn before)) s =
        .error (e.rename .refl) s' := failed'
    rw [Error.rename_refl] at failed'
    exact .inr ⟨e, s', lowerProgram_of_error (bind_of_error failed), failed'⟩

/-! ## Functions in a row -/

theorem Source.Program.Lowers.unique {code : Code} (h : p.Lowers config f code)
    {g : Typed.Function}
    (check : FunctionCheck ⟨(Declarations.ofProgram (p.only f)).table, config⟩ [0] f g []) :
    (lowerProgram config (Declarations.ofProgram (p.only f)).table ⟨[g]⟩).1 = .ok code := by
  obtain ⟨g', check', lowered⟩ := h
  have ran := check.run (s := ⟨[0], []⟩) rfl
  cases ran.symm.trans (check'.run rfl)
  exact lowered

/-- Functions are lowered one after the other as they are by themselves, or one of them fails. -/
theorem lowerFunctions_alone {rest : List Source.Function}
    (names : (p.functions.map Source.Function.name).Nodup)
    (distinct : (p.owners.map Prod.fst).Nodup) (split : p.functions = before ++ rest)
    {gs : List Typed.Function} {log : Log}
    (checks : FunctionsCheck ⟨(Declarations.ofProgram p).table, config⟩ [0] rest gs log)
    (silent : log = []) {s : Lowering} (untouched : Untouched p before s) :
    (∃ pieces s', gs.forM (lowerFunction config) s = .ok () s' ∧
      s'.emitter.finished = s.emitter.finished ++ pieces ∧
      List.Forall₂ (fun f piece => ∃ (one : Piece) (a b : Int),
        p.Lowers config f ⟨[one]⟩ ∧ one.Moved a b piece) rest pieces) ∨
    ∃ e s', gs.forM (lowerFunction config) s = .error e s' ∧
      ∃ f ∈ rest, ∀ code, ¬p.Lowers config f code := by
  -- what is kept is that the symbols of the functions that are left were not touched
  induction rest generalizing before gs log s with
  | nil =>
    cases checks
    exact .inl ⟨[], s, rfl, (List.append_nil _).symm, .nil⟩
  | cons f rest ih =>
    cases checks with
    | cons check others =>
      obtain ⟨rfl, silent⟩ := List.append_eq_nil_iff.1 silent
      obtain ⟨g, lone, rfl⟩ := check.alone names split distinct
      have known := lone.known (linked_ofProgram (p.only f))
      rcases lowerFunction_alone config split known untouched with
        ⟨one, piece, s₁, lowered, ran, finished, moved, untouched⟩ | ⟨e, s₁, failed, failed'⟩
      · have behind : p.functions = (before ++ [f]) ++ rest := by simp [split]
        rcases ih behind others silent untouched with
          ⟨pieces, s', ran', finished', each⟩ | ⟨e, s', failed, f', mem, fails⟩
        · refine .inl ⟨piece :: pieces, s', (bind_of_ok ran).trans ran', ?_,
            .cons ⟨one, _, _, ⟨g, lone, lowered⟩, moved⟩ each⟩
          rw [finished', finished, List.append_assoc, List.singleton_append]
        · exact .inr ⟨e, s', (bind_of_ok ran).trans failed, f', List.mem_cons_of_mem _ mem, fails⟩
      · refine .inr ⟨e, s₁, bind_of_error failed', f, List.mem_cons_self, fun code lowers => ?_⟩
        cases failed.symm.trans (lowers.unique lone)

/-- The functions of a unit are lowered as they are by themselves, or one of them fails. -/
theorem lowerProgram_alone (names : (p.functions.map Source.Function.name).Nodup)
    (distinct : (p.owners.map Prod.fst).Nodup) {gs : List Typed.Function}
    (checks : FunctionsCheck ⟨(Declarations.ofProgram p).table, config⟩ [0] p.functions gs []) :
    (∃ pieces, (lowerProgram config (Declarations.ofProgram p).table ⟨gs⟩).1 = .ok ⟨pieces⟩ ∧
      List.Forall₂ (fun f piece => ∃ (one : Piece) (a b : Int),
        p.Lowers config f ⟨[one]⟩ ∧ one.Moved a b piece) p.functions pieces) ∨
    ∃ e, (lowerProgram config (Declarations.ofProgram p).table ⟨gs⟩).1 = .error e ∧
      ∃ f ∈ p.functions, ∀ code, ¬p.Lowers config f code := by
  have start : Untouched p [] { symbols := (Declarations.ofProgram p).table } := fun _ _ => rfl
  rcases lowerFunctions_alone names distinct rfl checks rfl start with
    ⟨pieces, s, ran, finished, each⟩ | ⟨e, s, failed, fails⟩
  · refine .inl ⟨pieces, (lowerProgram_of_ok ran).trans ?_, each⟩
    exact congrArg (fun pieces => Except.ok (Code.mk pieces)) finished
  · exact .inr ⟨e, lowerProgram_of_error failed, fails⟩

/-! ## Entries -/

theorem Cursor.functionAt_placeParams (size offset : Int) (ps : List Typed.Param) (c : Cursor)
    (id : SymbolId) :
    (c.placeParams size offset ps).symbols.functionAt id = c.symbols.functionAt id := by
  induction ps generalizing offset c with
  | nil => rfl
  | cons q rest ih => exact (ih _ _).trans (SymbolTable.functionAt_modifyVariable ..)

theorem ParamsCode.functionAt {order : Nat} {ps : List Typed.Param} {c c' : Cursor}
    {temps : List Temp} (h : ParamsCode order ps c temps c') (id : SymbolId) :
    c'.symbols.functionAt id = c.symbols.functionAt id := by
  induction h with
  | nil => rfl
  | cons _ _ ih =>
    exact ih.trans ((SymbolTable.functionAt_modifyVariable ..).trans
      (SymbolTable.functionAt_modifyVariable ..))

/-- A piece is entered by the name of its function. -/
theorem FunctionCode.entry {g : Typed.Function} {c c' : Cursor} {piece : Piece}
    (h : FunctionCode config g c piece c') {info : FunctionInfo}
    (found : c.symbols.functionAt g.symbol = some info) : piece.entry = info.name := by
  cases h with
  | @mk info' entered _ c₁ c₂ _ _ temps _ _ isFn params placed again _ _ =>
    obtain rfl := Option.some.inj (isFn.symm.trans found)
    have named : c₁.symbols.functionAt g.symbol = some { info' with entry := some info'.name } := by
      rw [params.functionAt, Cursor.recordFunction]
      exact (SymbolTable.functionAt_modifyFunction ..).trans (by rw [if_pos rfl, isFn]; rfl)
    rw [placed, Cursor.recordFunction] at again
    have again := (SymbolTable.functionAt_modifyFunction ..).symm.trans again
    rw [if_pos rfl, Cursor.functionAt_placeParams, named] at again
    cases again
    rfl

/-- A checked function has the symbol of a function with its name. -/
theorem FunctionCheck.named {g : Typed.Function} {log : Log}
    (h : FunctionCheck ⟨(Declarations.ofProgram p).table, config⟩ [0] f g log) :
    ∃ info, (Declarations.ofProgram p).table.functionAt g.symbol = some info ∧
      info.name = f.name := by
  cases h with
  | mk named isFn _ _ _ =>
    obtain ⟨scope, found, named⟩ := Option.bind_eq_some_iff.1 named
    obtain ⟨s, symbol, name, -⟩ := named_symbol found named
    cases s with
    | var v =>
      rw [SymbolTable.functionAt, symbol] at isFn
      cases isFn
    | fn info => exact ⟨info, by rw [SymbolTable.functionAt, symbol]; rfl, name⟩

/-- By itself a function is entered by its name. -/
theorem Source.Program.Lowers.entry {one : Piece} (h : p.Lowers config f ⟨[one]⟩) :
    one.entry = f.name := by
  obtain ⟨g, check, lowered⟩ := h
  obtain ⟨info, found, name⟩ := check.named
  obtain ⟨s, -, -, -, codes⟩ := lowerProgram_shape (Prod.ext lowered rfl)
  cases codes with
  | cons code _ => exact (code.entry found).trans name

end MiddleEnd
