import MiddleEnd.Proofs.Lowered.Settings

/-!
# What lowering records

Lowering writes down where everything ended up: a temporary for each variable, a number and a place
for each parameter, an entry and a frame for each function. A body records temporaries only. So what
is recorded of one function besides stays as it is while the functions behind it are lowered.

Results:
1. `StmtCode.keeps`: a statement records nothing but temporaries.
2. `ParamsCode.marks`, `Cursor.placeParams_marks`: parameters are numbered, and placed.
3. `FunctionsCode.records`, `FunctionsCode.homes`: what is recorded at the end of each function.
-/

namespace MiddleEnd

/-! ## What lowering records beside temporaries -/

/-- A variable without the temporary that holds it. -/
def VariableInfo.unbound (v : VariableInfo) : VariableInfo := { v with temp := none }

namespace SymbolTable

/-- What is recorded about a variable beside the temporary that holds it. -/
def recordOf (t : SymbolTable) (x : SymbolId) : Option VariableInfo :=
  (t.variableAt x).map VariableInfo.unbound

/-- From `t` to `t'` nothing is recorded but temporaries. -/
structure Keeps (t t' : SymbolTable) : Prop where
  functions : t'.functionAt = t.functionAt
  records : t'.recordOf = t.recordOf

/-- From `t` to `t'`, beside temporaries, `f i` is recorded about the `i`-th of the variables `xs`,
and nothing about other variables. -/
structure Marks (t : SymbolTable) (f : Nat → VariableInfo → VariableInfo) (xs : List SymbolId)
    (t' : SymbolTable) : Prop where
  others : ∀ x, x ∉ xs → t'.recordOf x = t.recordOf x
  marked : ∀ i x, xs[i]? = some x → t'.recordOf x = (t.recordOf x).map (f i)

variable {t t₁ t' : SymbolTable} {f g : Nat → VariableInfo → VariableInfo} {x : SymbolId}
  {xs : List SymbolId}

theorem Keeps.refl (t : SymbolTable) : t.Keeps t := ⟨rfl, rfl⟩

theorem Keeps.trans (h₁ : t.Keeps t₁) (h₂ : t₁.Keeps t') : t.Keeps t' :=
  ⟨h₂.functions.trans h₁.functions, h₂.records.trans h₁.records⟩

/-- A binding is nothing but a temporary. -/
theorem Keeps.bind (t : SymbolTable) (x : SymbolId) (temp : Option Temp) :
    t.Keeps (t.modifyVariable x fun v => { v with temp }) := by
  refine ⟨funext fun _ => functionAt_modifyVariable .., funext fun y => ?_⟩
  rw [recordOf, variableAt_modifyVariable, recordOf]
  split
  · rw [Option.map_map]
    rfl
  · rfl

theorem recordOf_modifyVariable {f : VariableInfo → VariableInfo}
    (beside : ∀ v, (f v).unbound = f v.unbound) (t : SymbolTable) (x y : SymbolId) :
    (t.modifyVariable x f).recordOf y = if x = y then (t.recordOf y).map f else t.recordOf y := by
  rw [recordOf, variableAt_modifyVariable, recordOf]
  split
  · rw [Option.map_map, Option.map_map]
    exact congrArg (fun f => Option.map f _) (funext beside)
  · rfl

theorem Keeps.marks (h : t.Keeps t₁) (marks : t₁.Marks f xs t') : t.Marks f xs t' := by
  refine ⟨fun x mem => ?_, fun i x at_i => ?_⟩
  · rw [marks.others x mem, h.records]
  · rw [marks.marked i x at_i, h.records]

theorem Marks.nil (t : SymbolTable) (f : Nat → VariableInfo → VariableInfo) : t.Marks f [] t :=
  ⟨fun _ _ => rfl, nofun⟩

/-- The first of the variables is recorded, and then the others. -/
theorem Marks.cons {f₀ : VariableInfo → VariableInfo} (first : f 0 = f₀)
    (beside : ∀ v, (f₀ v).unbound = f₀ v.unbound) (fresh : x ∉ xs)
    (rest : (t.modifyVariable x f₀).Marks (fun i => f (i + 1)) xs t') : t.Marks f (x :: xs) t' := by
  have one := recordOf_modifyVariable beside t x
  refine ⟨fun y mem => ?_, fun i y at_i => ?_⟩
  · obtain ⟨other, mem⟩ := List.ne_and_not_mem_of_not_mem_cons mem
    rw [rest.others y mem, one, if_neg other.symm]
  · cases i with
    | zero =>
      obtain rfl : x = y := by simpa using at_i
      rw [rest.others x fresh, one, if_pos rfl, first]
    | succ i =>
      have at_i : xs[i]? = some y := by simpa using at_i
      have other : x ≠ y := fun same => fresh (same ▸ List.mem_of_getElem? at_i)
      rw [rest.marked i y at_i, one, if_neg other]

/-- What is done to variables in two rounds. -/
theorem Marks.trans (h₁ : t.Marks f xs t₁) (h₂ : t₁.Marks g xs t') :
    t.Marks (fun i v => g i (f i v)) xs t' := by
  refine ⟨fun x mem => ?_, fun i x at_i => ?_⟩
  · rw [h₂.others x mem, h₁.others x mem]
  · rw [h₂.marked i x at_i, h₁.marked i x at_i, Option.map_map]
    rfl

end SymbolTable

theorem ExprCode.symbols_eq {e : Typed.Expr} {c c' : Cursor} {t : Temp} {code : List Instr}
    (h : ExprCode e c t code c') : c'.symbols = c.symbols := by
  induction h with
  | const | var => rfl
  | unary _ ih | assign _ _ ih => exact ih
  | binary _ _ ih₁ ih₂ => exact ih₂.trans ih₁
  | cond _ _ _ ih₁ ih₂ ih₃ => exact ih₃.trans (ih₂.trans ih₁)

theorem EffectCode.symbols_eq {e : Option Typed.Expr} {c c' : Cursor} {code : List Instr}
    (h : EffectCode e c code c') : c'.symbols = c.symbols := by
  cases h with
  | none => rfl
  | some h => exact h.symbols_eq

theorem TestCode.symbols_eq {exit : Label} {test : Option Typed.Expr} {c c' : Cursor}
    {code : List Instr} (h : TestCode exit test c code c') : c'.symbols = c.symbols := by
  cases h with
  | none => rfl
  | some h => exact h.symbols_eq

theorem ImplicitReturnCode.symbols_eq {config : Config} {c c' : Cursor} {code : List Instr}
    (h : ImplicitReturnCode config c code c') : c'.symbols = c.symbols := by
  cases h <;> rfl

theorem VarDeclCode.keeps {d : Typed.VarDecl} {c c' : Cursor} {code : List Instr}
    (h : VarDeclCode d c code c') : c.symbols.Keeps c'.symbols := by
  cases h with
  | plain => exact .bind ..
  | init _ _ h =>
    rw [h.symbols_eq]
    exact .bind ..

theorem ForInitCode.keeps {init : Option Typed.ForInit} {c c' : Cursor} {code : List Instr}
    (h : ForInitCode init c code c') : c.symbols.Keeps c'.symbols := by
  cases h with
  | none => exact .refl _
  | decl h => exact h.keeps
  | expr h => exact h.symbols_eq ▸ .refl _

/-- The code of a statement records nothing but temporaries. -/
theorem StmtCode.keeps {targets : Option LoopTargets} {s : Typed.Stmt} {c c' : Cursor}
    {code : List Instr} (h : StmtCode targets s c code c') : c.symbols.Keeps c'.symbols := by
  induction h with
  | decl h => exact h.keeps
  | expr h | ret h => exact h.symbols_eq ▸ .refl _
  | empty | done | brk | cont => exact .refl _
  | next _ _ ih₁ ih₂ => exact ih₁.trans ih₂
  | ite h _ _ ih₁ ih₂ =>
    rw [h.symbols_eq] at ih₁
    exact ih₁.trans ih₂
  | loop _ h _ ih =>
    rw [h.symbols_eq] at ih
    exact ih
  | forLoop h₁ h₂ _ h₄ ih =>
    rw [h₂.symbols_eq] at ih
    rw [h₄.symbols_eq]
    exact h₁.keeps.trans ih

/-! ## One function -/

/-- Parameters are numbered in order. -/
theorem ParamsCode.marks {order : Nat} {ps : List Typed.Param} {c c' : Cursor} {temps : List Temp}
    (h : ParamsCode order ps c temps c') (nodup : (ps.map Typed.Param.symbol).Nodup) :
    c.symbols.Marks (fun i v => { v with order := some (order + i) })
      (ps.map Typed.Param.symbol) c'.symbols := by
  induction h with
  | nil => exact .nil ..
  | @cons order p rest c _ _ _ _ ih =>
    obtain ⟨fresh, nodup⟩ := List.nodup_cons.1 nodup
    have others := ih nodup
    simp only [Nat.add_right_comm order 1] at others
    exact (SymbolTable.Keeps.bind c.symbols p.symbol (some c.temps)).marks
      (.cons rfl (fun _ => rfl) fresh others)

/-- Parameters are placed one behind the other. -/
theorem Cursor.placeParams_marks (size : Int) {ps : List Typed.Param}
    (nodup : (ps.map Typed.Param.symbol).Nodup) (offset : Int) (c : Cursor) :
    c.symbols.Marks (fun i v => { v with offset := some (offset + i * size) })
      (ps.map Typed.Param.symbol) (c.placeParams size offset ps).symbols := by
  induction ps generalizing offset c with
  | nil => exact .nil ..
  | cons p rest ih =>
    obtain ⟨fresh, nodup⟩ := List.nodup_cons.1 nodup
    have others := ih nodup (offset + size) (c.record p.symbol fun v =>
      { v with offset := some offset })
    have next (i : Nat) : offset + size + i * size = offset + (i + 1 : Nat) * size := by
      rw [Int.natCast_succ, Int.add_mul, Int.one_mul, Int.add_assoc, Int.add_comm size]
    simp only [next] at others
    have first : (fun v : VariableInfo => { v with offset := some (offset + (0 : Nat) * size) }) =
        fun v => { v with offset := some offset } := by simp
    exact .cons first (fun _ => rfl) fresh others

/-- The symbols of the parameters of a function. -/
def Typed.Function.paramIds (g : Typed.Function) : List SymbolId := g.params.map Param.symbol

theorem recordOf_recordFunction (c : Cursor) (id : SymbolId) (f : FunctionInfo → FunctionInfo) :
    (c.recordFunction id f).symbols.recordOf = c.symbols.recordOf :=
  funext fun _ => congrArg _ (SymbolTable.variableAt_modifyFunction ..)

/-- What is recorded when a function is lowered to a piece. -/
structure Typed.Function.Records (g : Typed.Function) (size : Int) (piece : Piece)
    (t t' : SymbolTable) : Prop where
  arity : piece.params.length = g.params.length
  offset : piece.offset = g.params.length * size
  function : ∃ info, t.functionAt g.symbol = some info ∧ piece.entry = info.name ∧
    t'.functionAt g.symbol =
      some { info with entry := some info.name, offset := g.params.length * size }
  param : ∀ i x, g.paramIds[i]? = some x →
    t'.recordOf x = (t.recordOf x).map fun v =>
      { v with order := some i, offset := some (i * size) }

/-- What is left alone when functions are lowered. -/
structure Typed.LeaveAlone (gs : List Typed.Function) (t t' : SymbolTable) : Prop where
  functions : ∀ id, id ∉ gs.map Function.symbol → t'.functionAt id = t.functionAt id
  others : ∀ x, x ∉ gs.flatMap Function.paramIds → t'.recordOf x = t.recordOf x

variable {config : Config}

theorem ParamsCode.length_eq {order : Nat} {ps : List Typed.Param} {c c' : Cursor}
    {temps : List Temp} (h : ParamsCode order ps c temps c') : temps.length = ps.length := by
  induction h with
  | nil => rfl
  | cons _ _ ih => rw [List.length_cons, List.length_cons, ih]

/-- Of functions, only the one that is lowered is changed: it gets its entry before its parameters
are bound, and its frame when they are placed. -/
theorem FunctionCode.functionAt {g : Typed.Function} {c c' : Cursor} {piece : Piece}
    (h : FunctionCode config g c piece c') {info : FunctionInfo}
    (found : c.symbols.functionAt g.symbol = some info) (id : SymbolId) :
    c'.symbols.functionAt id = if g.symbol = id then (c.symbols.functionAt id).map fun info' =>
      { info' with entry := some info.name, offset := g.params.length * config.pointerSize }
    else c.symbols.functionAt id := by
  cases h with
  | mk isFn params placed _ body ends =>
    cases isFn.symm.trans found
    rw [ends.symbols_eq, body.keeps.functions, placed, Cursor.recordFunction]
    refine (SymbolTable.functionAt_modifyFunction ..).trans ?_
    rw [Cursor.functionAt_placeParams, params.functionAt, Cursor.recordFunction,
      SymbolTable.functionAt_modifyFunction, params.length_eq]
    split
    · exact Option.map_map ..
    · rfl

/-- A function and its parameters are recorded before its body is lowered, which leaves them
alone. -/
theorem FunctionCode.records {g : Typed.Function} {c c' : Cursor} {piece : Piece}
    (h : FunctionCode config g c piece c') (nodup : g.paramIds.Nodup) :
    g.Records config.pointerSize piece c.symbols c'.symbols ∧
      Typed.LeaveAlone [g] c.symbols c'.symbols := by
  obtain ⟨info, found⟩ := h.found
  have functions := h.functionAt found
  have entry := h.entry found
  have offset := h.offset_eq
  cases h with
  | @mk _ _ _ c₁ _ _ _ _ _ _ _ params placed _ body ends =>
    have arity := params.length_eq
    rw [arity] at offset
    have marks := (params.marks nodup).trans (c₁.placeParams_marks config.pointerSize nodup 0)
    have keeps := body.keeps
    rw [← ends.symbols_eq, placed] at keeps
    have records := keeps.records.trans (recordOf_recordFunction ..)
    refine ⟨⟨arity, offset, ⟨info, found, entry, ?_⟩, fun i x at_i => ?_⟩,
      ⟨fun id other => ?_, fun x other => ?_⟩⟩
    · rw [functions, if_pos rfl, found]
      rfl
    · rw [records, marks.marked i x at_i, recordOf_recordFunction]
      simp
    · rw [functions, if_neg (fun same => other (by simp [same]))]
    · rw [List.flatMap_singleton] at other
      rw [records, marks.others x other, recordOf_recordFunction]

/-! ## Functions in a row -/

namespace Typed

variable {g : Function} {gs hs : List Function} {size : Int} {piece : Piece} {t t₁ t' : SymbolTable}

theorem LeaveAlone.refl (t : SymbolTable) : LeaveAlone [] t t := ⟨fun _ _ => rfl, fun _ _ => rfl⟩

theorem LeaveAlone.append (h₁ : LeaveAlone gs t t₁) (h₂ : LeaveAlone hs t₁ t') :
    LeaveAlone (gs ++ hs) t t' := by
  refine ⟨fun id other => ?_, fun x other => ?_⟩
  · rw [List.map_append, List.mem_append, not_or] at other
    rw [h₂.functions id other.2, h₁.functions id other.1]
  · rw [List.flatMap_append, List.mem_append, not_or] at other
    rw [h₂.others x other.2, h₁.others x other.1]

/-- What is recorded of a function stays while others are lowered behind it. -/
theorem Function.Records.before (h : g.Records size piece t t₁) (rest : LeaveAlone gs t₁ t')
    (own : g.symbol ∉ gs.map Function.symbol)
    (apart : ∀ x ∈ g.paramIds, x ∉ gs.flatMap Function.paramIds) :
    g.Records size piece t t' := by
  refine ⟨h.arity, h.offset, ?_, fun i x at_i => ?_⟩
  · rw [rest.functions _ own]
    exact h.function
  · rw [rest.others x (apart x (List.mem_of_getElem? at_i))]
    exact h.param i x at_i

/-- What is recorded of a function is no matter of those that were lowered before it. -/
theorem Function.Records.behind (h : g.Records size piece t₁ t') (first : LeaveAlone gs t t₁)
    (own : g.symbol ∉ gs.map Function.symbol)
    (apart : ∀ x ∈ g.paramIds, x ∉ gs.flatMap Function.paramIds) :
    g.Records size piece t t' := by
  refine ⟨h.arity, h.offset, ?_, fun i x at_i => ?_⟩
  · rw [← first.functions _ own]
    exact h.function
  · rw [← first.others x (apart x (List.mem_of_getElem? at_i))]
    exact h.param i x at_i

end Typed

/-- What is recorded of functions at the end, each against its piece, and what is left alone. -/
theorem FunctionsCode.records {gs : List Typed.Function} {c c' : Cursor} {pieces : List Piece}
    (h : FunctionsCode config gs c pieces c') (own : (gs.map Typed.Function.symbol).Nodup)
    (nodup : (gs.flatMap Typed.Function.paramIds).Nodup) :
    List.Forall₂ (fun g piece => g.Records config.pointerSize piece c.symbols c'.symbols)
      gs pieces ∧ Typed.LeaveAlone gs c.symbols c'.symbols := by
  induction h with
  | nil => exact ⟨.nil, .refl _⟩
  | @cons g rest _ _ _ _ _ first _ ih =>
    rw [List.flatMap_cons, List.nodup_append'] at nodup
    obtain ⟨nodup₁, nodup₂, apart⟩ := nodup
    obtain ⟨own₁, own₂⟩ := List.nodup_cons.1 own
    -- no two functions share a symbol, so each is left alone before and behind its own lowering
    obtain ⟨here, alone⟩ := first.records nodup₁
    obtain ⟨there, rest⟩ := ih own₂ nodup₂
    refine ⟨.cons (here.before rest own₁ fun x mem => apart mem) ?_, alone.append rest⟩
    have there := (List.forall₂_and_left _ _).2 ⟨fun _ (mem : _ ∈ _) => mem, there⟩
    refine there.imp fun g' piece' ⟨mem, records⟩ => records.behind alone ?_ ?_
    · intro same
      obtain same : g'.symbol = g.symbol := by simpa using same
      exact own₁ (same ▸ List.mem_map_of_mem mem)
    · intro x later sooner
      exact apart (by simpa using sooner) (List.mem_flatMap.2 ⟨g', mem, later⟩)

/-- The parameters of functions live where their pieces take the arguments. -/
theorem FunctionsCode.homes {home : SymbolId → Option Temp} {gs : List Typed.Function}
    {c c' : Cursor} {pieces : List Piece} (h : FunctionsCode config gs c pieces c')
    (fits : Fits home c (gs.flatMap Typed.Function.binds) c') :
    List.Forall₂ (fun g piece => g.paramIds.map home = piece.params.map some) gs pieces := by
  induction h with
  | nil => exact .nil
  | cons first others ih =>
    refine .cons ?_ (ih (fits.right first.binds others.binds rfl))
    obtain ⟨_, _, _, _, _, _, params, body, fits, -⟩ :=
      first.parts (fits.left first.binds others.binds rfl)
    rw [Typed.Function.paramIds, List.map_map]
    exact params.homes body fits

end MiddleEnd
