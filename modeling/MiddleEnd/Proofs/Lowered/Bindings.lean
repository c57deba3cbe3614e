import MiddleEnd.Proofs.Lowered.Shape
import Mathlib.Data.List.Nodup

/-!
# Where variables live

Every variable is bound to a fresh temporary when its declaration is lowered, and is never bound
again if no two declarations share a symbol. The bindings at the end therefore tell where a variable
lives at any time, also before it is bound. `Cursor.Binds` says what a stretch of lowering does to
the bindings, `Fits` that the bindings at the end fit such a stretch.

Results:
1. `StmtCode.binds`, `FunctionCode.binds`: lowering binds what is declared and nothing else.
2. `Fits.left`, `Fits.right`: bindings that fit a stretch fit its parts.
3. `Fits.bound`, `Fits.fresh`: a bound variable lives where it is bound, and a temporary taken for
   a result is none that a variable lives in.
-/

namespace MiddleEnd

/-! ## What is declared -/

namespace Typed

/-- The variables that the first clause of a `for` declares. -/
def ForInit.binds : Option ForInit → List SymbolId
  | some (.decl d) => [d.symbol]
  | some (.expr _) | none => []

mutual

/-- The variables that a statement declares, in the order in which they are bound. -/
def Stmt.binds : Stmt → List SymbolId
  | .decl d => [d.symbol]
  | .expr _ | .empty | .brk _ | .cont _ | .ret _ => []
  | .block body => bindsOf body
  | .ite _ ifTrue ifFalse => ifTrue.binds ++ ifFalse.binds
  | .whileDo _ body | .doWhile body _ => body.binds
  | .forLoop init _ _ body => ForInit.binds init ++ body.binds

/-- The variables that statements declare. -/
def bindsOf : List Stmt → List SymbolId
  | [] => []
  | s :: rest => s.binds ++ bindsOf rest

end

theorem Stmt.binds_of_loop? {s body : Stmt} {test : Expr} (h : s.loop? = some (test, body)) :
    s.binds = body.binds := by
  cases s <;> simp [loop?] at h <;> simp [binds, h]

/-- The variables of a function. -/
def Function.binds (f : Function) : List SymbolId := f.params.map Param.symbol ++ bindsOf f.body

/-- The variables of a program. -/
def Program.binds (p : Program) : List SymbolId := p.functions.flatMap Function.binds

end Typed

namespace Cursor

/-- The temporary that a variable is bound to. -/
def tempOf (c : Cursor) : SymbolId → Option Temp := c.symbols.tempOf

theorem tempOf_bind {c : Cursor} {id : SymbolId} (h : (c.symbols.variableAt id).isSome)
    (other : SymbolId) :
    (c.bind id).tempOf other = if id = other then some c.temps else c.tempOf other := by
  obtain ⟨v, h⟩ := Option.isSome_iff_exists.1 h
  rw [tempOf, bind, SymbolTable.tempOf_modifyVariable]
  split
  · next same => simp [← same, h]
  · rfl

theorem tempOf_record {f : VariableInfo → VariableInfo} (same : ∀ v, (f v).temp = v.temp)
    (c : Cursor) (id : SymbolId) : (c.record id f).tempOf = c.tempOf :=
  SymbolTable.tempOf_modifyVariable_of_temp same c.symbols id

theorem tempOf_recordFunction (c : Cursor) (id : SymbolId) (f : FunctionInfo → FunctionInfo) :
    (c.recordFunction id f).tempOf = c.tempOf :=
  SymbolTable.tempOf_modifyFunction c.symbols id f

/-- From `c` to `c'` the variables `xs` are bound to temporaries taken on the way, each to its
own, and no others. -/
structure Binds (c : Cursor) (xs : List SymbolId) (c' : Cursor) : Prop where
  le : c.temps ≤ c'.temps
  kept : ∀ x, x ∉ xs → c'.tempOf x = c.tempOf x
  bound : ∀ x ∈ xs, ∃ t : Nat, c'.tempOf x = some t ∧ c.temps ≤ t ∧ t < c'.temps
  injective : ∀ x ∈ xs, ∀ y ∈ xs, c'.tempOf x = c'.tempOf y → x = y

namespace Binds

variable {c c₁ c' : Cursor} {xs ys : List SymbolId}

theorem refl (c : Cursor) : c.Binds [] c :=
  ⟨Nat.le_refl _, fun _ _ => rfl, by simp, by simp⟩

theorem takeTemp (h : c.Binds xs c') : c.Binds xs c'.takeTemp where
  le := Nat.le_succ_of_le h.le
  kept := h.kept
  bound x mem := by
    obtain ⟨t, bound, above, below⟩ := h.bound x mem
    exact ⟨t, bound, above, Nat.lt_succ_of_lt below⟩
  injective := h.injective

theorem takeLabels (h : c.Binds xs c') (n : Nat) : c.Binds xs (c'.takeLabels n) :=
  ⟨h.le, h.kept, h.bound, h.injective⟩

/-- Records beside the temporaries change no binding. -/
theorem record (h : c.Binds xs c') {f : VariableInfo → VariableInfo}
    (same : ∀ v, (f v).temp = v.temp) (id : SymbolId) : c.Binds xs (c'.record id f) := by
  obtain ⟨le, kept, bound, injective⟩ := h
  rw [← tempOf_record same c' id] at kept bound injective
  exact ⟨le, kept, bound, injective⟩

theorem recordFunction (h : c.Binds xs c') (id : SymbolId) (f : FunctionInfo → FunctionInfo) :
    c.Binds xs (c'.recordFunction id f) := by
  obtain ⟨le, kept, bound, injective⟩ := h
  rw [← tempOf_recordFunction c' id f] at kept bound injective
  exact ⟨le, kept, bound, injective⟩

theorem placeParams (h : c.Binds xs c') (size offset : Int) (params : List Typed.Param) :
    c.Binds xs (c'.placeParams size offset params) := by
  induction params generalizing offset c' with
  | nil => exact h
  | cons p rest ih => exact ih (h.record (by intro v; rfl) p.symbol) (offset + size)

theorem append (h₁ : c.Binds xs c₁) (h₂ : c₁.Binds ys c') : c.Binds (xs ++ ys) c' where
  le := Nat.le_trans h₁.le h₂.le
  kept x mem := by
    rw [List.mem_append, not_or] at mem
    exact (h₂.kept x mem.2).trans (h₁.kept x mem.1)
  bound x mem := by
    by_cases later : x ∈ ys
    · obtain ⟨t, bound, above, below⟩ := h₂.bound x later
      exact ⟨t, bound, Nat.le_trans h₁.le above, below⟩
    · obtain ⟨t, bound, above, below⟩ := h₁.bound x ((List.mem_append.1 mem).resolve_right later)
      exact ⟨t, (h₂.kept x later).trans bound, above, Nat.lt_of_lt_of_le below h₂.le⟩
  injective x memx y memy same := by
    -- a variable bound on the second stretch lives above all that were bound on the first
    have apart : ∀ x ∈ xs, x ∉ ys → ∀ y ∈ ys, c'.tempOf x ≠ c'.tempOf y := by
      intro x first notLater y later same
      obtain ⟨t, bound, -, below⟩ := h₁.bound x first
      obtain ⟨u, bound', above, -⟩ := h₂.bound y later
      rw [h₂.kept x notLater, bound, bound', Option.some_inj] at same
      exact Nat.not_lt.2 above (same ▸ below)
    by_cases laterx : x ∈ ys <;> by_cases latery : y ∈ ys
    · exact h₂.injective x laterx y latery same
    · exact absurd same.symm
        (apart y ((List.mem_append.1 memy).resolve_right latery) latery x laterx)
    · exact absurd same (apart x ((List.mem_append.1 memx).resolve_right laterx) laterx y latery)
    · rw [h₂.kept x laterx, h₂.kept y latery] at same
      exact h₁.injective x ((List.mem_append.1 memx).resolve_right laterx) y
        ((List.mem_append.1 memy).resolve_right latery) same

theorem bind {x : SymbolId} (h : (c.symbols.variableAt x).isSome) : c.Binds [x] (c.bind x) where
  le := Nat.le_succ _
  kept y mem := by
    have differs : x ≠ y := fun same => mem (same ▸ List.mem_singleton.2 rfl)
    rw [tempOf_bind h, if_neg differs]
  bound y mem := by
    obtain rfl := List.mem_singleton.1 mem
    exact ⟨c.temps, by rw [tempOf_bind h, if_pos rfl], Nat.le_refl _, Nat.lt_succ_self _⟩
  injective y memy z memz _ := (List.mem_singleton.1 memy).trans (List.mem_singleton.1 memz).symm

/-- A variable that was not bound before is one of those that are. -/
theorem mem_of_bound (h : c.Binds xs c') {x : SymbolId} (unbound : c.tempOf x = none) {t : Temp}
    (bound : c'.tempOf x = some t) : x ∈ xs := by
  by_contra notLater
  rw [h.kept x notLater, unbound] at bound
  cases bound

/-- A parameter is bound, and its order recorded. -/
theorem param {x : SymbolId} (h : (c.symbols.variableAt x).isSome) (order : Nat) :
    c.Binds [x] ((c.bind x).record x fun v => { v with order := some order }) :=
  (Binds.bind h).record (by intro v; rfl) x

end Binds
end Cursor

/-! ## What lowering binds -/

theorem ExprCode.binds {e : Typed.Expr} {c c' : Cursor} {t : Temp} {code : List Instr}
    (h : ExprCode e c t code c') : c.Binds [] c' := by
  induction h with
  | const => exact (Cursor.Binds.refl _).takeTemp
  | var => exact .refl _
  | unary _ ih => exact ih.takeTemp
  | binary _ _ ih₁ ih₂ => exact (ih₁.append ih₂).takeTemp
  | assign _ _ ih => exact ih
  | cond _ _ _ ih₁ ih₂ ih₃ =>
    exact (((Cursor.Binds.refl _).takeTemp.takeLabels 2).append ih₁).append (ih₂.append ih₃)

theorem EffectCode.binds {e : Option Typed.Expr} {c c' : Cursor} {code : List Instr}
    (h : EffectCode e c code c') : c.Binds [] c' := by
  cases h with
  | none => exact .refl _
  | some h => exact h.binds

theorem TestCode.binds {exit : Label} {test : Option Typed.Expr} {c c' : Cursor}
    {code : List Instr} (h : TestCode exit test c code c') : c.Binds [] c' := by
  cases h with
  | none => exact .refl _
  | some h => exact h.binds

theorem VarDeclCode.binds {d : Typed.VarDecl} {c c' : Cursor} {code : List Instr}
    (h : VarDeclCode d c code c') : c.Binds [d.symbol] c' := by
  cases h with
  | plain isVar => exact .bind isVar
  | init isVar _ h => exact (Cursor.Binds.bind isVar).append h.binds

theorem ForInitCode.binds {init : Option Typed.ForInit} {c c' : Cursor} {code : List Instr}
    (h : ForInitCode init c code c') : c.Binds (Typed.ForInit.binds init) c' := by
  cases h with
  | none => exact .refl _
  | decl h => exact h.binds
  | expr h => exact h.binds

theorem StmtCode.binds {targets : Option LoopTargets} {s : Typed.Stmt} {c c' : Cursor}
    {code : List Instr} (h : StmtCode targets s c code c') : c.Binds s.binds c' := by
  induction h with
  | decl h => exact h.binds
  | expr h => exact h.binds
  | empty | done | brk | cont => exact .refl _
  | next _ _ ih₁ ih₂ => exact ih₁.append ih₂
  | ite h _ _ ih₁ ih₂ =>
    exact (((Cursor.Binds.refl _).takeLabels 2).append h.binds).append (ih₁.append ih₂)
  | loop isLoop h _ ih =>
    rw [Typed.Stmt.binds_of_loop? isLoop]
    exact (((Cursor.Binds.refl _).takeLabels 2).append h.binds).append ih
  | forLoop h₁ h₂ _ h₄ ih =>
    have first := (((Cursor.Binds.refl _).takeLabels 3).append h₁.binds).append h₂.binds
    simpa [Typed.Stmt.binds] using (first.append ih).append h₄.binds
  | ret h => exact h.binds

theorem ParamsCode.binds {order : Nat} {params : List Typed.Param} {c c' : Cursor}
    {temps : List Temp} (h : ParamsCode order params c temps c') :
    c.Binds (params.map Typed.Param.symbol) c' := by
  induction h with
  | nil => exact .refl _
  | cons isVar _ ih => exact (Cursor.Binds.param isVar _).append ih

theorem ImplicitReturnCode.binds {config : Config} {c c' : Cursor} {code : List Instr}
    (h : ImplicitReturnCode config c code c') : c.Binds [] c' := by
  cases h with
  | on => exact (Cursor.Binds.refl _).takeTemp
  | off => exact .refl _

theorem FunctionCode.binds {config : Config} {f : Typed.Function} {c c' : Cursor} {piece : Piece}
    (h : FunctionCode config f c piece c') : c.Binds f.binds c' := by
  cases h with
  | mk _ params placed _ body ending =>
    have entered := ((Cursor.Binds.refl c).recordFunction _ _).append params.binds
    have moved := fun g =>
      (entered.placeParams config.pointerSize 0 f.params).recordFunction f.symbol g
    subst placed
    have whole := ((moved _).append body.binds).append ending.binds
    simpa [Typed.Function.binds, Typed.Stmt.binds] using whole

theorem FunctionsCode.binds {config : Config} {fs : List Typed.Function} {c c' : Cursor}
    {pieces : List Piece} (h : FunctionsCode config fs c pieces c') :
    c.Binds (fs.flatMap Typed.Function.binds) c' := by
  induction h with
  | nil => exact .refl _
  | cons first _ ih => exact first.binds.append ih

/-! ## Bindings that fit -/

/-- Where variables live, and a stretch of lowering from `c` to `c'` that binds `xs`. The home of
a variable is the temporary that it is bound to on the stretch or before, or lies behind. -/
structure Fits (home : SymbolId → Option Temp) (c : Cursor) (xs : List SymbolId) (c' : Cursor) :
    Prop where
  binds : c.Binds xs c'
  nodup : xs.Nodup
  unbound : ∀ x ∈ xs, c.tempOf x = none
  below : ∀ x t, c.tempOf x = some t → t < c.temps
  agrees : ∀ x t, c'.tempOf x = some t → home x = some t
  behind : ∀ x (t : Nat), home x = some t → c'.tempOf x = some t ∨ c'.temps ≤ t
  injective : ∀ x y t, home x = some t → home y = some t → x = y

namespace Fits

variable {home : SymbolId → Option Temp} {c c₁ c' : Cursor} {xs ys zs ws : List SymbolId}

/-- A variable that is bound at the start of a stretch lives where it is bound. -/
theorem bound (h : Fits home c xs c') {x : SymbolId} {t : Temp} (bound : c.tempOf x = some t) :
    home x = some t := by
  have notLater : x ∉ xs := by
    intro mem
    rw [h.unbound x mem] at bound
    cases bound
  exact h.agrees x t ((h.binds.kept x notLater).trans bound)

/-- A variable that is referred to lives where the reference is bound. -/
theorem ref (h : Fits home c xs c') {r : Typed.Ref} {t : Temp} (bound : r.BoundTo c.symbols t) :
    ∃ x, r.symbol = some x ∧ home x = some t := by
  obtain ⟨x, symbol, -, bound⟩ := bound
  exact ⟨x, symbol, h.bound bound⟩

/-- A parameter lives where it is bound. -/
theorem param {x : SymbolId} (isVar : (c.symbols.variableAt x).isSome) {order : Nat}
    (h : Fits home ((c.bind x).record x fun v => { v with order := some order }) xs c') :
    home x = some c.temps := by
  refine h.bound ?_
  rw [Cursor.tempOf_record (by intro v; rfl), Cursor.tempOf_bind isVar, if_pos rfl]

/-- No variable lives in a temporary that is taken where none is declared. -/
theorem fresh (h : Fits home c [] c') {t : Nat} (above : c.temps ≤ t) (under : t < c'.temps)
    (x : SymbolId) : home x ≠ some t := by
  intro lives
  rcases h.behind x t lives with bound | outside
  · rw [h.binds.kept x List.not_mem_nil] at bound
    exact Nat.not_lt.2 above (h.below x t bound)
  · exact Nat.not_lt.2 outside under

theorem left (h : Fits home c zs c') (h₁ : c.Binds xs c₁) (h₂ : c₁.Binds ys c')
    (split : xs ++ ys = zs) : Fits home c xs c₁ where
  binds := h₁
  nodup := by
    have nodup := h.nodup
    rw [← split] at nodup
    exact (List.nodup_append.1 nodup).1
  unbound x mem := h.unbound x (split ▸ List.mem_append_left _ mem)
  below := h.below
  agrees x t bound := by
    by_cases later : x ∈ ys
    · -- `x` would be bound again on the second stretch
      have nodup := h.nodup
      rw [← split] at nodup
      have first : x ∉ xs := fun mem => (List.nodup_append.1 nodup).2.2 x mem x later rfl
      rw [h₁.kept x first, h.unbound x (split ▸ List.mem_append_right _ later)] at bound
      cases bound
    · exact h.agrees x t ((h₂.kept x later).trans bound)
  behind x t lives := by
    by_cases later : x ∈ ys
    · obtain ⟨u, bound, above, -⟩ := h₂.bound x later
      rw [h.agrees x u bound] at lives
      cases lives
      exact .inr above
    · exact (h.behind x t lives).imp (fun bound => (h₂.kept x later).symm.trans bound)
        (Nat.le_trans h₂.le)
  injective := h.injective

theorem right (h : Fits home c zs c') (h₁ : c.Binds xs c₁) (h₂ : c₁.Binds ys c')
    (split : xs ++ ys = zs) : Fits home c₁ ys c' where
  binds := h₂
  nodup := by
    have nodup := h.nodup
    rw [← split] at nodup
    exact (List.nodup_append.1 nodup).2.1
  unbound y mem := by
    have nodup := h.nodup
    rw [← split] at nodup
    have notFirst : y ∉ xs := fun first => (List.nodup_append.1 nodup).2.2 y first y mem rfl
    rw [h₁.kept y notFirst]
    exact h.unbound y (split ▸ List.mem_append_right _ mem)
  below x t bound := by
    by_cases first : x ∈ xs
    · obtain ⟨u, bound', -, below⟩ := h₁.bound x first
      rw [bound] at bound'
      cases bound'
      exact below
    · rw [h₁.kept x first] at bound
      exact Nat.lt_of_lt_of_le (h.below x t bound) h₁.le
  agrees := h.agrees
  behind := h.behind
  injective := h.injective

/-- The parts of a stretch that takes temporaries or labels first. -/
theorem two (h : Fits home c zs c') {c₀ : Cursor} (taken : c.Binds [] c₀) (h₁ : c₀.Binds xs c₁)
    (h₂ : c₁.Binds ys c') (split : xs ++ ys = zs) :
    Fits home c₀ xs c₁ ∧ Fits home c₁ ys c' :=
  have rest := h.right taken (h₁.append h₂) split
  ⟨rest.left h₁ h₂ rfl, rest.right h₁ h₂ rfl⟩

theorem three (h : Fits home c ws c') {c₀ c₂ : Cursor} (taken : c.Binds [] c₀)
    (h₁ : c₀.Binds xs c₁) (h₂ : c₁.Binds ys c₂) (h₃ : c₂.Binds zs c')
    (split : xs ++ (ys ++ zs) = ws) :
    Fits home c₀ xs c₁ ∧ Fits home c₁ ys c₂ ∧ Fits home c₂ zs c' :=
  have ⟨first, rest⟩ := h.two taken h₁ (h₂.append h₃) split
  ⟨first, rest.left h₂ h₃ rfl, rest.right h₂ h₃ rfl⟩

theorem four {us : List SymbolId} (h : Fits home c ws c') {c₀ c₂ c₃ : Cursor}
    (taken : c.Binds [] c₀) (h₁ : c₀.Binds xs c₁) (h₂ : c₁.Binds ys c₂) (h₃ : c₂.Binds zs c₃)
    (h₄ : c₃.Binds us c') (split : xs ++ (ys ++ (zs ++ us)) = ws) :
    Fits home c₀ xs c₁ ∧ Fits home c₁ ys c₂ ∧ Fits home c₂ zs c₃ ∧ Fits home c₃ us c' :=
  have ⟨first, second, rest⟩ := h.three taken h₁ h₂ (h₃.append h₄) split
  ⟨first, second, rest.left h₃ h₄ rfl, rest.right h₃ h₄ rfl⟩

/-- The bindings at the end of a lowering that starts without any fit it. -/
theorem final (h : c.Binds xs c') (nodup : xs.Nodup) (unbound : ∀ x, c.tempOf x = none) :
    Fits c'.tempOf c xs c' where
  binds := h
  nodup := nodup
  unbound x _ := unbound x
  below x t bound := by
    rw [unbound x] at bound
    cases bound
  agrees _ _ bound := bound
  behind _ _ bound := .inl bound
  injective x y t bound bound' := by
    have memx := h.mem_of_bound (unbound x) bound
    have memy := h.mem_of_bound (unbound y) bound'
    exact h.injective x memx y memy (bound.trans bound'.symm)

end Fits

/-- The parameters live where the arguments are put. -/
theorem ParamsCode.homes {home : SymbolId → Option Temp} {order : Nat} {params : List Typed.Param}
    {c c' : Cursor} {temps : List Temp} (h : ParamsCode order params c temps c')
    {xs : List SymbolId} {c'' : Cursor} (others : c'.Binds xs c'')
    (fits : Fits home c (params.map Typed.Param.symbol ++ xs) c'') :
    params.map (fun p => home p.symbol) = temps.map some := by
  induction h with
  | nil => rfl
  | cons isVar h ih =>
    have inner := fits.right (Cursor.Binds.param isVar _) (h.binds.append others) rfl
    rw [List.map_cons, List.map_cons, inner.param isVar, ih others inner]

theorem Cursor.placeParams_temps (size offset : Int) (params : List Typed.Param) (c : Cursor) :
    (c.placeParams size offset params).temps = c.temps := by
  induction params generalizing offset c with
  | nil => rfl
  | cons p rest ih => exact ih _ _

/-- The stretches of a function: its parameters, its body and its end. What is recorded about the
function between them takes no temporaries. -/
theorem FunctionCode.parts {home : SymbolId → Option Temp} {config : Config} {f : Typed.Function}
    {c c' : Cursor} {piece : Piece} (h : FunctionCode config f c piece c')
    (fits : Fits home c f.binds c') :
    ∃ (c₀ c₁ c₂ c₃ : Cursor) (code ending : List Instr),
      ParamsCode 0 f.params c₀ piece.params c₁ ∧ c₁.Binds (Typed.bindsOf f.body) c' ∧
      Fits home c₀ f.binds c' ∧ c₀.temps = c.temps ∧ c₂.temps = c₁.temps ∧
      piece.body = code ++ ending ∧
      StmtCode none (.block f.body) c₂ code c₃ ∧ Fits home c₂ (Typed.bindsOf f.body) c₃ ∧
      ImplicitReturnCode config c₃ ending c' := by
  cases h with
  | @mk info _ _ c₁ c₂ c₃ _ temps code ending _ params placed _ main ends =>
    have entry := (Cursor.Binds.refl c).recordFunction f.symbol
      fun g => { g with entry := some info.name }
    have moved : c₁.Binds [] c₂ := by
      rw [placed]
      exact ((Cursor.Binds.refl c₁).placeParams _ _ _).recordFunction _ _
    have body : c₂.Binds (Typed.bindsOf f.body ++ []) c' := by
      have body := main.binds
      rw [Typed.Stmt.binds] at body
      exact body.append ends.binds
    rw [List.append_nil] at body
    have behind := moved.append body
    have inner := fits.right entry (params.binds.append behind) rfl
    have rest := (inner.right params.binds behind rfl).right moved body rfl
    have block : c₂.Binds (Typed.bindsOf f.body) c₃ := by
      have block := main.binds
      rwa [Typed.Stmt.binds] at block
    refine ⟨_, c₁, c₂, c₃, code, ending, params, behind, inner, rfl, ?_, rfl, main, ?_, ends⟩
    · rw [placed]
      exact Cursor.placeParams_temps _ _ _ _
    · exact rest.left block ends.binds (List.append_nil _)

end MiddleEnd
