import MiddleEnd.Proofs.Meaning.Simulation

/-!
# Lowering preserves meaning

A function is called with arguments on one side and entered with them in its parameter temporaries
on the other. Both then end with the same value, or both go on forever.

Results:
1. `FunctionCode.runs`: what a call does in time, its piece does, and a call that does not end in
   time keeps its piece busy.
2. `FunctionsCode.preserves`: the same for all functions of a program, as an equivalence.
-/

namespace MiddleEnd

open Machine

/-- The contents of the variables that live in a memory. -/
def Memory.store (m : Memory) (home : SymbolId → Option Temp) : Store := fun x =>
  ((home x).map m).getD 0

variable {ops : Operators} {home : SymbolId → Option Temp}

theorem Memory.agrees_store (m : Memory) (home : SymbolId → Option Temp) :
    Agrees home (m.store home) m := by
  intro x t lives
  simp [Memory.store, lives]

/-- Entering with the same arguments on both sides. -/
theorem Agrees.enter (injective : ∀ x y t, home x = some t → home y = some t → x = y)
    {params : List Typed.Param} {temps : List Temp}
    (homes : params.map (fun p => home p.symbol) = temps.map some) (args : List Int) {σ : Store}
    {m : Memory} (agrees : Agrees home σ m) :
    Agrees home (σ.enter params args) (m.enter temps args) := by
  induction params generalizing temps args σ m with
  | nil =>
    cases temps with
    | nil => cases args <;> exact agrees
    | cons t ts => cases homes
  | cons p ps ih =>
    cases temps with
    | nil => cases homes
    | cons t ts =>
      cases args with
      | nil => exact agrees
      | cons v vs =>
        rw [List.map_cons, List.map_cons, List.cons.injEq] at homes
        exact ih homes.2 vs (agrees.update_home homes.1 injective v)

variable (ops) in
/-- What a call returns, the piece halts with. While a call does not return, the piece runs. -/
theorem FunctionCode.runs {config : Config} (on : config.implicitReturn = true) {f : Typed.Function}
    {c c' : Cursor} {piece : Piece} (h : FunctionCode config f c piece c')
    (fits : Fits home c f.binds c') (steady : Typed.AllExprsOf Typed.Expr.Steady f.body)
    (args : List Int) (m : Memory) (fuel : Nat) :
    match f.call ops fuel args (m.store home) with
    | some v => Halts ops piece.body ⟨0, m.enter piece.params args⟩ v
    | none => Lasts ops piece.body ⟨0, m.enter piece.params args⟩ fuel := by
  have once := h.closed.nodup
  cases h with
  | @mk _ _ _ c₁ c₂ c₃ _ temps code ending _ params placed _ main ends =>
    have entry := fun g => (Cursor.Binds.refl c).recordFunction f.symbol g
    have moved : c₁.Binds [] c₂ := by
      rw [placed]
      exact ((Cursor.Binds.refl c₁).placeParams _ _ _).recordFunction _ _
    have behind := moved.append (main.binds.append ends.binds)
    have split : [] ++ (f.params.map Typed.Param.symbol ++
        ([] ++ ((Typed.Stmt.block f.body).binds ++ []))) = f.binds := by
      simp [Typed.Function.binds, Typed.Stmt.binds]
    have inner := fits.right (entry _) (params.binds.append behind) split
    have agrees := (m.agrees_store home).enter fits.injective
      (params.homes behind inner) args
    have fits' := ((inner.right params.binds behind rfl).right moved
      (main.binds.append ends.binds) rfl).left main.binds ends.binds rfl
    have place := CodeAt.whole (code ++ ending)
    have landed := main.runs ops once fuel fits' steady (by simp [loopLabels]) place.left
      agrees
    rw [Typed.Stmt.exec] at landed
    unfold Typed.Function.call
    cases ended : Typed.execStmts ops fuel f.body ((m.store home).enter f.params args) with
    | none =>
      rw [ended] at landed
      exact landed
    | some result =>
      rw [ended] at landed
      obtain ⟨outcome, σ⟩ := result
      cases outcome with
      | ret v => exact landed
      | normal =>
        obtain ⟨m', reached, -⟩ := landed
        cases ends with
        | off off => simp [on] at off
        | on =>
          have zero := (reached.trans place.right.load).halts place.right.tail.ret
          rwa [Function.update_self] at zero
      | brk | cont =>
        -- a body stands in no loop
        obtain ⟨t, -, inLoop, -⟩ := landed
        cases inLoop

/-- A call and the run of its piece end with the same value or not at all. -/
theorem FunctionCode.preserves {config : Config} (on : config.implicitReturn = true)
    {f : Typed.Function} {c c' : Cursor} {piece : Piece} (h : FunctionCode config f c piece c')
    (fits : Fits home c f.binds c') (steady : Typed.AllExprsOf Typed.Expr.Steady f.body)
    (args : List Int) (m : Memory) :
    (∀ v, Halts ops piece.body ⟨0, m.enter piece.params args⟩ v ↔
      f.Returns ops args (m.store home) v) ∧
    (Diverges ops piece.body ⟨0, m.enter piece.params args⟩ ↔
      f.Diverges ops args (m.store home)) := by
  have runs := h.runs ops on fits steady args m
  have halts : ∀ {v}, f.Returns ops args (m.store home) v →
      Halts ops piece.body ⟨0, m.enter piece.params args⟩ v := by
    rintro v ⟨fuel, returned⟩
    have halted := runs fuel
    rwa [returned] at halted
  have diverges : f.Diverges ops args (m.store home) →
      Diverges ops piece.body ⟨0, m.enter piece.params args⟩ := by
    intro never
    refine diverges_of_lasts ?_
    intro fuel
    have lasts := runs fuel
    rwa [never fuel] at lasts
  -- a call returns or goes on forever, and the machine does not do both
  have either : (∃ v, f.Returns ops args (m.store home) v) ∨
      f.Diverges ops args (m.store home) := by
    by_cases returns : ∃ v, f.Returns ops args (m.store home) v
    · exact .inl returns
    · refine .inr ?_
      intro fuel
      by_contra answered
      obtain ⟨v, answered⟩ := Option.ne_none_iff_exists'.1 answered
      exact returns ⟨v, fuel, answered⟩
  refine ⟨fun v => ⟨?_, halts⟩, ?_, diverges⟩
  · intro halted
    rcases either with ⟨w, returned⟩ | never
    · obtain rfl := halted.unique (halts returned)
      exact returned
    · exact absurd (diverges never) halted.not_diverges
  · intro forever
    rcases either with ⟨w, returned⟩ | never
    · exact absurd forever (halts returned).not_diverges
    · exact never

/-- The same for the functions of a program. -/
theorem FunctionsCode.preserves {config : Config} (on : config.implicitReturn = true)
    {fs : List Typed.Function} {c c' : Cursor} {pieces : List Piece}
    (h : FunctionsCode config fs c pieces c')
    (fits : Fits home c (fs.flatMap Typed.Function.binds) c')
    (steady : ∀ f ∈ fs, Typed.AllExprsOf Typed.Expr.Steady f.body) :
    List.Forall₂ (fun f piece => ∀ (args : List Int) (m : Memory),
      (∀ v, Halts ops piece.body ⟨0, m.enter piece.params args⟩ v ↔
        f.Returns ops args (m.store home) v) ∧
      (Diverges ops piece.body ⟨0, m.enter piece.params args⟩ ↔
        f.Diverges ops args (m.store home))) fs pieces := by
  induction h with
  | nil => exact .nil
  | @cons f rest c c₁ c' piece pieces first others ih =>
    refine .cons (first.preserves on (fits.left first.binds others.binds rfl) ?_) (ih ?_ ?_)
    · exact steady f (List.mem_cons_self ..)
    · exact fits.right first.binds others.binds rfl
    · exact fun g mem => steady g (List.mem_cons_of_mem _ mem)

end MiddleEnd
