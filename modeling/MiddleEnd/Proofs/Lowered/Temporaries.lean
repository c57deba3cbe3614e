import MiddleEnd.Proofs.Lowered.Mentions
import MiddleEnd.Proofs.Lowered.Obstacles
import MiddleEnd.Proofs.Lowered.Paths

/-!
# Temporaries do not interfere

A program that is translated refers, inside each function, to variables of that function only: what
an open scope has was declared since the function was entered, or is a function. So the pieces of
its functions share no temporary, and what was found about the code of one function holds of all.

Results:
1. `settled_function`: what a function sees.
2. `FunctionsCheck.own`: functions refer to their own variables only.
3. `FunctionsCode.apart`: pieces share no temporary.
4. `never_interfere_of_ordered`: the temporaries of a translated program, where positions do not
   mislead.
5. `temporaries_never_interfere`: programs that were built.
-/

namespace MiddleEnd

open Survey

/-- A function that refers to its own variables only. -/
def Typed.Function.Own (f : Typed.Function) : Prop :=
  ∀ r x, .ref r ∈ f.needs → r.symbol = some x → x ∈ f.binds

/-! ## What functions see -/

/-- Inside a function the table shows no variable but those of the function. -/
theorem settled_function {p : Source.Program} (ordered : p.Ordered)
    (clean : (Declarations.ofProgram p).log = []) {before behind : List Source.Function}
    {f : Source.Function} (split : p.functions = before ++ f :: behind) :
    let w := p.globals.run (before.flatMap Source.Function.script)
    w.All (Settled (Declarations.ofProgram p).table w.entries.length) f.script := by
  intro w
  refine all_iff.2 ?_
  intro pre s post inside
  have main : p.main = (before.flatMap Source.Function.script ++ pre) ++
      s :: (post ++ behind.flatMap Source.Function.script) := by
    rw [Source.Program.main, split, List.flatMap_append, List.flatMap_cons, inside]
    simp
  have here := all_iff.1 (settled ordered clean) _ s _ main
  rw [run_append] at here
  cases s with
  | enter | leave => exact here
  | declare s =>
    obtain ⟨own, -, isVar⟩ := here
    obtain ⟨later, grown, -⟩ := entries_run w pre
    refine ⟨own, ?_, isVar⟩
    show w.entries.length ≤ (w.run pre).entries.length
    rw [grown, List.length_append]
    exact Nat.le_add_right ..
  | use r =>
    intro id v looked isVar
    obtain ⟨above, below⟩ := here id v looked isVar
    refine ⟨Nat.not_lt.1 fun earlier => ?_, below⟩
    have answer := lookup_eq ordered main
    rw [run_append] at answer
    injection answer.symm.trans looked with looked
    obtain ⟨i, opened, first⟩ := List.exists_of_findSome?_eq_some looked
    obtain ⟨e, found, rfl, -⟩ := firstIn_eq_some first
    obtain ⟨later, grown, -⟩ := entries_run w pre
    rcases mem_path_run opened with outside | entered
    · -- the global scope has nothing but functions
      rw [path_run_functions, p.globals_path, List.mem_singleton] at outside
      rw [← run_append] at found
      exact local_at main above found outside
    · rw [grown, List.getElem?_append_left earlier] at found
      exact Nat.not_lt.2 entered
        ((p.globals_sound.run _).entry_lt e (List.mem_of_getElem? found))

/-! ## Functions that were checked -/

variable {Γ : CheckContext} {w : Survey}

/-- A function that is accepted and has no obstacle refers to its own variables only. -/
theorem FunctionCheck.own {f : Source.Function} {f' : Typed.Function} {log : Log}
    (h : FunctionCheck Γ w.path f f' log) (silent : log = [])
    (settled : w.All (Settled Γ.symbols w.entries.length) f.script)
    (free : Typed.obstaclesOf false f'.body = []) : f'.Own := by
  have meets := h.meets silent settled
  rw [free] at meets
  obtain ⟨bound, met, upTo⟩ := meets [] fun id => by simp
  intro r x mem symbol
  obtain ⟨y, symbol', isBound⟩ := (Need.of_meetAll met).2 r mem
  cases symbol.symm.trans symbol'
  exact (h.numbers (Settled.numbered settled)).mem_iff.2 ((upTo x).1 isBound)

theorem FunctionsCheck.own {fs : List Source.Function} {fs' : List Typed.Function} {log : Log}
    (h : FunctionsCheck Γ w.path fs fs' log) (silent : log = [])
    (settled : ∀ before f behind, fs = before ++ f :: behind →
      (w.run (before.flatMap Source.Function.script)).All
        (Settled Γ.symbols (w.run (before.flatMap Source.Function.script)).entries.length)
        f.script)
    (free : ∀ f' ∈ fs', Typed.obstaclesOf false f'.body = []) : ∀ f' ∈ fs', f'.Own := by
  induction fs generalizing w fs' log with
  | nil =>
    cases h
    exact fun f' mem => absurd mem List.not_mem_nil
  | cons f rest ih =>
    cases h with
    | cons h₁ h₂ =>
      obtain ⟨silent₁, silent₂⟩ := List.append_eq_nil_iff.1 silent
      obtain ⟨free₁, free₂⟩ := List.forall_mem_cons.1 free
      rw [← path_run_function w f] at h₂
      refine List.forall_mem_cons.2 ⟨h₁.own silent₁ (settled [] f rest rfl) free₁, ?_⟩
      refine ih h₂ silent₂ ?_ free₂
      intro before g behind split
      have here := settled (f :: before) g behind (by rw [split, List.cons_append])
      rwa [List.flatMap_cons, run_append] at here

/-- In a program that is translated, functions refer to their own variables only. -/
theorem ProgramCheck.own {p : Source.Program} (ordered : p.Ordered)
    (clean : (Declarations.ofProgram p).log = []) {config : Config} {typed : Typed.Program}
    (h : ProgramCheck ⟨(Declarations.ofProgram p).table, config⟩ p typed [])
    (free : typed.obstacles = []) : ∀ f ∈ typed.functions, f.Own := by
  have free := List.flatMap_eq_nil_iff.1 free
  cases h with
  | mk owned h =>
    cases owned.symm.trans (scopeIndex_global ordered.owners)
    rw [← p.globals_path] at h
    exact h.own rfl (fun before f behind split => settled_function ordered clean split) free

/-- A program that is lowered has no obstacle. -/
theorem ProgramCheck.free {p : Source.Program} (ordered : p.Ordered)
    (clean : (Declarations.ofProgram p).log = []) {config : Config} {typed : Typed.Program}
    (h : ProgramCheck ⟨(Declarations.ofProgram p).table, config⟩ p typed []) {code : Code}
    (lowered : (lowerProgram config (Declarations.ofProgram p).table typed).1 = .ok code) :
    typed.obstacles = [] := by
  have met := h.meets ordered clean [] fun id => by simp
  have outcome := lowerProgram_needs config (tempOf_eq_none p) typed
  cases obstacles : typed.obstacles with
  | nil => rfl
  | cons e rest =>
    rw [obstacles] at met
    have stopped : Need.meetAll _ [] typed.needs = .error e := met
    rw [stopped, lowered] at outcome
    cases outcome

/-! ## Pieces apart -/

variable {home : SymbolId → Option Temp} {config : Config}

/-- The pieces of functions that refer to their own variables only keep to the temporaries that were
taken for them, so no two share one. -/
theorem FunctionsCode.apart {fs : List Typed.Function} {c c' : Cursor} {pieces : List Piece}
    (h : FunctionsCode config fs c pieces c')
    (fits : Fits home c (fs.flatMap Typed.Function.binds) c') (own : ∀ f ∈ fs, f.Own) :
    (∀ piece ∈ pieces, ∀ t : Nat, t ∈ piece.temps → c.temps ≤ t ∧ t < c'.temps) ∧
      pieces.Pairwise fun piece piece' => ∀ t ∈ piece.temps, t ∉ piece'.temps := by
  induction h with
  | nil => exact ⟨by simp, .nil⟩
  | @cons f rest c c₁ c₂ piece pieces first others ih =>
    obtain ⟨own₁, own₂⟩ := List.forall_mem_cons.1 own
    have here := first.mem_temps (fits.left first.binds others.binds rfl) own₁
    obtain ⟨there, apart⟩ := ih (fits.right first.binds others.binds rfl) own₂
    refine ⟨List.forall_mem_cons.2 ⟨?_, ?_⟩, List.pairwise_cons.2 ⟨?_, apart⟩⟩
    · intro t mem
      exact ⟨(here t mem).1, Nat.lt_of_lt_of_le (here t mem).2 others.binds.le⟩
    · intro piece' mem' t mem
      exact ⟨Nat.le_trans first.binds.le (there piece' mem' t mem).1, (there piece' mem' t mem).2⟩
    · intro piece' mem' t mem again
      exact Nat.not_lt.2 (there piece' mem' t again).1 (here t mem).2

theorem FunctionsCode.written_before_read {fs : List Typed.Function} {c c' : Cursor}
    {pieces : List Piece} (h : FunctionsCode config fs c pieces c')
    (fits : Fits home c (fs.flatMap Typed.Function.binds) c') :
    ∀ piece ∈ pieces, ∀ ran pc i, Path piece.body ran pc → piece.body[pc]? = some i →
      ∀ t ∈ i.reads, Ready home ran t := by
  induction h with
  | nil => simp
  | cons first others ih =>
    refine List.forall_mem_cons.2 ⟨?_, ih (fits.right first.binds others.binds rfl)⟩
    intro ran pc i path here
    exact first.written_before_read (fits.left first.binds others.binds rfl) path here

theorem FunctionsCode.length_eq {fs : List Typed.Function} {c c' : Cursor} {pieces : List Piece}
    (h : FunctionsCode config fs c pieces c') : pieces.length = fs.length := by
  induction h with
  | nil => rfl
  | cons _ _ ih => rw [List.length_cons, List.length_cons, ih]

/-- A run of lowering, cut at one function. -/
theorem forM_lowerFunction_split {before behind : List Typed.Function} {f : Typed.Function}
    {s s' : Lowering} {u : Unit}
    (h : (before ++ f :: behind).forM (lowerFunction config) s = .ok u s') :
    ∃ s₁ s₂, before.forM (lowerFunction config) s = .ok () s₁ ∧
      lowerFunction config f s₁ = .ok () s₂ ∧
      behind.forM (lowerFunction config) s₂ = .ok () s' := by
  induction before generalizing s with
  | nil =>
    obtain ⟨_, s₁, here, there⟩ := bind_eq_ok.1 h
    exact ⟨s, s₁, rfl, here, there⟩
  | cons g rest ih =>
    obtain ⟨_, s₁, here, there⟩ := bind_eq_ok.1 h
    obtain ⟨s₂, s₃, ran, lowered, others⟩ := ih there
    exact ⟨s₂, s₃, bind_eq_ok.2 ⟨_, s₁, here, ran⟩, lowered, others⟩

/-- A run of lowering at one function: the code of the functions before it, and its own piece. -/
theorem forM_lowerFunction_at {before behind : List Typed.Function} {f : Typed.Function}
    {symbols : SymbolTable} {s : Lowering} {u : Unit}
    (h : (before ++ f :: behind).forM (lowerFunction config) { symbols } = .ok u s)
    (fits : Fits home ⟨0, 0, symbols⟩ ((before ++ f :: behind).flatMap Typed.Function.binds)
      s.cursor) :
    ∃ s₁ s₂ pieces piece, before.forM (lowerFunction config) { symbols } = .ok () s₁ ∧
      lowerFunction config f s₁ = .ok () s₂ ∧
      s.emitter.finished[before.length]? = some piece ∧
      FunctionsCode config before ⟨0, 0, symbols⟩ pieces s₁.cursor ∧
      FunctionCode config f s₁.cursor piece s₂.cursor ∧
      Fits home ⟨0, 0, symbols⟩ (before.flatMap Typed.Function.binds) s₁.cursor ∧
      Fits home s₁.cursor f.binds s₂.cursor := by
  obtain ⟨s₁, s₂, ran, lowered, others⟩ := forM_lowerFunction_split h
  obtain ⟨pieces, shapes, finished⟩ := forM_lowerFunction_shape ran
  obtain ⟨piece, shape, finished₁⟩ := lowerFunction_shape lowered
  obtain ⟨pieces', shapes', finished₂⟩ := forM_lowerFunction_shape others
  obtain ⟨fits, fits', -⟩ := fits.three (.refl _) shapes.binds shape.binds shapes'.binds (by simp)
  refine ⟨s₁, s₂, pieces, piece, ran, lowered, ?_, shapes, shape, fits, fits'⟩
  rw [finished₂, finished₁, finished, ← shapes.length_eq]
  simp

/-- The piece of one function of a run mentions temporaries that the run took for this function. -/
theorem mem_temps_of_split {before behind : List Typed.Function} {f : Typed.Function}
    {symbols : SymbolTable} {s : Lowering} {u : Unit}
    (h : (before ++ f :: behind).forM (lowerFunction config) { symbols } = .ok u s)
    (fits : Fits home ⟨0, 0, symbols⟩ ((before ++ f :: behind).flatMap Typed.Function.binds)
      s.cursor) (own : f.Own) :
    ∃ s₁ s₂ piece, before.forM (lowerFunction config) { symbols } = .ok () s₁ ∧
      lowerFunction config f s₁ = .ok () s₂ ∧
      s.emitter.finished[before.length]? = some piece ∧
      ∀ t : Nat, t ∈ piece.temps → s₁.emitter.temps ≤ t ∧ t < s₂.emitter.temps := by
  obtain ⟨s₁, s₂, _, piece, ran, lowered, at_f, -, shape, -, fits⟩ := forM_lowerFunction_at h fits
  exact ⟨s₁, s₂, piece, ran, lowered, at_f, shape.mem_temps fits own⟩

/-- The temporaries of a translated program do not interfere, if positions do not mislead. -/
theorem never_interfere_of_ordered {p : Source.Program} (ordered : p.Ordered) {config : Config}
    {code : Code} {typed : Typed.Program} {issued : Log}
    (translated : translate config p = .ok code)
    (checked : checkProgram ⟨(Declarations.ofProgram p).table, config⟩ p = .ok (typed, issued)) :
    let table := (Declarations.ofProgram p).table
    let home := (lowerProgram config table typed).2.tempOf
    let slots := typed.slots config
    let body := code.pieces.flatMap Piece.body
    (∃ s, (lowerFunctions config typed).run { symbols := table } = .ok () s ∧
      s.emitter.temps = slots.length) ∧
    ((∀ x, (table.variableAt x).isSome → (home x).isSome) ∧
      (∀ x y t, home x = some t → home y = some t → x = y) ∧
      ∀ x t, home x = some t ↔ slots[t]? = some (.var x)) ∧
    ((∀ before f behind, typed.functions = before ++ f :: behind →
      ∃ s s' piece, before.forM (lowerFunction config) { symbols := table } = .ok () s ∧
        lowerFunction config f s = .ok () s' ∧ code.pieces[before.length]? = some piece ∧
        ∀ t : Nat, t ∈ piece.temps → s.emitter.temps ≤ t ∧ t < s'.emitter.temps) ∧
      code.pieces.Pairwise fun piece piece' => ∀ t ∈ piece.temps, t ∉ piece'.temps) ∧
    ((∀ t : Nat, slots[t]? = some .value → (writtenTemps body).count t = 1) ∧
      ∀ t : Nat, slots[t]? = some .result →
        (writtenTemps body).count t = 2 ∧ (copiedTemps body).count t = 2) ∧
    ∀ piece ∈ code.pieces, ∀ ran pc i, Path piece.body ran pc → piece.body[pc]? = some i →
      ∀ t ∈ i.reads, (∃ x, home x = some t) ∨ t ∈ writtenTemps ran := by
  intro table home slots body
  obtain ⟨declared, rfl, lowered⟩ := silent_of_translate_eq_ok translated checked
  obtain ⟨s, ran, rfl, final, shape⟩ := lowerProgram_shape (Prod.ext lowered rfl)
  have check := checkProgram_shape checked
  have numbers := check.numbers ordered declared
  have fits := Fits.final shape.binds numbers.nodup (tempOf_eq_none p)
  have homes : s.cursor.tempOf = home := congrArg SymbolTable.tempOf final
  rw [homes] at fits
  have filled : Filled home 0 slots s.cursor.temps [] body := shape.filled fits
  have lives : ∀ x t, home x = some t ↔ slots[t]? = some (.var x) := by
    refine fun x t => filled.home_eq_iff fun y u placed => ?_
    rw [typed.filterMap_slots]
    exact shape.binds.mem_of_bound (tempOf_eq_none _ y) (homes ▸ placed)
  have notHome {slot : Slot} (other : slot.var? = none) {t : Temp}
      (here : slots[t]? = some slot) (x : SymbolId) : home x ≠ some t := by
    intro placed
    cases here.symm.trans ((lives x t).1 placed)
    cases other
  have free := check.free ordered declared lowered
  have own := check.own ordered declared free
  refine ⟨⟨s, ran, ?_⟩, ⟨?_, fits.injective, lives⟩, ⟨?_, (shape.apart fits own).2⟩, ⟨?_, ?_⟩, ?_⟩
  · exact filled.stop.trans (Nat.zero_add _)
  · intro x isVar
    obtain ⟨t, bound, -⟩ := shape.binds.bound x (numbers.mem_iff.2 (lt_of_variableAt _ isVar))
    rw [← homes, bound]
    rfl
  · intro before f behind split
    rw [lowerFunctions, split] at ran
    have fits' := fits
    rw [split] at fits'
    exact mem_temps_of_split ran fits' (own f (by simp [split]))
  · exact fun t slot => filled.count_value slot (notHome rfl slot)
  · exact fun t slot => filled.count_result slot (notHome rfl slot)
  · exact shape.written_before_read fits

/-- Temporaries of a translated program do not interfere. Each is taken for one slot of the typed
tree: a variable, whose only home it is, the value of one instruction, or the result of a
conditional.
* Every variable has a home of its own, and nothing else is kept there.
* A piece mentions only temporaries that were taken while its function was lowered, so no two
  pieces share one.
* A value is written by one instruction, a result by two copies.
* On every path through a piece, all that is read lives in the home of a variable or was written
  before. -/
theorem temporaries_never_interfere (d : Draft.Program) (b : Source.Builder) {config : Config}
    {code : Code} {typed : Typed.Program} {issued : Log}
    (translated : translate config (d.place b).1 = .ok code)
    (checked : checkProgram ⟨(Declarations.ofProgram (d.place b).1).table, config⟩ (d.place b).1 =
      .ok (typed, issued)) :
    let table := (Declarations.ofProgram (d.place b).1).table
    let home := (lowerProgram config table typed).2.tempOf
    let slots := typed.slots config
    let body := code.pieces.flatMap Piece.body
    (∃ s, (lowerFunctions config typed).run { symbols := table } = .ok () s ∧
      s.emitter.temps = slots.length) ∧
    ((∀ x, (table.variableAt x).isSome → (home x).isSome) ∧
      (∀ x y t, home x = some t → home y = some t → x = y) ∧
      ∀ x t, home x = some t ↔ slots[t]? = some (.var x)) ∧
    ((∀ before f behind, typed.functions = before ++ f :: behind →
      ∃ s s' piece, before.forM (lowerFunction config) { symbols := table } = .ok () s ∧
        lowerFunction config f s = .ok () s' ∧ code.pieces[before.length]? = some piece ∧
        ∀ t : Nat, t ∈ piece.temps → s.emitter.temps ≤ t ∧ t < s'.emitter.temps) ∧
      code.pieces.Pairwise fun piece piece' => ∀ t ∈ piece.temps, t ∉ piece'.temps) ∧
    ((∀ t : Nat, slots[t]? = some .value → (writtenTemps body).count t = 1) ∧
      ∀ t : Nat, slots[t]? = some .result →
        (writtenTemps body).count t = 2 ∧ (copiedTemps body).count t = 2) ∧
    ∀ piece ∈ code.pieces, ∀ ran pc i, Path piece.body ran pc → piece.body[pc]? = some i →
      ∀ t ∈ i.reads, (∃ x, home x = some t) ∨ t ∈ writtenTemps ran :=
  never_interfere_of_ordered (d.place_ordered b) translated checked

/-- `int pick(int c) { int r = c ? 1 : 2; while (r) r = r - 1; return r; } int main() {}` -/
def pick : Draft.Program :=
  ⟨[⟨"pick", [⟨"c", .int⟩], .int,
      [.decl ⟨"r", .int, some (.cond (.var "c") (.const 1) (.const 2))⟩,
        .whileDo (.var "r") (.expr (.assign "r" (.binary .sub (.var "r") (.const 1)))),
        .ret (.var "r")]⟩,
    ⟨"main", [], .int, []⟩]⟩

theorem temporaries_never_interfere_of_pick :
    let p := (pick.place ⟨"t", 0, 0⟩).1
    ∃ code typed issued, translate {} p = .ok code ∧
      checkProgram ⟨(Declarations.ofProgram p).table, {}⟩ p = .ok (typed, issued) ∧
      typed.slots {} = [.var 2, .var 3, .result, .value, .value, .value, .value, .value, .value] ∧
      (writtenTemps (code.pieces.flatMap Piece.body)).count 2 = 2 ∧
      (writtenTemps (code.pieces.flatMap Piece.body)).count 5 = 1 ∧
      (code.pieces.Pairwise fun piece piece' => ∀ t ∈ piece.temps, t ∉ piece'.temps) ∧
      ∀ piece ∈ code.pieces, ∀ ran pc i, Path piece.body ran pc → piece.body[pc]? = some i →
        ∀ t ∈ i.reads,
          (∃ x, (lowerProgram {} (Declarations.ofProgram p).table typed).2.tempOf x = some t) ∨
            t ∈ writtenTemps ran := by
  intro p
  have ok : (translate {} p).toOption.isSome = true := by decide +kernel
  have slots : (checkProgram ⟨(Declarations.ofProgram p).table, {}⟩ p).toOption.map
      (fun result => result.1.slots {}) =
        some [.var 2, .var 3, .result, .value, .value, .value, .value, .value, .value] := by
    decide +kernel
  match translated : translate {} p, checked : checkProgram ⟨(Declarations.ofProgram p).table, {}⟩ p
  with
  | .error e, _ => simp [translated, Except.toOption] at ok
  | .ok code, .error e => simp [checked, Except.toOption] at slots
  | .ok code, .ok (typed, issued) =>
    have slots : typed.slots {} =
        [.var 2, .var 3, .result, .value, .value, .value, .value, .value, .value] := by
      simpa [checked, Except.toOption] using slots
    obtain ⟨-, -, ⟨-, apart⟩, ⟨value, result⟩, ready⟩ :=
      temporaries_never_interfere pick ⟨"t", 0, 0⟩ translated checked
    have two := (result 2 (by rw [slots]; rfl)).1
    have one := value 5 (by rw [slots]; rfl)
    exact ⟨code, typed, issued, rfl, rfl, slots, two, one, apart, ready⟩

end MiddleEnd
