import MiddleEnd.Translate
import MiddleEnd.Proofs.Lowered.Shape
import MiddleEnd.Proofs.Scoping.Visible

/-!
# The programs that are lowered

A program is lowered if the first two passes have nothing to say about it, and no variable is bound
before.

Results:
1. `translate_of_silent`, `silent_of_translate_eq_ok`: which programs are lowered.
   `translate_eq_ok_iff` says the same without the monad of the checker.
2. `tempOf_eq_none`: the table that lowering starts with.
-/

namespace MiddleEnd

/-- A program that both passes accept without a word is lowered. -/
theorem translate_of_silent {config : Config} {p : Source.Program} {typed : Typed.Program}
    (checked : checkProgram ⟨(Declarations.ofProgram p).table, config⟩ p = .ok (typed, []))
    (declared : (Declarations.ofProgram p).log = []) :
    translate config p =
      match (lowerProgram config (Declarations.ofProgram p).table typed).1 with
      | .ok code => .ok code
      | .error e => .error (.aborted e) := by
  cases lowered : (lowerProgram config (Declarations.ofProgram p).table typed).1 with
  | ok code => simp only [translate, checked, declared, List.append_nil, lowered]
  | error e => simp only [translate, checked, declared, List.append_nil, lowered]

/-- A program that is translated was accepted without a word. -/
theorem silent_of_translate_eq_ok {config : Config} {p : Source.Program} {code : Code}
    {typed : Typed.Program} {issued : Log} (translated : translate config p = .ok code)
    (checked : checkProgram ⟨(Declarations.ofProgram p).table, config⟩ p = .ok (typed, issued)) :
    (Declarations.ofProgram p).log = [] ∧ issued = [] ∧
      (lowerProgram config (Declarations.ofProgram p).table typed).1 = .ok code := by
  simp only [translate, checked] at translated
  split at translated
  · next silent =>
    obtain ⟨declared, rfl⟩ := List.append_eq_nil_iff.1 silent
    refine ⟨declared, rfl, ?_⟩
    split at translated
    · next lowered =>
      cases translated
      exact lowered
    · cases translated
  · cases translated

/-- A program is translated if both passes accept it without a word and it is lowered. -/
theorem translate_eq_ok_iff {config : Config} {p : Source.Program} {code : Code} :
    translate config p = .ok code ↔ (Declarations.ofProgram p).log = [] ∧
      ∃ typed, ProgramCheck ⟨(Declarations.ofProgram p).table, config⟩ p typed [] ∧
        (lowerProgram config (Declarations.ofProgram p).table typed).1 = .ok code := by
  constructor
  · intro translated
    cases checked : checkProgram ⟨(Declarations.ofProgram p).table, config⟩ p with
    | error abort =>
      simp only [translate, checked] at translated
      cases translated
    | ok result =>
      obtain ⟨typed, issued⟩ := result
      obtain ⟨silent, rfl, lowered⟩ := silent_of_translate_eq_ok translated checked
      exact ⟨silent, typed, checkProgram_shape checked, lowered⟩
  · rintro ⟨silent, typed, check, lowered⟩
    rw [translate_of_silent check.run silent, lowered]

/-- No variable of a program is bound before the program is lowered. -/
theorem tempOf_eq_none (p : Source.Program) (id : SymbolId) :
    (Declarations.ofProgram p).table.tempOf id = none := by
  rw [SymbolTable.tempOf]
  rcases Nat.lt_or_ge id p.functions.length with isFunction | above
  · rw [not_variable_at p isFunction]
    rfl
  · rw [SymbolTable.variableAt]
    rcases Nat.lt_or_ge id (Survey.ofProgram p).entries.length with below | outside
    · obtain ⟨v, found, unplaced⟩ := variable_at p above below
      rw [found]
      exact unplaced
    · rw [← (declared_describes p).symbols_length] at outside
      rw [List.getElem?_eq_none outside]
      rfl

end MiddleEnd
