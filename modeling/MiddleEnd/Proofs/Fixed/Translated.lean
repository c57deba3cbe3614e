import MiddleEnd.Fixed.Translate
import MiddleEnd.Proofs.Fixed.Foreign

/-!
# Translating in words against translating without a bound

What is shown about `MiddleEnd.translate` carries over to a translation in words: where overflow
stops a run, to all code that it makes, and where overflow wraps, as long as words hold all results.

Results:
1. `translate_wraps`, `translate_of_fits`: what a translation in words makes of a program.
2. `translate_eq_of_stops_eq_ok`: code that comes out of a run that overflow may stop is the code.
-/

namespace MiddleEnd.Fixed

/-- Words hold all results of lowering a program, if it is lowered. -/
def Lowers (config : Config) (p : Source.Program) : Prop :=
  ∀ typed, checkProgram ⟨(Declarations.ofProgram p).table, config.unbounded⟩ p = .ok (typed, []) →
    Fits config (Declarations.ofProgram p).table typed

/-- What words show of a translation. -/
def readTranslation (r : Reading) : Except MiddleEnd.Rejection Code → Except Rejection Code
  | .ok code => .ok (code.read r)
  | .error rejection => .error (.rejected rejection)

variable {o : Overflow} {r : Reading} {config : Config} {p : Source.Program}

/-- A translation in words shows what the unbounded one makes, or some result was one that no word
holds. -/
theorem translate_follows (kept : r = .exact ∨ o = .wraps) (config : Config)
    (p : Source.Program) :
    translate o config p = readTranslation r (MiddleEnd.translate config.unbounded p) ∨
      r = .exact ∧ ¬Lowers config p ∧ (o = .stops → translate o config p = .error .overflow) := by
  cases checked : checkProgram ⟨(Declarations.ofProgram p).table, config.unbounded⟩ p with
  | error abort =>
    simp only [translate, MiddleEnd.translate, checked]
    exact .inl rfl
  | ok result =>
    obtain ⟨typed, issued⟩ := result
    cases silent : (Declarations.ofProgram p).log ++ issued with
    | cons first rest =>
      simp only [translate, MiddleEnd.translate, checked, silent]
      exact .inl rfl
    | nil =>
      obtain ⟨-, rfl⟩ := List.append_eq_nil_iff.1 silent
      simp only [translate, MiddleEnd.translate, checked, silent]
      have follows := lowerProgram_follows kept config (Declarations.ofProgram p).table typed
      rw [SymbolTable.read_ofProgram] at follows
      rcases follows with same | ⟨exact, big, stops⟩
      · rw [same]
        generalize MiddleEnd.lowerProgram _ _ typed = lowered
        rcases lowered with ⟨code | e, table⟩ <;> exact .inl rfl
      · refine .inr ⟨exact, fun lowers => big (lowers typed checked), fun stopped => ?_⟩
        rw [stops stopped]
        rfl

/-- A translation in words that overflow does not stop makes what the unbounded one makes, with its
numbers modulo `2 ^ 32`. -/
theorem translate_wraps (config : Config) (p : Source.Program) :
    translate .wraps config p =
      readTranslation .wrapped (MiddleEnd.translate config.unbounded p) :=
  (translate_follows (.inr rfl) config p).resolve_right nofun

/-- Where words hold all results, a translation in words makes what the unbounded one makes. -/
theorem translate_of_fits (o : Overflow) (lowers : Lowers config p) :
    translate o config p = readTranslation .exact (MiddleEnd.translate config.unbounded p) :=
  (translate_follows (.inl rfl) config p).resolve_right fun excess => excess.2.1 lowers

/-- Code that comes out of a run that overflow may stop is what the unbounded translation makes. -/
theorem translate_eq_of_stops_eq_ok {code : Code} (made : translate .stops config p = .ok code) :
    MiddleEnd.translate config.unbounded p = .ok code := by
  rcases translate_follows (.inl rfl) (o := .stops) config p with same | ⟨-, -, stopped⟩
  · rw [made] at same
    generalize MiddleEnd.translate config.unbounded p = result at same
    cases result with
    | ok code' =>
      rw [readTranslation, Code.read_exact] at same
      exact congrArg Except.ok (Except.ok.inj same).symm
    | error rejection => cases same
  · cases made.symm.trans (stopped rfl)

end MiddleEnd.Fixed
