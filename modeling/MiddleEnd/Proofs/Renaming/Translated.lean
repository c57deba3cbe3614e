import MiddleEnd.Source.Draft
import MiddleEnd.Proofs.Lowered.InStep
import MiddleEnd.Proofs.Renaming.Declared

/-!
# Translating under a renaming

No pass looks at a name, an id or a position except to tell whether two names or two ids are the
same and whether a position is before another. So a renamed program is translated to the same code,
but for the names that functions are entered by, and a rejected one is rejected with the renamed
errors.

Results:
1. `lowerProgram_rename`: lowering.
2. `translate_rename`: all three passes.
-/

namespace MiddleEnd

variable {ρ : Renaming}

/-! ## Lowering -/

/-- Two lowerings of which the second works with the renamed table. -/
def Renaming.shift (ρ : Renaming) : Shift :=
  ⟨ρ, id, Function.injective_id, fun _ => True, 0, 0⟩

theorem Symbol.moved_rename (s : Symbol) : s.Moved ρ 0 (s.rename ρ) := by
  cases s with
  | var v =>
    obtain ⟨name, ty, pos, isParameter, order, temp, offset⟩ := v
    cases temp with
    | none => exact .var .none
    | some t => exact .var (.some (Int.add_zero t).symm)
  | fn g => exact .fn ⟨rfl, rfl, rfl⟩

/-- A renamed program is lowered to renamed code, or fails with the renamed error. -/
theorem lowerProgram_rename (ρ : Renaming) (config : Config) (t : SymbolTable) (p : Typed.Program) :
    (∃ code, (lowerProgram config t p).1 = .ok code ∧
        (lowerProgram config (t.rename ρ) (p.rename ρ)).1 = .ok (code.rename ρ)) ∨
      ∃ e, (lowerProgram config t p).1 = .error e ∧
        (lowerProgram config (t.rename ρ) (p.rename ρ)).1 = .error (e.rename ρ) := by
  let together (s s' : Lowering) : Prop := ∃ done,
    ρ.shift.Beside done (done.map (Piece.rename ρ)) (t.rename ρ).symbols Shift.Closed s s'
  have each : ∀ f ∈ p.functions, Lockstep together together (fun e e' => e' = e.rename ρ)
      (fun _ _ => True) (lowerFunction config f) (lowerFunction config (f.rename ρ id)) := by
    rintro f - s s' ⟨done, h⟩
    rcases lowerFunction_inStep config f (fun _ _ _ _ => trivial) s s' h with
      ⟨u, s₁, u', s₁', ran, ran', -, piece, piece', moved, h₁⟩ | failed
    · obtain rfl : piece' = piece.rename ρ := moved.eq
      refine .inl ⟨u, s₁, u', s₁', ran, ran', trivial, done ++ [piece], ?_⟩
      rw [List.map_append, List.map_singleton]
      exact h₁
    · exact .inr failed
  have start : together { symbols := t } { symbols := t.rename ρ } := by
    refine ⟨[], rfl, rfl, ⟨rfl, rfl⟩, rfl, rfl, fun id _ => ?_, fun id _ => rfl⟩
    show Option.Rel _ t.symbols[id]? (t.rename ρ).symbols[id]?
    rw [t.symbols_rename]
    cases t.symbols[id]? with
    | none => exact .none
    | some s => exact .some s.moved_rename
  rcases Lockstep.forM each _ _ start with
    ⟨u, s, u', s', ran, ran', -, done, h⟩ | ⟨e, s, e', s', failed, failed', rfl⟩
  · refine .inl ⟨_, lowerProgram_of_ok ran, (lowerProgram_of_ok ran').trans ?_⟩
    refine congrArg (fun pieces => Except.ok (Code.mk pieces)) ?_
    exact h.finished'.trans (congrArg (List.map (Piece.rename ρ)) h.finished.symm)
  · exact .inr ⟨e, lowerProgram_of_error failed, lowerProgram_of_error failed'⟩

/-! ## Translating -/

theorem branchesReport_rename (config : Config) (pos : Pos) (a b : Ty) :
    branchesReport config (pos.rename ρ) a b = (branchesReport config pos a b).rename ρ := by
  unfold branchesReport fitsReport reportUnless
  split <;> [split; skip] <;> rfl

/-- Translating commutes with renaming. If a program is translated, so is the renamed one, to the
same pieces with their entries renamed. If it is rejected, so is the renamed one, with the same
errors in the same order, their names, ids and positions renamed. -/
theorem translate_rename (ρ : Renaming) (config : Config) (p : Source.Program) :
    translate config (p.rename ρ) =
      match translate config p with
      | .ok code => .ok (code.rename ρ)
      | .error rejection => .error (rejection.rename ρ) := by
  have agree : Agree ρ id (fun n => ∃ f ∈ p.functions, n ∈ f.nodes) Eq
      (fun log log' => log' = Log.rename ρ log)
      ⟨(Declarations.ofProgram p).table, config⟩
      ⟨(Declarations.ofProgram p).table.rename ρ, config⟩ := by
    refine agree_rename ?_ ?_
    · rintro log _ rfl e
      rw [Log.rename, Log.rename, List.map_append, List.map_singleton]
    · rintro log _ rfl _ _ ifFalse _ - a b
      rw [branchesReport_rename, Log.rename, Log.rename, Log.rename, List.map_append]
  unfold translate
  rw [ofProgram_rename]
  rcases checkProgram_rename (L := fun log log' => log' = Log.rename ρ log) p rfl agree with
    ⟨typed, log, _, checked, checked', rfl⟩ | ⟨e, failed, failed'⟩
  · simp only [Declarations.rename, checked, checked']
    rw [Log.rename, Log.rename, ← List.map_append]
    cases (Declarations.ofProgram p).log ++ log with
    | nil =>
      rcases lowerProgram_rename ρ config (Declarations.ofProgram p).table typed with
        ⟨code, lowered, lowered'⟩ | ⟨e, failed, failed'⟩
      · simp only [List.map_nil, lowered, lowered']
      · simp only [List.map_nil, failed, failed', Rejection.rename]
    | cons e rest => rfl
  · simp only [Declarations.rename, failed, failed']
    cases e <;> rfl

/-- Marks names, numbers nodes from one hundred on and doubles positions. -/
def marked : Renaming where
  name n := "_" ++ n
  node id := id + 100
  offset n := 2 * n
  name_injective a b same := by simpa using same
  node_injective a b same := by simpa using same
  offset_strictMono a b below := by show 2 * a < 2 * b; omega

/-- `int f(int x) { while (x) x = 0; return x; }` -/
def drain : Draft.Program :=
  ⟨[⟨"f", [⟨"x", .int⟩], .int,
    [.whileDo (.var "x") (.expr (.assign "x" (.const 0))), .ret (.var "x")]⟩]⟩

/-- `int f() { int x; return y; } int f() { f = x; }` -/
def muddled : Draft.Program :=
  ⟨[⟨"f", [], .int, [.decl ⟨"x", .int, none⟩, .ret (.var "y")]⟩,
    ⟨"f", [], .int, [.expr (.assign "f" (.var "x"))]⟩]⟩

/-- What a translation reports. -/
def reportsOf : Except Rejection Code → List Error
  | .ok _ => []
  | .error rejection => rejection.errors

/-- One program is translated, the other is rejected. -/
theorem translate_rename_of_drain_of_muddled :
    let p := (drain.place ⟨"t", 0, 0⟩).1
    let q := (muddled.place ⟨"t", 0, 0⟩).1
    let body : List Instr :=
      [.mark 0, .jumpIfZero 1 0, .load 1 0, .copy 0 1, .jump 0, .mark 1, .ret 0, .load 2 0, .ret 2]
    (translate {} p = .ok ⟨[⟨"f", 4, [0], body⟩]⟩ ∧
      translate {} (p.rename marked) = .ok ⟨[⟨"_f", 4, [0], body⟩]⟩) ∧
    reportsOf (translate {} q) =
      [⟨.functionAlreadyDeclared "f", ⟨10, "t"⟩⟩, ⟨.symbolNotFound "y", ⟨1, "t"⟩⟩,
        ⟨.notVariable "f", ⟨6, "t"⟩⟩, ⟨.symbolNotFound "x", ⟨5, "t"⟩⟩] ∧
    reportsOf (translate {} (q.rename marked)) =
      [⟨.functionAlreadyDeclared "_f", ⟨20, "t"⟩⟩, ⟨.symbolNotFound "_y", ⟨2, "t"⟩⟩,
        ⟨.notVariable "_f", ⟨12, "t"⟩⟩, ⟨.symbolNotFound "_x", ⟨10, "t"⟩⟩] := by
  intro p q body
  refine ⟨?_, ?_⟩
  · have accepted : (translate {} p).toOption = some ⟨[⟨"f", 4, [0], body⟩]⟩ := by decide +kernel
    rw [translate_rename]
    cases translated : translate {} p with
    | error rejection =>
      rw [translated] at accepted
      cases accepted
    | ok code =>
      rw [translated] at accepted
      obtain rfl := Option.some.inj accepted
      exact ⟨rfl, rfl⟩
  · rw [translate_rename]
    decide +kernel

end MiddleEnd
