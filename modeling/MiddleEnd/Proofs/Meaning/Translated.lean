import MiddleEnd.Proofs.Checked.Numbering
import MiddleEnd.Proofs.Lowered.Accepted
import MiddleEnd.Proofs.Meaning.Preservation

/-!
# What translated programs mean

The three passes together. A program that is translated was accepted without a word, so it declares
no name twice and its variables are numbered apart. Then each of them lives in a temporary of its
own, and the code of a function does what its typed tree says.

Results:
1. `preserves_meaning_of_ordered`: code and typed tree of a translated program, where positions do
   not mislead.
2. `translated_code_preserves_meaning`: programs that were built.
-/

namespace MiddleEnd

/-- The code of a translated program does what its typed tree says, if positions do not mislead. -/
theorem preserves_meaning_of_ordered {p : Source.Program} (ordered : p.Ordered) {config : Config}
    {code : Code} {typed : Typed.Program} {issued : Log} (on : config.implicitReturn = true)
    (translated : translate config p = .ok code)
    (checked : checkProgram ⟨(Declarations.ofProgram p).table, config⟩ p = .ok (typed, issued))
    (steady : typed.AllExprs Typed.Expr.Steady) (ops : Operators) :
    let home := (lowerProgram config (Declarations.ofProgram p).table typed).2.tempOf
    List.Forall₂ (fun f piece => ∀ (args : List Int) (m : Memory),
      (∀ v, Machine.Halts ops piece.body ⟨0, m.enter piece.params args⟩ v ↔
        f.Returns ops args (m.store home) v) ∧
      (Machine.Diverges ops piece.body ⟨0, m.enter piece.params args⟩ ↔
        f.Diverges ops args (m.store home))) typed.functions code.pieces := by
  intro home
  obtain ⟨declared, -, lowered⟩ := silent_of_translate_eq_ok translated checked
  obtain ⟨s, -, -, final, shape⟩ := lowerProgram_shape (Prod.ext lowered rfl)
  have numbers := (checkProgram_shape checked).numbers ordered declared
  have fits := Fits.final shape.binds numbers.nodup (tempOf_eq_none p)
  have homes : s.cursor.tempOf = home := congrArg SymbolTable.tempOf final
  rw [homes] at fits
  exact shape.preserves on fits steady

/-- Lowering preserves meaning. With arguments in its parameters and anything in the other
temporaries, the piece of a function halts with what the function returns when each variable starts
with the contents of its temporary, and runs on forever when the function never returns. -/
theorem translated_code_preserves_meaning (d : Draft.Program) (b : Source.Builder)
    {config : Config} {code : Code} {typed : Typed.Program} {issued : Log}
    (on : config.implicitReturn = true)
    (translated : translate config (d.place b).1 = .ok code)
    (checked : checkProgram ⟨(Declarations.ofProgram (d.place b).1).table, config⟩ (d.place b).1 =
      .ok (typed, issued))
    (steady : typed.AllExprs Typed.Expr.Steady) (ops : Operators) :
    let home :=
      (lowerProgram config (Declarations.ofProgram (d.place b).1).table typed).2.tempOf
    List.Forall₂ (fun f piece => ∀ (args : List Int) (m : Memory),
      (∀ v, Machine.Halts ops piece.body ⟨0, m.enter piece.params args⟩ v ↔
        f.Returns ops args (m.store home) v) ∧
      (Machine.Diverges ops piece.body ⟨0, m.enter piece.params args⟩ ↔
        f.Diverges ops args (m.store home))) typed.functions code.pieces :=
  preserves_meaning_of_ordered (d.place_ordered b) on translated checked steady ops

/-- `int sumTo(int n) { int s = 0; while (n) { s = s + n; n = n - 1; } return s; }` -/
def sumTo : Draft.Program :=
  ⟨[⟨"sumTo", [⟨"n", .int⟩], .int,
    [.decl ⟨"s", .int, some (.const 0)⟩,
      .whileDo (.var "n") (.block
        [.expr (.assign "s" (.binary .add (.var "s") (.var "n"))),
          .expr (.assign "n" (.binary .sub (.var "n") (.const 1)))]),
      .ret (.var "s")]⟩]⟩

theorem translated_code_preserves_meaning_of_sumTo :
    let p := (sumTo.place ⟨"t", 0, 0⟩).1
    let ops : Operators := ⟨fun _ v => v, fun op v w => if op = .add then v + w else v - w⟩
    ∃ code typed issued, translate {} p = .ok code ∧
      checkProgram ⟨(Declarations.ofProgram p).table, {}⟩ p = .ok (typed, issued) ∧
      typed.AllExprs Typed.Expr.Steady ∧ code.pieces.length = 1 ∧
      List.Forall₂ (fun f piece => ∀ (args : List Int) (m : Memory),
        (∀ v, Machine.Halts ops piece.body ⟨0, m.enter piece.params args⟩ v ↔
          f.Returns ops args
            (m.store (lowerProgram {} (Declarations.ofProgram p).table typed).2.tempOf) v) ∧
        (Machine.Diverges ops piece.body ⟨0, m.enter piece.params args⟩ ↔
          f.Diverges ops args
            (m.store (lowerProgram {} (Declarations.ofProgram p).table typed).2.tempOf)))
        typed.functions code.pieces := by
  intro p ops
  have ok : (translate {} p).toOption.map (fun code => code.pieces.length) = some 1 := by
    decide +kernel
  have steady : (checkProgram ⟨(Declarations.ofProgram p).table, {}⟩ p).toOption.any
      (fun result => decide (result.1.AllExprs Typed.Expr.Steady)) = true := by
    decide +kernel
  match translated : translate {} p, checked : checkProgram ⟨(Declarations.ofProgram p).table, {}⟩ p
  with
  | .error e, _ => simp [translated, Except.toOption] at ok
  | .ok code, .error e => simp [checked, Except.toOption] at steady
  | .ok code, .ok (typed, issued) =>
    have one : code.pieces.length = 1 := by simpa [translated, Except.toOption] using ok
    have steady : typed.AllExprs Typed.Expr.Steady := by
      simpa [checked, Except.toOption] using steady
    exact ⟨code, typed, issued, rfl, rfl, steady, one,
      translated_code_preserves_meaning sumTo ⟨"t", 0, 0⟩ rfl translated checked steady ops⟩

end MiddleEnd
