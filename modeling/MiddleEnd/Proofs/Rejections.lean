import MiddleEnd.Proofs.Lowered.Foreign
import MiddleEnd.Proofs.Scoping.Recorded

/-!
# Rejected units

A unit is rejected with everything that the first two passes issued or with the one error that ended
a pass. What is issued is always a diagnostic and what ends a pass never is, so the errors of a
rejected unit tell which of the two happened.

Results:
1. `log_diagnostic`, `ProgramCheck.diagnostic`: both passes issue diagnostics only.
2. `Cause.not_diagnostic_of_isMissing`, `Cause.not_diagnostic_of_endsLowering`: what ends a pass.
3. `translate_answers`: the ways in which a translation ends.
4. `rejection_sorted`: the errors of a rejected unit are never mixed and never lost.
-/

namespace MiddleEnd

/-- Everything in a log is about the unit. -/
def Log.Diagnostic (log : Log) : Prop := ∀ e ∈ log, e.cause.isDiagnostic = true

variable {log log₁ log₂ : Log}

theorem Log.Diagnostic.nil : Log.Diagnostic [] := nofun

theorem Log.Diagnostic.append (h₁ : log₁.Diagnostic) (h₂ : log₂.Diagnostic) :
    Log.Diagnostic (log₁ ++ log₂) := List.forall_mem_append.2 ⟨h₁, h₂⟩

/-! ## What the passes issue -/

theorem Entry.report_diagnostic (e : Entry) : e.report.cause.isDiagnostic = true := by
  obtain ⟨scope, v | f⟩ := e <;> rfl

/-- The first pass issues diagnostics only. -/
theorem log_diagnostic (p : Source.Program) : (Declarations.ofProgram p).log.Diagnostic := by
  rw [(declared_describes p).log, clashes_eq]
  intro e mem
  obtain ⟨entry, -, rfl⟩ := List.mem_map.1 mem
  exact entry.report_diagnostic

theorem reportUnless_diagnostic {cause : Cause} (diagnostic : cause.isDiagnostic = true)
    (condition : Bool) (pos : Pos) : (reportUnless condition cause pos).Diagnostic := by
  unfold reportUnless
  split
  · exact .nil
  · exact List.forall_mem_singleton.2 diagnostic

theorem tyReport_diagnostic (pos : Pos) (expected received : Ty) :
    (tyReport pos expected received).Diagnostic := reportUnless_diagnostic rfl _ pos

theorem fitsReport_diagnostic (pos : Pos) (expected received : Ty) :
    (fitsReport pos expected received).Diagnostic := reportUnless_diagnostic rfl _ pos

theorem testReport_diagnostic (pos : Pos) (ty : Ty) : (testReport pos ty).Diagnostic :=
  reportUnless_diagnostic rfl _ pos

theorem branchesReport_diagnostic (config : Config) (pos : Pos) (ifTrue ifFalse : Ty) :
    (branchesReport config pos ifTrue ifFalse).Diagnostic := by
  unfold branchesReport
  split
  · exact fitsReport_diagnostic pos ifTrue ifFalse
  · exact .nil

section Check

variable {Γ : CheckContext} {path : ScopePath} {returnTy : Ty}

theorem RefCheck.diagnostic {r : Source.Ref} {r' : Typed.Ref}
    (h : RefCheck Γ.symbols path r r' log) : log.Diagnostic := by
  cases h with
  | notFound | notVariable => exact List.forall_mem_singleton.2 rfl
  | found => exact .nil

theorem ExprCheck.diagnostic {e : Source.Expr} {e' : Typed.Expr} (h : ExprCheck Γ path e e' log) :
    log.Diagnostic := by
  induction h with
  | const => exact .nil
  | var h => exact h.diagnostic
  | unary _ ih => exact ih.append (tyReport_diagnostic _ _ _)
  | binary _ _ ihl ihr =>
    exact ((ihl.append (tyReport_diagnostic _ _ _)).append ihr).append (tyReport_diagnostic _ _ _)
  | assign h _ ih => exact (h.diagnostic.append ih).append (fitsReport_diagnostic _ _ _)
  | cond _ _ _ iht iha ihb =>
    exact (((iht.append (testReport_diagnostic _ _)).append iha).append ihb).append
      (branchesReport_diagnostic _ _ _ _)

theorem OptionCheck.diagnostic {e : Option Source.Expr} {e' : Option Typed.Expr}
    (h : OptionCheck Γ path e e' log) : log.Diagnostic := by
  cases h with
  | none => exact .nil
  | some h => exact h.diagnostic

theorem TestCheck.diagnostic {test : Source.Expr} {t : Typed.Expr}
    (h : TestCheck Γ path test t log) : log.Diagnostic := by
  cases h with
  | mk h => exact h.diagnostic.append (testReport_diagnostic _ _)

theorem FitsCheck.diagnostic {ty : Ty} {e : Source.Expr} {e' : Typed.Expr}
    (h : FitsCheck Γ path ty e e' log) : log.Diagnostic := by
  cases h with
  | mk h => exact h.diagnostic.append (fitsReport_diagnostic _ _ _)

theorem VarDeclCheck.diagnostic {d : Source.VarDecl} {d' : Typed.VarDecl}
    (h : VarDeclCheck Γ path d d' log) : log.Diagnostic := by
  cases h with
  | plain => exact .nil
  | init _ _ h => exact h.diagnostic

theorem ForInitCheck.diagnostic {init : Option Source.ForInit} {init' : Option Typed.ForInit}
    (h : ForInitCheck Γ path init init' log) : log.Diagnostic := by
  cases h with
  | none => exact .nil
  | decl h => exact h.diagnostic
  | expr h => exact h.diagnostic

mutual

/-- The check of a statement issues diagnostics only. -/
theorem StmtCheck.diagnostic {Γ : CheckContext} {returnTy : Ty} {path : ScopePath}
    {s : Source.Stmt} {s' : Typed.Stmt} {log : Log} (h : StmtCheck Γ returnTy path s s' log) :
    log.Diagnostic := by
  cases h with
  | decl h => exact h.diagnostic
  | expr h => exact h.diagnostic
  | ret h => exact h.diagnostic
  | empty | brk | cont => exact .nil
  | block _ h => exact h.diagnostic
  | ite h₁ h₂ h₃ => exact (h₁.diagnostic.append h₂.diagnostic).append h₃.diagnostic
  | whileDo h₁ h₂ | doWhile h₁ h₂ => exact h₁.diagnostic.append h₂.diagnostic
  | forLoop _ h₁ h₂ h₃ h₄ =>
    exact ((h₁.diagnostic.append h₂.diagnostic).append h₃.diagnostic).append h₄.diagnostic

theorem StmtsCheck.diagnostic {Γ : CheckContext} {returnTy : Ty} {path : ScopePath}
    {ss : List Source.Stmt} {ss' : List Typed.Stmt} {log : Log}
    (h : StmtsCheck Γ returnTy path ss ss' log) : log.Diagnostic := by
  cases h with
  | nil => exact .nil
  | cons h₁ h₂ => exact h₁.diagnostic.append h₂.diagnostic

end

theorem FunctionCheck.diagnostic {f : Source.Function} {f' : Typed.Function}
    (h : FunctionCheck Γ path f f' log) : log.Diagnostic := by
  cases h with
  | mk _ _ _ _ body => exact body.diagnostic

theorem FunctionsCheck.diagnostic {fs : List Source.Function} {fs' : List Typed.Function}
    (h : FunctionsCheck Γ path fs fs' log) : log.Diagnostic := by
  induction h with
  | nil => exact .nil
  | cons h _ ih => exact h.diagnostic.append ih

/-- The check of a program issues diagnostics only. -/
theorem ProgramCheck.diagnostic {p : Source.Program} {typed : Typed.Program}
    (h : ProgramCheck Γ p typed log) : log.Diagnostic := by
  cases h with
  | mk _ h => exact h.diagnostic

end Check

/-! ## What ends a pass -/

theorem Cause.not_diagnostic_of_isMissing {cause : Cause} (missing : cause.isMissing = true) :
    cause.isDiagnostic = false := by
  cases cause <;> first | rfl | cases missing

theorem Cause.not_diagnostic_of_endsLowering {cause : Cause} (ends : cause.endsLowering = true) :
    cause.isDiagnostic = false := by
  cases cause <;> first | rfl | cases ends

/-! ## The answers of a translation -/

/-- The ways in which a translation ends, by what the passes answer. -/
inductive Answers (config : Config) (p : Source.Program) : Except Rejection Code → Prop
  | lowered {typed : Typed.Program} {code : Code} :
      (Declarations.ofProgram p).log = [] →
      checkProgram ⟨(Declarations.ofProgram p).table, config⟩ p = .ok (typed, []) →
      (lowerProgram config (Declarations.ofProgram p).table typed).1 = .ok code →
      Answers config p (.ok code)
  | diagnosed {typed : Typed.Program} {issued : Log} :
      checkProgram ⟨(Declarations.ofProgram p).table, config⟩ p = .ok (typed, issued) →
      (Declarations.ofProgram p).log ++ issued ≠ [] →
      Log.Diagnostic ((Declarations.ofProgram p).log ++ issued) →
      Answers config p (.error (.diagnosed ((Declarations.ofProgram p).log ++ issued)))
  | notChecked {e : Error} :
      checkProgram ⟨(Declarations.ofProgram p).table, config⟩ p = .error (.error e) →
      e.cause.isDiagnostic = false → Answers config p (.error (.aborted e))
  | notLowered {typed : Typed.Program} {e : Error} :
      (Declarations.ofProgram p).log = [] →
      checkProgram ⟨(Declarations.ofProgram p).table, config⟩ p = .ok (typed, []) →
      (lowerProgram config (Declarations.ofProgram p).table typed).1 = .error e →
      e.cause.isDiagnostic = false → Answers config p (.error (.aborted e))

theorem translate_answers (config : Config) (p : Source.Program) :
    Answers config p (translate config p) := by
  rcases checked_and_lowered p p config with ⟨typed, issued, checked, -, lowered⟩ |
    ⟨e, checked, missing⟩
  · by_cases silent : (Declarations.ofProgram p).log ++ issued = []
    · obtain ⟨declared, rfl⟩ := List.append_eq_nil_iff.1 silent
      rw [translate_of_silent checked declared]
      rcases lowered with ⟨code, lowered⟩ | ⟨e, failed, ends⟩
      · rw [lowered]
        exact .lowered declared checked lowered
      · rw [failed]
        exact .notLowered declared checked failed (Cause.not_diagnostic_of_endsLowering ends)
    · have reported : translate config p =
          .error (.diagnosed ((Declarations.ofProgram p).log ++ issued)) := by
        simp only [translate, checked]
      rw [reported]
      exact .diagnosed checked silent
        ((log_diagnostic p).append (checkProgram_shape checked).diagnostic)
  · have reported : translate config p = .error (.aborted e) := by
      simp only [translate, checked, Rejection.ofAbort]
    rw [reported]
    exact .notChecked checked (Cause.not_diagnostic_of_isMissing missing)

namespace Answers

variable {config : Config} {p : Source.Program} {r : Rejection}

/-- A rejected unit has an error to show. -/
theorem errors_ne_nil (h : Answers config p (.error r)) : r.errors ≠ [] := by
  cases h with
  | diagnosed _ noisy _ => exact noisy
  | notChecked | notLowered => exact List.cons_ne_nil _ _

/-- The errors of a rejected unit are all diagnostics, or there is one and it is none. -/
theorem errors_sorted (h : Answers config p (.error r)) :
    (∃ typed issued,
      checkProgram ⟨(Declarations.ofProgram p).table, config⟩ p = .ok (typed, issued) ∧
      r.errors = (Declarations.ofProgram p).log ++ issued ∧ Log.Diagnostic r.errors) ∨
    ∃ e, r.errors = [e] ∧ e.cause.isDiagnostic = false := by
  cases h with
  | diagnosed checked _ diagnostic => exact .inl ⟨_, _, checked, rfl, diagnostic⟩
  | notChecked _ notDiagnostic => exact .inr ⟨_, rfl, notDiagnostic⟩
  | notLowered _ _ _ notDiagnostic => exact .inr ⟨_, rfl, notDiagnostic⟩

/-- When the one error shown is the one that ended a pass. -/
theorem errors_single_iff (h : Answers config p (.error r)) (e : Error) :
    (r.errors = [e] ∧ e.cause.isDiagnostic = false) ↔
      checkProgram ⟨(Declarations.ofProgram p).table, config⟩ p = .error (.error e) ∨
      ∃ typed, (Declarations.ofProgram p).log = [] ∧
        checkProgram ⟨(Declarations.ofProgram p).table, config⟩ p = .ok (typed, []) ∧
        (lowerProgram config (Declarations.ofProgram p).table typed).1 = .error e := by
  constructor
  · rintro ⟨single, notDiagnostic⟩
    cases h with
    | diagnosed _ _ diagnostic =>
      -- everything that was issued is a diagnostic, the one error shown included
      have shown : e ∈ (Rejection.diagnosed _).errors := single ▸ List.mem_singleton_self e
      cases notDiagnostic.symm.trans (diagnostic e shown)
    | notChecked checked _ =>
      cases single
      exact .inl checked
    | notLowered silent checked lowered _ =>
      cases single
      exact .inr ⟨_, silent, checked, lowered⟩
  · rintro (failed | ⟨typed, silent, checked, failed⟩)
    · cases h with
      | diagnosed checked' => cases checked'.symm.trans failed
      | notChecked checked' notDiagnostic =>
        cases checked'.symm.trans failed
        exact ⟨rfl, notDiagnostic⟩
      | notLowered _ checked' => cases checked'.symm.trans failed
    · cases h with
      | diagnosed checked' noisy =>
        cases checked'.symm.trans checked
        exact absurd (by rw [silent]; rfl) noisy
      | notChecked checked' => cases checked'.symm.trans checked
      | notLowered _ checked' lowered notDiagnostic =>
        cases checked'.symm.trans checked
        cases lowered.symm.trans failed
        exact ⟨rfl, notDiagnostic⟩

end Answers

/-- A unit is translated only if nothing is issued and its lowering succeeds. Otherwise there is an
error to show: the diagnostics of the first two passes in order, or one error that is none. The
latter is the answer exactly if the check ended with that error, whatever was issued before, or if
nothing was issued and the lowering failed with it. -/
theorem rejection_sorted (config : Config) (p : Source.Program) :
    (∃ typed code, translate config p = .ok code ∧ (Declarations.ofProgram p).log = [] ∧
      checkProgram ⟨(Declarations.ofProgram p).table, config⟩ p = .ok (typed, []) ∧
      (lowerProgram config (Declarations.ofProgram p).table typed).1 = .ok code) ∨
    ∃ r, translate config p = .error r ∧ r.errors ≠ [] ∧
      ((∃ typed issued,
          checkProgram ⟨(Declarations.ofProgram p).table, config⟩ p = .ok (typed, issued) ∧
          r.errors = (Declarations.ofProgram p).log ++ issued ∧ Log.Diagnostic r.errors) ∨
        ∃ e, r.errors = [e] ∧ e.cause.isDiagnostic = false) ∧
      ∀ e, (r.errors = [e] ∧ e.cause.isDiagnostic = false) ↔
        checkProgram ⟨(Declarations.ofProgram p).table, config⟩ p = .error (.error e) ∨
        ∃ typed, (Declarations.ofProgram p).log = [] ∧
          checkProgram ⟨(Declarations.ofProgram p).table, config⟩ p = .ok (typed, []) ∧
          (lowerProgram config (Declarations.ofProgram p).table typed).1 = .error e := by
  have answers := translate_answers config p
  cases translated : translate config p with
  | ok code =>
    rw [translated] at answers
    cases answers with
    | lowered silent checked lowered => exact .inl ⟨_, code, rfl, silent, checked, lowered⟩
  | error r =>
    rw [translated] at answers
    exact .inr ⟨r, rfl, answers.errors_ne_nil, answers.errors_sorted, answers.errors_single_iff⟩

end MiddleEnd
