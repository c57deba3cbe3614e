import MiddleEnd.Source.Draft
import MiddleEnd.Proofs.Lowered.Accepted
import MiddleEnd.Proofs.Renaming.Checked

/-!
# Strict conditionals

Strict settings ask of a conditional that its second branch fits the first. A conditional has the
type of its second branch whether or not it does, so that nothing else of a check notices: the tree
and the reports are those of permissive settings, and the strict settings put more reports between.

Results:
1. `branchesReport_strict`: what strict settings report on a conditional.
2. `checkProgram_strict`: a check under both settings, against any table.
3. `strict_only_adds`: the same with what follows for translations.
-/

namespace MiddleEnd

/-- The second log is the first one with reports put in between that satisfy `X`. -/
inductive Enriched (X : Error → Prop) : Log → Log → Prop
  | nil : Enriched X [] []
  | both {log log' : Log} (e : Error) : Enriched X log log' → Enriched X (log ++ [e]) (log' ++ [e])
  | extra {log log' : Log} {e : Error} : Enriched X log log' → X e → Enriched X log (log' ++ [e])

theorem Enriched.sublist {X : Error → Prop} {log log' : Log} (h : Enriched X log log') :
    log.Sublist log' := by
  induction h with
  | nil => exact .slnil
  | both e _ ih => exact ih.append_right [e]
  | extra _ _ ih => exact ih.trans (List.sublist_append_left ..)

/-- A report on a conditional of a program: one branch is an `int`, the other a `void`, and the
report stands where the second one starts. -/
def Source.Program.BranchMismatch (p : Source.Program) (e : Error) : Prop :=
  (e.cause = .incompatible "int" "void" ∨ e.cause = .incompatible "void" "int") ∧
    ∃ f ∈ p.functions, ∃ (test ifTrue ifFalse : Source.Expr) (span : Span),
      .expr (.cond test ifTrue ifFalse span) ∈ f.nodes ∧ e.pos = ifFalse.span.start

/-- Types that do not fit are an `int` and a `void`. -/
theorem fitsReport_cases (pos : Pos) (expected received : Ty) :
    fitsReport pos expected received = [] ∨
      ∃ cause, fitsReport pos expected received = [⟨cause, pos⟩] ∧
        (cause = .incompatible "int" "void" ∨ cause = .incompatible "void" "int") := by
  cases expected <;> cases received <;>
    simp [fitsReport, reportUnless, Ty.fits, Ty.isError, Ty.text]

/-- Strict settings report at most a mismatch of the branches, permissive ones nothing. -/
theorem branchesReport_strict {p : Source.Program} {log log' : Log} {config : Config}
    (h : Enriched p.BranchMismatch log log') {test ifTrue ifFalse : Source.Expr} {span : Span}
    (node : ∃ f ∈ p.functions, .expr (.cond test ifTrue ifFalse span) ∈ f.nodes) (a b : Ty) :
    let permissive : Config := { config with strictConditionals := false }
    let strict : Config := { config with strictConditionals := true }
    Enriched p.BranchMismatch (log ++ branchesReport permissive ifFalse.span.start a b)
      (log' ++ branchesReport strict ifFalse.span.start a b) := by
  obtain ⟨f, mem, node⟩ := node
  show Enriched _ (log ++ []) (log' ++ fitsReport ifFalse.span.start a b)
  rw [List.append_nil]
  rcases fitsReport_cases ifFalse.span.start a b with silent | ⟨cause, reported, mismatch⟩
  · rw [silent, List.append_nil]
    exact h
  · rw [reported]
    exact h.extra ⟨mismatch, f, mem, test, ifTrue, ifFalse, span, node, rfl⟩

/-- Under strict and permissive settings a check ends alike. -/
theorem checkProgram_strict (config : Config) (t : SymbolTable) (p : Source.Program) :
    (∃ typed log log',
        checkProgram ⟨t, { config with strictConditionals := false }⟩ p = .ok (typed, log) ∧
        checkProgram ⟨t, { config with strictConditionals := true }⟩ p = .ok (typed, log') ∧
        Enriched p.BranchMismatch log log') ∨
      ∃ e, checkProgram ⟨t, { config with strictConditionals := false }⟩ p = .error e ∧
        checkProgram ⟨t, { config with strictConditionals := true }⟩ p = .error e := by
  have agree : Agree .refl id (fun n => ∃ f ∈ p.functions, n ∈ f.nodes) Eq
      (Enriched p.BranchMismatch) ⟨t, { config with strictConditionals := false }⟩
      ⟨t.rename .refl, { config with strictConditionals := true }⟩ :=
    agree_rename (fun h e => by rw [e.rename_refl]; exact h.both e)
      (fun h _ _ _ _ node a b => branchesReport_strict h node a b)
  simpa only [Source.Program.rename_refl, Typed.Program.rename_refl, SymbolTable.rename_refl,
    Abort.rename_refl] using checkProgram_rename p .nil agree

/-- Strict conditionals only add reports. Against any table a program is checked to the end under
both settings or ends early with the same error under both. The tree is the same, and the reports of
the strict settings are those of the permissive ones with mismatches of branches put in between. So
what is translated under strict settings is translated to the same code under permissive ones. -/
theorem strict_only_adds (config : Config) (t : SymbolTable) (p : Source.Program) :
    let permissive : Config := { config with strictConditionals := false }
    let strict : Config := { config with strictConditionals := true }
    ((∃ typed log log', checkProgram ⟨t, permissive⟩ p = .ok (typed, log) ∧
        checkProgram ⟨t, strict⟩ p = .ok (typed, log') ∧
        log.Sublist log' ∧ Enriched p.BranchMismatch log log') ∨
      ∃ e, checkProgram ⟨t, permissive⟩ p = .error e ∧ checkProgram ⟨t, strict⟩ p = .error e) ∧
    ∀ code, translate strict p = .ok code → translate permissive p = .ok code := by
  intro permissive strict
  constructor
  · rcases checkProgram_strict config t p with ⟨typed, log, log', checked, checked', more⟩ | failed
    · exact .inl ⟨typed, log, log', checked, checked', more.sublist, more⟩
    · exact .inr failed
  · intro code translated
    rcases checkProgram_strict config (Declarations.ofProgram p).table p with
      ⟨typed, log, log', checked, checked', more⟩ | ⟨e, -, failed⟩
    · obtain ⟨declared, rfl, lowered⟩ := silent_of_translate_eq_ok translated checked'
      obtain rfl := List.sublist_nil.1 more.sublist
      -- lowering does not look at this setting
      have lowered : (lowerProgram permissive (Declarations.ofProgram p).table typed).1 =
          .ok code := lowered
      rw [translate_of_silent checked declared, lowered]
    · simp only [translate, strict, failed] at translated
      cases translated

/-- `int main() { int n; void u; n ? (n ? n : u) : n; return n; }` -/
def mixedBranches : Draft.Program :=
  ⟨[⟨"main", [], .int,
    [.decl ⟨"n", .int, none⟩, .decl ⟨"u", .void, none⟩,
      .expr (.cond (.var "n") (.cond (.var "n") (.var "n") (.var "u")) (.var "n")),
      .ret (.var "n")]⟩]⟩

theorem strict_only_adds_of_mixedBranches :
    let p := (mixedBranches.place ⟨"t", 0, 0⟩).1
    let t := (Declarations.ofProgram p).table
    ∃ typed log', checkProgram ⟨t, ⟨4, false, true⟩⟩ p = .ok (typed, []) ∧
      checkProgram ⟨t, ⟨4, true, true⟩⟩ p = .ok (typed, log') ∧
      log'.map Error.cause = [.incompatible "int" "void", .incompatible "void" "int"] ∧
      Enriched p.BranchMismatch [] log' := by
  intro p t
  have silent : (checkProgram ⟨t, ⟨4, false, true⟩⟩ p).toOption.map Prod.snd = some [] := by
    decide +kernel
  have causes : (checkProgram ⟨t, ⟨4, true, true⟩⟩ p).toOption.map
      (fun result => result.2.map Error.cause) =
        some [.incompatible "int" "void", .incompatible "void" "int"] := by
    decide +kernel
  rcases (strict_only_adds ⟨4, false, true⟩ t p).1 with
    ⟨typed, log, log', checked, checked', -, more⟩ | ⟨e, failed, -⟩
  · rw [show checkProgram ⟨t, ⟨4, false, true⟩⟩ p = .ok (typed, log) from checked] at silent
    rw [show checkProgram ⟨t, ⟨4, true, true⟩⟩ p = .ok (typed, log') from checked'] at causes
    obtain rfl : log = [] := Option.some.inj silent
    exact ⟨typed, log', checked, checked', Option.some.inj causes, more⟩
  · rw [show checkProgram ⟨t, ⟨4, false, true⟩⟩ p = .error e from failed] at silent
    cases silent

end MiddleEnd
