import MiddleEnd.Proofs.Lowered.Bindings
import MiddleEnd.Proofs.Scoping.Visible

/-!
# The numbers of the variables

In a program that declares no name twice, the variables of the typed tree are numbered in the order
in which they are declared, and none twice.

Results:
1. `StmtCheck.numbers`: a statement declares the numbers between two surveys.
2. `ProgramCheck.numbers`: a program declares the numbers behind those of its functions.
-/

namespace MiddleEnd

open Survey

/-- The numbers from `a` up to `b`, in order. -/
structure Numbers (xs : List SymbolId) (a b : Nat) : Prop where
  le : a ≤ b
  eq : xs = List.range' a (b - a)

namespace Numbers

variable {xs ys : List SymbolId} {a b c : Nat}

theorem nil (a : Nat) : Numbers [] a a := ⟨Nat.le_refl a, by simp⟩

theorem single (a : Nat) : Numbers [a] a (a + 1) := ⟨Nat.le_succ a, by simp⟩

theorem append (h₁ : Numbers xs a b) (h₂ : Numbers ys b c) : Numbers (xs ++ ys) a c := by
  refine ⟨Nat.le_trans h₁.le h₂.le, ?_⟩
  have le₁ := h₁.le
  have le₂ := h₂.le
  have start : b = a + (b - a) := by omega
  have whole : c - a = (b - a) + (c - b) := by omega
  rw [h₁.eq, h₂.eq, whole, ← List.range'_append_1, ← start]

theorem mem_iff (h : Numbers xs a b) {x : Nat} : x ∈ xs ↔ a ≤ x ∧ x < b := by
  have le := h.le
  rw [h.eq, List.mem_range'_1]
  omega

theorem nodup (h : Numbers xs a b) : xs.Nodup := by
  rw [h.eq]
  exact List.nodup_range'

end Numbers

variable {Γ : CheckContext} {w : Survey}

theorem VarDeclCheck.numbers {d : Source.VarDecl} {d' : Typed.VarDecl} {log : Log}
    (h : VarDeclCheck Γ w.path d d' log) (numbered : w.All (Numbered Γ.symbols) d.script) :
    Numbers [d'.symbol] w.entries.length (w.run d.script).entries.length := by
  have own := (all_append.1 numbered).2.1
  rw [run_option] at own
  have one := Numbers.single w.entries.length
  rw [run_varDecl, step, List.length_append, List.length_singleton]
  cases h with
  | plain named | init named =>
    cases named.symm.trans own
    exact one

theorem ForInitCheck.numbers {init : Option Source.ForInit} {init' : Option Typed.ForInit}
    {log : Log} (h : ForInitCheck Γ w.path init init' log)
    (numbered : w.All (Numbered Γ.symbols) (Source.ForInit.script init)) :
    Numbers (Typed.ForInit.binds init') w.entries.length
      (w.run (Source.ForInit.script init)).entries.length := by
  cases h with
  | none => exact .nil _
  | decl h => exact h.numbers numbered
  | expr h =>
    unfold Source.ForInit.script
    rw [run_expr]
    exact .nil _

mutual

/-- A statement declares the numbers between the surveys before and after it. -/
theorem StmtCheck.numbers {Γ : CheckContext} {returnTy : Ty} {w : Survey} {s : Source.Stmt}
    {s' : Typed.Stmt} {log : Log} (h : StmtCheck Γ returnTy w.path s s' log)
    (numbered : w.All (Numbered Γ.symbols) s.script) :
    Numbers s'.binds w.entries.length (w.run s.script).entries.length := by
  cases h with
  | decl h => exact h.numbers numbered
  | expr h | ret h =>
    unfold Source.Stmt.script
    rw [run_expr]
    exact .nil _
  | empty | brk | cont => exact .nil _
  | @block _ _ _ id _ _ _ owned h =>
    obtain ⟨entered, numberedBody⟩ := all_scope numbered
    cases owned.symm.trans entered
    have inner := StmtsCheck.numbers (w := w.step (.enter id .block)) h numberedBody
    unfold Source.Stmt.script
    rw [List.cons_append, run_cons, run_append]
    exact inner
  | @ite _ _ ifTrue _ _ _ _ _ _ _ _ h₁ h₂ h₃ =>
    obtain ⟨numbered₁, numbered₃⟩ := all_append.1 numbered
    obtain ⟨-, numbered₂⟩ := all_append.1 numbered₁
    rw [run_expr] at numbered₂
    rw [run_append, run_expr] at numbered₃
    rw [← path_run_stmt w ifTrue] at h₃
    have first := h₂.numbers numbered₂
    unfold Source.Stmt.script
    rw [run_append, run_append, run_expr]
    exact first.append (h₃.numbers numbered₃)
  | whileDo h₁ h₂ =>
    have numbered₂ := (all_append.1 numbered).2
    rw [run_expr] at numbered₂
    unfold Source.Stmt.script
    rw [run_append, run_expr]
    exact h₂.numbers numbered₂
  | doWhile h₁ h₂ =>
    have numbered₂ := (all_append.1 numbered).1
    unfold Source.Stmt.script
    rw [run_append, run_expr]
    exact h₂.numbers numbered₂
  | @forLoop _ init _ _ _ _ _ _ _ id _ _ _ _ _ _ owned h₁ h₂ h₃ h₄ =>
    obtain ⟨entered, numberedRest⟩ := all_scope numbered
    cases owned.symm.trans entered
    obtain ⟨numberedClauses, numbered₄⟩ := all_append.1 numberedRest
    have numbered₁ := (all_append.1 (all_append.1 numberedClauses).1).1
    rw [run_append, run_append, run_option, run_option] at numbered₄
    have first := ForInitCheck.numbers (w := w.step (.enter id .block)) h₁ numbered₁
    have inside : ((w.step (.enter id .block)).run (Source.ForInit.script init)).path =
        w.owners.length :: w.path := path_forInit ..
    rw [← inside] at h₄
    unfold Source.Stmt.script
    rw [List.cons_append, run_cons, run_append]
    simp only [run_append, run_option]
    exact first.append (h₄.numbers numbered₄)

theorem StmtsCheck.numbers {Γ : CheckContext} {returnTy : Ty} {w : Survey} {ss : List Source.Stmt}
    {ss' : List Typed.Stmt} {log : Log} (h : StmtsCheck Γ returnTy w.path ss ss' log)
    (numbered : w.All (Numbered Γ.symbols) (Source.scriptOf ss)) :
    Numbers (Typed.bindsOf ss') w.entries.length
      (w.run (Source.scriptOf ss)).entries.length := by
  cases h with
  | nil => exact .nil _
  | @cons _ s _ _ _ _ _ h₁ h₂ =>
    obtain ⟨numbered₁, numbered₂⟩ := all_append.1 numbered
    rw [← path_run_stmt w s] at h₂
    unfold Source.scriptOf
    rw [run_append]
    exact (h₁.numbers numbered₁).append (h₂.numbers numbered₂)

end

theorem ParamsCheck.numbers {ps : List Source.Param} {ps' : List Typed.Param}
    (h : ParamsCheck Γ w.path ps ps')
    (numbered : w.All (Numbered Γ.symbols) (ps.map fun p => .declare p.symbol)) :
    Numbers (ps'.map Typed.Param.symbol) w.entries.length
      (w.run (ps.map fun p => .declare p.symbol)).entries.length := by
  induction ps generalizing w ps' with
  | nil =>
    cases h
    exact .nil _
  | cons p rest ih =>
    cases h with
    | cons named h =>
      obtain ⟨own, numberedRest⟩ := numbered
      cases named.symm.trans own
      have one := Numbers.single w.entries.length
      have others := ih (w := w.step (.declare p.symbol)) h numberedRest
      rw [step, List.length_append, List.length_singleton] at others
      exact one.append others

theorem FunctionCheck.numbers {f : Source.Function} {f' : Typed.Function} {log : Log}
    (h : FunctionCheck Γ w.path f f' log) (numbered : w.All (Numbered Γ.symbols) f.script) :
    Numbers f'.binds w.entries.length (w.run f.script).entries.length := by
  cases h with
  | mk named isFn owned params body =>
    obtain ⟨entered, numberedRest⟩ := all_scope numbered
    cases owned.symm.trans entered
    obtain ⟨numberedParams, numberedBody⟩ := all_append.1 numberedRest
    have first := ParamsCheck.numbers (w := w.step (.enter f.body.id .function)) params
      numberedParams
    have inside : ((w.step (.enter f.body.id .function)).run
        (f.params.map fun p => .declare p.symbol)).path = w.owners.length :: w.path :=
      path_run_declares ..
    rw [← inside] at body
    unfold Source.Function.script
    rw [List.cons_append, run_cons, run_append, run_append]
    exact first.append (body.numbers numberedBody)

theorem FunctionsCheck.numbers {fs : List Source.Function} {fs' : List Typed.Function} {log : Log}
    (h : FunctionsCheck Γ w.path fs fs' log)
    (numbered : w.All (Numbered Γ.symbols) (fs.flatMap Source.Function.script)) :
    Numbers (fs'.flatMap Typed.Function.binds) w.entries.length
      (w.run (fs.flatMap Source.Function.script)).entries.length := by
  induction fs generalizing w fs' log with
  | nil =>
    cases h
    exact .nil _
  | cons f rest ih =>
    cases h with
    | cons h₁ h₂ =>
      obtain ⟨numbered₁, numbered₂⟩ := all_append.1 numbered
      rw [← path_run_function w f] at h₂
      rw [List.flatMap_cons, List.flatMap_cons, run_append]
      exact (h₁.numbers numbered₁).append (ih h₂ numbered₂)

/-- In a program that declares no name twice, the variables have the numbers behind those of the
functions. -/
theorem ProgramCheck.numbers {p : Source.Program} (ordered : p.Ordered)
    (clean : (Declarations.ofProgram p).log = []) {config : Config} {typed : Typed.Program}
    {log : Log} (h : ProgramCheck ⟨(Declarations.ofProgram p).table, config⟩ p typed log) :
    Numbers typed.binds p.functions.length (Survey.ofProgram p).entries.length := by
  cases h with
  | mk owned h =>
    cases owned.symm.trans (scopeIndex_global ordered.owners)
    rw [← p.globals_path] at h
    have whole := h.numbers (numbered ordered clean)
    rw [p.globals_entries, List.length_map] at whole
    rw [p.ofProgram_eq]
    exact whole

end MiddleEnd
