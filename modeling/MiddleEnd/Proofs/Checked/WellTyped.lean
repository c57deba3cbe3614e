import MiddleEnd.Proofs.Checked.Resolution
import MiddleEnd.Proofs.Checked.Sites
import MiddleEnd.Proofs.Checked.Typing
import Mathlib.Data.List.Forall2

/-!
# What well-typed programs become

A program whose positions do not mislead is checked to the end. If its declared types are types of
the language, it is checked without a word exactly if it is well typed, and then every expression of
its typed tree carries the type that it has. The expressions of both trees are listed in the order
of the source.

Results:
1. `StmtCheck.carries`: what the expressions of a typed statement carry.
2. `ty_mem_declaredTys`: the types of the variables of a table were declared.
3. `silent_iff_of_ordered`: programs whose positions do not mislead.
4. `silent_iff_well_typed`: programs that were built.
-/

namespace MiddleEnd

/-! ## The expressions of a typed tree -/

namespace Typed

/-- An expression without its types. -/
def Expr.erase : Expr → Source.Expr
  | .const value _ span => .const value span
  | .var r _ span => .var ⟨r.name, r.span⟩ span
  | .unary op operand _ span => .unary op operand.erase span
  | .binary op left right _ span => .binary op left.erase right.erase span
  | .assign target value _ span => .assign ⟨target.name, target.span⟩ value.erase span
  | .cond test ifTrue ifFalse _ span => .cond test.erase ifTrue.erase ifFalse.erase span

/-- An expression and its parts at any depth. -/
def Expr.parts (e : Expr) : List Expr :=
  e :: match e with
    | .const .. | .var .. => []
    | .unary _ operand .. => operand.parts
    | .binary _ left right .. => left.parts ++ right.parts
    | .assign _ value .. => value.parts
    | .cond test ifTrue ifFalse .. => test.parts ++ ifTrue.parts ++ ifFalse.parts

/-- The same for an expression that may be absent. -/
def optionParts : Option Expr → List Expr
  | none => []
  | some e => e.parts

/-- The expressions of the first clause of a `for`. -/
def ForInit.parts : Option ForInit → List Expr
  | none => []
  | some (.decl d) => optionParts d.init
  | some (.expr e) => e.parts

mutual

/-- The expressions of a statement. -/
def Stmt.parts : Stmt → List Expr
  | .decl d => optionParts d.init
  | .expr e | .ret e => e.parts
  | .empty | .brk _ | .cont _ => []
  | .block body => partsOf body
  | .ite test ifTrue ifFalse => test.parts ++ ifTrue.parts ++ ifFalse.parts
  | .whileDo test body => test.parts ++ body.parts
  | .doWhile body test => body.parts ++ test.parts
  | .forLoop init test step body =>
    ForInit.parts init ++ optionParts test ++ optionParts step ++ body.parts

/-- The expressions of statements. -/
def partsOf : List Stmt → List Expr
  | [] => []
  | s :: rest => s.parts ++ partsOf rest

end

/-- The expressions of a program. -/
def Program.parts (p : Program) : List Expr := p.functions.flatMap fun f => partsOf f.body

end Typed

/-- A typed expression carries the type that an expression of the source has. -/
def Carries (Γ : CheckContext) (site : Source.Site) (e : Typed.Expr) : Prop :=
  e.erase = site.2 ∧ HasType Γ site.1 site.2 e.ty ∧ e.ty ≠ .error

variable {Γ : CheckContext} {path : ScopePath}

theorem RefCheck.erase_eq {t : SymbolTable} {r : Source.Ref} {r' : Typed.Ref} {log : Log}
    (h : RefCheck t path r r' log) : (⟨r'.name, r'.span⟩ : Source.Ref) = r := by
  cases h <;> rfl

theorem ExprCheck.erase_eq {e : Source.Expr} {e' : Typed.Expr} {log : Log}
    (h : ExprCheck Γ path e e' log) : e'.erase = e := by
  induction h with
  | const => rfl
  | var h => rw [Typed.Expr.erase, h.erase_eq]
  | unary _ ih => rw [Typed.Expr.erase, ih]
  | binary _ _ ih₁ ih₂ => rw [Typed.Expr.erase, ih₁, ih₂]
  | assign h _ ih => rw [Typed.Expr.erase, h.erase_eq, ih]
  | cond _ _ _ ih₁ ih₂ ih₃ => rw [Typed.Expr.erase, ih₁, ih₂, ih₃]

theorem ExprCheck.carries (proper : Γ.symbols.Proper) {e : Source.Expr} {e' : Typed.Expr}
    {log : Log} (h : ExprCheck Γ path e e' log) (silent : log = []) :
    List.Forall₂ (Carries Γ) (e.sites path) e'.parts := by
  have here {e : Source.Expr} {e' : Typed.Expr} {log : Log} (h : ExprCheck Γ path e e' log)
      (silent : log = []) : Carries Γ (path, e) e' :=
    ⟨h.erase_eq, (h.hasType proper silent).1, (h.hasType proper silent).2⟩
  induction h with
  | const => exact .cons (here .const silent) .nil
  | var h => exact .cons (here (.var h) silent) .nil
  | unary h ih =>
    refine .cons (here (.unary h) silent) ?_
    exact ih (List.append_eq_nil_iff.1 silent).1
  | binary h₁ h₂ ih₁ ih₂ =>
    refine .cons (here (.binary h₁ h₂) silent) ?_
    simp only [List.append_eq_nil_iff] at silent
    obtain ⟨⟨⟨silent₁, -⟩, silent₂⟩, -⟩ := silent
    exact List.rel_append (ih₁ silent₁) (ih₂ silent₂)
  | assign h₁ h₂ ih =>
    refine .cons (here (.assign h₁ h₂) silent) ?_
    simp only [List.append_eq_nil_iff] at silent
    exact ih silent.1.2
  | cond h₁ h₂ h₃ ih₁ ih₂ ih₃ =>
    refine .cons (here (.cond h₁ h₂ h₃) silent) ?_
    simp only [List.append_eq_nil_iff] at silent
    obtain ⟨⟨⟨⟨silent₁, -⟩, silent₂⟩, silent₃⟩, -⟩ := silent
    exact List.rel_append (List.rel_append (ih₁ silent₁) (ih₂ silent₂)) (ih₃ silent₃)

theorem OptionCheck.carries (proper : Γ.symbols.Proper) {e : Option Source.Expr}
    {e' : Option Typed.Expr} {log : Log} (h : OptionCheck Γ path e e' log) (silent : log = []) :
    List.Forall₂ (Carries Γ) (Source.optionSites path e) (Typed.optionParts e') := by
  cases h with
  | none => exact .nil
  | some h => exact h.carries proper silent

theorem FitsCheck.carries (proper : Γ.symbols.Proper) {ty : Ty} {e : Source.Expr}
    {e' : Typed.Expr} {log : Log} (h : FitsCheck Γ path ty e e' log) (silent : log = []) :
    List.Forall₂ (Carries Γ) (e.sites path) e'.parts := by
  cases h with
  | mk h => exact h.carries proper (List.append_eq_nil_iff.1 silent).1

theorem TestCheck.carries (proper : Γ.symbols.Proper) {e : Source.Expr} {e' : Typed.Expr}
    {log : Log} (h : TestCheck Γ path e e' log) (silent : log = []) :
    List.Forall₂ (Carries Γ) (e.sites path) e'.parts := by
  cases h with
  | mk h => exact h.carries proper (List.append_eq_nil_iff.1 silent).1

theorem VarDeclCheck.carries (proper : Γ.symbols.Proper) {d : Source.VarDecl}
    {d' : Typed.VarDecl} {log : Log} (h : VarDeclCheck Γ path d d' log) (silent : log = []) :
    List.Forall₂ (Carries Γ) (Source.optionSites path d.init) (Typed.optionParts d'.init) := by
  cases h with
  | plain _ absent =>
    rw [absent]
    exact .nil
  | init _ present h =>
    rw [present]
    exact h.carries proper silent

theorem ForInitCheck.carries (proper : Γ.symbols.Proper) {init : Option Source.ForInit}
    {init' : Option Typed.ForInit} {log : Log} (h : ForInitCheck Γ path init init' log)
    (silent : log = []) :
    List.Forall₂ (Carries Γ) (Source.ForInit.sites path init) (Typed.ForInit.parts init') := by
  cases h with
  | none => exact .nil
  | decl h => exact h.carries proper silent
  | expr h => exact h.carries proper silent

mutual

/-- The expressions of a statement that is checked without a word carry their types. -/
theorem StmtCheck.carries {Γ : CheckContext} {returnTy : Ty} {path : ScopePath} {s : Source.Stmt}
    {s' : Typed.Stmt} {log : Log} (proper : Γ.symbols.Proper)
    (h : StmtCheck Γ returnTy path s s' log) (silent : log = []) :
    List.Forall₂ (Carries Γ) (s.sites Γ.symbols path) s'.parts := by
  cases h with
  | decl h => exact h.carries proper silent
  | expr h => exact h.carries proper silent
  | ret h => exact h.carries proper silent
  | empty | brk | cont => exact .nil
  | block owned h =>
    rw [Source.Stmt.sites, Typed.Stmt.parts, SymbolTable.inside_eq owned]
    exact h.carries proper silent
  | ite h₁ h₂ h₃ =>
    simp only [List.append_eq_nil_iff] at silent
    obtain ⟨⟨silent₁, silent₂⟩, silent₃⟩ := silent
    exact List.rel_append
      (List.rel_append (h₁.carries proper silent₁) (h₂.carries proper silent₂))
      (h₃.carries proper silent₃)
  | whileDo h₁ h₂ =>
    obtain ⟨silent₁, silent₂⟩ := List.append_eq_nil_iff.1 silent
    exact List.rel_append (h₁.carries proper silent₁) (h₂.carries proper silent₂)
  | doWhile h₁ h₂ =>
    obtain ⟨silent₁, silent₂⟩ := List.append_eq_nil_iff.1 silent
    exact List.rel_append (h₂.carries proper silent₂) (h₁.carries proper silent₁)
  | forLoop owned h₁ h₂ h₃ h₄ =>
    simp only [List.append_eq_nil_iff] at silent
    obtain ⟨⟨⟨silent₁, silent₂⟩, silent₃⟩, silent₄⟩ := silent
    rw [Source.Stmt.sites, Typed.Stmt.parts, SymbolTable.inside_eq owned]
    exact List.rel_append (List.rel_append
      (List.rel_append (h₁.carries proper silent₁) (h₂.carries proper silent₂))
      (h₃.carries proper silent₃)) (h₄.carries proper silent₄)

theorem StmtsCheck.carries {Γ : CheckContext} {returnTy : Ty} {path : ScopePath}
    {ss : List Source.Stmt} {ss' : List Typed.Stmt} {log : Log} (proper : Γ.symbols.Proper)
    (h : StmtsCheck Γ returnTy path ss ss' log) (silent : log = []) :
    List.Forall₂ (Carries Γ) (Source.sitesOf Γ.symbols path ss) (Typed.partsOf ss') := by
  cases h with
  | nil => exact .nil
  | cons h₁ h₂ =>
    obtain ⟨silent₁, silent₂⟩ := List.append_eq_nil_iff.1 silent
    exact List.rel_append (h₁.carries proper silent₁) (h₂.carries proper silent₂)

end

theorem FunctionsCheck.carries (proper : Γ.symbols.Proper) {fs : List Source.Function}
    {fs' : List Typed.Function} {log : Log} (h : FunctionsCheck Γ path fs fs' log)
    (silent : log = []) :
    List.Forall₂ (Carries Γ)
      (fs.flatMap fun f => Source.sitesOf Γ.symbols (Γ.symbols.inside path f.body.id) f.body.stmts)
      (fs'.flatMap fun f => Typed.partsOf f.body) := by
  induction h with
  | nil => exact .nil
  | cons h₁ _ ih =>
    obtain ⟨silent₁, silent₂⟩ := List.append_eq_nil_iff.1 silent
    refine List.rel_append ?_ (ih silent₂)
    cases h₁ with
    | mk _ _ owned _ body =>
      simp only [SymbolTable.inside_eq owned]
      exact body.carries proper silent₁

theorem ProgramCheck.carries (proper : Γ.symbols.Proper) {p : Source.Program}
    {p' : Typed.Program} {log : Log} (h : ProgramCheck Γ p p' log) (silent : log = []) :
    List.Forall₂ (Carries Γ) (p.sites Γ.symbols) p'.parts := by
  cases h with
  | mk owned h =>
    rw [Source.Program.sites, SymbolTable.inside_eq owned]
    exact h.carries proper silent

/-! ## The types of a table -/

theorem Source.Expr.not_declare_mem (e : Source.Expr) (s : Symbol) : .declare s ∉ e.script := by
  simp [Source.Expr.script]

theorem Source.not_declare_mem_option (e : Option Source.Expr) (s : Symbol) :
    .declare s ∉ Source.optionScript e := by
  cases e with
  | none => exact List.not_mem_nil
  | some e => exact e.not_declare_mem s

theorem Source.VarDecl.ty_of_declare {d : Source.VarDecl} {v : VariableInfo}
    (mem : .declare (.var v) ∈ d.script) : v.ty = d.ty := by
  rcases List.mem_append.1 mem with mem | mem
  · exact absurd mem (Source.not_declare_mem_option d.init _)
  · cases List.mem_singleton.1 mem
    rfl

theorem Source.ForInit.ty_of_declare {init : Option Source.ForInit} {v : VariableInfo}
    (mem : .declare (.var v) ∈ Source.ForInit.script init) :
    v.ty ∈ Source.ForInit.declaredTys init := by
  match init, mem with
  | none, mem => cases mem
  | some (.decl d), mem => exact List.mem_singleton.2 (d.ty_of_declare mem)
  | some (.expr e), mem => exact absurd mem (e.not_declare_mem _)

mutual

/-- A variable that a statement declares has a type that the statement declares. -/
theorem Source.Stmt.ty_of_declare (s : Source.Stmt) {v : VariableInfo}
    (mem : .declare (.var v) ∈ s.script) : v.ty ∈ s.declaredTys := by
  cases s with
  | decl d => exact List.mem_singleton.2 (d.ty_of_declare mem)
  | expr e | ret e => exact absurd mem (e.not_declare_mem _)
  | empty | brk | cont => cases mem
  | block body id span =>
    refine ty_of_declares body ?_
    simpa [Source.Stmt.script] using mem
  | ite test ifTrue ifFalse span =>
    simp only [Source.Stmt.script, List.mem_append, test.not_declare_mem, false_or] at mem
    exact List.mem_append.2 (mem.imp ifTrue.ty_of_declare ifFalse.ty_of_declare)
  | whileDo test body span =>
    simp only [Source.Stmt.script, List.mem_append, test.not_declare_mem, false_or] at mem
    exact body.ty_of_declare mem
  | doWhile body test span =>
    simp only [Source.Stmt.script, List.mem_append, test.not_declare_mem, or_false] at mem
    exact body.ty_of_declare mem
  | forLoop init test step body id span =>
    have mem : .declare (.var v) ∈ Source.ForInit.script init ∨
        .declare (.var v) ∈ body.script := by
      simpa [Source.Stmt.script, Source.not_declare_mem_option] using mem
    exact List.mem_append.2 (mem.imp Source.ForInit.ty_of_declare body.ty_of_declare)

theorem Source.ty_of_declares (ss : List Source.Stmt) {v : VariableInfo}
    (mem : .declare (.var v) ∈ Source.scriptOf ss) : v.ty ∈ Source.declaredTysOf ss := by
  cases ss with
  | nil => cases mem
  | cons s rest =>
    exact List.mem_append.2 ((List.mem_append.1 mem).imp s.ty_of_declare (ty_of_declares rest))

end

/-- A variable of a function has a type that the function declares. -/
theorem Source.Function.ty_of_declare {f : Source.Function} {v : VariableInfo}
    (mem : .declare (.var v) ∈ f.script) : v.ty ∈ f.declaredTys := by
  have mem : (∃ q ∈ f.params, q.symbol = .var v) ∨
      .declare (.var v) ∈ Source.scriptOf f.body.stmts := by
    simpa [Source.Function.script] using mem
  refine List.mem_cons_of_mem _ (List.mem_append.2 ?_)
  refine mem.imp ?_ (Source.ty_of_declares f.body.stmts)
  rintro ⟨q, isParam, same⟩
  cases same
  exact List.mem_map_of_mem isParam

theorem Source.Program.ty_of_declare {p : Source.Program} {v : VariableInfo}
    (mem : .declare (.var v) ∈ p.script) : v.ty ∈ p.declaredTys := by
  rcases List.mem_append.1 mem with header | main
  · obtain ⟨f, -, same⟩ := List.mem_map.1 header
    cases same
  · obtain ⟨f, mem, declared⟩ := List.mem_flatMap.1 main
    exact List.mem_flatMap.2 ⟨f, mem, f.ty_of_declare declared⟩

/-- The types of the variables of a table were declared. -/
theorem ty_mem_declaredTys {p : Source.Program} {id : SymbolId} {v : VariableInfo}
    (isVar : (Declarations.ofProgram p).table.symbols[id]? = some (.var v)) :
    v.ty ∈ p.declaredTys := by
  have bare : ((Declarations.ofProgram p).table.symbols.map Symbol.bare)[id]? = some (.var v) := by
    rw [List.getElem?_map, isVar]
    rfl
  rw [(declared_describes p).symbols, List.getElem?_map] at bare
  obtain ⟨e, found, same⟩ := Option.map_eq_some_iff.1 bare
  rcases Survey.declare_of_mem (List.mem_of_getElem? found) with old | new
  · cases old
  · exact Source.Program.ty_of_declare (same ▸ new)

/-- If positions do not mislead and nothing but the types of the language is declared, the check
comes to its end, and issues nothing exactly if the program is well typed. -/
theorem silent_iff_of_ordered {p : Source.Program} (ordered : p.Ordered) (config : Config)
    (plain : ∀ τ ∈ p.declaredTys, τ = .int ∨ τ = .void) :
    let Γ : CheckContext := ⟨(Declarations.ofProgram p).table, config⟩
    ∃ typed issued, checkProgram Γ p = .ok (typed, issued) ∧
      (issued = [] ↔ ProgramTyped Γ p) ∧
      (ProgramTyped Γ p → List.Forall₂ (Carries Γ) (p.sites Γ.symbols) typed.parts) := by
  intro Γ
  have known : .error ∉ p.declaredTys := by
    intro mem
    rcases plain _ mem with same | same <;> cases same
  have proper : Γ.symbols.Proper := by
    intro id v isVar isError
    exact known (isError ▸ ty_mem_declaredTys isVar)
  obtain ⟨typed, issued, check, -⟩ := programCheck_of_ordered ordered config
  have silent := check.silent_iff proper known
  exact ⟨typed, issued, check.run, silent, fun wellTyped =>
    check.carries proper (silent.2 wellTyped)⟩

/-- A program that was built is checked to the end. If it declares nothing but the types of the
language, the check issues nothing exactly if the program is well typed; and then every expression
of the typed tree carries the type of the expression of the source that it stands for. -/
theorem silent_iff_well_typed (d : Draft.Program) (b : Source.Builder) (config : Config)
    (plain : ∀ τ ∈ (d.place b).1.declaredTys, τ = .int ∨ τ = .void) :
    let p := (d.place b).1
    let Γ : CheckContext := ⟨(Declarations.ofProgram p).table, config⟩
    ∃ typed issued, checkProgram Γ p = .ok (typed, issued) ∧
      (issued = [] ↔ ProgramTyped Γ p) ∧
      (ProgramTyped Γ p → List.Forall₂ (Carries Γ) (p.sites Γ.symbols) typed.parts) :=
  silent_iff_of_ordered (d.place_ordered b) config plain

/-- `int sum(int n, void u) { int s = n ? n : 1; for (u; n; n = n - 1) s = s + n; return s; }` -/
def sumWithUnit : Draft.Program :=
  ⟨[⟨"sum", [⟨"n", .int⟩, ⟨"u", .void⟩], .int,
    [.decl ⟨"s", .int, some (.cond (.var "n") (.var "n") (.const 1))⟩,
      .forLoop (some (.expr (.var "u"))) (some (.var "n"))
        (some (.assign "n" (.binary .sub (.var "n") (.const 1))))
        (.expr (.assign "s" (.binary .add (.var "s") (.var "n")))),
      .ret (.var "s")]⟩]⟩

theorem silent_iff_well_typed_of_sumWithUnit :
    let p := (sumWithUnit.place ⟨"t", 0, 0⟩).1
    let Γ : CheckContext := ⟨(Declarations.ofProgram p).table, ⟨4, true, true⟩⟩
    (∀ τ ∈ p.declaredTys, τ = .int ∨ τ = .void) ∧ ProgramTyped Γ p ∧
      ∃ typed, checkProgram Γ p = .ok (typed, []) ∧
        typed.parts.map Typed.Expr.ty =
          [.int, .int, .int, .int, .void, .int, .int, .int, .int, .int, .int, .int, .int, .int,
            .int] ∧
        List.Forall₂ (Carries Γ) (p.sites Γ.symbols) typed.parts := by
  intro p Γ
  have plain : ∀ τ ∈ p.declaredTys, τ = .int ∨ τ = .void := by decide +kernel
  have checked : (checkProgram Γ p).toOption.map
      (fun result => (result.2, result.1.parts.map Typed.Expr.ty)) =
        some ([], [.int, .int, .int, .int, .void, .int, .int, .int, .int, .int, .int, .int, .int,
          .int, .int]) := by
    decide +kernel
  obtain ⟨typed, issued, check, silent, carries⟩ :=
    silent_iff_well_typed sumWithUnit ⟨"t", 0, 0⟩ ⟨4, true, true⟩ plain
  rw [show checkProgram Γ p = .ok (typed, issued) from check] at checked
  obtain ⟨rfl, tys⟩ := Prod.mk.inj (Option.some.inj checked)
  exact ⟨plain, silent.1 rfl, typed, check, tys, carries (silent.1 rfl)⟩

end MiddleEnd
