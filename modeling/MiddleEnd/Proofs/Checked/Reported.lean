import Mathlib.Data.List.Perm.Basic
import MiddleEnd.Proofs.Checked.Resolution
import MiddleEnd.Proofs.Checked.WellTyped

/-!
# Failed references

A reference that does not stand for a variable leaves two traces: it is decorated as unresolved in
the typed tree, and it is reported. The two are in step. Read in the order in which a check takes
them, the unresolved references of the tree are those that the log reports, each once.

Results:
1. `Program.visited_perm`: the order of the check leaves out no reference and repeats none.
2. `ExprCheck.accounted`, `StmtCheck.accounted`: what one construct adds to the tree and the log.
3. `failed_references_reported`: whole programs, against the table of any program.
-/

namespace MiddleEnd

namespace Typed

/-! ## The order of the check -/

/-- The references of an expression as they are checked: the target of an assignment comes before
its value. -/
def Expr.visited : Expr → List Ref
  | .const .. => []
  | .var r .. => [r]
  | .unary _ operand .. => operand.visited
  | .binary _ left right .. => left.visited ++ right.visited
  | .assign target value .. => target :: value.visited
  | .cond test ifTrue ifFalse .. => test.visited ++ ifTrue.visited ++ ifFalse.visited

/-- The references of an expression that may be absent, as they are checked. -/
def optionVisited : Option Expr → List Ref
  | none => []
  | some e => e.visited

/-- The references of the first clause of a `for`, as they are checked. -/
def ForInit.visited : Option ForInit → List Ref
  | none => []
  | some (.decl d) => optionVisited d.init
  | some (.expr e) => e.visited

mutual

/-- The references of a statement as they are checked: the test of a `do` comes before its body. -/
def Stmt.visited : Stmt → List Ref
  | .decl d => optionVisited d.init
  | .expr e | .ret e => e.visited
  | .empty | .brk _ | .cont _ => []
  | .block body => visitedOf body
  | .ite test ifTrue ifFalse => test.visited ++ ifTrue.visited ++ ifFalse.visited
  | .whileDo test body | .doWhile body test => test.visited ++ body.visited
  | .forLoop init test step body =>
    ForInit.visited init ++ optionVisited test ++ optionVisited step ++ body.visited

/-- The references of statements as they are checked. -/
def visitedOf : List Stmt → List Ref
  | [] => []
  | s :: rest => s.visited ++ visitedOf rest

end

/-- The references of functions as they are checked. -/
def visitedIn (fs : List Function) : List Ref := fs.flatMap fun f => visitedOf f.body

/-- The references of a program as they are checked. -/
def Program.visited (p : Program) : List Ref := visitedIn p.functions

theorem Expr.visited_perm (e : Expr) : e.visited.Perm e.refs := by
  induction e with
  | const | var => exact .refl _
  | unary _ _ _ _ ih => exact ih
  | binary _ _ _ _ _ ihl ihr => exact ihl.append ihr
  | assign target value _ _ ih =>
    unfold Expr.visited Expr.refs
    exact (ih.cons target).trans (List.perm_append_singleton target value.refs).symm
  | cond _ _ _ _ _ iht iha ihb => exact (iht.append iha).append ihb

theorem optionVisited_perm (e : Option Expr) : (optionVisited e).Perm (optionRefs e) := by
  cases e with
  | none => exact .refl _
  | some e => exact e.visited_perm

theorem ForInit.visited_perm (init : Option ForInit) :
    (ForInit.visited init).Perm (ForInit.refs init) := by
  match init with
  | none => exact .refl _
  | some (.decl d) => exact optionVisited_perm d.init
  | some (.expr e) => exact e.visited_perm

mutual

theorem Stmt.visited_perm (s : Stmt) : s.visited.Perm s.refs := by
  cases s with
  | decl d => exact optionVisited_perm d.init
  | expr e | ret e => exact e.visited_perm
  | empty | brk | cont => exact .refl _
  | block body => exact visitedOf_perm body
  | ite test ifTrue ifFalse =>
    exact (test.visited_perm.append ifTrue.visited_perm).append ifFalse.visited_perm
  | whileDo test body => exact test.visited_perm.append body.visited_perm
  | doWhile body test =>
    exact (test.visited_perm.append body.visited_perm).trans List.perm_append_comm
  | forLoop init test step body =>
    exact (((ForInit.visited_perm init).append (optionVisited_perm test)).append
      (optionVisited_perm step)).append body.visited_perm

theorem visitedOf_perm (ss : List Stmt) : (visitedOf ss).Perm (refsOf ss) := by
  cases ss with
  | nil => exact .refl _
  | cons s rest => exact s.visited_perm.append (visitedOf_perm rest)

end

/-- The check takes every reference of a program once. -/
theorem Program.visited_perm (p : Program) : p.visited.Perm p.refs :=
  List.Perm.flatMap_left p.functions fun f _ => visitedOf_perm f.body

/-! ## References and reports -/

/-- The report is about the reference: its name, at its start, stands for no variable. -/
def Ref.Reported (r : Ref) (e : Error) : Prop :=
  (e.cause = .symbolNotFound r.name ∨ e.cause = .notVariable r.name) ∧ e.pos = r.span.start

/-- A reference carries what its symbol says, which is a variable with its name. Without a symbol it
carries nothing but the type `error`. -/
def Ref.Decorated (t : SymbolTable) (r : Ref) : Prop :=
  match r.symbol with
  | none => r.storage = none ∧ r.ty = .error
  | some id => ∃ v, t.symbols[id]? = some (.var v) ∧ v.name = r.name ∧
      r.storage = some .frame ∧ r.ty = v.ty

/-- Where no variable has the type `error`, the type tells an unresolved reference. -/
theorem Ref.Decorated.symbol_eq_none_iff {t : SymbolTable} {r : Ref} (h : r.Decorated t)
    (proper : t.Proper) : r.symbol = none ↔ r.ty = .error := by
  unfold Decorated at h
  split at h
  · next unresolved => exact ⟨fun _ => h.2, fun _ => unresolved⟩
  · next id resolved =>
    obtain ⟨v, isVar, -, -, sameTy⟩ := h
    rw [resolved, sameTy]
    exact ⟨nofun, fun isError => absurd isError (proper id v isVar)⟩

end Typed

/-- References and a log that are in step: the references are decorated, and the log reports those
without a symbol, in order. -/
structure Accounted (t : SymbolTable) (refs : List Typed.Ref) (log : Log) : Prop where
  reported : List.Forall₂ Typed.Ref.Reported (refs.filter fun r => r.symbol.isNone)
    (log.filter fun e => e.cause.isUnresolved)
  decorated : ∀ r ∈ refs, r.Decorated t

namespace Accounted

variable {t : SymbolTable} {refs refs₁ refs₂ : List Typed.Ref} {log log₁ log₂ : Log}

theorem nil : Accounted t [] [] := ⟨.nil, nofun⟩

theorem append (h₁ : Accounted t refs₁ log₁) (h₂ : Accounted t refs₂ log₂) :
    Accounted t (refs₁ ++ refs₂) (log₁ ++ log₂) := by
  refine ⟨?_, List.forall_mem_append.2 ⟨h₁.decorated, h₂.decorated⟩⟩
  rw [List.filter_append, List.filter_append]
  exact List.rel_append h₁.reported h₂.reported

/-- Reports on types are about no reference. -/
theorem quiet (h : Accounted t refs log) {condition : Bool} {cause : Cause} {pos : Pos}
    (other : cause.isUnresolved = false) :
    Accounted t refs (log ++ reportUnless condition cause pos) := by
  refine ⟨?_, h.decorated⟩
  rw [List.filter_append, filter_reportUnless other, List.append_nil]
  exact h.reported

theorem branches (h : Accounted t refs log) (config : Config) (pos : Pos) (ifTrue ifFalse : Ty) :
    Accounted t refs (log ++ branchesReport config pos ifTrue ifFalse) := by
  unfold branchesReport
  split
  · exact h.quiet rfl
  · rw [List.append_nil]
    exact h

end Accounted

/-! ## Names that scopes give -/

/-- Every name of a scope stands for a symbol of that name. -/
def SymbolTable.Named (t : SymbolTable) : Prop :=
  ∀ (i : ScopeIndex) (scope : Scope), t.scopes[i]? = some scope →
    ∀ name id, scope.find? name = some id → ∃ s, t.symbols[id]? = some s ∧ s.name = name

theorem named_ofProgram (p : Source.Program) : (Declarations.ofProgram p).table.Named := by
  intro i scope found name id named
  obtain ⟨s, symbol, sameName, -⟩ := named_symbol found named
  exact ⟨s, symbol, sameName⟩

/-- A symbol that was looked up has the name it was looked up by. -/
theorem SymbolTable.Named.lookup {t : SymbolTable} (named : t.Named) {name : String} {pos : Pos}
    {path : ScopePath} {id : SymbolId} (looked : t.lookup name pos path = .ok (some id)) :
    ∃ s, t.symbols[id]? = some s ∧ s.name = name := by
  induction path with
  | nil => cases looked
  | cons index outer ih =>
    simp only [SymbolTable.lookup] at looked
    split at looked
    · cases looked
    · next scope here =>
      split at looked
      · exact ih looked
      · next found inScope =>
        split at looked
        · cases looked
        · split at looked
          · obtain rfl : found = id := by simpa using looked
            exact named index scope here name found inScope
          · exact ih looked

/-! ## Checking -/

variable {Γ : CheckContext} {path : ScopePath}

theorem RefCheck.accounted {t : SymbolTable} (named : t.Named) {r : Source.Ref} {r' : Typed.Ref}
    {log : Log} (h : RefCheck t path r r' log) : Accounted t [r'] log := by
  cases h with
  | notFound => exact ⟨.cons ⟨.inl rfl, rfl⟩ .nil, List.forall_mem_singleton.2 ⟨rfl, rfl⟩⟩
  | notVariable => exact ⟨.cons ⟨.inr rfl, rfl⟩ .nil, List.forall_mem_singleton.2 ⟨rfl, rfl⟩⟩
  | @found id v looked isVar =>
    obtain ⟨s, symbol, sameName⟩ := named.lookup looked
    obtain rfl : .var v = s := Option.some.inj (isVar.symm.trans symbol)
    exact ⟨.nil, List.forall_mem_singleton.2 ⟨v, isVar, sameName, rfl, rfl⟩⟩

/-- The references of an expression and its reports are in step. -/
theorem ExprCheck.accounted (named : Γ.symbols.Named) {e : Source.Expr} {e' : Typed.Expr}
    {log : Log} (h : ExprCheck Γ path e e' log) : Accounted Γ.symbols e'.visited log := by
  induction h with
  | const => exact .nil
  | var h => exact h.accounted named
  | unary _ ih => exact ih.quiet rfl
  | binary _ _ ih₁ ih₂ => exact ((ih₁.quiet rfl).append ih₂).quiet rfl
  | assign h _ ih => exact ((h.accounted named).append ih).quiet rfl
  | cond _ _ _ ih₁ ih₂ ih₃ => exact (((ih₁.quiet rfl).append ih₂).append ih₃).branches ..

theorem OptionCheck.accounted (named : Γ.symbols.Named) {e : Option Source.Expr}
    {e' : Option Typed.Expr} {log : Log} (h : OptionCheck Γ path e e' log) :
    Accounted Γ.symbols (Typed.optionVisited e') log := by
  cases h with
  | none => exact .nil
  | some h => exact h.accounted named

theorem TestCheck.accounted (named : Γ.symbols.Named) {e : Source.Expr} {e' : Typed.Expr}
    {log : Log} (h : TestCheck Γ path e e' log) : Accounted Γ.symbols e'.visited log := by
  cases h with
  | mk h => exact (h.accounted named).quiet rfl

theorem FitsCheck.accounted (named : Γ.symbols.Named) {ty : Ty} {e : Source.Expr}
    {e' : Typed.Expr} {log : Log} (h : FitsCheck Γ path ty e e' log) :
    Accounted Γ.symbols e'.visited log := by
  cases h with
  | mk h => exact (h.accounted named).quiet rfl

theorem VarDeclCheck.accounted (named : Γ.symbols.Named) {d : Source.VarDecl} {d' : Typed.VarDecl}
    {log : Log} (h : VarDeclCheck Γ path d d' log) :
    Accounted Γ.symbols (Typed.optionVisited d'.init) log := by
  cases h with
  | plain => exact .nil
  | init _ _ h => exact h.accounted named

theorem ForInitCheck.accounted (named : Γ.symbols.Named) {init : Option Source.ForInit}
    {init' : Option Typed.ForInit} {log : Log} (h : ForInitCheck Γ path init init' log) :
    Accounted Γ.symbols (Typed.ForInit.visited init') log := by
  cases h with
  | none => exact .nil
  | decl h | expr h => exact h.accounted named

mutual

/-- The references of a statement and its reports are in step. -/
theorem StmtCheck.accounted {Γ : CheckContext} {returnTy : Ty} {path : ScopePath}
    {s : Source.Stmt} {s' : Typed.Stmt} {log : Log} (named : Γ.symbols.Named)
    (h : StmtCheck Γ returnTy path s s' log) : Accounted Γ.symbols s'.visited log := by
  cases h with
  | decl h | expr h | ret h => exact h.accounted named
  | empty | brk | cont => exact .nil
  | block _ h => exact h.accounted named
  | ite h₁ h₂ h₃ =>
    exact ((h₁.accounted named).append (h₂.accounted named)).append (h₃.accounted named)
  | whileDo h₁ h₂ | doWhile h₁ h₂ => exact (h₁.accounted named).append (h₂.accounted named)
  | forLoop _ h₁ h₂ h₃ h₄ =>
    exact (((h₁.accounted named).append (h₂.accounted named)).append (h₃.accounted named)).append
      (h₄.accounted named)

theorem StmtsCheck.accounted {Γ : CheckContext} {returnTy : Ty} {path : ScopePath}
    {ss : List Source.Stmt} {ss' : List Typed.Stmt} {log : Log} (named : Γ.symbols.Named)
    (h : StmtsCheck Γ returnTy path ss ss' log) :
    Accounted Γ.symbols (Typed.visitedOf ss') log := by
  cases h with
  | nil => exact .nil
  | cons h₁ h₂ => exact (h₁.accounted named).append (h₂.accounted named)

end

theorem FunctionsCheck.accounted (named : Γ.symbols.Named) {fs : List Source.Function}
    {fs' : List Typed.Function} {log : Log} (h : FunctionsCheck Γ path fs fs' log) :
    Accounted Γ.symbols (Typed.visitedIn fs') log := by
  induction h with
  | nil => exact .nil
  | cons h _ ih =>
    cases h with
    | mk _ _ _ _ h => exact (h.accounted named).append ih

/-- A program that is checked to the end against the table of any program: the references without a
symbol are, in the order of the check, those that are reported as standing for no variable, each
reported once with its name and its start. Such a reference carries no storage and the type `error`,
and every other one carries what is declared for a variable of its name. So, if no variable was
declared with the type `error`, the references of that type are those without a symbol. -/
theorem failed_references_reported {p q : Source.Program} {config : Config}
    {typed : Typed.Program} {log : Log}
    (checked : checkProgram ⟨(Declarations.ofProgram q).table, config⟩ p = .ok (typed, log)) :
    let t := (Declarations.ofProgram q).table
    List.Forall₂ Typed.Ref.Reported (typed.visited.filter fun r => r.symbol.isNone)
        (log.filter fun e => e.cause.isUnresolved) ∧
      (∀ r ∈ typed.visited, r.Decorated t) ∧
      (t.Proper → ∀ r ∈ typed.visited, r.symbol = none ↔ r.ty = .error) := by
  intro t
  cases checkProgram_shape checked with
  | mk _ h =>
    obtain ⟨reported, decorated⟩ := h.accounted (named_ofProgram q)
    exact ⟨reported, decorated, fun proper r mem =>
      (decorated r mem).symbol_eq_none_iff proper⟩

/-- `int main() { int x; do { x = z; } while (y = main); return x; }` -/
def misnamed : Draft.Program :=
  ⟨[⟨"main", [], .int,
    [.decl ⟨"x", .int, none⟩,
      .doWhile (.block [.expr (.assign "x" (.var "z"))]) (.assign "y" (.var "main")),
      .ret (.var "x")]⟩]⟩

/-- `int main() { int x; { } }`, whose table has what `misnamed` declares. -/
def namesakes : Draft.Program := ⟨[⟨"main", [], .int, [.decl ⟨"x", .int, none⟩, .block []]⟩]⟩

theorem failed_references_reported_of_misnamed :
    let p := (misnamed.place ⟨"t", 0, 0⟩).1
    let t := (Declarations.ofProgram (namesakes.place ⟨"t", 0, 0⟩).1).table
    ∃ typed log, checkProgram ⟨t, {}⟩ p = .ok (typed, log) ∧
      log.map Error.cause = [.symbolNotFound "y", .notVariable "main", .symbolNotFound "z"] ∧
      typed.visited.map (fun r => (r.name, r.symbol)) =
        [("y", none), ("main", none), ("x", some 1), ("z", none), ("x", some 1)] ∧
      List.Forall₂ Typed.Ref.Reported (typed.visited.filter fun r => r.symbol.isNone)
        (log.filter fun e => e.cause.isUnresolved) ∧
      (∀ r ∈ typed.visited, r.Decorated t) ∧
      ∀ r ∈ typed.visited, r.symbol = none ↔ r.ty = .error := by
  intro p t
  have proper : t.Proper := by
    intro id v isVar isError
    have known : .error ∉ (namesakes.place ⟨"t", 0, 0⟩).1.declaredTys := by decide +kernel
    exact known (isError ▸ ty_mem_declaredTys isVar)
  have outcome : (checkProgram ⟨t, {}⟩ p).toOption.map (fun result =>
      (result.2.map Error.cause, result.1.visited.map fun r => (r.name, r.symbol))) =
        some ([.symbolNotFound "y", .notVariable "main", .symbolNotFound "z"],
          [("y", none), ("main", none), ("x", some 1), ("z", none), ("x", some 1)]) := by
    decide +kernel
  match checked : checkProgram ⟨t, {}⟩ p with
  | .error e => simp [checked, Except.toOption] at outcome
  | .ok (typed, log) =>
    rw [checked] at outcome
    obtain ⟨causes, names⟩ := Prod.mk.inj (Option.some.inj outcome)
    obtain ⟨reported, decorated, told⟩ := failed_references_reported checked
    exact ⟨typed, log, rfl, causes, names, reported, decorated, told proper⟩

end MiddleEnd
