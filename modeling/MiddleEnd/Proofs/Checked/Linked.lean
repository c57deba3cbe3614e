import MiddleEnd.Proofs.Checked.Shape
import MiddleEnd.Proofs.Scoping.Innermost
import MiddleEnd.Proofs.Scoping.Visible

/-!
# Tables that hang together

In a table that the first pass made, every name of a scope stands for a symbol. A check that only
opens scopes of such a table never leaves it. It need not be the table of the program that is
checked: where a scope or a declaration is missing, the check ends with an error that says so.

Results:
1. `linked_ofProgram`: the tables of programs hang together.
2. `exprCheck_of_linked`: in such a table every expression is checked to the end.
3. `checkStmt_restores`, `checkFunction_restores`: a check leaves the scopes that were open and adds
   to the log, and an error that ends it is on what is missing. It never ends with a fault.
4. `checkProgram_settles`: so does the check of a whole program.
-/

namespace MiddleEnd

namespace SymbolTable

/-- Every name of a scope stands for a symbol. -/
def Linked (t : SymbolTable) : Prop :=
  ∀ (i : ScopeIndex) (scope : Scope), t.scopes[i]? = some scope →
    ∀ name id, scope.find? name = some id → id < t.symbols.length

/-- Every scope of a path is one of the table. -/
def Within (t : SymbolTable) (path : ScopePath) : Prop := ∀ i ∈ path, i < t.scopes.length

variable {t : SymbolTable} {path : ScopePath} {name : String} {id : SymbolId}

theorem Within.nil (t : SymbolTable) : t.Within [] := nofun

theorem Within.cons (within : t.Within path) {owner : NodeId} {index : ScopeIndex}
    (owned : t.scopeIndex? owner = some index) : t.Within (index :: path) := by
  obtain ⟨scope, found, -⟩ := lastIndex?_eq_some owned
  exact List.forall_mem_cons.2 ⟨(List.getElem?_eq_some_iff.1 found).1, within⟩

theorem Linked.innermost?_lt (linked : t.Linked) (found : t.innermost? path name = some id) :
    id < t.symbols.length := by
  cases path with
  | nil => cases found
  | cons index outer =>
    obtain ⟨scope, here, named⟩ := Option.bind_eq_some_iff.1 found
    exact linked index scope here name id named

theorem Linked.covers (linked : t.Linked) (within : t.Within path) : t.Covers path := by
  intro index mem
  have here := List.getElem?_eq_getElem (within index mem)
  exact ⟨_, here, linked index _ here⟩

/-- Looking up never leaves the table. -/
theorem Linked.lookup (linked : t.Linked) (within : t.Within path) (name : String) (pos : Pos) :
    ∃ found, t.lookup name pos path = .ok found ∧
      ∀ id, found = some id → id < t.symbols.length := by
  have covered := linked.covers within
  rcases foundAt_or_hidden t name pos path with ⟨depth, id, found⟩ | hidden
  · refine ⟨some id, lookup_of_foundAt covered found, ?_⟩
    rintro _ ⟨⟩
    exact found.lt
  · exact ⟨none, lookup_of_hidden covered hidden, nofun⟩

end SymbolTable

/-- The table of a program hangs together. -/
theorem linked_ofProgram (p : Source.Program) : (Declarations.ofProgram p).table.Linked := by
  intro i scope found name id named
  obtain ⟨s, symbol, -⟩ := named_symbol found named
  exact (List.getElem?_eq_some_iff.1 symbol).1

/-! ## Expressions -/

variable {Γ : CheckContext} {path : ScopePath}

theorem refCheck_of_linked (linked : Γ.symbols.Linked) (within : Γ.symbols.Within path)
    (r : Source.Ref) : ∃ r' log, RefCheck Γ.symbols path r r' log := by
  obtain ⟨found, looked, known⟩ := linked.lookup within r.name r.span.start
  cases found with
  | none => exact ⟨_, _, .notFound looked⟩
  | some id =>
    have inside := known id rfl
    have symbol := List.getElem?_eq_getElem inside
    cases kind : Γ.symbols.symbols[id] with
    | var v => exact ⟨_, _, .found looked (symbol.trans (congrArg some kind))⟩
    | fn g => exact ⟨_, _, .notVariable looked (symbol.trans (congrArg some kind))⟩

/-- An expression is checked to the end, whatever its names stand for. -/
theorem exprCheck_of_linked (linked : Γ.symbols.Linked) (within : Γ.symbols.Within path)
    (e : Source.Expr) : ∃ e' log, ExprCheck Γ path e e' log := by
  induction e with
  | const value span => exact ⟨_, _, .const⟩
  | var r span =>
    obtain ⟨r', log, check⟩ := refCheck_of_linked linked within r
    exact ⟨_, _, .var check⟩
  | unary op operand span ih =>
    obtain ⟨o, log, check⟩ := ih
    exact ⟨_, _, .unary check⟩
  | binary op left right span ihl ihr =>
    obtain ⟨l, log₁, check₁⟩ := ihl
    obtain ⟨r, log₂, check₂⟩ := ihr
    exact ⟨_, _, .binary check₁ check₂⟩
  | assign target value span ih =>
    obtain ⟨t, log₁, check₁⟩ := refCheck_of_linked linked within target
    obtain ⟨v, log₂, check₂⟩ := ih
    exact ⟨_, _, .assign check₁ check₂⟩
  | cond test ifTrue ifFalse span iht iha ihb =>
    obtain ⟨t, log₁, check₁⟩ := iht
    obtain ⟨a, log₂, check₂⟩ := iha
    obtain ⟨b, log₃, check₃⟩ := ihb
    exact ⟨_, _, .cond check₁ check₂ check₃⟩

theorem optionCheck_of_linked (linked : Γ.symbols.Linked) (within : Γ.symbols.Within path)
    (e : Option Source.Expr) : ∃ e' log, OptionCheck Γ path e e' log := by
  cases e with
  | none => exact ⟨_, _, .none⟩
  | some e =>
    obtain ⟨e', log, check⟩ := exprCheck_of_linked linked within e
    exact ⟨_, _, .some check⟩

/-! ## Checks that end -/

/-- Whether a cause is that a table has no scope or no declaration for a node. -/
def Cause.isMissing : Cause → Bool
  | unknownScope _ | unresolvedSymbol _ => true
  | _ => false

/-- A check that ends well with the scopes that were open, or with an error on what is missing. -/
def Settles (Γ : CheckContext) (x : CheckM α) : Prop :=
  ∀ s, Γ.symbols.Within s.path →
    (∃ a log, x s = .ok a (s.issued log)) ∨
      ∃ e s', x s = .error (.error e) s' ∧ e.cause.isMissing = true

/-- A check that keeps the scopes that were open and what was issued, however it ends. The errors
that it may end with are among those that `ends` admits. -/
def Restores (Γ : CheckContext) (ends : Error → Prop) (x : CheckM α) : Prop :=
  ∀ s, Γ.symbols.Within s.path → ∃ log,
    (∃ a, x s = .ok a (s.issued log)) ∨ ∃ e, ends e ∧ x s = .error (.error e) (s.issued log)

namespace Restores

variable {ends : Error → Prop}

theorem mono {ends' : Error → Prop} {x : CheckM α} (h : Restores Γ ends x)
    (wider : ∀ e, ends e → ends' e) : Restores Γ ends' x := by
  intro s within
  obtain ⟨log, ran | ⟨e, among, failed⟩⟩ := h s within
  · exact ⟨log, .inl ran⟩
  · exact ⟨log, .inr ⟨e, wider e among, failed⟩⟩

theorem pure (a : α) : Restores Γ ends (pure a : CheckM α) :=
  fun s _ => ⟨[], .inl ⟨a, by rw [CheckState.issued_nil]; rfl⟩⟩

theorem get : Restores Γ ends (get : CheckM CheckState) :=
  fun s _ => ⟨[], .inl ⟨s, by rw [CheckState.issued_nil]; rfl⟩⟩

theorem throw {e : Error} (among : ends e) :
    Restores Γ ends (throw (.error e) : CheckM α) :=
  fun s _ => ⟨[], .inr ⟨e, among, by rw [CheckState.issued_nil]; rfl⟩⟩

/-- One check after the other. -/
theorem bind {x : CheckM α} {f : α → CheckM β} (hx : Restores Γ ends x)
    (hf : ∀ a, Restores Γ ends (f a)) : Restores Γ ends (x >>= f) := by
  intro s within
  obtain ⟨log, ⟨a, ran⟩ | ⟨e, among, failed⟩⟩ := hx s within
  · obtain ⟨log', outcome⟩ := hf a (s.issued log) within
    rw [CheckState.issued_issued] at outcome
    exact ⟨log ++ log', by rwa [bind_of_ok ran]⟩
  · exact ⟨log, .inr ⟨e, among, bind_of_error failed⟩⟩

theorem mapM {f : α → CheckM β} (h : ∀ a, Restores Γ ends (f a)) (as : List α) :
    Restores Γ ends (as.mapM f) := by
  induction as with
  | nil => exact pure _
  | cons a rest ih =>
    rw [List.mapM_cons]
    exact (h a).bind fun b => ih.bind fun bs => pure _

/-- A scope that was opened is closed again, also after an error. -/
theorem inScope {x : CheckM α} (h : Restores Γ ends x) (id : NodeId) (pos : Pos)
    (missing : ends ⟨.unknownScope id, pos⟩) : Restores Γ ends (CheckM.inScope Γ id pos x) := by
  intro s within
  unfold CheckM.inScope
  cases owned : Γ.symbols.scopeIndex? id with
  | none => exact throw missing s within
  | some index =>
    obtain ⟨log, ⟨a, ran⟩ | ⟨e, among, failed⟩⟩ := h (s.inside index) (within.cons owned)
    · have ran : x { s with path := index :: s.path } = _ := ran
      exact ⟨log, .inl ⟨a, by simp only [ran]; rfl⟩⟩
    · have failed : x { s with path := index :: s.path } = _ := failed
      exact ⟨log, .inr ⟨e, among, by simp only [failed]; rfl⟩⟩

end Restores

/-- An error on what a table is missing. -/
def Error.IsMissing (e : Error) : Prop := e.cause.isMissing = true

theorem Restores.settles {x : CheckM α} (h : Restores Γ Error.IsMissing x) : Settles Γ x := by
  intro s within
  obtain ⟨log, ⟨a, ran⟩ | ⟨e, missing, failed⟩⟩ := h s within
  · exact .inl ⟨a, log, ran⟩
  · exact .inr ⟨e, _, failed, missing⟩

open Restores

theorem declared_restores (name : String) (pos : Pos) :
    Restores Γ Error.IsMissing (CheckM.declared Γ name pos) := by
  intro s within
  unfold CheckM.declared
  rw [get_bind]
  have unresolved : Error.IsMissing ⟨.unresolvedSymbol name, pos⟩ := rfl
  cases path : s.path with
  | nil => exact throw unresolved s within
  | cons index outer =>
    have inside := within index (path ▸ List.mem_cons_self)
    simp only [List.getElem?_eq_getElem inside]
    cases Γ.symbols.scopes[index].find? name with
    | some id => exact pure id s within
    | none => exact throw unresolved s within

theorem declaredFunction_restores (name : String) (pos : Pos) :
    Restores Γ Error.IsMissing (CheckM.declaredFunction Γ name pos) := by
  refine (declared_restores name pos).bind fun id => ?_
  split
  · exact pure id
  · exact throw rfl

/-- An expression is checked to the end, so no error ends its check. -/
theorem checkExpr_restores (linked : Γ.symbols.Linked) (e : Source.Expr) {ends : Error → Prop} :
    Restores Γ ends (checkExpr Γ e) := by
  intro s within
  obtain ⟨e', log, check⟩ := exprCheck_of_linked linked within e
  exact ⟨log, .inl ⟨e', check.run rfl⟩⟩

theorem checkOption_restores (linked : Γ.symbols.Linked) (e : Option Source.Expr)
    {ends : Error → Prop} : Restores Γ ends (checkOption Γ e) := by
  cases e with
  | none => exact pure none
  | some e => exact (checkExpr_restores linked e).bind fun e' => pure (some e')

theorem checkTest_restores (linked : Γ.symbols.Linked) (test : Source.Expr)
    {ends : Error → Prop} : Restores Γ ends (checkTest Γ test) := by
  intro s within
  obtain ⟨t, log, check⟩ := exprCheck_of_linked linked within test
  exact ⟨_, .inl ⟨t, (TestCheck.mk check).run rfl⟩⟩

theorem checkFits_restores (linked : Γ.symbols.Linked) (ty : Ty) (e : Source.Expr)
    {ends : Error → Prop} : Restores Γ ends (checkFits Γ ty e) := by
  intro s within
  obtain ⟨e', log, check⟩ := exprCheck_of_linked linked within e
  exact ⟨_, .inl ⟨e', (FitsCheck.mk check).run rfl⟩⟩

theorem checkVarDecl_restores (linked : Γ.symbols.Linked) (d : Source.VarDecl) :
    Restores Γ Error.IsMissing (checkVarDecl Γ d) := by
  refine (declared_restores d.name d.span.start).bind fun id => ?_
  refine Restores.bind ?_ fun init => pure _
  cases d.init with
  | none => exact pure none
  | some e => exact (checkFits_restores linked d.ty e).bind fun e' => pure (some e')

theorem checkForInit_restores (linked : Γ.symbols.Linked) (init : Option Source.ForInit) :
    Restores Γ Error.IsMissing (checkForInit Γ init) := by
  match init with
  | none => exact pure none
  | some (.decl d) => exact (checkVarDecl_restores linked d).bind fun d' => pure _
  | some (.expr e) => exact (checkExpr_restores linked e).bind fun e' => pure _

mutual

/-- However the check of a statement ends, it leaves the scopes that were open. -/
theorem checkStmt_restores {Γ : CheckContext} (linked : Γ.symbols.Linked) (returnTy : Ty)
    (s : Source.Stmt) : Restores Γ Error.IsMissing (checkStmt Γ returnTy s) := by
  cases s with
  | decl d => exact (checkVarDecl_restores linked d).bind fun d' => pure _
  | expr e span => exact (checkExpr_restores linked e).bind fun e' => pure _
  | empty | brk | cont => exact pure _
  | block body id span =>
    exact ((checkStmts_restores linked returnTy body).inScope id _ rfl).bind fun body' => pure _
  | ite test ifTrue ifFalse span =>
    exact (checkTest_restores linked test).bind fun t =>
      (checkStmt_restores linked returnTy ifTrue).bind fun a =>
        (checkStmt_restores linked returnTy ifFalse).bind fun b => pure _
  | whileDo test body span | doWhile body test span =>
    exact (checkTest_restores linked test).bind fun t =>
      (checkStmt_restores linked returnTy body).bind fun b => pure _
  | forLoop init test step body id span =>
    refine Restores.inScope ?_ id _ rfl
    exact (checkForInit_restores linked init).bind fun i =>
      (checkOption_restores linked test).bind fun t =>
        (checkOption_restores linked step).bind fun s =>
          (checkStmt_restores linked returnTy body).bind fun b => pure _
  | ret value span => exact (checkFits_restores linked returnTy value).bind fun v => pure _

theorem checkStmts_restores {Γ : CheckContext} (linked : Γ.symbols.Linked) (returnTy : Ty)
    (ss : List Source.Stmt) : Restores Γ Error.IsMissing (checkStmts Γ returnTy ss) := by
  cases ss with
  | nil => exact pure _
  | cons s rest =>
    exact (checkStmt_restores linked returnTy s).bind fun s' =>
      (checkStmts_restores linked returnTy rest).bind fun rest' => pure _

end

theorem checkFunction_restores (linked : Γ.symbols.Linked) (f : Source.Function) :
    Restores Γ Error.IsMissing (checkFunction Γ f) := by
  refine (declaredFunction_restores f.name f.span.start).bind fun id => ?_
  refine Restores.inScope ?_ f.body.id _ rfl
  refine Restores.bind (Restores.mapM (fun q => ?_) f.params) fun params => ?_
  · exact (declared_restores q.name q.span.start).bind fun id => pure _
  · exact (checkStmts_restores linked f.returnTy f.body.stmts).bind fun body => pure _

/-- The check of a program ends well or with an error on what is missing. -/
theorem checkProgram_settles (linked : Γ.symbols.Linked) (p : Source.Program) :
    (∃ typed issued, checkProgram Γ p = .ok (typed, issued)) ∨
      ∃ e, checkProgram Γ p = .error (.error e) ∧ e.cause.isMissing = true := by
  have restores : Restores Γ Error.IsMissing (checkFunctions Γ p) :=
    (Restores.mapM (checkFunction_restores linked) p.functions).inScope p.id _ rfl
  unfold checkProgram
  rcases restores.settles {} (.nil _) with ⟨functions, log, ran⟩ | ⟨e, s, failed, missing⟩
  · have ran : (checkFunctions Γ p).run {} = _ := ran
    exact .inl ⟨_, _, by rw [ran]⟩
  · have failed : (checkFunctions Γ p).run {} = _ := failed
    exact .inr ⟨e, by rw [failed], missing⟩

end MiddleEnd
