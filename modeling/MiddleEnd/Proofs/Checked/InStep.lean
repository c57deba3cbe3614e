import MiddleEnd.Source.Node
import MiddleEnd.Proofs.Checked.Shape
import MiddleEnd.Proofs.Lockstep
import MiddleEnd.Proofs.Renaming.Renamed

/-!
# Two checks in step

A check of a tree and a check of the renamed tree, each against its own table and settings. If the
tables answer alike for references, declarations and scopes, and the logs stay alike under every
report, then the checks stay in step to their ends: both make the same of the tree, up to the
renaming and the numbers of symbols, or both end early with the same error.

Which scopes are alike is a relation `P` between paths, which logs are a relation `L`. Only the
nodes of which `N` holds are asked about.

Results:
1. `Agree`: what two checks must agree on.
2. `checkExpr_inStep`, `checkStmt_inStep`: then expressions and statements are checked in step.
3. `checkFunction_inStep`, `checkProgram_inStep`: functions and programs.
-/

namespace MiddleEnd

open CheckM

/-- Two checks in given scopes, with logs that correspond. -/
structure CheckState.Beside (L : Log → Log → Prop) (path path' : ScopePath) (s s' : CheckState) :
    Prop where
  left : s.path = path
  right : s'.path = path'
  log : L s.log s'.log

/-- Two checks that are in step in given scopes and leave them open. -/
abbrev InStep (ρ : Renaming) (L : Log → Log → Prop) (path path' : ScopePath)
    (R : α → α' → Prop) (x : CheckM α) (x' : CheckM α') : Prop :=
  Lockstep (CheckState.Beside L path path') (CheckState.Beside L path path')
    (fun e e' => e' = e.rename ρ) R x x'

/-- Two tables have a scope for a node, and its name, or both have none. With the scopes open the
paths correspond. -/
def Opened (ρ : Renaming) (P : ScopePath → ScopePath → Prop) (t t' : SymbolTable) (id : NodeId)
    (path path' : ScopePath) : Prop :=
  (t.scopeIndex? id = none ∧ t'.scopeIndex? (ρ.node id) = none) ∨
    ∃ i i', t.scopeIndex? id = some i ∧ t'.scopeIndex? (ρ.node id) = some i' ∧
      P (i :: path) (i' :: path')

/-- What two checks must agree on to be in step. -/
structure Agree (ρ : Renaming) (σ : SymbolId → SymbolId) (N : Source.Node → Prop)
    (P : ScopePath → ScopePath → Prop) (L : Log → Log → Prop) (Γ Γ' : CheckContext) : Prop where
  /-- References are resolved alike. -/
  ref : ∀ {path path' : ScopePath}, P path path' → ∀ r : Source.Ref,
    InStep ρ L path path' (fun r₁ r₁' => r₁' = r₁.rename ρ σ) (checkRef Γ r)
      (checkRef Γ' (r.rename ρ))
  /-- Declarations have symbols alike. -/
  declared : ∀ {path path' : ScopePath}, P path path' → ∀ (name : String) (pos : Pos),
    InStep ρ L path path' (fun id id' => id' = σ id) (declared Γ name pos)
      (declared Γ' (ρ.name name) (pos.rename ρ))
  /-- Nodes own scopes alike. -/
  opened : ∀ {path path' : ScopePath}, P path path' → ∀ n : Source.Node, N n →
    ∀ id, n.id? = some id → Opened ρ P Γ.symbols Γ'.symbols id path path'
  /-- A report keeps the logs alike. -/
  report : ∀ {log log' : Log}, L log log' → ∀ e : Error, L (log ++ [e]) (log' ++ [e.rename ρ])
  /-- So does what the settings ask of a conditional. -/
  branches : ∀ {log log' : Log}, L log log' → ∀ {test ifTrue ifFalse : Source.Expr} {span : Span},
    N (.expr (.cond test ifTrue ifFalse span)) → ∀ a b : Ty,
      L (log ++ branchesReport Γ.config ifFalse.span.start a b)
        (log' ++ branchesReport Γ'.config (ifFalse.span.start.rename ρ) a b)

section Agree

variable {ρ : Renaming} {σ : SymbolId → SymbolId} {N : Source.Node → Prop}
  {P : ScopePath → ScopePath → Prop} {L : Log → Log → Prop} {Γ Γ' : CheckContext}
  {path path' : ScopePath}

/-! ## Reports and scopes -/

namespace Agree

/-- Reports that have no names in them are issued in step. -/
theorem require (agree : Agree ρ σ N P L Γ Γ') (condition : Bool) {cause : Cause}
    (plain : cause.rename ρ = cause) (pos : Pos) :
    InStep ρ L path path' (fun _ _ => True) (require condition cause pos)
      (CheckM.require condition cause (pos.rename ρ)) := by
  intro s s' beside
  refine .inl ⟨(), _, (), _, require_eq .., require_eq .., trivial, beside.left, beside.right, ?_⟩
  show L (s.log ++ reportUnless ..) (s'.log ++ reportUnless ..)
  unfold reportUnless
  split
  · rw [List.append_nil, List.append_nil]
    exact beside.log
  · have reported := agree.report beside.log ⟨cause, pos⟩
    rwa [Error.rename, plain] at reported

theorem expectTy (agree : Agree ρ σ N P L Γ Γ') (pos : Pos) (expected received : Ty) :
    InStep ρ L path path' (fun _ _ => True) (expectTy pos expected received)
      (CheckM.expectTy (pos.rename ρ) expected received) := agree.require _ rfl pos

theorem expectFits (agree : Agree ρ σ N P L Γ Γ') (pos : Pos) (expected received : Ty) :
    InStep ρ L path path' (fun _ _ => True) (expectFits pos expected received)
      (CheckM.expectFits (pos.rename ρ) expected received) := agree.require _ rfl pos

theorem expectTest (agree : Agree ρ σ N P L Γ Γ') (pos : Pos) (ty : Ty) :
    InStep ρ L path path' (fun _ _ => True) (expectTest pos ty)
      (CheckM.expectTest (pos.rename ρ) ty) := agree.require _ rfl pos

theorem expectBranches (agree : Agree ρ σ N P L Γ Γ') {test ifTrue ifFalse : Source.Expr}
    {span : Span} (node : N (.expr (.cond test ifTrue ifFalse span))) (a b : Ty) :
    InStep ρ L path path' (fun _ _ => True)
      (expectBranches Γ.config ifFalse.span.start a b)
      (CheckM.expectBranches Γ'.config (ifFalse.span.start.rename ρ) a b) := by
  intro s s' beside
  exact .inl ⟨(), _, (), _, expectBranches_eq .., expectBranches_eq .., trivial, beside.left,
    beside.right, agree.branches beside.log node a b⟩

end Agree

/-- A body that is checked in step in the scopes of a node makes the node checked in step. -/
theorem Opened.inScope {id : NodeId} {R : α → α' → Prop} {body : CheckM α} {body' : CheckM α'}
    (opened : Opened ρ P Γ.symbols Γ'.symbols id path path') (pos : Pos)
    (h : ∀ {i i' : ScopeIndex}, P (i :: path) (i' :: path') →
      InStep ρ L (i :: path) (i' :: path') R body body') :
    InStep ρ L path path' R (inScope Γ id pos body)
      (inScope Γ' (ρ.node id) (pos.rename ρ) body') := by
  intro s s' beside
  obtain ⟨rfl, rfl, log⟩ := beside
  unfold CheckM.inScope
  rcases opened with ⟨missing, missing'⟩ | ⟨i, i', owned, owned', here⟩
  · rw [missing, missing']
    exact .inr ⟨_, _, _, _, rfl, rfl, rfl⟩
  · rw [owned, owned']
    rcases h here { s with path := i :: s.path } { s' with path := i' :: s'.path } ⟨rfl, rfl, log⟩
      with ⟨a, t, a', t', ran, ran', same, inside⟩ | ⟨e, t, e', t', failed, failed', same⟩
    · obtain ⟨left, right, log⟩ := inside
      simp only [ran, ran']
      refine .inl ⟨a, _, a', _, rfl, rfl, same, ?_, ?_, log⟩
      · simp only [left, List.tail_cons]
      · simp only [right, List.tail_cons]
    · simp only [failed, failed']
      exact .inr ⟨e, _, e', _, rfl, rfl, same⟩

/-! ## Expressions -/

/-- An expression and the renamed one are checked in step. Its extent stays what it was. -/
theorem checkExpr_inStep (agree : Agree ρ σ N P L Γ Γ') (here : P path path') (e : Source.Expr)
    (nodes : ∀ n ∈ e.nodes, N n) :
    InStep ρ L path path' (fun e₁ e₁' => e₁' = e₁.rename ρ σ ∧ e₁.span = e.span) (checkExpr Γ e)
      (checkExpr Γ' (e.rename ρ)) := by
  induction e with
  | const value span => exact .pure ⟨rfl, rfl⟩
  | var r span =>
    refine (agree.ref here r).bind ?_
    rintro r₁ _ rfl
    exact .pure ⟨rfl, rfl⟩
  | unary op operand span ih =>
    obtain ⟨-, below⟩ := List.forall_mem_cons.1 nodes
    refine (ih below).bind ?_
    rintro o _ ⟨rfl, -⟩
    rw [o.rename_span, o.rename_ty]
    exact (agree.expectTy _ _ _).bind fun _ _ _ => .pure ⟨rfl, rfl⟩
  | binary op left right span ihl ihr =>
    obtain ⟨-, below⟩ := List.forall_mem_cons.1 nodes
    obtain ⟨inLeft, inRight⟩ := List.forall_mem_append.1 below
    refine (ihl inLeft).bind ?_
    rintro l _ ⟨rfl, -⟩
    rw [l.rename_span, l.rename_ty]
    refine (agree.expectTy _ _ _).bind fun _ _ _ => (ihr inRight).bind ?_
    rintro r _ ⟨rfl, -⟩
    rw [r.rename_span, r.rename_ty]
    exact (agree.expectTy _ _ _).bind fun _ _ _ => .pure ⟨rfl, rfl⟩
  | assign target value span ih =>
    obtain ⟨-, below⟩ := List.forall_mem_cons.1 nodes
    refine (agree.ref here target).bind ?_
    rintro t _ rfl
    refine (ih below).bind ?_
    rintro v _ ⟨rfl, -⟩
    rw [v.rename_ty]
    exact (agree.expectFits _ _ _).bind fun _ _ _ => .pure ⟨rfl, rfl⟩
  | cond test ifTrue ifFalse span iht iha ihb =>
    obtain ⟨node, below⟩ := List.forall_mem_cons.1 nodes
    obtain ⟨inFirst, inFalse⟩ := List.forall_mem_append.1 below
    obtain ⟨inTest, inTrue⟩ := List.forall_mem_append.1 inFirst
    refine (iht inTest).bind ?_
    rintro t _ ⟨rfl, -⟩
    rw [t.rename_span, t.rename_ty]
    refine (agree.expectTest _ _).bind fun _ _ _ => (iha inTrue).bind ?_
    rintro a _ ⟨rfl, -⟩
    refine (ihb inFalse).bind ?_
    rintro b _ ⟨rfl, extent⟩
    rw [a.rename_ty, b.rename_ty, b.rename_span, extent]
    refine (agree.expectBranches node a.ty b.ty).bind fun _ _ _ => .pure ⟨?_, rfl⟩
    rw [Typed.Expr.rename]

theorem checkOption_inStep (agree : Agree ρ σ N P L Γ Γ') (here : P path path')
    (e : Option Source.Expr) (nodes : ∀ n ∈ Source.optionNodes e, N n) :
    InStep ρ L path path' (fun e₁ e₁' => e₁' = e₁.map (Typed.Expr.rename ρ σ)) (checkOption Γ e)
      (checkOption Γ' (e.map (Source.Expr.rename ρ))) := by
  cases e with
  | none => exact .pure rfl
  | some e =>
    refine (checkExpr_inStep agree here e nodes).bind ?_
    rintro e₁ _ ⟨rfl, -⟩
    exact .pure rfl

theorem checkTest_inStep (agree : Agree ρ σ N P L Γ Γ') (here : P path path') (test : Source.Expr)
    (nodes : ∀ n ∈ test.nodes, N n) :
    InStep ρ L path path' (fun t t' => t' = t.rename ρ σ) (checkTest Γ test)
      (checkTest Γ' (test.rename ρ)) := by
  refine (checkExpr_inStep agree here test nodes).bind ?_
  rintro t _ ⟨rfl, -⟩
  rw [t.rename_span, t.rename_ty]
  exact (agree.expectTest _ _).bind fun _ _ _ => .pure rfl

theorem checkFits_inStep (agree : Agree ρ σ N P L Γ Γ') (here : P path path') (ty : Ty)
    (e : Source.Expr) (nodes : ∀ n ∈ e.nodes, N n) :
    InStep ρ L path path' (fun e₁ e₁' => e₁' = e₁.rename ρ σ) (checkFits Γ ty e)
      (checkFits Γ' ty (e.rename ρ)) := by
  refine (checkExpr_inStep agree here e nodes).bind ?_
  rintro e₁ _ ⟨rfl, -⟩
  rw [e₁.rename_span, e₁.rename_ty]
  exact (agree.expectFits _ _ _).bind fun _ _ _ => .pure rfl

/-! ## Statements -/

theorem checkVarDecl_inStep (agree : Agree ρ σ N P L Γ Γ') (here : P path path')
    (d : Source.VarDecl) (nodes : ∀ n ∈ Source.optionNodes d.init, N n) :
    InStep ρ L path path' (fun d₁ d₁' => d₁' = d₁.rename ρ σ) (checkVarDecl Γ d)
      (checkVarDecl Γ' (d.rename ρ)) := by
  obtain ⟨name, ty, init, span⟩ := d
  refine (agree.declared here name span.start).bind ?_
  rintro id _ rfl
  refine Lockstep.bind (T := CheckState.Beside L path path')
    (R := fun e₁ e₁' => e₁' = e₁.map (Typed.Expr.rename ρ σ)) ?_ ?_
  · cases init with
    | none => exact .pure rfl
    | some e =>
      refine (checkFits_inStep agree here ty e nodes).bind ?_
      rintro e₁ _ rfl
      exact .pure rfl
  · rintro e₁ _ rfl
    exact .pure rfl

theorem checkForInit_inStep (agree : Agree ρ σ N P L Γ Γ') (here : P path path')
    (init : Option Source.ForInit) (nodes : ∀ i, init = some i → ∀ n ∈ i.nodes, N n) :
    InStep ρ L path path' (fun i i' => i' = i.map (Typed.ForInit.rename ρ σ)) (checkForInit Γ init)
      (checkForInit Γ' (init.map (Source.ForInit.rename ρ))) := by
  match init with
  | none => exact .pure rfl
  | some (.decl d) =>
    refine (checkVarDecl_inStep agree here d (nodes _ rfl)).bind ?_
    rintro d₁ _ rfl
    exact .pure rfl
  | some (.expr e) =>
    refine (checkExpr_inStep agree here e (nodes _ rfl)).bind ?_
    rintro e₁ _ ⟨rfl, -⟩
    exact .pure rfl

end Agree

mutual

/-- A statement and the renamed one are checked in step. -/
theorem checkStmt_inStep {ρ : Renaming} {σ : SymbolId → SymbolId} {N : Source.Node → Prop}
    {P : ScopePath → ScopePath → Prop} {L : Log → Log → Prop} {Γ Γ' : CheckContext}
    {path path' : ScopePath} (agree : Agree ρ σ N P L Γ Γ') (here : P path path') (returnTy : Ty)
    (s : Source.Stmt) (nodes : ∀ n ∈ s.nodes, N n) :
    InStep ρ L path path' (fun s₁ s₁' => s₁' = s₁.rename ρ σ) (checkStmt Γ returnTy s)
      (checkStmt Γ' returnTy (s.rename ρ)) := by
  unfold Source.Stmt.nodes at nodes
  obtain ⟨node, below⟩ := List.forall_mem_cons.1 nodes
  cases s with
  | decl d =>
    refine (checkVarDecl_inStep agree here d below).bind ?_
    rintro d₁ _ rfl
    exact .pure rfl
  | expr e span =>
    refine (checkExpr_inStep agree here e below).bind ?_
    rintro e₁ _ ⟨rfl, -⟩
    exact .pure rfl
  | empty | brk | cont => exact .pure rfl
  | block body id span =>
    refine ((agree.opened here _ node id rfl).inScope span.start fun inside =>
      checkStmts_inStep agree inside returnTy body below).bind ?_
    rintro body₁ _ rfl
    exact .pure rfl
  | ite test ifTrue ifFalse span =>
    obtain ⟨inFirst, inFalse⟩ := List.forall_mem_append.1 below
    obtain ⟨inTest, inTrue⟩ := List.forall_mem_append.1 inFirst
    refine (checkTest_inStep agree here test inTest).bind ?_
    rintro t _ rfl
    refine (checkStmt_inStep agree here returnTy ifTrue inTrue).bind ?_
    rintro a _ rfl
    refine (checkStmt_inStep agree here returnTy ifFalse inFalse).bind ?_
    rintro b _ rfl
    exact .pure rfl
  | whileDo test body span =>
    obtain ⟨inTest, inBody⟩ := List.forall_mem_append.1 below
    refine (checkTest_inStep agree here test inTest).bind ?_
    rintro t _ rfl
    refine (checkStmt_inStep agree here returnTy body inBody).bind ?_
    rintro b _ rfl
    exact .pure rfl
  | doWhile body test span =>
    obtain ⟨inBody, inTest⟩ := List.forall_mem_append.1 below
    refine (checkTest_inStep agree here test inTest).bind ?_
    rintro t _ rfl
    refine (checkStmt_inStep agree here returnTy body inBody).bind ?_
    rintro b _ rfl
    exact .pure rfl
  | forLoop init test step body id span =>
    obtain ⟨inClauses, inBody⟩ := List.forall_mem_append.1 below
    obtain ⟨inFirst, inStep⟩ := List.forall_mem_append.1 inClauses
    obtain ⟨inInit, inTest⟩ := List.forall_mem_append.1 inFirst
    refine (agree.opened here _ node id rfl).inScope span.start fun inside => ?_
    refine (checkForInit_inStep agree inside init (by rintro i rfl; exact inInit)).bind ?_
    rintro i _ rfl
    refine (checkOption_inStep agree inside test inTest).bind ?_
    rintro t _ rfl
    refine (checkOption_inStep agree inside step inStep).bind ?_
    rintro s _ rfl
    refine (checkStmt_inStep agree inside returnTy body inBody).bind ?_
    rintro b _ rfl
    exact .pure rfl
  | ret value span =>
    refine (checkFits_inStep agree here returnTy value below).bind ?_
    rintro v _ rfl
    exact .pure rfl

theorem checkStmts_inStep {ρ : Renaming} {σ : SymbolId → SymbolId} {N : Source.Node → Prop}
    {P : ScopePath → ScopePath → Prop} {L : Log → Log → Prop} {Γ Γ' : CheckContext}
    {path path' : ScopePath} (agree : Agree ρ σ N P L Γ Γ') (here : P path path') (returnTy : Ty)
    (ss : List Source.Stmt) (nodes : ∀ n ∈ Source.stmtsNodes ss, N n) :
    InStep ρ L path path' (fun ss₁ ss₁' => ss₁' = Typed.renameOf ρ σ ss₁)
      (checkStmts Γ returnTy ss) (checkStmts Γ' returnTy (Source.renameOf ρ ss)) := by
  cases ss with
  | nil => exact .pure rfl
  | cons s rest =>
    obtain ⟨inFirst, inRest⟩ := List.forall_mem_append.1 nodes
    refine (checkStmt_inStep agree here returnTy s inFirst).bind ?_
    rintro s₁ _ rfl
    refine (checkStmts_inStep agree here returnTy rest inRest).bind ?_
    rintro rest₁ _ rfl
    exact .pure rfl

end

/-! ## Programs -/

variable {ρ : Renaming} {σ : SymbolId → SymbolId} {N : Source.Node → Prop}
  {P : ScopePath → ScopePath → Prop} {L : Log → Log → Prop} {Γ Γ' : CheckContext}
  {path path' : ScopePath}

/-- A function and the renamed one are checked in step if their names are. -/
theorem checkFunction_inStep (agree : Agree ρ σ N P L Γ Γ') (f : Source.Function)
    (nodes : ∀ n ∈ f.nodes, N n)
    (named : InStep ρ L path path' (fun id id' => id' = σ id)
      (declaredFunction Γ f.name f.span.start)
      (declaredFunction Γ' (ρ.name f.name) (f.span.start.rename ρ)))
    (opened : Opened ρ P Γ.symbols Γ'.symbols f.body.id path path') :
    InStep ρ L path path' (fun f₁ f₁' => f₁' = f₁.rename ρ σ) (checkFunction Γ f)
      (checkFunction Γ' (f.rename ρ)) := by
  refine named.bind ?_
  rintro id _ rfl
  refine opened.inScope f.body.span.start fun inside => ?_
  refine Lockstep.bind (Lockstep.mapM (k := Typed.Param.rename ρ σ) fun q _ => ?_) ?_
  · refine (agree.declared inside q.name q.span.start).bind ?_
    rintro id _ rfl
    exact .pure rfl
  · rintro params _ rfl
    refine (checkStmts_inStep agree inside f.returnTy f.body.stmts nodes).bind ?_
    rintro body _ rfl
    exact .pure rfl

/-- Two checks of a program that are in step end alike. -/
theorem checkProgram_inStep {p p' : Source.Program} (silent : L [] [])
    (h : InStep ρ L [] [] (fun fs fs' => fs' = fs.map (Typed.Function.rename ρ σ))
      (checkFunctions Γ p) (checkFunctions Γ' p')) :
    (∃ fs log log', checkProgram Γ p = .ok (⟨fs⟩, log) ∧
        checkProgram Γ' p' = .ok (⟨fs.map (Typed.Function.rename ρ σ)⟩, log') ∧ L log log') ∨
      ∃ e, checkProgram Γ p = .error e ∧ checkProgram Γ' p' = .error (e.rename ρ) := by
  unfold checkProgram
  rcases h {} {} ⟨rfl, rfl, silent⟩ with ⟨fs, t, fs', t', ran, ran', rfl, beside⟩ |
    ⟨e, t, e', t', failed, failed', rfl⟩
  · have ran : (checkFunctions Γ p).run {} = _ := ran
    have ran' : (checkFunctions Γ' p').run {} = _ := ran'
    rw [ran, ran']
    exact .inl ⟨fs, t.log, t'.log, rfl, rfl, beside.log⟩
  · have failed : (checkFunctions Γ p).run {} = _ := failed
    have failed' : (checkFunctions Γ' p').run {} = _ := failed'
    rw [failed, failed']
    exact .inr ⟨e, rfl, rfl⟩

end MiddleEnd
