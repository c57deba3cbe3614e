import MiddleEnd.Proofs.Checked.Linked

/-!
# Scopes balance

What is put together from the operations of the checker leaves open the scopes that were open and
only adds to the log, also where an error ends it from inside several scopes. The table has to hang
together; it need not be the table of the tree.

Results:
1. `Calls`: what can be put together, in sequence, inside scopes, and going on after an error.
2. `calls_balanced`: it balances. A scope that the table does not have is not even opened.
-/

namespace MiddleEnd

/-- Runs a check so that an error of it is a value, and what follows can go on. -/
def CheckM.attempt (x : CheckM α) : CheckM (Except Error α) := fun s =>
  match x s with
  | .ok a s => .ok (.ok a) s
  | .error (.error e) s => .ok (.error e) s
  | .error (.fault fault) s => .error (.fault fault) s

/-- What can be put together from the operations of the checker. `look` reads the open scopes and
the log, `raise` ends with an error of its own. -/
inductive Calls (Γ : CheckContext) : {α : Type} → CheckM α → Prop
  | ref (r : Source.Ref) : Calls Γ (checkRef Γ r)
  | expr (e : Source.Expr) : Calls Γ (checkExpr Γ e)
  | stmt (returnTy : Ty) (s : Source.Stmt) : Calls Γ (checkStmt Γ returnTy s)
  | stmts (returnTy : Ty) (ss : List Source.Stmt) : Calls Γ (checkStmts Γ returnTy ss)
  | function (f : Source.Function) : Calls Γ (checkFunction Γ f)
  | look : Calls Γ (get : CheckM CheckState)
  | done {α : Type} (a : α) : Calls Γ (pure a : CheckM α)
  | raise {α : Type} (e : Error) : Calls Γ (throw (.error e) : CheckM α)
  | next {α β : Type} {x : CheckM α} {f : α → CheckM β} :
      Calls Γ x → (∀ a, Calls Γ (f a)) → Calls Γ (x >>= f)
  | attempt {α : Type} {x : CheckM α} : Calls Γ x → Calls Γ x.attempt
  | inScope {α : Type} {x : CheckM α} (id : NodeId) (pos : Pos) :
      Calls Γ x → Calls Γ (CheckM.inScope Γ id pos x)

variable {Γ : CheckContext} {ends : Error → Prop}

theorem Restores.attempt {x : CheckM α} (h : Restores Γ ends x) :
    Restores Γ ends x.attempt := by
  intro s within
  unfold CheckM.attempt
  obtain ⟨log, ⟨a, ran⟩ | ⟨e, -, failed⟩⟩ := h s within
  · exact ⟨log, .inl ⟨.ok a, by rw [ran]⟩⟩
  · exact ⟨log, .inl ⟨.error e, by rw [failed]⟩⟩

theorem checkRef_restores (linked : Γ.symbols.Linked) (r : Source.Ref) :
    Restores Γ ends (checkRef Γ r) := by
  intro s within
  obtain ⟨r', log, check⟩ := refCheck_of_linked linked within r
  exact ⟨log, .inl ⟨r', check.run⟩⟩

/-- Whatever is put together keeps the open scopes and the log. -/
theorem Calls.restores (linked : Γ.symbols.Linked) {x : CheckM α} (calls : Calls Γ x) :
    Restores Γ (fun _ => True) x := by
  induction calls with
  | ref r => exact checkRef_restores linked r
  | expr e => exact checkExpr_restores linked e
  | stmt returnTy s => exact (checkStmt_restores linked returnTy s).mono fun _ _ => trivial
  | stmts returnTy ss => exact (checkStmts_restores linked returnTy ss).mono fun _ _ => trivial
  | function f => exact (checkFunction_restores linked f).mono fun _ _ => trivial
  | look => exact .get
  | done a => exact .pure a
  | raise e => exact .throw trivial
  | next _ _ ihx ihf => exact ihx.bind ihf
  | attempt _ ih => exact ih.attempt
  | inScope id pos _ ih => exact ih.inScope id pos trivial

/-- A scope that the table does not have is not opened, and nothing of its body runs. -/
theorem inScope_of_unknown {id : NodeId} (unknown : Γ.symbols.scopeIndex? id = none) (pos : Pos)
    (x : CheckM α) (s : CheckState) :
    CheckM.inScope Γ id pos x s = .error (.error ⟨.unknownScope id, pos⟩) s := by
  rw [CheckM.inScope, unknown]

/-- Over a table that hangs together, whatever is put together ends, well or with an error, with
exactly the scopes open that were open before, and with the log that was there before what it
issued. Around a node without a scope it is not run, and nothing is opened or issued. -/
theorem calls_balanced (linked : Γ.symbols.Linked) {x : CheckM α} (calls : Calls Γ x)
    (s : CheckState) (within : Γ.symbols.Within s.path) :
    (∃ issued s', s'.path = s.path ∧ s'.log = s.log ++ issued ∧
      ((∃ a, x s = .ok a s') ∨ ∃ e, x s = .error (.error e) s')) ∧
    ∀ id pos, Γ.symbols.scopeIndex? id = none →
      CheckM.inScope Γ id pos x s = .error (.error ⟨.unknownScope id, pos⟩) s := by
  refine ⟨?_, fun id pos unknown => inScope_of_unknown unknown pos x s⟩
  obtain ⟨issued, ran | ⟨e, -, failed⟩⟩ := calls.restores linked s within
  · exact ⟨issued, s.issued issued, rfl, rfl, .inl ran⟩
  · exact ⟨issued, s.issued issued, rfl, rfl, .inr ⟨e, failed⟩⟩

/-- `int main() { x; { } }`, whose inner block has the id `inner`. -/
def mainAround (inner : NodeId) : Source.Function :=
  ⟨"main", [], .int,
    ⟨[.expr (.var ⟨"x", .null⟩ .null) .null, .block [] inner .null], 2, .null⟩, .null⟩

/-- A function is checked twice against the table of a program in which its inner block has another
id, the second time after the error of the first. Both end inside two scopes, after a report. -/
theorem calls_balanced_of_mainAround :
    let Γ : CheckContext := ⟨(Declarations.ofProgram ⟨[mainAround 3], 1, .null⟩).table, {}⟩
    let once := CheckM.inScope Γ 1 .null (checkFunction Γ (mainAround 99))
    let twice := once.attempt >>= fun _ => once
    let report : Error := ⟨.symbolNotFound "x", .null⟩
    Γ.symbols.Linked ∧ Calls Γ twice ∧ Γ.symbols.Within [] ∧
      (∃ issued s', s'.path = [] ∧ s'.log = [] ++ issued ∧
        ((∃ a, twice {} = .ok a s') ∨ ∃ e, twice {} = .error (.error e) s')) ∧
      twice {} = .error (.error ⟨.unknownScope 99, .null⟩) ⟨[], [report, report]⟩ := by
  intro Γ once twice report
  have linked : Γ.symbols.Linked := linked_ofProgram _
  have calls : Calls Γ once := .inScope 1 .null (.function _)
  have calls : Calls Γ twice := .next (.attempt calls) fun _ => calls
  have within : Γ.symbols.Within [] := .nil _
  exact ⟨linked, calls, within, (calls_balanced linked calls {} within).1, rfl⟩

end MiddleEnd
