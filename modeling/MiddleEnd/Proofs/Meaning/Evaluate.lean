import MiddleEnd.Typed.Tree
import MiddleEnd.Proofs.Meaning.Machine

/-!
# What typed trees mean

The structured meaning of a function body, without temporaries, labels or jumps. An expression has a
value and may change variables; a statement ends in one of four ways or runs out of fuel, which
counts the rounds of each loop. Operands are evaluated from left to right and by value, `&&` and
`||` evaluate both, an assignment has the assigned value, and a conditional evaluates one branch.
Every loop tests before its first round, a `do` as well. Falling off the end of a function
returns zero.

Results:
1. `Typed.Expr.eval_of_not_assigned`: an expression changes what it assigns and nothing else.
2. `Typed.Stmt.exec_mono`, `Typed.Function.call_mono`: more fuel does not change an answer.
3. `Typed.Function.Returns.unique`: a function returns one value at most.
-/

namespace MiddleEnd

/-- The contents of the variables. -/
abbrev Store := SymbolId → Int

/-- Arguments put into parameters, in order. -/
def Store.enter (σ : Store) : List Typed.Param → List Int → Store
  | p :: ps, v :: vs => Store.enter (Function.update σ p.symbol v) ps vs
  | _, _ => σ

namespace Typed

/-- The contents of the variable referred to. A reference to nothing reads zero. -/
def Ref.get (r : Ref) (σ : Store) : Int := (r.symbol.map σ).getD 0

/-- Changes the variable referred to. A reference to nothing changes nothing. -/
def Ref.set (r : Ref) (v : Int) (σ : Store) : Store :=
  match r.symbol with
  | some id => Function.update σ id v
  | none => σ

/-! ## Expressions -/

/-- The value of an expression, and the store afterwards. -/
def Expr.eval (ops : Operators) : Expr → Store → Int × Store
  | .const value _ _, σ => (value, σ)
  | .var r _ _, σ => (r.get σ, σ)
  | .unary op operand _ _, σ =>
    let v := operand.eval ops σ
    (ops.unary op v.1, v.2)
  | .binary op left right _ _, σ =>
    let l := left.eval ops σ
    let r := right.eval ops l.2
    (ops.binary op l.1 r.1, r.2)
  | .assign target value _ _, σ =>
    let v := value.eval ops σ
    (v.1, target.set v.1 v.2)
  | .cond test ifTrue ifFalse _ _, σ =>
    let t := test.eval ops σ
    if t.1 = 0 then ifFalse.eval ops t.2 else ifTrue.eval ops t.2

/-- The variables that an expression assigns somewhere. -/
def Expr.assigned : Expr → List SymbolId
  | .const .. | .var .. => []
  | .unary _ operand _ _ => operand.assigned
  | .binary _ left right _ _ => left.assigned ++ right.assigned
  | .assign target value _ _ => target.symbol.toList ++ value.assigned
  | .cond test ifTrue ifFalse _ _ => test.assigned ++ ifTrue.assigned ++ ifFalse.assigned

/-- The variable that an expression is a reference or an assignment to. -/
def Expr.variable? : Expr → Option SymbolId
  | .var r _ _ | .assign r _ _ _ => r.symbol
  | _ => none

/-- No right operand assigns a variable that its left operand is a reference or an assignment
to. -/
def Expr.Steady : Expr → Prop
  | .const .. | .var .. => True
  | .unary _ operand _ _ => operand.Steady
  | .binary _ left right _ _ =>
    left.Steady ∧ right.Steady ∧ ∀ id, left.variable? = some id → id ∉ right.assigned
  | .assign _ value _ _ => value.Steady
  | .cond test ifTrue ifFalse _ _ => test.Steady ∧ ifTrue.Steady ∧ ifFalse.Steady

/-- Steadiness can be checked. -/
instance Expr.decidableSteady : (e : Expr) → Decidable e.Steady
  | .const .. | .var .. => .isTrue trivial
  | .unary _ operand _ _ => operand.decidableSteady
  | .binary _ left right _ _ =>
    have := left.decidableSteady
    have := right.decidableSteady
    inferInstanceAs (Decidable (left.Steady ∧ right.Steady ∧
      ∀ id ∈ left.variable?, id ∉ right.assigned))
  | .assign _ value _ _ => value.decidableSteady
  | .cond test ifTrue ifFalse _ _ =>
    have := test.decidableSteady
    have := ifTrue.decidableSteady
    have := ifFalse.decidableSteady
    inferInstanceAs (Decidable (test.Steady ∧ ifTrue.Steady ∧ ifFalse.Steady))

/-- An expression changes what it assigns and nothing else. -/
theorem Expr.eval_of_not_assigned (ops : Operators) {e : Expr} {id : SymbolId}
    (h : id ∉ e.assigned) (σ : Store) : (e.eval ops σ).2 id = σ id := by
  induction e generalizing σ with
  | const | var => rfl
  | unary op operand ty span ih => exact ih h σ
  | binary op left right ty span ihl ihr =>
    simp only [assigned, List.mem_append, not_or] at h
    exact (ihr h.2 _).trans (ihl h.1 σ)
  | assign target value ty span ih =>
    simp only [assigned, List.mem_append, not_or] at h
    rw [eval, Ref.set]
    cases symbol : target.symbol with
    | none => exact ih h.2 σ
    | some other =>
      have differs : id ≠ other := by simpa [symbol] using h.1
      simpa [differs] using ih h.2 σ
  | cond test ifTrue ifFalse ty span iht iha ihb =>
    simp only [assigned, List.mem_append, not_or] at h
    simp only [eval]
    split
    · exact (ihb h.2 _).trans (iht h.1.1 σ)
    · exact (iha h.1.2 _).trans (iht h.1.1 σ)

/-- The store after an expression that may be absent. -/
def effect (ops : Operators) : Option Expr → Store → Store
  | none, σ => σ
  | some e, σ => (e.eval ops σ).2

/-- Whether a test passes, and the store afterwards. An absent test does. -/
def passes (ops : Operators) : Option Expr → Store → Bool × Store
  | none, σ => (true, σ)
  | some test, σ =>
    let v := test.eval ops σ
    (v.1 != 0, v.2)

/-! ## Statements -/

/-- The store after a declaration. Without an initializer a variable keeps its contents. -/
def VarDecl.exec (ops : Operators) (d : VarDecl) (σ : Store) : Store :=
  match d.init with
  | none => σ
  | some init =>
    let v := init.eval ops σ
    Function.update v.2 d.symbol v.1

/-- The store after the first clause of a `for`. -/
def ForInit.exec (ops : Operators) : Option ForInit → Store → Store
  | none, σ => σ
  | some (.decl d), σ => d.exec ops σ
  | some (.expr e), σ => (e.eval ops σ).2

/-- How a statement ends. -/
inductive Outcome
  | normal
  | brk
  | cont
  | ret (value : Int)
deriving DecidableEq

/-- What a round of a loop leads to. -/
inductive Round
  | again (σ : Store)
  | stop (outcome : Outcome) (σ : Store)

/-- One round of a loop. `continue` ends the body, `break` ends the loop. -/
def round (ops : Operators) (test step : Option Expr) (body : Store → Option (Outcome × Store))
    (σ : Store) : Option Round :=
  let t := passes ops test σ
  if t.1 then
    match body t.2 with
    | none => none
    | some (.normal, σ') | some (.cont, σ') => some (.again (effect ops step σ'))
    | some (.brk, σ') => some (.stop .normal σ')
    | some (.ret v, σ') => some (.stop (.ret v) σ')
  else
    some (.stop .normal t.2)

/-- At most `fuel` rounds. -/
def rounds (round : Store → Option Round) : Nat → Store → Option (Outcome × Store)
  | 0, _ => none
  | fuel + 1, σ =>
    match round σ with
    | none => none
    | some (.again σ') => rounds round fuel σ'
    | some (.stop outcome σ') => some (outcome, σ')

mutual

/-- How a statement ends, and the store then. There is no answer if a loop takes more than `fuel`
rounds. -/
def Stmt.exec (ops : Operators) (fuel : Nat) : Stmt → Store → Option (Outcome × Store)
  | .decl d, σ => some (.normal, d.exec ops σ)
  | .expr e, σ => some (.normal, (e.eval ops σ).2)
  | .empty, σ => some (.normal, σ)
  | .block body, σ => execStmts ops fuel body σ
  | .ite test ifTrue ifFalse, σ =>
    let t := test.eval ops σ
    if t.1 = 0 then ifFalse.exec ops fuel t.2 else ifTrue.exec ops fuel t.2
  | .whileDo test body, σ | .doWhile body test, σ =>
    rounds (round ops (some test) none (body.exec ops fuel)) fuel σ
  | .forLoop init test step body, σ =>
    rounds (round ops test step (body.exec ops fuel)) fuel (ForInit.exec ops init σ)
  | .brk _, σ => some (.brk, σ)
  | .cont _, σ => some (.cont, σ)
  | .ret value, σ =>
    let v := value.eval ops σ
    some (.ret v.1, v.2)

/-- Statements one after the other, up to the first that does not end normally. -/
def execStmts (ops : Operators) (fuel : Nat) : List Stmt → Store → Option (Outcome × Store)
  | [], σ => some (.normal, σ)
  | s :: rest, σ =>
    match s.exec ops fuel σ with
    | some (.normal, σ') => execStmts ops fuel rest σ'
    | ended => ended

end

/-! ## More fuel -/

/-- A round whose body is given more fuel. -/
theorem round_mono {ops : Operators} {test step : Option Expr}
    {body body' : Store → Option (Outcome × Store)}
    (more : ∀ σ r, body σ = some r → body' σ = some r) {σ : Store} {r : Round}
    (h : round ops test step body σ = some r) : round ops test step body' σ = some r := by
  unfold round at h ⊢
  cases passed : (passes ops test σ).1 with
  | false => simpa [passed] using h
  | true =>
    cases ended : body (passes ops test σ).2 with
    | none => simp [passed, ended] at h
    | some result => simpa [passed, ended, more _ _ ended] using h

theorem rounds_mono {round round' : Store → Option Round}
    (more : ∀ σ r, round σ = some r → round' σ = some r) {fuel fuel' : Nat} (le : fuel ≤ fuel')
    {σ : Store} {r : Outcome × Store} (h : rounds round fuel σ = some r) :
    rounds round' fuel' σ = some r := by
  induction fuel generalizing fuel' σ with
  | zero => simp [rounds] at h
  | succ fuel ih =>
    obtain ⟨fuel', rfl⟩ : ∃ k, fuel' = k + 1 := ⟨fuel' - 1, by omega⟩
    rw [rounds] at h ⊢
    cases ended : round σ with
    | none => simp [ended] at h
    | some result =>
      rw [more _ _ ended]
      rw [ended] at h
      cases result with
      | again σ' => exact ih (Nat.le_of_succ_le_succ le) h
      | stop outcome σ' => exact h

mutual

/-- An answer stays the same with more fuel. -/
theorem Stmt.exec_mono {ops : Operators} {fuel fuel' : Nat} (le : fuel ≤ fuel') {s : Stmt}
    {σ : Store} {r : Outcome × Store} (h : s.exec ops fuel σ = some r) :
    s.exec ops fuel' σ = some r := by
  cases s with
  | decl | expr | empty | brk | cont | ret => exact h
  | block body => exact execStmts_mono le h
  | ite test ifTrue ifFalse =>
    simp only [Stmt.exec] at h ⊢
    split at h
    · next zero => simpa [zero] using ifFalse.exec_mono le h
    · next nonzero => simpa [nonzero] using ifTrue.exec_mono le h
  | whileDo test body | doWhile body test =>
    exact rounds_mono (fun _ _ => round_mono fun _ _ => body.exec_mono le) le h
  | forLoop init test step body =>
    exact rounds_mono (fun _ _ => round_mono fun _ _ => body.exec_mono le) le h

theorem execStmts_mono {ops : Operators} {fuel fuel' : Nat} (le : fuel ≤ fuel') {ss : List Stmt}
    {σ : Store} {r : Outcome × Store} (h : execStmts ops fuel ss σ = some r) :
    execStmts ops fuel' ss σ = some r := by
  cases ss with
  | nil => exact h
  | cons s rest =>
    rw [execStmts] at h ⊢
    cases ended : s.exec ops fuel σ with
    | none => simp [ended] at h
    | some result =>
      rw [s.exec_mono le ended]
      rw [ended] at h
      match result with
      | (.normal, σ') => exact execStmts_mono le h
      | (.brk, σ') | (.cont, σ') | (.ret v, σ') => exact h

end

/-- What a function returns, if it returns in time. -/
def Function.call (ops : Operators) (fuel : Nat) (f : Function) (args : List Int) (σ : Store) :
    Option Int :=
  match execStmts ops fuel f.body (σ.enter f.params args) with
  | none => none
  | some (.ret v, _) => some v
  | some _ => some 0

theorem Function.call_mono {ops : Operators} {fuel fuel' : Nat} (le : fuel ≤ fuel') {f : Function}
    {args : List Int} {σ : Store} {v : Int} (h : f.call ops fuel args σ = some v) :
    f.call ops fuel' args σ = some v := by
  unfold call at h ⊢
  cases ended : execStmts ops fuel f.body (σ.enter f.params args) with
  | none => simp [ended] at h
  | some result =>
    rw [execStmts_mono le ended]
    rwa [ended] at h

/-- A function returns a value. -/
def Function.Returns (ops : Operators) (f : Function) (args : List Int) (σ : Store) (v : Int) :
    Prop :=
  ∃ fuel, f.call ops fuel args σ = some v

theorem Function.Returns.unique {ops : Operators} {f : Function} {args : List Int} {σ : Store}
    {v w : Int} (hv : f.Returns ops args σ v) (hw : f.Returns ops args σ w) : v = w := by
  obtain ⟨m, hv⟩ := hv
  obtain ⟨n, hw⟩ := hw
  have hv' := call_mono (Nat.le_max_left m n) hv
  rw [call_mono (Nat.le_max_right m n) hw] at hv'
  cases hv'
  rfl

/-- A function never returns. -/
def Function.Diverges (ops : Operators) (f : Function) (args : List Int) (σ : Store) : Prop :=
  ∀ fuel, f.call ops fuel args σ = none

/-- The expressions of the first clause of a `for` all satisfy `P`. -/
def ForInit.AllExprs (P : Expr → Prop) : Option ForInit → Prop
  | none => True
  | some (.decl d) => ∀ e ∈ d.init, P e
  | some (.expr e) => P e

mutual

/-- The expressions of a statement, those of its parts included, all satisfy `P`. -/
def Stmt.AllExprs (P : Expr → Prop) : Stmt → Prop
  | .decl d => ∀ e ∈ d.init, P e
  | .expr e | .ret e => P e
  | .empty | .brk _ | .cont _ => True
  | .block body => AllExprsOf P body
  | .ite test ifTrue ifFalse => P test ∧ ifTrue.AllExprs P ∧ ifFalse.AllExprs P
  | .whileDo test body | .doWhile body test => P test ∧ body.AllExprs P
  | .forLoop init test step body =>
    ForInit.AllExprs P init ∧ (∀ e ∈ test, P e) ∧ (∀ e ∈ step, P e) ∧ body.AllExprs P

/-- The expressions of statements all satisfy `P`. -/
def AllExprsOf (P : Expr → Prop) : List Stmt → Prop
  | [] => True
  | s :: rest => s.AllExprs P ∧ AllExprsOf P rest

end

instance ForInit.decidableAllExprs {P : Expr → Prop} [DecidablePred P] :
    (init : Option ForInit) → Decidable (ForInit.AllExprs P init)
  | none => .isTrue trivial
  | some (.decl d) => inferInstanceAs (Decidable (∀ e ∈ d.init, P e))
  | some (.expr e) => inferInstanceAs (Decidable (P e))

mutual

instance Stmt.decidableAllExprs {P : Expr → Prop} [DecidablePred P] :
    (s : Stmt) → Decidable (s.AllExprs P)
  | .decl d => inferInstanceAs (Decidable (∀ e ∈ d.init, P e))
  | .expr e | .ret e => inferInstanceAs (Decidable (P e))
  | .empty | .brk _ | .cont _ => .isTrue trivial
  | .block body => decidableAllExprsOf body
  | .ite test ifTrue ifFalse =>
    have := ifTrue.decidableAllExprs (P := P)
    have := ifFalse.decidableAllExprs (P := P)
    inferInstanceAs (Decidable (P test ∧ ifTrue.AllExprs P ∧ ifFalse.AllExprs P))
  | .whileDo test body | .doWhile body test =>
    have := body.decidableAllExprs (P := P)
    inferInstanceAs (Decidable (P test ∧ body.AllExprs P))
  | .forLoop init test step body =>
    have := body.decidableAllExprs (P := P)
    inferInstanceAs (Decidable (ForInit.AllExprs P init ∧ (∀ e ∈ test, P e) ∧ (∀ e ∈ step, P e) ∧
      body.AllExprs P))

instance decidableAllExprsOf {P : Expr → Prop} [DecidablePred P] :
    (ss : List Stmt) → Decidable (AllExprsOf P ss)
  | [] => .isTrue trivial
  | s :: rest =>
    have := s.decidableAllExprs (P := P)
    have := decidableAllExprsOf (P := P) rest
    inferInstanceAs (Decidable (s.AllExprs P ∧ AllExprsOf P rest))

end

/-- The expressions of a program all satisfy `P`. -/
def Program.AllExprs (P : Expr → Prop) (p : Program) : Prop :=
  ∀ f ∈ p.functions, AllExprsOf P f.body

instance {P : Expr → Prop} [DecidablePred P] (p : Program) : Decidable (p.AllExprs P) :=
  inferInstanceAs (Decidable (∀ f ∈ p.functions, AllExprsOf P f.body))

end Typed
end MiddleEnd
