import MiddleEnd.Proofs.Checked.Numbering
import MiddleEnd.Proofs.Lowered.Accepted
import MiddleEnd.Proofs.Lowered.Needs

/-!
# What keeps an accepted program from being lowered

A program that both passes accept without a word can still fail to be lowered. A `break` or
`continue` outside of a loop is one obstacle. The other comes from the two orders in which the parts
of a `do` are taken: the checker sees the body before the test, as it stands in the source, but the
test is lowered first. So a test can refer to a variable that the body declares in the scope around
the loop, and that variable is not bound yet when the test is lowered. Every other reference of such
a program is bound when it is lowered.

Results:
1. `StmtCheck.meets`: the needs of a statement are met up to its first obstacle.
2. `stops_at_first_obstacle_of_ordered`: whole programs, where positions do not mislead.
3. `translate_stops_at_first_obstacle`: programs that were built.
-/

namespace MiddleEnd

open Survey

/-- Whether an obstacle is a reference that is not bound. -/
def Error.isUnbound (e : Error) : Bool :=
  match e.cause with
  | .unresolvedSymbol _ => true
  | _ => false

namespace Typed

/-- A reference, if it is one to a variable of `xs`. -/
def Ref.among (xs : List SymbolId) (r : Ref) : List Ref :=
  if r.symbol.any fun id => id ∈ xs then [r] else []

/-- The references to variables of `xs`, in the order in which they are lowered. -/
def Expr.among (xs : List SymbolId) : Expr → List Ref
  | .const .. => []
  | .var r .. => r.among xs
  | .unary _ operand .. => operand.among xs
  | .binary _ left right .. => left.among xs ++ right.among xs
  | .assign target value .. => target.among xs ++ value.among xs
  | .cond test ifTrue ifFalse .. => test.among xs ++ ifTrue.among xs ++ ifFalse.among xs

/-- The report on a reference that is not bound. -/
def Ref.unbound (r : Ref) : Error := ⟨.unresolvedSymbol r.name, r.span.start⟩

mutual

/-- The references of a `do` test to variables that the body declares, all loops of a statement in
order. -/
def Stmt.lateUses : Stmt → List Ref
  | .decl _ | .expr _ | .empty | .brk _ | .cont _ | .ret _ => []
  | .block body => lateUsesOf body
  | .ite _ ifTrue ifFalse => ifTrue.lateUses ++ ifFalse.lateUses
  | .whileDo _ body | .forLoop _ _ _ body => body.lateUses
  | .doWhile body test => test.among body.binds ++ body.lateUses

/-- The same for statements. -/
def lateUsesOf : List Stmt → List Ref
  | [] => []
  | s :: rest => s.lateUses ++ lateUsesOf rest

end

mutual

/-- The obstacles to lowering a statement, inside a loop or not, in the order in which they are
met. -/
def Stmt.obstacles (inLoop : Bool) : Stmt → Log
  | .decl _ | .expr _ | .empty | .ret _ => []
  | .block body => obstaclesOf inLoop body
  | .ite _ ifTrue ifFalse => ifTrue.obstacles inLoop ++ ifFalse.obstacles inLoop
  | .whileDo _ body | .forLoop _ _ _ body => body.obstacles true
  | .doWhile body test => (test.among body.binds).map Ref.unbound ++ body.obstacles true
  | .brk span => if inLoop then [] else [⟨.breakOutsideLoop, span.start⟩]
  | .cont span => if inLoop then [] else [⟨.continueOutsideLoop, span.start⟩]

/-- The obstacles to lowering statements. -/
def obstaclesOf (inLoop : Bool) : List Stmt → Log
  | [] => []
  | s :: rest => s.obstacles inLoop ++ obstaclesOf inLoop rest

end

/-- The late references of a program. -/
def Program.lateUses (p : Program) : List Ref := p.functions.flatMap fun f => lateUsesOf f.body

/-- The obstacles to lowering a program. -/
def Program.obstacles (p : Program) : Log := p.functions.flatMap fun f => obstaclesOf false f.body

theorem filter_unbound (refs : List Ref) :
    (refs.map Ref.unbound).filter Error.isUnbound = refs.map Ref.unbound := by
  refine List.filter_eq_self.2 ?_
  intro e mem
  obtain ⟨r, -, rfl⟩ := List.mem_map.1 mem
  rfl

mutual

/-- The references among the obstacles are the late ones. -/
theorem Stmt.filter_obstacles (s : Stmt) (inLoop : Bool) :
    (s.obstacles inLoop).filter Error.isUnbound = s.lateUses.map Ref.unbound := by
  cases s with
  | decl | expr | empty | ret => rfl
  | block body => exact filter_obstaclesOf body inLoop
  | ite test ifTrue ifFalse =>
    rw [Stmt.obstacles, Stmt.lateUses, List.filter_append, List.map_append,
      ifTrue.filter_obstacles, ifFalse.filter_obstacles]
  | whileDo test body => exact body.filter_obstacles true
  | forLoop init test step body => exact body.filter_obstacles true
  | doWhile body test =>
    rw [Stmt.obstacles, Stmt.lateUses, List.filter_append, List.map_append, filter_unbound,
      body.filter_obstacles]
  | brk span | cont span => cases inLoop <;> rfl

theorem filter_obstaclesOf (ss : List Stmt) (inLoop : Bool) :
    (obstaclesOf inLoop ss).filter Error.isUnbound = (lateUsesOf ss).map Ref.unbound := by
  cases ss with
  | nil => rfl
  | cons s rest =>
    rw [obstaclesOf, lateUsesOf, List.filter_append, List.map_append, s.filter_obstacles,
      filter_obstaclesOf rest]

end

theorem Program.filter_obstacles (p : Program) :
    p.obstacles.filter Error.isUnbound = p.lateUses.map Ref.unbound := by
  rw [obstacles, lateUses, List.filter_flatMap, List.map_flatMap]
  exact List.flatMap_congr fun f _ => filter_obstaclesOf f.body false

end Typed

/-! ## Needs that are met -/

/-- The variables from `base` up to `a` are bound, and no others. -/
def BoundTo (base a : Nat) (bound : List SymbolId) : Prop :=
  ∀ id : Nat, id ∈ bound ↔ base ≤ id ∧ id < a

/-- With the variables up to `a` bound, the needs are met up to the first obstacle. If there is
none, the variables up to `b` are bound afterwards. -/
def Meets (t : SymbolTable) (base : Nat) (needs : List Need) (obstacles : Log) (a b : Nat) : Prop :=
  ∀ bound, BoundTo base a bound →
    match obstacles with
    | [] => ∃ bound', Need.meetAll t bound needs = .ok bound' ∧ BoundTo base b bound'
    | e :: _ => Need.meetAll t bound needs = .error e

namespace Meets

variable {t : SymbolTable} {base a b c : Nat} {needs₁ needs₂ : List Need} {log₁ log₂ : Log}

theorem nil : Meets t base [] [] a a := fun bound upTo => ⟨bound, rfl, upTo⟩

theorem append (h₁ : Meets t base needs₁ log₁ a b) (h₂ : Meets t base needs₂ log₂ b c) :
    Meets t base (needs₁ ++ needs₂) (log₁ ++ log₂) a c := by
  intro bound upTo
  have first := h₁ bound upTo
  rw [Need.meetAll_append]
  cases log₁ with
  | nil =>
    obtain ⟨bound', met, upTo'⟩ := first
    rw [met]
    exact h₂ bound' upTo'
  | cons e rest =>
    have failed : Need.meetAll t bound needs₁ = .error e := first
    simp only [List.cons_append, failed]
    rfl

theorem function {id : SymbolId} {name : String} {span : Span}
    (isFn : (t.functionAt id).isSome) : Meets t base [.function id name span] [] a a := by
  intro bound upTo
  refine ⟨bound, ?_, upTo⟩
  rw [Need.meetAll_singleton, Need.meet, if_pos isFn]

theorem bind {name : String} {span : Span} (above : base ≤ a) (isVar : (t.variableAt a).isSome) :
    Meets t base [.bind a name span] [] a (a + 1) := by
  intro bound upTo
  refine ⟨a :: bound, by rw [Need.meetAll_singleton, Need.meet, if_pos isVar], ?_⟩
  intro id
  rw [List.mem_cons, upTo id]
  omega

/-- A reference is met unless it is to one of the variables `xs` that are not bound yet. -/
theorem ref {r : Typed.Ref} {id : Nat} {xs : List SymbolId} (symbol : r.symbol = some id)
    (storage : r.storage = some .frame) (above : base ≤ id) (late : id ∈ xs ↔ a ≤ id) :
    Meets t base [.ref r] ((r.among xs).map Typed.Ref.unbound) a a := by
  intro bound upTo
  rw [Need.meetAll_singleton, Need.meet, symbol, storage, Typed.Ref.among, symbol]
  by_cases isLate : id ∈ xs
  · have unbound : id ∉ bound := fun mem =>
      Nat.not_lt.2 (late.1 isLate) ((upTo id).1 mem).2
    simp only [Option.any_some, isLate, decide_true, if_true, if_neg unbound]
    rfl
  · have isBound : id ∈ bound := (upTo id).2 ⟨above, Nat.not_le.1 (isLate ∘ late.2)⟩
    simp only [Option.any_some, isLate, decide_false, if_pos isBound]
    exact ⟨bound, rfl, upTo⟩

end Meets

/-! ## Checked expressions -/

/-- The needs are references to variables from `base` up to `n`. -/
def RefersIn (base n : Nat) (needs : List Need) : Prop :=
  ∀ need ∈ needs, ∃ (r : Typed.Ref) (id : Nat), need = .ref r ∧ r.symbol = some id ∧
    r.storage = some .frame ∧ base ≤ id ∧ id < n

variable {t : SymbolTable} {base a n : Nat}

/-- An expression is met up to its first reference to a variable that is not bound yet. -/
theorem RefersIn.meets {e : Typed.Expr} (h : RefersIn base n e.needs) (xs : List SymbolId)
    (late : ∀ id : Nat, base ≤ id → id < n → (id ∈ xs ↔ a ≤ id)) :
    Meets t base e.needs ((e.among xs).map Typed.Ref.unbound) a a := by
  have single {r : Typed.Ref} (h : RefersIn base n [.ref r]) :
      Meets t base [.ref r] ((r.among xs).map Typed.Ref.unbound) a a := by
    obtain ⟨_, id, same, symbol, storage, above, below⟩ := h _ List.mem_cons_self
    cases same
    exact .ref symbol storage above (late id above below)
  induction e with
  | const value ty span => exact .nil
  | var r ty span => exact single h
  | unary op operand ty span ih => exact ih h
  | binary op left right ty span ihl ihr =>
    obtain ⟨hl, hr⟩ := List.forall_mem_append.1 h
    rw [Typed.Expr.needs, Typed.Expr.among, List.map_append]
    exact (ihl hl).append (ihr hr)
  | assign target value ty span ih =>
    obtain ⟨ht, hv⟩ := List.forall_mem_cons.1 h
    rw [Typed.Expr.needs, Typed.Expr.among, List.map_append]
    exact (single (List.forall_mem_singleton.2 ht)).append (ih hv)
  | cond test ifTrue ifFalse ty span iht iha ihb =>
    obtain ⟨h₁, hb⟩ := List.forall_mem_append.1 h
    obtain ⟨ht, ha⟩ := List.forall_mem_append.1 h₁
    rw [Typed.Expr.needs, Typed.Expr.among, List.map_append, List.map_append]
    exact ((iht ht).append (iha ha)).append (ihb hb)

theorem Typed.Expr.among_nil (e : Typed.Expr) : e.among [] = [] := by
  induction e <;> simp_all [Typed.Expr.among, Typed.Ref.among]

/-- An expression whose variables are all bound is met. -/
theorem RefersIn.meets_bound {e : Typed.Expr} (h : RefersIn base n e.needs) (le : n ≤ a) :
    Meets t base e.needs [] a a := by
  have whole := h.meets (t := t) (a := a) [] fun id _ below => by
    simp only [List.not_mem_nil, false_iff, Nat.not_le]
    exact Nat.lt_of_lt_of_le below le
  rwa [e.among_nil] at whole

/-! ## Accepted programs -/

/-- The table shows no variable at a use but those from `base` up to `n`. -/
def Sees (t : SymbolTable) (path : ScopePath) (base n : Nat) (r : Source.Ref) : Prop :=
  ∀ (id : Nat) (v : VariableInfo), t.lookup r.name r.span.start path = .ok (some id) →
    t.symbols[id]? = some (.var v) → base ≤ id ∧ id < n

/-- At a step after those of a survey the table has the scope and the variable that the survey
counts next, and shows no variable but those from `base` on that were counted before. -/
def Settled (t : SymbolTable) (base : Nat) (w : Survey) : Step → Prop
  | .enter id _ => t.scopeIndex? id = some w.owners.length
  | .leave => True
  | .declare s => t.innermost? w.path s.name = some w.entries.length ∧
      base ≤ w.entries.length ∧ (t.variableAt w.entries.length).isSome
  | .use r => Sees t w.path base w.entries.length r

theorem Settled.numbered {w : Survey} {steps : List Step} (h : w.All (Settled t base) steps) :
    w.All (Numbered t) steps :=
  h.mono fun w s settled => by
    cases s with
    | enter id kind => exact settled
    | leave | use => trivial
    | declare s => exact settled.1

/-- So it is in a program that declares no name twice. -/
theorem settled {p : Source.Program} (ordered : p.Ordered)
    (clean : (Declarations.ofProgram p).log = []) :
    p.globals.All (Settled (Declarations.ofProgram p).table p.functions.length) p.main := by
  refine all_iff.2 ?_
  intro pre s post split
  have own := all_iff.1 (numbered ordered clean) pre s post split
  cases s with
  | enter id kind => exact own
  | leave => trivial
  | declare s =>
    have above : p.functions.length ≤ (p.globals.run pre).entries.length := by
      obtain ⟨earlier, grown, -⟩ := entries_run p.globals pre
      rw [grown, List.length_append, p.globals_entries, List.length_map]
      exact Nat.le_add_right ..
    refine ⟨own, above, ?_⟩
    obtain ⟨later, whole⟩ := entries_at_declare split
    obtain ⟨v, found, -⟩ := variable_at p above (by rw [whole]; simp)
    rw [SymbolTable.variableAt, found]
    rfl
  | use r =>
    intro id v looked isVar
    rw [lookup_eq ordered split] at looked
    injection looked with looked
    obtain ⟨i, -, first⟩ := List.exists_of_findSome?_eq_some looked
    obtain ⟨e, found, -⟩ := firstIn_eq_some first
    have inside := (List.getElem?_eq_some_iff.1 found).1
    refine ⟨Nat.not_lt.1 ?_, inside⟩
    -- the functions come first, and they are no variables
    intro below
    have notVar := not_variable_at p below
    rw [SymbolTable.variableAt, isVar] at notVar
    cases notVar

variable {Γ : CheckContext} {w : Survey}

/-- A reference that is checked without a word is one to a variable. -/
theorem RefCheck.refersIn {path : ScopePath} {r : Source.Ref} {r' : Typed.Ref}
    (h : RefCheck t path r r' []) (use : Sees t path base n r) : RefersIn base n [.ref r'] := by
  intro need mem
  rw [List.mem_singleton.1 mem]
  cases h with
  | found looked isVar =>
    obtain ⟨above, below⟩ := use _ _ looked isVar
    exact ⟨_, _, rfl, rfl, rfl, above, below⟩

theorem ExprCheck.refersIn {path : ScopePath} {e : Source.Expr} {e' : Typed.Expr} {log : Log}
    (h : ExprCheck Γ path e e' log) (silent : log = [])
    (uses : ∀ r ∈ e.uses, Sees Γ.symbols path base n r) : RefersIn base n e'.needs := by
  induction h with
  | const => exact fun need mem => absurd mem List.not_mem_nil
  | var h =>
    subst silent
    exact h.refersIn (uses _ List.mem_cons_self)
  | unary _ ih => exact ih (List.append_eq_nil_iff.1 silent).1 uses
  | binary _ _ ih₁ ih₂ =>
    obtain ⟨uses₁, uses₂⟩ := List.forall_mem_append.1 uses
    obtain ⟨silent, -⟩ := List.append_eq_nil_iff.1 silent
    obtain ⟨silent, silent₂⟩ := List.append_eq_nil_iff.1 silent
    obtain ⟨silent₁, -⟩ := List.append_eq_nil_iff.1 silent
    exact List.forall_mem_append.2 ⟨ih₁ silent₁ uses₁, ih₂ silent₂ uses₂⟩
  | assign h _ ih =>
    obtain ⟨usesValue, usesTarget⟩ := List.forall_mem_append.1 uses
    obtain ⟨silent, -⟩ := List.append_eq_nil_iff.1 silent
    obtain ⟨rfl, silentValue⟩ := List.append_eq_nil_iff.1 silent
    have target := h.refersIn (usesTarget _ List.mem_cons_self)
    exact List.forall_mem_cons.2 ⟨target _ List.mem_cons_self, ih silentValue usesValue⟩
  | cond _ _ _ ih₁ ih₂ ih₃ =>
    obtain ⟨uses, uses₃⟩ := List.forall_mem_append.1 uses
    obtain ⟨uses₁, uses₂⟩ := List.forall_mem_append.1 uses
    obtain ⟨silent, -⟩ := List.append_eq_nil_iff.1 silent
    obtain ⟨silent, silent₃⟩ := List.append_eq_nil_iff.1 silent
    obtain ⟨silent, silent₂⟩ := List.append_eq_nil_iff.1 silent
    obtain ⟨silent₁, -⟩ := List.append_eq_nil_iff.1 silent
    refine List.forall_mem_append.2 ⟨List.forall_mem_append.2 ⟨?_, ?_⟩, ih₃ silent₃ uses₃⟩
    · exact ih₁ silent₁ uses₁
    · exact ih₂ silent₂ uses₂

theorem uses_of_settled {w : Survey} {e : Source.Expr} (h : w.All (Settled t base) e.script) :
    ∀ r ∈ e.uses, Sees t w.path base w.entries.length r := all_uses.1 h

theorem FitsCheck.refersIn {ty : Ty} {e : Source.Expr} {e' : Typed.Expr} {log : Log}
    (h : FitsCheck Γ w.path ty e e' log) (silent : log = [])
    (settled : w.All (Settled Γ.symbols base) e.script) :
    RefersIn base w.entries.length e'.needs := by
  cases h with
  | mk h => exact h.refersIn (List.append_eq_nil_iff.1 silent).1 (uses_of_settled settled)

theorem TestCheck.refersIn {e : Source.Expr} {e' : Typed.Expr} {log : Log}
    (h : TestCheck Γ w.path e e' log) (silent : log = [])
    (settled : w.All (Settled Γ.symbols base) e.script) :
    RefersIn base w.entries.length e'.needs := by
  cases h with
  | mk h => exact h.refersIn (List.append_eq_nil_iff.1 silent).1 (uses_of_settled settled)

theorem OptionCheck.meets {e : Option Source.Expr} {e' : Option Typed.Expr} {log : Log}
    (h : OptionCheck Γ w.path e e' log) (silent : log = [])
    (settled : w.All (Settled Γ.symbols base) (Source.optionScript e))
    (le : w.entries.length ≤ a) : Meets Γ.symbols base (Typed.optionNeeds e') [] a a := by
  cases h with
  | none => exact .nil
  | some h => exact (h.refersIn silent (uses_of_settled settled)).meets_bound le

theorem VarDeclCheck.meets {d : Source.VarDecl} {d' : Typed.VarDecl} {log : Log}
    (h : VarDeclCheck Γ w.path d d' log) (silent : log = [])
    (settled : w.All (Settled Γ.symbols base) d.script) :
    Meets Γ.symbols base d'.needs [] w.entries.length (w.run d.script).entries.length := by
  obtain ⟨settledInit, ⟨own, above, isVar⟩, -⟩ := all_append.1 settled
  rw [run_option] at own above isVar
  rw [run_varDecl, step, List.length_append, List.length_singleton]
  cases h with
  | plain named absent =>
    cases named.symm.trans own
    exact .bind above isVar
  | init named present h =>
    cases named.symm.trans own
    rw [present] at settledInit
    have bound : Meets Γ.symbols base [.bind w.entries.length d.name d.span] [] _ _ :=
      .bind above isVar
    exact bound.append ((h.refersIn silent settledInit).meets_bound (Nat.le_succ _))

theorem ForInitCheck.meets {init : Option Source.ForInit} {init' : Option Typed.ForInit}
    {log : Log} (h : ForInitCheck Γ w.path init init' log) (silent : log = [])
    (settled : w.All (Settled Γ.symbols base) (Source.ForInit.script init)) :
    Meets Γ.symbols base (Typed.ForInit.needs init') [] w.entries.length
      (w.run (Source.ForInit.script init)).entries.length := by
  cases h with
  | none => exact .nil
  | decl h => exact h.meets silent settled
  | expr h =>
    unfold Source.ForInit.script
    rw [run_expr]
    exact (h.refersIn silent (uses_of_settled settled)).meets_bound (Nat.le_refl _)

mutual

/-- An accepted statement is met up to its first obstacle. -/
theorem StmtCheck.meets {Γ : CheckContext} {base : Nat} {returnTy : Ty} {w : Survey}
    {s : Source.Stmt} {s' : Typed.Stmt} {log : Log} (h : StmtCheck Γ returnTy w.path s s' log)
    (silent : log = []) (settled : w.All (Settled Γ.symbols base) s.script) (inLoop : Bool) :
    Meets Γ.symbols base (s'.needs inLoop) (s'.obstacles inLoop) w.entries.length
      (w.run s.script).entries.length := by
  cases h with
  | decl h => exact h.meets silent settled
  | expr h =>
    unfold Source.Stmt.script
    rw [run_expr]
    exact (h.refersIn silent (uses_of_settled settled)).meets_bound (Nat.le_refl _)
  | ret h =>
    unfold Source.Stmt.script
    rw [run_expr]
    exact (h.refersIn silent settled).meets_bound (Nat.le_refl _)
  | empty => exact .nil
  | brk =>
    cases inLoop with
    | true => exact .nil
    | false => exact fun bound upTo => rfl
  | cont =>
    cases inLoop with
    | true => exact .nil
    | false => exact fun bound upTo => rfl
  | @block _ _ _ id _ _ _ owned h =>
    obtain ⟨entered, settledBody⟩ := all_scope settled
    cases owned.symm.trans entered
    have inner := StmtsCheck.meets (w := w.step (.enter id .block)) h silent settledBody inLoop
    unfold Source.Stmt.script
    rw [List.cons_append, run_cons, run_append]
    exact inner
  | @ite _ _ ifTrue _ _ _ _ _ _ _ _ h₁ h₂ h₃ =>
    obtain ⟨silent, silent₃⟩ := List.append_eq_nil_iff.1 silent
    obtain ⟨silent₁, silent₂⟩ := List.append_eq_nil_iff.1 silent
    obtain ⟨settled, settled₃⟩ := all_append.1 settled
    obtain ⟨settled₁, settled₂⟩ := all_append.1 settled
    rw [run_expr] at settled₂
    rw [run_append, run_expr] at settled₃
    rw [← path_run_stmt w ifTrue] at h₃
    have test := (h₁.refersIn silent₁ settled₁).meets_bound (t := Γ.symbols) (Nat.le_refl _)
    have first := h₂.meets silent₂ settled₂ inLoop
    unfold Source.Stmt.script
    rw [run_append, run_append, run_expr]
    exact (test.append first).append (h₃.meets silent₃ settled₃ inLoop)
  | whileDo h₁ h₂ =>
    obtain ⟨silent₁, silent₂⟩ := List.append_eq_nil_iff.1 silent
    obtain ⟨settled₁, settled₂⟩ := all_append.1 settled
    rw [run_expr] at settled₂
    have test := (h₁.refersIn silent₁ settled₁).meets_bound (t := Γ.symbols) (Nat.le_refl _)
    unfold Source.Stmt.script
    rw [run_append, run_expr]
    exact test.append (h₂.meets silent₂ settled₂ true)
  | @doWhile _ test body _ b _ _ _ h₁ h₂ =>
    obtain ⟨silent₁, silent₂⟩ := List.append_eq_nil_iff.1 silent
    obtain ⟨settled₂, settled₁⟩ := all_append.1 settled
    rw [← path_run_stmt w body] at h₁
    have refers := h₁.refersIn silent₁ settled₁
    have numbers := h₂.numbers (Settled.numbered settled₂)
    -- of what the test sees, exactly the declarations of the body are not bound yet
    have late (id : Nat) (_ : base ≤ id) (below : id < (w.run body.script).entries.length) :
        id ∈ b.binds ↔ w.entries.length ≤ id :=
      numbers.mem_iff.trans (and_iff_left below)
    have test := refers.meets (t := Γ.symbols) b.binds late
    unfold Source.Stmt.script
    rw [run_append, run_expr]
    exact test.append (h₂.meets silent₂ settled₂ true)
  | @forLoop _ init _ _ body _ _ _ _ id _ _ _ _ _ _ owned h₁ h₂ h₃ h₄ =>
    obtain ⟨silent, silent₄⟩ := List.append_eq_nil_iff.1 silent
    obtain ⟨silent, silent₃⟩ := List.append_eq_nil_iff.1 silent
    obtain ⟨silent₁, silent₂⟩ := List.append_eq_nil_iff.1 silent
    obtain ⟨entered, settledRest⟩ := all_scope settled
    cases owned.symm.trans entered
    obtain ⟨settledClauses, settled₄⟩ := all_append.1 settledRest
    obtain ⟨settledFirst, settled₃⟩ := all_append.1 settledClauses
    obtain ⟨settled₁, settled₂⟩ := all_append.1 settledFirst
    rw [run_append, run_append, run_option, run_option] at settled₄
    rw [run_append, run_option] at settled₃
    have inside : ((w.step (.enter id .block)).run (Source.ForInit.script init)).path =
        w.owners.length :: w.path := path_forInit ..
    rw [← inside] at h₂ h₃ h₄
    have first := ForInitCheck.meets (w := w.step (.enter id .block)) h₁ silent₁ settled₁
    have test := h₂.meets silent₂ settled₂ (Nat.le_refl _)
    have inner := h₄.meets silent₄ settled₄ true
    -- the last clause is lowered behind the body, with all bound that it can see
    have last := h₃.meets silent₃ settled₃ (h₄.numbers (Settled.numbered settled₄)).le
    have whole := ((first.append test).append inner).append last
    rw [List.append_nil] at whole
    unfold Source.Stmt.script
    rw [List.cons_append, run_cons, run_append]
    simp only [run_append, run_option]
    exact whole

theorem StmtsCheck.meets {Γ : CheckContext} {base : Nat} {returnTy : Ty} {w : Survey}
    {ss : List Source.Stmt} {ss' : List Typed.Stmt} {log : Log}
    (h : StmtsCheck Γ returnTy w.path ss ss' log) (silent : log = [])
    (settled : w.All (Settled Γ.symbols base) (Source.scriptOf ss)) (inLoop : Bool) :
    Meets Γ.symbols base (Typed.needsOf inLoop ss') (Typed.obstaclesOf inLoop ss')
      w.entries.length (w.run (Source.scriptOf ss)).entries.length := by
  cases h with
  | nil => exact .nil
  | @cons _ s _ _ _ _ _ h₁ h₂ =>
    obtain ⟨silent₁, silent₂⟩ := List.append_eq_nil_iff.1 silent
    obtain ⟨settled₁, settled₂⟩ := all_append.1 settled
    rw [← path_run_stmt w s] at h₂
    unfold Source.scriptOf
    rw [run_append]
    exact (h₁.meets silent₁ settled₁ inLoop).append (h₂.meets silent₂ settled₂ inLoop)

end

theorem ParamsCheck.meets {ps : List Source.Param} {ps' : List Typed.Param}
    (h : ParamsCheck Γ w.path ps ps')
    (settled : w.All (Settled Γ.symbols base) (ps.map fun p => .declare p.symbol)) :
    Meets Γ.symbols base (ps'.map fun p => .bind p.symbol p.name p.span) [] w.entries.length
      (w.run (ps.map fun p => .declare p.symbol)).entries.length := by
  induction ps generalizing w ps' with
  | nil =>
    cases h
    exact .nil
  | cons p rest ih =>
    cases h with
    | cons named h =>
      obtain ⟨⟨own, above, isVar⟩, settledRest⟩ := settled
      cases named.symm.trans own
      have one : Meets Γ.symbols base [.bind w.entries.length p.name p.span] [] _ _ :=
        .bind above isVar
      have others := ih (w := w.step (.declare p.symbol)) h settledRest
      rw [step, List.length_append, List.length_singleton] at others
      exact one.append others

theorem FunctionCheck.meets {f : Source.Function} {f' : Typed.Function} {log : Log}
    (h : FunctionCheck Γ w.path f f' log) (silent : log = [])
    (settled : w.All (Settled Γ.symbols base) f.script) :
    Meets Γ.symbols base f'.needs (Typed.obstaclesOf false f'.body) w.entries.length
      (w.run f.script).entries.length := by
  cases h with
  | mk named isFn owned params body =>
    obtain ⟨entered, settledRest⟩ := all_scope settled
    cases owned.symm.trans entered
    obtain ⟨settledParams, settledBody⟩ := all_append.1 settledRest
    have bound := ParamsCheck.meets (w := w.step (.enter f.body.id .function)) params
      settledParams
    have inside : ((w.step (.enter f.body.id .function)).run
        (f.params.map fun p => .declare p.symbol)).path = w.owners.length :: w.path :=
      path_run_declares ..
    rw [← inside] at body
    have isFunction {a : Nat} : Meets Γ.symbols base [.function _ f.name f.span] [] a a :=
      .function isFn
    have entry := (isFunction.append bound).append isFunction
    have whole := entry.append (body.meets silent settledBody false)
    rw [List.append_assoc] at whole
    unfold Source.Function.script
    rw [List.cons_append, run_cons, run_append, run_append]
    exact whole

theorem FunctionsCheck.meets {fs : List Source.Function} {fs' : List Typed.Function} {log : Log}
    (h : FunctionsCheck Γ w.path fs fs' log) (silent : log = [])
    (settled : w.All (Settled Γ.symbols base) (fs.flatMap Source.Function.script)) :
    Meets Γ.symbols base (fs'.flatMap Typed.Function.needs)
      (fs'.flatMap fun f => Typed.obstaclesOf false f.body) w.entries.length
      (w.run (fs.flatMap Source.Function.script)).entries.length := by
  induction fs generalizing w fs' log with
  | nil =>
    cases h
    exact .nil
  | cons f rest ih =>
    cases h with
    | cons h₁ h₂ =>
      obtain ⟨silent₁, silent₂⟩ := List.append_eq_nil_iff.1 silent
      obtain ⟨settled₁, settled₂⟩ := all_append.1 settled
      rw [← path_run_function w f] at h₂
      rw [List.flatMap_cons, List.flatMap_cons, List.flatMap_cons, run_append]
      exact (h₁.meets silent₁ settled₁).append (ih h₂ silent₂ settled₂)

theorem ProgramCheck.meets {p : Source.Program} (ordered : p.Ordered)
    (clean : (Declarations.ofProgram p).log = []) {config : Config} {typed : Typed.Program}
    (h : ProgramCheck ⟨(Declarations.ofProgram p).table, config⟩ p typed []) :
    Meets (Declarations.ofProgram p).table p.functions.length typed.needs typed.obstacles
      p.functions.length (Survey.ofProgram p).entries.length := by
  cases h with
  | mk owned h =>
    cases owned.symm.trans (scopeIndex_global ordered.owners)
    rw [← p.globals_path] at h
    have whole := h.meets rfl (settled ordered clean)
    rw [p.globals_entries, List.length_map] at whole
    rw [p.ofProgram_eq]
    exact whole

/-- A program whose positions do not mislead and that both passes accept without a word is
translated unless it has an obstacle, and fails with the first one. -/
theorem stops_at_first_obstacle_of_ordered {p : Source.Program} (ordered : p.Ordered)
    {config : Config} {typed : Typed.Program} (declared : (Declarations.ofProgram p).log = [])
    (checked : checkProgram ⟨(Declarations.ofProgram p).table, config⟩ p = .ok (typed, [])) :
    (match typed.obstacles with
      | [] => ∃ code, translate config p = .ok code
      | e :: _ => translate config p = .error (.aborted e)) ∧
    ∀ name pos, translate config p = .error (.aborted ⟨.unresolvedSymbol name, pos⟩) →
      ∃ r ∈ typed.lateUses, r.unbound = ⟨.unresolvedSymbol name, pos⟩ := by
  have meets := (checkProgram_shape checked).meets ordered declared
  have start : BoundTo p.functions.length p.functions.length [] := fun id => by simp
  have met := meets [] start
  have lowered := lowerProgram_needs config (tempOf_eq_none p) typed
  have outcome := translate_of_silent checked declared
  cases obstacles : typed.obstacles with
  | nil =>
    rw [obstacles] at met
    obtain ⟨bound, met, -⟩ := met
    rw [met] at lowered
    obtain ⟨code, lowered⟩ := lowered
    rw [lowered] at outcome
    refine ⟨⟨code, outcome⟩, ?_⟩
    intro name pos failed
    rw [outcome] at failed
    cases failed
  | cons e rest =>
    rw [obstacles] at met
    have stopped : Need.meetAll _ [] typed.needs = .error e := met
    rw [stopped] at lowered
    have failed : (lowerProgram config _ typed).1 = .error e := lowered
    rw [failed] at outcome
    refine ⟨outcome, ?_⟩
    intro name pos unresolved
    rw [outcome] at unresolved
    cases unresolved
    have mem : ⟨.unresolvedSymbol name, pos⟩ ∈ typed.obstacles.filter Error.isUnbound :=
      List.mem_filter.2 ⟨obstacles ▸ List.mem_cons_self, rfl⟩
    rw [typed.filter_obstacles] at mem
    exact List.mem_map.1 mem

/-- A program that both passes accept without a word is translated unless it has an obstacle, and
fails with the first one. So a reference is only found unbound if it is late. -/
theorem translate_stops_at_first_obstacle (d : Draft.Program) (b : Source.Builder)
    {config : Config} {typed : Typed.Program}
    (declared : (Declarations.ofProgram (d.place b).1).log = [])
    (checked : checkProgram ⟨(Declarations.ofProgram (d.place b).1).table, config⟩ (d.place b).1 =
      .ok (typed, [])) :
    (match typed.obstacles with
      | [] => ∃ code, translate config (d.place b).1 = .ok code
      | e :: _ => translate config (d.place b).1 = .error (.aborted e)) ∧
    ∀ name pos,
      translate config (d.place b).1 = .error (.aborted ⟨.unresolvedSymbol name, pos⟩) →
      ∃ r ∈ typed.lateUses, r.unbound = ⟨.unresolvedSymbol name, pos⟩ :=
  stops_at_first_obstacle_of_ordered (d.place_ordered b) declared checked

/-- `int main() { do int x; while (x); }` -/
def lateDo : Draft.Program :=
  ⟨[⟨"main", [], .int, [.doWhile (.decl ⟨"x", .int, none⟩) (.var "x")]⟩]⟩

theorem translate_stops_at_first_obstacle_of_lateDo :
    let p := (lateDo.place ⟨"t", 0, 0⟩).1
    ∃ typed pos, (Declarations.ofProgram p).log = [] ∧
      checkProgram ⟨(Declarations.ofProgram p).table, {}⟩ p = .ok (typed, []) ∧
      typed.obstacles = [⟨.unresolvedSymbol "x", pos⟩] ∧
      translate {} p = .error (.aborted ⟨.unresolvedSymbol "x", pos⟩) ∧
      ∃ r ∈ typed.lateUses, r.unbound = ⟨.unresolvedSymbol "x", pos⟩ := by
  intro p
  have declared : (Declarations.ofProgram p).log = [] := by decide +kernel
  have accepted : (checkProgram ⟨(Declarations.ofProgram p).table, {}⟩ p).toOption.map
      (fun result => (result.2, result.1.obstacles)) =
        some ([], [⟨.unresolvedSymbol "x", ⟨1, "t"⟩⟩]) := by
    decide +kernel
  match checked : checkProgram ⟨(Declarations.ofProgram p).table, {}⟩ p with
  | .error e => simp [checked, Except.toOption] at accepted
  | .ok (typed, issued) =>
    obtain ⟨rfl, obstacles⟩ : issued = [] ∧ typed.obstacles = _ := by
      simpa [checked, Except.toOption] using accepted
    obtain ⟨outcome, late⟩ := translate_stops_at_first_obstacle lateDo ⟨"t", 0, 0⟩ declared checked
    rw [obstacles] at outcome
    exact ⟨typed, _, declared, rfl, obstacles, outcome, late _ _ outcome⟩

end MiddleEnd
