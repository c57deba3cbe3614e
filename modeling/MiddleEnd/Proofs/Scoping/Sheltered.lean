import MiddleEnd.Proofs.Scoping.Script

/-!
# Where a statement declares

A declaration that stands in no block and no `for` of a statement is made in the scope around the
statement. All others are made in scopes that the statement enters itself, so what an open scope has
under a name is not changed by them.

Results:
1. `declaresAbove_stmt`: the scopes that a statement declares in.
2. `firstIn_run_of_lt`: a statement that declares nothing around it leaves the open scopes as they
   are.
-/

namespace MiddleEnd

namespace Source

/-- Whether a statement declares a variable in the scope around it. -/
def Stmt.declares : Stmt → Bool
  | .decl _ => true
  | .ite _ ifTrue ifFalse _ => ifTrue.declares || ifFalse.declares
  | .whileDo _ body _ | .doWhile body _ _ => body.declares
  | .expr .. | .empty _ | .block .. | .forLoop .. | .brk _ | .cont _ | .ret .. => false

mutual

/-- Whether no body of a `do` in a statement declares a variable in the scope around it. -/
def Stmt.sheltered : Stmt → Bool
  | .block body _ _ => shelteredAll body
  | .ite _ ifTrue ifFalse _ => ifTrue.sheltered && ifFalse.sheltered
  | .whileDo _ body _ | .forLoop _ _ _ body _ _ => body.sheltered
  | .doWhile body _ _ => !body.declares && body.sheltered
  | .decl _ | .expr .. | .empty _ | .brk _ | .cont _ | .ret .. => true

/-- The same for statements. -/
def shelteredAll : List Stmt → Bool
  | [] => true
  | s :: rest => s.sheltered && shelteredAll rest

end

/-- The same for a program. -/
def Program.sheltered (p : Program) : Bool := p.functions.all fun f => shelteredAll f.body.stmts

end Source

namespace Survey

/-- A step that declares nothing in the scopes below `n`. -/
def DeclaresAbove (n : Nat) (w : Survey) : Step → Prop
  | .declare _ => n ≤ w.path.headD 0
  | .enter .. | .leave | .use _ => True

variable {n : Nat}

theorem declaresAbove_uses (w : Survey) (refs : List Source.Ref) :
    w.All (DeclaresAbove n) (refs.map .use) :=
  all_uses.2 fun _ _ => trivial

theorem declaresAbove_option (w : Survey) (e : Option Source.Expr) :
    w.All (DeclaresAbove n) (Source.optionScript e) := by
  cases e with
  | none => trivial
  | some e => exact declaresAbove_uses w e.uses

theorem declaresAbove_varDecl {w : Survey} (inner : n ≤ w.path.headD 0) (d : Source.VarDecl) :
    w.All (DeclaresAbove n) d.script := by
  refine all_append.2 ⟨declaresAbove_option w d.init, ?_, trivial⟩
  rw [run_option]
  exact inner

theorem declaresAbove_forInit {w : Survey} (inner : n ≤ w.path.headD 0)
    (init : Option Source.ForInit) : w.All (DeclaresAbove n) (Source.ForInit.script init) := by
  match init with
  | none => trivial
  | some (.decl d) => exact declaresAbove_varDecl inner d
  | some (.expr e) => exact declaresAbove_uses w e.uses

theorem le_owners_run {w : Survey} (owned : n ≤ w.owners.length) (steps : List Step) :
    n ≤ (w.run steps).owners.length := by
  rw [owners_run, List.length_append]
  exact Nat.le_add_right_of_le owned

mutual

/-- A statement declares in the scopes that it enters, and in the one around it if it says so. -/
theorem declaresAbove_stmt {w : Survey} (owned : n ≤ w.owners.length) (s : Source.Stmt)
    (inner : s.declares = true → n ≤ w.path.headD 0) : w.All (DeclaresAbove n) s.script := by
  cases s with
  | decl d => exact declaresAbove_varDecl (inner rfl) d
  | expr e | ret e => exact declaresAbove_uses w e.uses
  | empty | brk | cont => trivial
  | block body id span =>
    have inside := le_owners_run owned [.enter id .block]
    have entered : n ≤ (w.step (.enter id .block)).path.headD 0 := owned
    exact ⟨trivial, all_append.2 ⟨declaresAbove_stmts inside entered body, trivial, trivial⟩⟩
  | ite test ifTrue ifFalse span =>
    refine all_append.2 ⟨all_append.2 ⟨declaresAbove_uses w test.uses, ?_⟩, ?_⟩
    · rw [run_expr]
      exact declaresAbove_stmt owned ifTrue fun here => inner (by simp [Source.Stmt.declares, here])
    · rw [run_append, run_expr]
      refine declaresAbove_stmt (le_owners_run owned _) ifFalse fun here => ?_
      rw [path_run_stmt]
      exact inner (by simp [Source.Stmt.declares, here])
  | whileDo test body span =>
    refine all_append.2 ⟨declaresAbove_uses w test.uses, ?_⟩
    rw [run_expr]
    exact declaresAbove_stmt owned body inner
  | doWhile body test span =>
    exact all_append.2 ⟨declaresAbove_stmt owned body inner, declaresAbove_uses _ test.uses⟩
  | forLoop init test step body id span =>
    have inside := le_owners_run owned [.enter id .block]
    have first := declaresAbove_forInit (w := w.step (.enter id .block)) owned init
    have clauses := all_append.2 ⟨first, declaresAbove_option _ test⟩
    have clauses := all_append.2 ⟨clauses, declaresAbove_option _ step⟩
    refine ⟨trivial, all_append.2 ⟨all_append.2 ⟨clauses, ?_⟩, trivial, trivial⟩⟩
    refine declaresAbove_stmt (le_owners_run inside _) body fun _ => ?_
    rw [run_append, run_append, run_option, run_option, path_forInit]
    exact owned

theorem declaresAbove_stmts {w : Survey} (owned : n ≤ w.owners.length)
    (inner : n ≤ w.path.headD 0) (ss : List Source.Stmt) :
    w.All (DeclaresAbove n) (Source.scriptOf ss) := by
  cases ss with
  | nil => trivial
  | cons s rest =>
    refine all_append.2 ⟨declaresAbove_stmt owned s fun _ => inner, ?_⟩
    refine declaresAbove_stmts (le_owners_run owned _) ?_ rest
    rwa [path_run_stmt]

end

/-- What is declared above `n` is not found below. -/
theorem firstIn_run_of_declaresAbove {w : Survey} {steps : List Step}
    (above : w.All (DeclaresAbove n) steps) {i : ScopeIndex} (below : i < n) (name : String) :
    firstIn (w.run steps).entries i name = firstIn w.entries i name := by
  induction steps generalizing w with
  | nil => rfl
  | cons s rest ih =>
    obtain ⟨here, above⟩ := above
    rw [run_cons, ih above]
    cases s with
    | declare symbol =>
      have differs : w.path.headD 0 ≠ i := Nat.ne_of_gt (Nat.lt_of_lt_of_le below here)
      rw [step, firstIn_concat, if_neg fun same => differs same.1, Option.or_none]
    | enter | leave | use => rfl

/-- A statement that declares nothing around it leaves the scopes before it as they are. -/
theorem firstIn_run_of_lt {w : Survey} {s : Source.Stmt} (quiet : s.declares = false)
    {i : ScopeIndex} (below : i < w.owners.length) (name : String) :
    firstIn (w.run s.script).entries i name = firstIn w.entries i name := by
  refine firstIn_run_of_declaresAbove (declaresAbove_stmt (Nat.le_refl _) s ?_) below name
  simp [quiet]

end Survey
end MiddleEnd
