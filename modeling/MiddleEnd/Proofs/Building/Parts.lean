import MiddleEnd.Source.Tree
import Mathlib.Data.List.Infix

/-!
# Parts in building order

`made` lists what a builder makes for a tree, in the order in which it makes it: what the parts of
the tree are made of, from left to right, and the tree itself behind them. So an initializer is
listed before its declaration, an assigned value before the name it goes to, the body of a `do`
before its test, the clauses of a `for` before its body, and parameters before the body of their
function. Everything that stands somewhere is listed, also names, parameters and bodies.

Results:
1. `Part.infix_of_mem_made`: whatever is listed, all that was made for it is listed with it, in one
   stretch.
-/

namespace MiddleEnd.Source

/-- What a builder makes. A declaration is a `varDecl` in lists, whether it is a statement or starts
a `for`. -/
inductive Part
  | ref (ref : Ref)
  | expr (expr : Expr)
  | varDecl (decl : VarDecl)
  | stmt (stmt : Stmt)
  | param (param : Param)
  | body (body : Body)
  | function (fn : Function)
  | program (program : Program)

/-- Where a part stands. -/
def Part.span : Part → Span
  | .ref r => r.span
  | .expr e => e.span
  | .varDecl d => d.span
  | .stmt s => s.span
  | .param q => q.span
  | .body b => b.span
  | .function f => f.span
  | .program p => p.span

/-- The number of the place where a part stands. -/
def Part.offset (x : Part) : Nat := x.span.start.offset

/-- The id of a part that owns a scope. -/
def Part.id? : Part → Option NodeId
  | .stmt (.block _ id _) | .stmt (.forLoop _ _ _ _ id _) => some id
  | .body b => some b.id
  | .program p => some p.id
  | _ => none

/-! ## Lists -/

/-- What is made for an expression. -/
def Expr.made (e : Expr) : List Part :=
  (match e with
    | .const .. => []
    | .var r _ => [.ref r]
    | .unary _ operand _ => operand.made
    | .binary _ left right _ => left.made ++ right.made
    | .assign target value _ => value.made ++ [.ref target]
    | .cond test ifTrue ifFalse _ => test.made ++ ifTrue.made ++ ifFalse.made) ++ [.expr e]

/-- What is made for an expression that may be absent. -/
def optionMade : Option Expr → List Part
  | none => []
  | some e => e.made

/-- What is made for a declaration. -/
def VarDecl.made (d : VarDecl) : List Part := optionMade d.init ++ [.varDecl d]

/-- What is made for the first clause of a `for`. -/
def ForInit.made : Option ForInit → List Part
  | none => []
  | some (.decl d) => d.made
  | some (.expr e) => e.made

mutual

/-- What is made for a statement. -/
def Stmt.made (s : Stmt) : List Part :=
  match s with
  | .decl d => d.made
  | .expr e _ | .ret e _ => e.made ++ [.stmt s]
  | .empty _ | .brk _ | .cont _ => [.stmt s]
  | .block body _ _ => madeOf body ++ [.stmt s]
  | .ite test ifTrue ifFalse _ => test.made ++ ifTrue.made ++ ifFalse.made ++ [.stmt s]
  | .whileDo test body _ => test.made ++ body.made ++ [.stmt s]
  | .doWhile body test _ => body.made ++ test.made ++ [.stmt s]
  | .forLoop init test step body _ _ =>
    ForInit.made init ++ optionMade test ++ optionMade step ++ body.made ++ [.stmt s]

/-- What is made for statements. -/
def madeOf : List Stmt → List Part
  | [] => []
  | s :: rest => s.made ++ madeOf rest

end

/-- What is made for the body of a function. -/
def Body.made (body : Body) : List Part := madeOf body.stmts ++ [.body body]

/-- What is made for a function. -/
def Function.made (f : Function) : List Part :=
  f.params.map .param ++ f.body.made ++ [.function f]

/-- What is made for a program. -/
def Program.made (p : Program) : List Part := p.functions.flatMap Function.made ++ [.program p]

/-- What is made for a part. -/
def Part.made : Part → List Part
  | .ref r => [.ref r]
  | .expr e => e.made
  | .varDecl d => d.made
  | .stmt s => s.made
  | .param q => [.param q]
  | .body b => b.made
  | .function f => f.made
  | .program p => p.made

/-! ## Stretches -/

/-- With each part the list has all that was made for it, in one stretch. -/
def Whole (xs : List Part) : Prop := ∀ x ∈ xs, x.made <:+: xs

namespace Whole

variable {xs ys : List Part} {x : Part}

theorem nil : Whole [] := nofun

theorem append (h₁ : Whole xs) (h₂ : Whole ys) : Whole (xs ++ ys) := by
  intro x mem
  rcases List.mem_append.1 mem with mem | mem
  · exact (h₁ x mem).trans (List.prefix_append xs ys).isInfix
  · exact (h₂ x mem).trans (List.suffix_append xs ys).isInfix

/-- A part behind what it is made of. -/
theorem close (h : Whole xs) (own : x.made = xs ++ [x]) : Whole (xs ++ [x]) := by
  intro y mem
  rcases List.mem_append.1 mem with mem | mem
  · exact (h y mem).trans (List.prefix_append xs [x]).isInfix
  · rw [List.mem_singleton.1 mem, own]

end Whole

theorem Expr.made_whole (e : Expr) : Whole e.made := by
  induction e with
  | const => exact Whole.nil.close rfl
  | var r => exact (Whole.nil.close (x := .ref r) rfl).close rfl
  | unary op operand span ih => exact ih.close rfl
  | binary op left right span ihl ihr => exact (ihl.append ihr).close rfl
  | assign target value span ih =>
    exact (ih.append (Whole.nil.close (x := .ref target) rfl)).close rfl
  | cond test ifTrue ifFalse span iht iha ihb => exact ((iht.append iha).append ihb).close rfl

theorem optionMade_whole (e : Option Expr) : Whole (optionMade e) := by
  cases e with
  | none => exact Whole.nil
  | some e => exact e.made_whole

theorem VarDecl.made_whole (d : VarDecl) : Whole d.made := (optionMade_whole d.init).close rfl

theorem ForInit.made_whole (init : Option ForInit) : Whole (ForInit.made init) := by
  match init with
  | none => exact Whole.nil
  | some (.decl d) => exact d.made_whole
  | some (.expr e) => exact e.made_whole

mutual

theorem Stmt.made_whole (s : Stmt) : Whole s.made := by
  cases s with
  | decl d => exact d.made_whole
  | expr e span | ret e span => exact e.made_whole.close rfl
  | empty | brk | cont => exact Whole.nil.close rfl
  | block body id span => exact (madeOf_whole body).close rfl
  | ite test ifTrue ifFalse span =>
    exact ((test.made_whole.append ifTrue.made_whole).append ifFalse.made_whole).close rfl
  | whileDo test body span => exact (test.made_whole.append body.made_whole).close rfl
  | doWhile body test span => exact (body.made_whole.append test.made_whole).close rfl
  | forLoop init test step body id span =>
    have clauses := ((ForInit.made_whole init).append (optionMade_whole test)).append
      (optionMade_whole step)
    exact (clauses.append body.made_whole).close rfl

theorem madeOf_whole (ss : List Stmt) : Whole (madeOf ss) := by
  cases ss with
  | nil => exact Whole.nil
  | cons s rest => exact s.made_whole.append (madeOf_whole rest)

end

theorem Body.made_whole (body : Body) : Whole body.made := (madeOf_whole body.stmts).close rfl

theorem params_whole (qs : List Param) : Whole (qs.map .param) := by
  induction qs with
  | nil => exact Whole.nil
  | cons q rest ih => exact (Whole.nil.close (x := .param q) rfl).append ih

theorem Function.made_whole (f : Function) : Whole f.made :=
  ((params_whole f.params).append f.body.made_whole).close rfl

theorem functions_whole (fs : List Function) : Whole (fs.flatMap Function.made) := by
  induction fs with
  | nil => exact Whole.nil
  | cons f rest ih => exact f.made_whole.append ih

theorem Part.made_whole (x : Part) : Whole x.made := by
  cases x with
  | ref | param => exact Whole.nil.close rfl
  | expr e => exact e.made_whole
  | varDecl d => exact d.made_whole
  | stmt s => exact s.made_whole
  | body b => exact b.made_whole
  | function f => exact f.made_whole
  | program p => exact (functions_whole p.functions).close rfl

/-- Whatever a part is made of, all that was made for it stands in one stretch. -/
theorem Part.infix_of_mem_made {x y : Part} (mem : y ∈ x.made) : y.made <:+: x.made :=
  x.made_whole y mem

end MiddleEnd.Source
