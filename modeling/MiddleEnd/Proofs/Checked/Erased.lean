import MiddleEnd.Proofs.Checked.WellTyped

/-!
# What checking keeps of a program

Checking decorates a tree and reports what it finds, but it never rewrites: without its types and
symbols a typed tree is the tree that was checked. What the typed tree does not carry is lost, which
is the ids of the nodes that own a scope, the types of parameters, and the spans of most statements.
`erase` drops the decoration, `forget` drops what is lost.

Results:
1. `StmtCheck.erase_eq`, `FunctionCheck.erase_eq`: statements and functions, whatever is reported.
2. `erase_checkProgram`: programs.
-/

namespace MiddleEnd

/-! ## Typed trees without their decoration -/

namespace Typed

/-- A declaration without its symbol and its types. -/
def VarDecl.erase (d : VarDecl) : Source.VarDecl := ⟨d.name, d.ty, d.init.map Expr.erase, d.span⟩

/-- The first clause of a `for` without its decoration. -/
def ForInit.erase : ForInit → Source.ForInit
  | .decl d => .decl d.erase
  | .expr e => .expr e.erase

mutual

/-- A statement without its decoration. It stands nowhere, except where the typed tree knows. -/
def Stmt.erase : Stmt → Source.Stmt
  | .decl d => .decl d.erase
  | .expr e => .expr e.erase .null
  | .empty => .empty .null
  | .block body => .block (eraseOf body) 0 .null
  | .ite test ifTrue ifFalse => .ite test.erase ifTrue.erase ifFalse.erase .null
  | .whileDo test body => .whileDo test.erase body.erase .null
  | .doWhile body test => .doWhile body.erase test.erase .null
  | .forLoop init test step body =>
    .forLoop (init.map ForInit.erase) (test.map Expr.erase) (step.map Expr.erase) body.erase 0 .null
  | .brk span => .brk span
  | .cont span => .cont span
  | .ret value => .ret value.erase .null

/-- Statements without their decoration. -/
def eraseOf : List Stmt → List Source.Stmt
  | [] => []
  | s :: rest => s.erase :: eraseOf rest

end

/-- A parameter without its symbol. Its declared type is only known to the table. -/
def Param.erase (q : Param) : Source.Param := ⟨q.name, .int, q.span⟩

/-- A function without its decoration. -/
def Function.erase (f : Function) : Source.Function :=
  ⟨f.name, f.params.map Param.erase, f.returnTy, ⟨eraseOf f.body, 0, .null⟩, f.span⟩

/-- A program without its decoration. -/
def Program.erase (p : Program) : Source.Program := ⟨p.functions.map Function.erase, 0, .null⟩

end Typed

/-! ## Source trees without what is lost -/

namespace Source

mutual

/-- A statement without the ids and the spans that its typed tree does not carry. -/
def Stmt.forget : Stmt → Stmt
  | .decl d => .decl d
  | .expr e _ => .expr e .null
  | .empty _ => .empty .null
  | .block body _ _ => .block (forgetOf body) 0 .null
  | .ite test ifTrue ifFalse _ => .ite test ifTrue.forget ifFalse.forget .null
  | .whileDo test body _ => .whileDo test body.forget .null
  | .doWhile body test _ => .doWhile body.forget test .null
  | .forLoop init test step body _ _ => .forLoop init test step body.forget 0 .null
  | .brk span => .brk span
  | .cont span => .cont span
  | .ret value _ => .ret value .null

/-- Statements without the ids and the spans that their typed trees do not carry. -/
def forgetOf : List Stmt → List Stmt
  | [] => []
  | s :: rest => s.forget :: forgetOf rest

end

/-- A parameter without its declared type. -/
def Param.forget (q : Param) : Param := { q with ty := .int }

/-- A function without what its typed tree does not carry. -/
def Function.forget (f : Function) : Function :=
  { f with params := f.params.map Param.forget, body := ⟨forgetOf f.body.stmts, 0, .null⟩ }

/-- A program without what its typed tree does not carry. -/
def Program.forget (p : Program) : Program := ⟨p.functions.map Function.forget, 0, .null⟩

end Source

/-! ## Checked trees -/

variable {Γ : CheckContext} {path : ScopePath} {log : Log}

theorem OptionCheck.erase_eq {e : Option Source.Expr} {e' : Option Typed.Expr}
    (h : OptionCheck Γ path e e' log) : e'.map Typed.Expr.erase = e := by
  cases h with
  | none => rfl
  | some h => rw [Option.map_some, h.erase_eq]

theorem TestCheck.erase_eq {test : Source.Expr} {t : Typed.Expr}
    (h : TestCheck Γ path test t log) : t.erase = test := by
  cases h with
  | mk h => exact h.erase_eq

theorem FitsCheck.erase_eq {ty : Ty} {e : Source.Expr} {e' : Typed.Expr}
    (h : FitsCheck Γ path ty e e' log) : e'.erase = e := by
  cases h with
  | mk h => exact h.erase_eq

/-- The declared type is the one of the source, also where the initializer does not fit it. -/
theorem VarDeclCheck.erase_eq {d : Source.VarDecl} {d' : Typed.VarDecl}
    (h : VarDeclCheck Γ path d d' log) : d'.erase = d := by
  obtain ⟨name, ty, init, span⟩ := d
  cases h with
  | plain _ absent =>
    obtain rfl : init = none := absent
    rfl
  | init _ present h =>
    obtain rfl : init = some _ := present
    rw [Typed.VarDecl.erase, Option.map_some, h.erase_eq]

theorem ForInitCheck.erase_eq {init : Option Source.ForInit} {init' : Option Typed.ForInit}
    (h : ForInitCheck Γ path init init' log) : init'.map Typed.ForInit.erase = init := by
  cases h with
  | none => rfl
  | decl h => rw [Option.map_some, Typed.ForInit.erase, h.erase_eq]
  | expr h => rw [Option.map_some, Typed.ForInit.erase, h.erase_eq]

mutual

/-- Checking keeps a statement, whatever it reports. -/
theorem StmtCheck.erase_eq {Γ : CheckContext} {returnTy : Ty} {path : ScopePath} {s : Source.Stmt}
    {s' : Typed.Stmt} {log : Log} (h : StmtCheck Γ returnTy path s s' log) :
    s'.erase = s.forget := by
  cases h with
  | decl h => rw [Typed.Stmt.erase, h.erase_eq, Source.Stmt.forget]
  | expr h | ret h => rw [Typed.Stmt.erase, h.erase_eq, Source.Stmt.forget]
  | empty | brk | cont => rfl
  | block _ h => rw [Typed.Stmt.erase, h.erase_eq, Source.Stmt.forget]
  | ite h₁ h₂ h₃ =>
    rw [Typed.Stmt.erase, h₁.erase_eq, h₂.erase_eq, h₃.erase_eq, Source.Stmt.forget]
  | whileDo h₁ h₂ | doWhile h₁ h₂ =>
    rw [Typed.Stmt.erase, h₁.erase_eq, h₂.erase_eq, Source.Stmt.forget]
  | forLoop _ h₁ h₂ h₃ h₄ =>
    rw [Typed.Stmt.erase, h₁.erase_eq, h₂.erase_eq, h₃.erase_eq, h₄.erase_eq, Source.Stmt.forget]

theorem StmtsCheck.erase_eq {Γ : CheckContext} {returnTy : Ty} {path : ScopePath}
    {ss : List Source.Stmt} {ss' : List Typed.Stmt} {log : Log}
    (h : StmtsCheck Γ returnTy path ss ss' log) : Typed.eraseOf ss' = Source.forgetOf ss := by
  cases h with
  | nil => rfl
  | cons h₁ h₂ => rw [Typed.eraseOf, h₁.erase_eq, h₂.erase_eq, Source.forgetOf]

end

theorem ParamsCheck.erase_eq {ps : List Source.Param} {ps' : List Typed.Param}
    (h : ParamsCheck Γ path ps ps') : ps'.map Typed.Param.erase = ps.map Source.Param.forget := by
  induction h with
  | nil => rfl
  | cons _ _ ih =>
    rw [List.map_cons, List.map_cons, ih]
    rfl

/-- Checking keeps a function. -/
theorem FunctionCheck.erase_eq {f : Source.Function} {f' : Typed.Function}
    (h : FunctionCheck Γ path f f' log) : f'.erase = f.forget := by
  cases h with
  | mk _ _ _ params body =>
    rw [Typed.Function.erase, params.erase_eq, body.erase_eq, Source.Function.forget]

theorem FunctionsCheck.erase_eq {fs : List Source.Function} {fs' : List Typed.Function}
    (h : FunctionsCheck Γ path fs fs' log) :
    fs'.map Typed.Function.erase = fs.map Source.Function.forget := by
  induction h with
  | nil => rfl
  | cons h _ ih => rw [List.map_cons, List.map_cons, h.erase_eq, ih]

/-- Checking keeps the program, against any table and whatever is reported: what it makes is,
without types, symbols and storage, the program without the ids of its scopes, the types of its
parameters and the spans of the statements that are never reported on. -/
theorem erase_checkProgram {p : Source.Program} {typed : Typed.Program} {issued : Log}
    (checked : checkProgram Γ p = .ok (typed, issued)) : typed.erase = p.forget := by
  cases checkProgram_shape checked with
  | mk _ functions => rw [Typed.Program.erase, functions.erase_eq, Source.Program.forget]

/-- `int main(void a) { for (int i = y; a; i = main) if (a) break; else { continue; }
do int x = a; while (x); return a ? 1 : -z; }` -/
def misused : Draft.Program :=
  ⟨[⟨"main", [⟨"a", .void⟩], .int,
      [.forLoop (some (.decl ⟨"i", .int, some (.var "y")⟩)) (some (.var "a"))
          (some (.assign "i" (.var "main")))
          (.ite (.var "a") .brk (.block [.cont])),
        .doWhile (.decl ⟨"x", .int, some (.var "a")⟩) (.var "x"),
        .ret (.cond (.var "a") (.const 1) (.unary .negate (.var "z")))]⟩]⟩

theorem erase_checkProgram_of_misused :
    let p := (misused.place ⟨"t", 0, 0⟩).1
    ∃ typed issued, checkProgram ⟨(Declarations.ofProgram p).table, {}⟩ p = .ok (typed, issued) ∧
      issued.length = 6 ∧ typed.erase = p.forget := by
  intro p
  have reports : (checkProgram ⟨(Declarations.ofProgram p).table, {}⟩ p).toOption.map
      (fun result => result.2.length) = some 6 := by decide +kernel
  match checked : checkProgram ⟨(Declarations.ofProgram p).table, {}⟩ p with
  | .error abort => simp [checked, Except.toOption] at reports
  | .ok (typed, issued) =>
    have reports : issued.length = 6 := by simpa [checked, Except.toOption] using reports
    exact ⟨typed, issued, rfl, reports, erase_checkProgram checked⟩

end MiddleEnd
