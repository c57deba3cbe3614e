import MiddleEnd.Proofs.Renaming.Checked
import MiddleEnd.Proofs.Scoping.Script

/-!
# Declaring under a renaming

The first pass asks of names only whether a scope has them, and of ids nothing at all. So the table
of a renamed program is the renamed table, with scopes and symbols at the same places, and its
reports are the renamed ones.

Results:
1. `Commutes.symbol`, `Commutes.openScope`: the two steps of the pass.
2. `ofProgram_rename`: whole programs.
-/

namespace MiddleEnd

variable (ρ : Renaming)

/-- What was built so far, under a renaming. -/
def Declarations.rename (d : Declarations) : Declarations := ⟨d.table.rename ρ, d.log.rename ρ⟩

/-- A step that does under a renaming what another does without. -/
def Commutes (x x' : Declare α) : Prop :=
  ∀ d, x' (d.rename ρ) = ((x d).1, (x d).2.rename ρ)

variable {ρ}

namespace Commutes

theorem pure (a : α) : Commutes ρ (pure a) (pure a) := fun _ => rfl

theorem bind {x x' : Declare α} {f f' : α → Declare β} (hx : Commutes ρ x x')
    (hf : ∀ a, Commutes ρ (f a) (f' a)) : Commutes ρ (x >>= f) (x' >>= f') := by
  intro d
  show f' (x' (d.rename ρ)).1 (x' (d.rename ρ)).2 = _
  rw [hx d]
  exact hf _ _

theorem openScope (id : NodeId) (kind : ScopeKind) :
    Commutes ρ (Declare.openScope id kind) (Declare.openScope (ρ.node id) kind) := by
  intro d
  simp [Declare.openScope, SymbolTable.addScope, Declarations.rename, SymbolTable.rename,
    Scope.rename]

/-- A name that is new or taken is so under the renaming. -/
theorem symbol (scope : ScopeIndex) (s : Symbol) :
    Commutes ρ (Declare.symbol scope s) (Declare.symbol scope (s.rename ρ)) := by
  intro d
  have name : (s.rename ρ).name = ρ.name s.name := by cases s <;> rfl
  have pos : (s.rename ρ).pos = s.pos.rename ρ := by cases s <;> rfl
  have clash (pos : Pos) : Declare.redeclared (s.rename ρ)
      ⟨.variableAlreadyDeclared (ρ.name s.name), pos.rename ρ⟩ =
        (Declare.redeclared s ⟨.variableAlreadyDeclared s.name, pos⟩).rename ρ := by
    cases s <;> rfl
  have added : ((d.rename ρ).table.addSymbol (s.rename ρ)) =
      ((d.table.addSymbol s).1, (d.table.addSymbol s).2.rename ρ) := by
    simp [SymbolTable.addSymbol, Declarations.rename, SymbolTable.rename]
  simp only [Declare.symbol, added, SymbolTable.scopes_rename]
  cases (d.table.addSymbol s).2.scopes[scope]? with
  | none => rfl
  | some here =>
    simp only [Option.map_some, Scope.declare, name, pos, here.find?_rename]
    cases here.find? s.name with
    | none => simp [Declarations.rename, SymbolTable.rename, SymbolTable.setScope, Scope.rename]
    | some taken =>
      simp [Declarations.rename, Log.rename, Log.push, clash]

theorem varDecl (scope : ScopeIndex) (v : Source.VarDecl) :
    Commutes ρ (Declare.varDecl scope v) (Declare.varDecl scope (v.rename ρ)) :=
  (symbol scope v.symbol).bind fun _ => .pure ()

theorem forInit (scope : ScopeIndex) (init : Option Source.ForInit) :
    Commutes ρ (Declare.forInit scope init)
      (Declare.forInit scope (init.map (Source.ForInit.rename ρ))) := by
  match init with
  | none | some (.expr e) => exact .pure ()
  | some (.decl v) => exact varDecl scope v

mutual

/-- A statement is declared alike under a renaming. -/
theorem stmt {ρ : Renaming} (scope : ScopeIndex) (s : Source.Stmt) :
    Commutes ρ (Declare.stmt scope s) (Declare.stmt scope (s.rename ρ)) := by
  cases s with
  | decl v => exact varDecl scope v
  | expr | empty | brk | cont | ret => exact .pure ()
  | block body id span => exact (openScope id .block).bind fun inner => stmts inner body
  | ite test ifTrue ifFalse span => exact (stmt scope ifTrue).bind fun _ => stmt scope ifFalse
  | whileDo test body span | doWhile body test span => exact stmt scope body
  | forLoop init test step body id span =>
    exact (openScope id .block).bind fun inner => (forInit inner init).bind fun _ => stmt inner body

theorem stmts {ρ : Renaming} (scope : ScopeIndex) (ss : List Source.Stmt) :
    Commutes ρ (Declare.stmts scope ss) (Declare.stmts scope (Source.renameOf ρ ss)) := by
  cases ss with
  | nil => exact .pure ()
  | cons s rest => exact (stmt scope s).bind fun _ => stmts scope rest

end

theorem params (scope : ScopeIndex) (ps : List Source.Param) :
    Commutes ρ (Declare.params scope ps)
      (Declare.params scope (ps.map (Source.Param.rename ρ))) := by
  induction ps with
  | nil => exact .pure []
  | cons p rest ih => exact (symbol scope p.symbol).bind fun id => ih.bind fun ids => .pure _

theorem setParams (fn : Option SymbolId) (ids : List SymbolId) :
    Commutes ρ (Declare.setParams fn ids) (Declare.setParams fn ids) := by
  cases fn with
  | none => exact .pure ()
  | some id =>
    intro d
    have symbols : (d.rename ρ).table.modifyFunction id (fun f => { f with params := ids }) =
        (d.table.modifyFunction id fun f => { f with params := ids }).rename ρ := by
      refine congrArg (SymbolTable.mk · _) ?_
      refine List.ext_getElem? fun i => ?_
      simp only [Declarations.rename, SymbolTable.rename, SymbolTable.modifyFunction,
        List.getElem?_modify, List.getElem?_map]
      cases d.table.symbols[i]? with
      | none => rfl
      | some s =>
        by_cases same : id = i
        · cases s <;> simp [same, Symbol.rename]
        · simp [same]
    simp only [Declare.setParams, symbols]
    rfl

theorem function (scope : ScopeIndex) (f : Source.Function) :
    Commutes ρ (Declare.function scope f) (Declare.function scope (f.rename ρ)) :=
  symbol scope f.symbol

theorem body (f : Source.Function) (fn : Option SymbolId) :
    Commutes ρ (Declare.body f fn) (Declare.body (f.rename ρ) fn) :=
  (openScope f.body.id .function).bind fun scope => (params scope f.params).bind fun ids =>
    (setParams fn ids).bind fun _ => stmts scope f.body.stmts

theorem header (scope : ScopeIndex) (fs : List Source.Function) :
    Commutes ρ (fs.mapM (Declare.function scope))
      ((fs.map (Source.Function.rename ρ)).mapM (Declare.function scope)) := by
  induction fs with
  | nil => exact .pure []
  | cons f rest ih =>
    rw [List.map_cons, List.mapM_cons, List.mapM_cons]
    exact (function scope f).bind fun id => ih.bind fun ids => .pure _

theorem bodies (fs : List Source.Function) (ids : List (Option SymbolId)) :
    Commutes ρ ((fs.zip ids).forM fun (f, fn) => Declare.body f fn)
      (((fs.map (Source.Function.rename ρ)).zip ids).forM fun (f, fn) => Declare.body f fn) := by
  induction fs generalizing ids with
  | nil => exact .pure ()
  | cons f rest ih =>
    cases ids with
    | nil => exact .pure ()
    | cons fn fns => exact (body f fn).bind fun _ => ih fns

theorem program (p : Source.Program) :
    Commutes ρ (Declare.program p) (Declare.program (p.rename ρ)) :=
  (openScope p.id .global).bind fun scope => (header scope p.functions).bind fun ids =>
    bodies p.functions ids

end Commutes

/-- The first pass makes of a renamed program the renamed table and the renamed reports. -/
theorem ofProgram_rename (p : Source.Program) :
    Declarations.ofProgram (p.rename ρ) = (Declarations.ofProgram p).rename ρ :=
  congrArg Prod.snd (Commutes.program p {})

end MiddleEnd
