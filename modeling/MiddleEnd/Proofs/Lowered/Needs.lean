import MiddleEnd.Proofs.Lowered.Bindings

/-!
# What lowering needs

Lowering can only fail at a few places: a reference must be bound, a declaration must be one of a
variable, a function one of a function, and a `break` or `continue` must stand in a loop. These
needs, in the order in which lowering meets them, tell how it ends: it succeeds if all are met, and
otherwise fails with the error of the first one that is not.

Results:
1. `lowerExpr_needs`, `lowerStmt_needs`: expressions and statements.
2. `lowerProgram_needs`: whole programs.
-/

namespace MiddleEnd

/-- What a step of lowering needs. -/
inductive Need
  /-- The symbol is a function. -/
  | function (id : SymbolId) (name : String) (span : Span)
  /-- The symbol is a variable. It is bound from then on. -/
  | bind (id : SymbolId) (name : String) (span : Span)
  /-- The reference is one to a bound variable. -/
  | ref (r : Typed.Ref)
  /-- A need that nothing meets. -/
  | never (e : Error)

namespace Need

/-- Meets a need with the variables that are bound, or fails with its error. -/
def meet (t : SymbolTable) (bound : List SymbolId) : Need → Except Error (List SymbolId)
  | function id name span =>
    if (t.functionAt id).isSome then .ok bound
    else .error ⟨.unresolvedSymbol name, span.start⟩
  | bind id name span =>
    if (t.variableAt id).isSome then .ok (id :: bound)
    else .error ⟨.unresolvedSymbol name, span.start⟩
  | ref r =>
    match r.symbol, r.storage with
    | some id, some .frame =>
      if id ∈ bound then .ok bound else .error ⟨.unresolvedSymbol r.name, r.span.start⟩
    | some _, none => .error ⟨.unsupportedLvalue r.name, r.span.start⟩
    | none, _ => .error ⟨.unresolvedSymbol r.name, r.span.start⟩
  | never e => .error e

/-- Meets needs one after the other, up to the first that fails. -/
def meetAll (t : SymbolTable) (bound : List SymbolId) (needs : List Need) :
    Except Error (List SymbolId) :=
  needs.foldlM (meet t) bound

theorem meetAll_singleton (t : SymbolTable) (bound : List SymbolId) (need : Need) :
    meetAll t bound [need] = need.meet t bound := bind_pure _

theorem meetAll_append (t : SymbolTable) (bound : List SymbolId) (needs needs' : List Need) :
    meetAll t bound (needs ++ needs') =
      (meetAll t bound needs).bind fun bound' => meetAll t bound' needs' :=
  List.foldlM_append

/-- A need that is met forgets no variable, and a reference is one to a bound variable. -/
theorem of_meet {t : SymbolTable} {bound bound' : List SymbolId} {need : Need}
    (met : need.meet t bound = .ok bound') :
    bound ⊆ bound' ∧ ∀ r, need = .ref r → ∃ x, r.symbol = some x ∧ x ∈ bound := by
  cases need with
  | function id name span =>
    rw [meet] at met
    split at met <;> cases met
    exact ⟨List.Subset.refl _, nofun⟩
  | bind id name span =>
    rw [meet] at met
    split at met <;> cases met
    exact ⟨List.subset_cons_self _ _, nofun⟩
  | ref r =>
    rw [meet] at met
    split at met
    · next id symbol storage =>
      split at met
      · next isBound =>
        cases met
        refine ⟨List.Subset.refl _, ?_⟩
        rintro _ ⟨⟩
        exact ⟨id, symbol, isBound⟩
      · cases met
    · cases met
    · cases met
  | never e => cases met

/-- The same for needs that are met one after the other. -/
theorem of_meetAll {t : SymbolTable} {needs : List Need} {bound bound' : List SymbolId}
    (met : meetAll t bound needs = .ok bound') :
    bound ⊆ bound' ∧ ∀ r, .ref r ∈ needs → ∃ x, r.symbol = some x ∧ x ∈ bound' := by
  induction needs generalizing bound with
  | nil =>
    cases met
    exact ⟨List.Subset.refl _, nofun⟩
  | cons need rest ih =>
    rw [← List.singleton_append, meetAll_append, meetAll_singleton] at met
    cases first : need.meet t bound with
    | error e =>
      rw [first] at met
      cases met
    | ok bound₁ =>
      rw [first] at met
      obtain ⟨kept, here⟩ := of_meet first
      obtain ⟨kept', there⟩ := ih met
      refine ⟨fun x mem => kept' (kept mem), ?_⟩
      intro r mem
      rcases List.mem_cons.1 mem with same | mem
      · obtain ⟨x, symbol, isBound⟩ := here r same.symm
        exact ⟨x, symbol, kept' (kept isBound)⟩
      · exact there r mem

end Need

namespace Typed

/-- The needs of an expression. An assigned variable comes before the value. -/
def Expr.needs : Expr → List Need
  | .const .. => []
  | .var r .. => [.ref r]
  | .unary _ operand .. => operand.needs
  | .binary _ left right .. => left.needs ++ right.needs
  | .assign target value .. => .ref target :: value.needs
  | .cond test ifTrue ifFalse .. => test.needs ++ ifTrue.needs ++ ifFalse.needs

/-- The needs of an expression that may be absent. -/
def optionNeeds : Option Expr → List Need
  | none => []
  | some e => e.needs

/-- The needs of a declaration. The variable is bound before its initializer is lowered. -/
def VarDecl.needs (d : VarDecl) : List Need := .bind d.symbol d.name d.span :: optionNeeds d.init

/-- The needs of the first clause of a `for`. -/
def ForInit.needs : Option ForInit → List Need
  | none => []
  | some (.decl d) => d.needs
  | some (.expr e) => e.needs

mutual

/-- The needs of a statement, inside a loop or not. The test of a `do` comes before its body, the
last clause of a `for` behind it. -/
def Stmt.needs (inLoop : Bool) : Stmt → List Need
  | .decl d => d.needs
  | .expr e | .ret e => e.needs
  | .empty => []
  | .block body => needsOf inLoop body
  | .ite test ifTrue ifFalse => test.needs ++ ifTrue.needs inLoop ++ ifFalse.needs inLoop
  | .whileDo test body | .doWhile body test => test.needs ++ body.needs true
  | .forLoop init test step body =>
    ForInit.needs init ++ optionNeeds test ++ body.needs true ++ optionNeeds step
  | .brk span => if inLoop then [] else [.never ⟨.breakOutsideLoop, span.start⟩]
  | .cont span => if inLoop then [] else [.never ⟨.continueOutsideLoop, span.start⟩]

/-- The needs of statements. -/
def needsOf (inLoop : Bool) : List Stmt → List Need
  | [] => []
  | s :: rest => s.needs inLoop ++ needsOf inLoop rest

end

/-- The needs of a function. It is looked up again when it is entered. -/
def Function.needs (f : Function) : List Need :=
  .function f.symbol f.name f.span :: (f.params.map fun p => .bind p.symbol p.name p.span) ++
    .function f.symbol f.name f.span :: needsOf false f.body

/-- The needs of a program. -/
def Program.needs (p : Program) : List Need := p.functions.flatMap Function.needs

end Typed

/-! ## Steps of lowering -/

/-- A lowering with the symbols of `t`, of which `bound` are bound. -/
structure Lowering.Knows (s : Lowering) (t : SymbolTable) (bound : List SymbolId) : Prop where
  isVar : ∀ id, (s.symbols.variableAt id).isSome = (t.variableAt id).isSome
  isFn : ∀ id, (s.symbols.functionAt id).isSome = (t.functionAt id).isSome
  isBound : ∀ id, (s.symbols.tempOf id).isSome ↔ id ∈ bound

theorem Lowering.Knows.of_symbols {s s' : Lowering} {t : SymbolTable} {bound : List SymbolId}
    (h : s.Knows t bound) (same : s'.symbols = s.symbols) : s'.Knows t bound := by
  obtain ⟨isVar, isFn, isBound⟩ := h
  rw [← same] at isVar isFn isBound
  exact ⟨isVar, isFn, isBound⟩

/-- A step of lowering that has these needs and no others. It starts with a function open or not,
as `pre` says, and ends so as `post` says. -/
def Needs (t : SymbolTable) (pre post : Bool) (x : Lower α) (needs : List Need) : Prop :=
  ∀ s bound, s.Knows t bound → s.emitter.current.isSome = pre →
    match Need.meetAll t bound needs with
    | .ok bound' => ∃ a s', x s = .ok a s' ∧ s'.Knows t bound' ∧ s'.emitter.current.isSome = post
    | .error e => ∃ s', x s = .error e s'

namespace Needs

variable {t : SymbolTable} {pre mid post : Bool} {needs₁ needs₂ : List Need}

/-- A step that always succeeds and binds nothing. -/
theorem free {x : Lower α}
    (h : ∀ s, s.emitter.current.isSome = pre → ∃ a s', x s = .ok a s' ∧
      (∀ bound, s.Knows t bound → s'.Knows t bound) ∧ s'.emitter.current.isSome = post) :
    Needs t pre post x [] := by
  intro s bound knows opened
  obtain ⟨a, s', ran, keeps, opened'⟩ := h s opened
  exact ⟨a, s', ran, keeps bound knows, opened'⟩

/-- One step after the other. -/
theorem bind {x : Lower α} {f : α → Lower β} (hx : Needs t pre mid x needs₁)
    (hf : ∀ a, Needs t mid post (f a) needs₂) : Needs t pre post (x >>= f) (needs₁ ++ needs₂) := by
  intro s bound knows opened
  have first := hx s bound knows opened
  rw [Need.meetAll_append]
  cases met : Need.meetAll t bound needs₁ with
  | error e =>
    rw [met] at first
    obtain ⟨s', failed⟩ := first
    exact ⟨s', bind_of_error failed⟩
  | ok bound' =>
    rw [met] at first
    obtain ⟨a, s₁, ran, knows₁, opened₁⟩ := first
    have second := hf a s₁ bound' knows₁ opened₁
    rw [bind_of_ok ran]
    exact second

/-- The last step has no needs. -/
theorem bind_free {x : Lower α} {f : α → Lower β} (hx : Needs t pre mid x needs₁)
    (hf : ∀ a, Needs t mid post (f a) []) : Needs t pre post (x >>= f) needs₁ := by
  have whole := hx.bind hf
  rwa [List.append_nil] at whole

/-- The first step has no needs. -/
theorem free_bind {x : Lower α} {f : α → Lower β} (hx : Needs t pre mid x [])
    (hf : ∀ a, Needs t mid post (f a) needs₂) : Needs t pre post (x >>= f) needs₂ :=
  hx.bind hf

theorem pure (a : α) : Needs t pre pre (pure a : Lower α) [] :=
  free fun s opened => ⟨a, s, rfl, fun _ knows => knows, opened⟩

theorem fail (cause : Cause) (pos : Pos) :
    Needs t pre post (Lower.fail cause pos : Lower α) [.never ⟨cause, pos⟩] :=
  fun s _ _ _ => ⟨s, rfl⟩

theorem emit (i : Instr) : Needs t true true (Lower.emit (.emit i)) [] := by
  refine free ?_
  intro s opened
  refine ⟨(), _, Lower.emit_eq_ok.2 ⟨opened, rfl⟩, ?_, ?_⟩
  · intro bound knows
    exact knows.of_symbols rfl
  · rw [Lowering.current_after_isSome, opened]

theorem emitFresh (write : Temp → Instr) :
    Needs t true true (Lower.emit (.emitFresh write)) [] := by
  refine free ?_
  intro s opened
  refine ⟨_, _, Lower.emitFresh_eq_ok.2 ⟨opened, rfl, rfl⟩, ?_, ?_⟩
  · intro bound knows
    exact knows.of_symbols rfl
  · rw [Lowering.current_after_isSome, opened]

theorem freshTemp : Needs t pre pre (Lower.emit .freshTemp) [] := by
  refine free ?_
  intro s opened
  refine ⟨_, _, Lower.freshTemp_eq s, ?_, ?_⟩
  · intro bound knows
    exact knows.of_symbols rfl
  · rw [Lowering.current_after_isSome, opened]

theorem freshLabel : Needs t pre pre (Lower.emit .freshLabel) [] := by
  refine free ?_
  intro s opened
  refine ⟨_, _, Lower.freshLabel_eq s, ?_, ?_⟩
  · intro bound knows
    exact knows.of_symbols rfl
  · rw [Lowering.current_after_isSome, opened]

/-- What is recorded beside the temporary binds nothing. -/
theorem record (id : SymbolId) {f : VariableInfo → VariableInfo}
    (same : ∀ v, (f v).temp = v.temp) : Needs t pre pre (Lower.record id f) [] := by
  refine free ?_
  intro s opened
  refine ⟨(), _, rfl, ?_, opened⟩
  intro bound knows
  refine ⟨?_, ?_, ?_⟩
  · intro other
    rw [← knows.isVar other]
    show ((s.symbols.modifyVariable id f).variableAt other).isSome = _
    rw [SymbolTable.variableAt_modifyVariable]
    split <;> simp
  · intro other
    rw [← knows.isFn other]
    show ((s.symbols.modifyVariable id f).functionAt other).isSome = _
    rw [SymbolTable.functionAt_modifyVariable]
  · intro other
    rw [← knows.isBound other]
    show ((s.symbols.modifyVariable id f).tempOf other).isSome ↔ _
    rw [SymbolTable.tempOf_modifyVariable_of_temp same]

theorem recordFunction (id : SymbolId) (f : FunctionInfo → FunctionInfo) :
    Needs t pre pre (Lower.recordFunction id f) [] := by
  refine free ?_
  intro s opened
  refine ⟨(), _, rfl, ?_, opened⟩
  intro bound knows
  refine ⟨?_, ?_, ?_⟩
  · intro other
    rw [← knows.isVar other]
    show ((s.symbols.modifyFunction id f).variableAt other).isSome = _
    rw [SymbolTable.variableAt_modifyFunction]
  · intro other
    rw [← knows.isFn other]
    show ((s.symbols.modifyFunction id f).functionAt other).isSome = _
    rw [SymbolTable.functionAt_modifyFunction]
    split <;> simp
  · intro other
    rw [← knows.isBound other]
    show ((s.symbols.modifyFunction id f).tempOf other).isSome ↔ _
    rw [SymbolTable.tempOf_modifyFunction]

theorem function (id : SymbolId) (name : String) (span : Span) :
    Needs t pre pre (Lower.function id name span) [.function id name span] := by
  intro s bound knows opened
  rw [Need.meetAll_singleton, Need.meet, ← knows.isFn id]
  cases found : s.symbols.functionAt id with
  | none =>
    refine ⟨s, ?_⟩
    unfold Lower.function
    rw [get_bind, found]
    rfl
  | some info => exact ⟨info, s, Lower.function_eq_ok.2 ⟨found, rfl⟩, knows, opened⟩

theorem bindTemp (id : SymbolId) (name : String) (span : Span) :
    Needs t pre pre (Lower.bindTemp id name span) [.bind id name span] := by
  intro s bound knows opened
  rw [Need.meetAll_singleton, Need.meet, ← knows.isVar id]
  cases found : s.symbols.variableAt id with
  | none =>
    refine ⟨s, ?_⟩
    unfold Lower.bindTemp
    rw [get_bind, found]
    rfl
  | some v =>
    have isVar : (s.symbols.variableAt id).isSome := by rw [found]; rfl
    refine ⟨_, _, Lower.bindTemp_eq_ok.2 ⟨isVar, rfl, rfl⟩, ?_, ?_⟩
    · refine ⟨?_, ?_, ?_⟩
      · intro other
        rw [← knows.isVar other]
        show ((s.symbols.modifyVariable id _).variableAt other).isSome = _
        rw [SymbolTable.variableAt_modifyVariable]
        split <;> simp
      · intro other
        rw [← knows.isFn other]
        show ((s.symbols.modifyVariable id _).functionAt other).isSome = _
        rw [SymbolTable.functionAt_modifyVariable]
      · intro other
        rw [List.mem_cons, ← knows.isBound other]
        show ((s.cursor.bind id).tempOf other).isSome ↔ _
        rw [Cursor.tempOf_bind isVar]
        by_cases same : id = other
        · simp [same]
        · simp [same, Ne.symm same, Cursor.tempOf, Lowering.cursor]
    · rw [Lowering.current_after_isSome, opened]

/-- A reference is lowered if it is bound. -/
theorem ref (r : Typed.Ref) : Needs t pre pre (lowerRef r) [.ref r] := by
  intro s bound knows opened
  rw [Need.meetAll_singleton, Need.meet, lowerRef]
  cases r.symbol with
  | none => exact ⟨s, rfl⟩
  | some id =>
    cases r.storage with
    | none => exact ⟨s, rfl⟩
    | some place =>
      cases place
      by_cases isBound : id ∈ bound
      · obtain ⟨u, found⟩ := Option.isSome_iff_exists.1 ((knows.isBound id).2 isBound)
        simp only [if_pos isBound]
        exact ⟨u, s, Lower.boundTemp_eq_ok.2 ⟨found, rfl⟩, knows, opened⟩
      · have missing : s.symbols.tempOf id = none := by
          rw [← Option.not_isSome_iff_eq_none, knows.isBound id]
          exact isBound
        simp only [if_neg isBound]
        refine ⟨s, ?_⟩
        unfold Lower.boundTemp
        rw [SymbolTable.tempOf] at missing
        rw [get_bind, missing]
        rfl

end Needs

open Needs

/-! ## The walk -/

variable {t : SymbolTable}

/-- An expression is lowered if its needs are met. -/
theorem lowerExpr_needs (e : Typed.Expr) : Needs t true true (lowerExpr e) e.needs := by
  induction e with
  | const value ty span => exact emitFresh _
  | var r ty span => exact ref r
  | unary op operand ty span ih => exact ih.bind_free fun src => emitFresh _
  | binary op left right ty span ihl ihr =>
    exact ihl.bind fun l => ihr.bind_free fun r => emitFresh _
  | assign target value ty span ih =>
    exact (ref target).bind fun dst => ih.bind_free fun src => (emit _).free_bind fun _ => .pure dst
  | cond test ifTrue ifFalse ty span iht iha ihb =>
    refine freshTemp.free_bind fun result => freshLabel.free_bind fun otherwise =>
      freshLabel.free_bind fun done => ?_
    rw [Typed.Expr.needs, List.append_assoc]
    refine iht.bind fun test => (emit _).free_bind fun _ => ?_
    refine iha.bind fun src => (emit _).free_bind fun _ => (emit _).free_bind fun _ =>
      (emit _).free_bind fun _ => ?_
    exact ihb.bind_free fun src => (emit _).free_bind fun _ => (emit _).free_bind fun _ => .pure _

theorem lowerEffect_needs (e : Typed.Expr) : Needs t true true (lowerEffect e) e.needs :=
  (lowerExpr_needs e).bind_free fun _ => .pure ()

theorem lowerOption_needs (e : Option Typed.Expr) :
    Needs t true true (lowerOption e) (Typed.optionNeeds e) := by
  cases e with
  | none => exact .pure ()
  | some e => exact lowerEffect_needs e

theorem lowerTest_needs (exit : Label) (test : Typed.Expr) :
    Needs t true true (lowerTest exit test) test.needs :=
  (lowerExpr_needs test).bind_free fun _ => emit _

theorem lowerTestOption_needs (exit : Label) (test : Option Typed.Expr) :
    Needs t true true (lowerTestOption exit test) (Typed.optionNeeds test) := by
  cases test with
  | none => exact .pure ()
  | some test => exact lowerTest_needs exit test

theorem lowerVarDecl_needs (d : Typed.VarDecl) : Needs t true true (lowerVarDecl d) d.needs := by
  refine (bindTemp _ _ _).bind fun dst => ?_
  cases d.init with
  | none => exact .pure ()
  | some init => exact (lowerExpr_needs init).bind_free fun src => emit _

theorem lowerForInit_needs (init : Option Typed.ForInit) :
    Needs t true true (lowerForInit init) (Typed.ForInit.needs init) := by
  match init with
  | none => exact .pure ()
  | some (.decl d) => exact lowerVarDecl_needs d
  | some (.expr e) => exact lowerEffect_needs e

theorem lowerLoop_needs (test : Typed.Expr) {body : LoopTargets → Lower Unit} {needs : List Need}
    (h : ∀ targets, Needs t true true (body targets) needs) :
    Needs t true true (lowerLoop test body) (test.needs ++ needs) := by
  refine freshLabel.free_bind fun top => freshLabel.free_bind fun exit =>
    (emit _).free_bind fun _ => (lowerTest_needs exit test).bind fun _ => ?_
  exact (h _).bind_free fun _ => (emit _).free_bind fun _ => emit _

mutual

/-- A statement is lowered if its needs are met. -/
theorem lowerStmt_needs {t : SymbolTable} (targets : Option LoopTargets) (s : Typed.Stmt) :
    Needs t true true (lowerStmt targets s) (s.needs targets.isSome) := by
  cases s with
  | decl d => exact lowerVarDecl_needs d
  | expr e => exact lowerEffect_needs e
  | empty => exact .pure ()
  | block body => exact lowerStmts_needs targets body
  | ite test ifTrue ifFalse =>
    refine freshLabel.free_bind fun otherwise => freshLabel.free_bind fun done => ?_
    rw [Typed.Stmt.needs, List.append_assoc]
    refine (lowerTest_needs _ test).bind fun _ => ?_
    refine (lowerStmt_needs targets ifTrue).bind fun _ => (emit _).free_bind fun _ =>
      (emit _).free_bind fun _ => ?_
    exact (lowerStmt_needs targets ifFalse).bind_free fun _ => emit _
  | whileDo test body => exact lowerLoop_needs test fun inner => lowerStmt_needs (some inner) body
  | doWhile body test => exact lowerLoop_needs test fun inner => lowerStmt_needs (some inner) body
  | forLoop init test step body =>
    refine freshLabel.free_bind fun top => freshLabel.free_bind fun exit =>
      freshLabel.free_bind fun next => ?_
    rw [Typed.Stmt.needs, List.append_assoc, List.append_assoc]
    refine (lowerForInit_needs init).bind fun _ => (emit _).free_bind fun _ => ?_
    refine (lowerTestOption_needs exit test).bind fun _ => ?_
    refine (lowerStmt_needs (some ⟨exit, next⟩) body).bind fun _ => (emit _).free_bind fun _ => ?_
    exact (lowerOption_needs step).bind_free fun _ => (emit _).free_bind fun _ => emit _
  | brk span =>
    cases targets with
    | none => exact fail _ _
    | some inner => exact emit _
  | cont span =>
    cases targets with
    | none => exact fail _ _
    | some inner => exact emit _
  | ret value => exact (lowerExpr_needs value).bind_free fun _ => emit _

theorem lowerStmts_needs {t : SymbolTable} (targets : Option LoopTargets) (ss : List Typed.Stmt) :
    Needs t true true (lowerStmts targets ss) (Typed.needsOf targets.isSome ss) := by
  cases ss with
  | nil => exact .pure ()
  | cons s rest => exact (lowerStmt_needs targets s).bind fun _ => lowerStmts_needs targets rest

end

theorem bindParams_needs {pre : Bool} (order : Nat) (ps : List Typed.Param) :
    Needs t pre pre (bindParams order ps) (ps.map fun p => .bind p.symbol p.name p.span) := by
  induction ps generalizing order with
  | nil => exact .pure []
  | cons p rest ih =>
    refine (bindTemp p.symbol p.name p.span).bind fun temp => ?_
    refine (record p.symbol (by intro v; rfl)).free_bind fun _ => ?_
    exact (ih (order + 1)).bind_free fun temps => .pure (temp :: temps)

theorem placeParams_needs {pre : Bool} (size : Int) (ps : List Typed.Param) :
    Needs t pre pre (placeParams size ps) [] := by
  induction ps with
  | nil => exact .pure ()
  | cons p rest ih =>
    have taken : Needs t pre pre (Lower.emit (.nextOffset size)) [] :=
      free fun s opened => ⟨_, _, rfl, fun bound knows => knows.of_symbols rfl, opened⟩
    exact taken.free_bind fun offset => (record p.symbol (by intro v; rfl)).free_bind fun _ => ih

theorem lowerImplicitReturn_needs (config : Config) :
    Needs t true true (lowerImplicitReturn config) [] := by
  unfold lowerImplicitReturn
  split
  · exact (emitFresh _).free_bind fun value => emit _
  · exact .pure ()

/-- A function is lowered if its needs are met. No function is open afterwards. -/
theorem lowerFunction_needs {pre : Bool} (config : Config) (f : Typed.Function) :
    Needs t pre false (lowerFunction config f) f.needs := by
  have reset : Needs t pre pre (Lower.emit .resetOffset) [] :=
    free fun s opened => ⟨_, _, rfl, fun bound knows => knows.of_symbols rfl, opened⟩
  have start (info : FunctionInfo) (temps : List Temp) :
      Needs t pre true (Lower.emit (.start info temps)) [] :=
    free fun s opened => ⟨_, _, rfl, fun bound knows => knows.of_symbols rfl, rfl⟩
  have finish : Needs t true false (Lower.emit .finish) [] := by
    refine free ?_
    intro s opened
    obtain ⟨piece, current⟩ := Option.isSome_iff_exists.1 opened
    have ran : Lower.emit .finish s = .ok () { s with
        emitter := { s.emitter with
          current := none, finished := s.emitter.finished ++ [piece] } } := by
      simp [Lower.emit, EStateM.run, Emit.finish_of_open current]
    exact ⟨(), _, ran, fun bound knows => knows.of_symbols rfl, rfl⟩
  show Needs t pre false _ ([.function f.symbol f.name f.span] ++
    (f.params.map _ ++ ([.function f.symbol f.name f.span] ++ Typed.needsOf false f.body)))
  refine (function f.symbol f.name f.span).bind fun info => ?_
  refine (recordFunction f.symbol _).free_bind fun _ => ?_
  refine (bindParams_needs 0 f.params).bind fun temps => reset.free_bind fun _ => ?_
  refine (placeParams_needs _ f.params).free_bind fun _ => ?_
  refine (recordFunction f.symbol _).free_bind fun _ => ?_
  refine (function f.symbol f.name f.span).bind fun entered => ?_
  refine (start entered temps).free_bind fun _ => ?_
  refine (lowerStmts_needs none f.body).bind_free fun _ => ?_
  exact (lowerImplicitReturn_needs config).free_bind fun _ => finish

theorem forM_lowerFunction_needs (config : Config) (fs : List Typed.Function) :
    Needs t false false (fs.forM (lowerFunction config)) (fs.flatMap Typed.Function.needs) := by
  induction fs with
  | nil => exact .pure ()
  | cons f rest ih => exact (lowerFunction_needs config f).bind fun _ => ih

/-- A program is lowered if its needs are met, and otherwise fails with the error of the first that
is not. -/
theorem lowerProgram_needs (config : Config) (unbound : ∀ id, t.tempOf id = none)
    (p : Typed.Program) :
    match Need.meetAll t [] p.needs with
    | .ok _ => ∃ code, (lowerProgram config t p).1 = .ok code
    | .error e => (lowerProgram config t p).1 = .error e := by
  have knows : ({ symbols := t } : Lowering).Knows t [] :=
    ⟨fun _ => rfl, fun _ => rfl, fun id => by simp [unbound]⟩
  have outcome := forM_lowerFunction_needs config p.functions { symbols := t } [] knows rfl
  change match Need.meetAll t [] p.needs with | .ok _ => _ | .error e => _ at outcome
  cases met : Need.meetAll t [] p.needs with
  | ok bound =>
    rw [met] at outcome
    obtain ⟨u, s, ran, -⟩ := outcome
    exact ⟨_, lowerProgram_of_ok ran⟩
  | error e =>
    rw [met] at outcome
    obtain ⟨s, failed⟩ := outcome
    exact lowerProgram_of_error failed

end MiddleEnd
