import Mathlib.Data.List.Forall2
import MiddleEnd.Proofs.Lockstep
import MiddleEnd.Proofs.Lowered.Foreign
import MiddleEnd.Proofs.Renaming.Renamed

/-!
# Two lowerings in step

Lowering numbers temporaries and labels through a whole unit and finds symbols by number. What it
makes of a function depends on neither: started with other counters, and with the symbols of the
function at other places, it makes the same piece with its temporaries moved by one constant and its
labels by another.

Two lowerings are compared under a `Shift`, which says how the second differs from the first. Only
the symbols that the first one looks up need to have their like in the second, and nothing else in
the table of the second is touched.

Results:
1. `Shift.Beside.modify`: what one of the symbols is told, and what the rest of the table keeps.
2. `lowerExpr_inStep`, `lowerStmt_inStep`: expressions and statements.
3. `lowerFunction_inStep`: functions, each of which adds one piece or fails.
-/

namespace MiddleEnd

/-! ## Moved code -/

/-- A number is another one moved by `k`. -/
def Moved (k : Int) (n n' : Nat) : Prop := (n' : Int) = n + k

theorem Moved.succ {k : Int} {n n' : Nat} (h : Moved k n n') : Moved k (n + 1) (n' + 1) := by
  unfold Moved at *
  omega

/-- An instruction is another one with temporaries moved by `a` and labels by `b`. -/
inductive Instr.Moved (a b : Int) : Instr → Instr → Prop
  | load {dst dst' : Temp} {value : Int} :
      MiddleEnd.Moved a dst dst' → Moved a b (.load dst value) (.load dst' value)
  | unary {op : UnaryOp} {dst dst' src src' : Temp} :
      MiddleEnd.Moved a dst dst' → MiddleEnd.Moved a src src' →
      Moved a b (.unary op dst src) (.unary op dst' src')
  | binary {op : BinaryOp} {dst dst' left left' right right' : Temp} :
      MiddleEnd.Moved a dst dst' → MiddleEnd.Moved a left left' → MiddleEnd.Moved a right right' →
      Moved a b (.binary op dst left right) (.binary op dst' left' right')
  | copy {dst dst' src src' : Temp} :
      MiddleEnd.Moved a dst dst' → MiddleEnd.Moved a src src' →
      Moved a b (.copy dst src) (.copy dst' src')
  | jump {target target' : Label} :
      MiddleEnd.Moved b target target' → Moved a b (.jump target) (.jump target')
  | jumpIfZero {target target' : Label} {test test' : Temp} :
      MiddleEnd.Moved b target target' → MiddleEnd.Moved a test test' →
      Moved a b (.jumpIfZero target test) (.jumpIfZero target' test')
  | mark {label label' : Label} :
      MiddleEnd.Moved b label label' → Moved a b (.mark label) (.mark label')
  | ret {value value' : Temp} :
      MiddleEnd.Moved a value value' → Moved a b (.ret value) (.ret value')

/-- A piece is another one with temporaries moved by `a` and labels by `b`. -/
structure Piece.Moved (a b : Int) (p p' : Piece) : Prop where
  entry : p'.entry = p.entry
  offset : p'.offset = p.offset
  params : List.Forall₂ (MiddleEnd.Moved a) p.params p'.params
  body : List.Forall₂ (Instr.Moved a b) p.body p'.body

theorem Moved.eq {n n' : Nat} (h : Moved 0 n n') : n' = n := by
  unfold Moved at h
  omega

theorem Instr.Moved.eq {i i' : Instr} (h : i.Moved 0 0 i') : i' = i := by
  cases h with
  | load dst => rw [dst.eq]
  | unary dst src => rw [dst.eq, src.eq]
  | binary dst left right => rw [dst.eq, left.eq, right.eq]
  | copy dst src => rw [dst.eq, src.eq]
  | jump target => rw [target.eq]
  | jumpIfZero target test => rw [target.eq, test.eq]
  | mark label => rw [label.eq]
  | ret value => rw [value.eq]

/-- A piece that is moved by nothing is the same piece. -/
theorem Piece.Moved.eq {p p' : Piece} (h : p.Moved 0 0 p') : p' = p := by
  obtain ⟨entry, offset, params, body⟩ := h
  have params := params.imp fun _ _ moved => moved.eq.symm
  have body := body.imp fun _ _ moved => moved.eq.symm
  rw [List.forall₂_eq_eq_eq] at params body
  obtain ⟨_, _, _, _⟩ := p
  obtain ⟨_, _, _, _⟩ := p'
  simp only [Piece.mk.injEq]
  exact ⟨entry, offset, params.symm, body.symm⟩

/-- What lowering reads of a variable, with temporaries moved by `a`. -/
def VariableInfo.Moved (a : Int) (v v' : VariableInfo) : Prop :=
  Option.Rel (MiddleEnd.Moved a) v.temp v'.temp

/-- What lowering reads of a function, under a renaming. -/
structure FunctionInfo.Renamed (ρ : Renaming) (g g' : FunctionInfo) : Prop where
  name : g'.name = ρ.name g.name
  entry : g'.entry = g.entry.map ρ.name
  offset : g'.offset = g.offset

/-- What lowering reads of a symbol, under a renaming and with temporaries moved by `a`. -/
inductive Symbol.Moved (ρ : Renaming) (a : Int) : Symbol → Symbol → Prop
  | var {v v' : VariableInfo} : v.Moved a v' → Moved ρ a (.var v) (.var v')
  | fn {g g' : FunctionInfo} : g.Renamed ρ g' → Moved ρ a (.fn g) (.fn g')

/-- Where `break` and `continue` go, with labels moved by `b`. -/
def LoopTargets.Moved (b : Int) (t t' : LoopTargets) : Prop :=
  MiddleEnd.Moved b t.exit t'.exit ∧ MiddleEnd.Moved b t.next t'.next

/-! ## Two lowerings -/

/-- How the second of two lowerings differs from the first. -/
structure Shift where
  names : Renaming
  /-- Where the second has the symbols of the first. -/
  symbol : SymbolId → SymbolId
  symbol_injective : Function.Injective symbol
  /-- The symbols that are looked up. -/
  own : SymbolId → Prop
  temps : Int
  labels : Int

namespace Shift

variable (δ : Shift)

/-- The symbols that needs look up are among those that the lowerings share. -/
def Owns (needs : List Need) : Prop := ∀ need ∈ needs, ∀ id, need.symbol? = some id → δ.own id

/-- Both lowerings have a function open, and its pieces correspond so far. -/
def Open (current current' : Option Piece) : Prop :=
  ∃ piece piece', current = some piece ∧ current' = some piece' ∧
    (piece.rename δ.names).Moved δ.temps δ.labels piece'

/-- Neither lowering has a function open. -/
def Closed (current current' : Option Piece) : Prop := current = none ∧ current' = none

/-- Two lowerings that correspond. `C` says how the open functions do. The pieces that were ended
are `done` and `done'`, and the second lowering was given the symbols `given`. -/
structure Beside (done done' : List Piece) (given : List Symbol)
    (C : Option Piece → Option Piece → Prop) (s s' : Lowering) : Prop where
  temps : Moved δ.temps s.emitter.temps s'.emitter.temps
  labels : Moved δ.labels s.emitter.labels s'.emitter.labels
  current : C s.emitter.current s'.emitter.current
  finished : s.emitter.finished = done
  finished' : s'.emitter.finished = done'
  symbols : ∀ id, δ.own id → Option.Rel (Symbol.Moved δ.names δ.temps) s.symbols.symbols[id]?
    s'.symbols.symbols[δ.symbol id]?
  frame : ∀ id, (∀ own, δ.own own → id ≠ δ.symbol own) → s'.symbols.symbols[id]? = given[id]?

/-- Two steps that are in step and end no function. -/
abbrev InStep (done done' : List Piece) (given : List Symbol)
    (C : Option Piece → Option Piece → Prop) (R : α → α' → Prop) (x : Lower α) (x' : Lower α') :
    Prop :=
  Lockstep (δ.Beside done done' given C) (δ.Beside done done' given C)
    (fun e e' => e' = e.rename δ.names) R x x'

variable {δ} {done done' : List Piece} {given : List Symbol}
  {C : Option Piece → Option Piece → Prop} {id : SymbolId}

/-! ## Steps -/

theorem freshTemp :
    δ.InStep done done' given C (Moved δ.temps) (Lower.emit .freshTemp)
      (Lower.emit .freshTemp) := fun _ _ h =>
  .inl ⟨_, _, _, _, rfl, rfl, h.temps, h.temps.succ, h.labels, h.current, h.finished, h.finished',
    h.symbols, h.frame⟩

theorem freshLabel :
    δ.InStep done done' given C (Moved δ.labels) (Lower.emit .freshLabel)
      (Lower.emit .freshLabel) := fun _ _ h =>
  .inl ⟨_, _, _, _, rfl, rfl, h.labels, h.temps, h.labels.succ, h.current, h.finished, h.finished',
    h.symbols, h.frame⟩

/-- Emitting into open functions. -/
theorem emit {i i' : Instr} (moved : i.Moved δ.temps δ.labels i') :
    δ.InStep done done' given δ.Open (fun _ _ => True) (Lower.emit (.emit i))
      (Lower.emit (.emit i')) := by
  intro s s' h
  obtain ⟨piece, piece', current, current', same⟩ := h.current
  unfold Lower.emit
  simp only [EStateM.run, Emit.emit_of_open _ current, Emit.emit_of_open _ current']
  refine .inl ⟨(), _, (), _, rfl, rfl, trivial, h.temps, h.labels, ?_, h.finished, h.finished',
    h.symbols, h.frame⟩
  exact ⟨_, _, rfl, rfl, same.entry, same.offset, same.params,
    List.rel_append same.body (.cons moved .nil)⟩

theorem emitFresh {write write' : Temp → Instr}
    (moved : ∀ t t', Moved δ.temps t t' → (write t).Moved δ.temps δ.labels (write' t')) :
    δ.InStep done done' given δ.Open (Moved δ.temps) (Lower.emit (.emitFresh write))
      (Lower.emit (.emitFresh write')) := by
  intro s s' h
  obtain ⟨piece, piece', current, current', same⟩ := h.current
  unfold Lower.emit
  simp only [EStateM.run, Emit.emitFresh_of_open _ current, Emit.emitFresh_of_open _ current']
  refine .inl ⟨_, _, _, _, rfl, rfl, h.temps, h.temps.succ, h.labels, ?_, h.finished, h.finished',
    h.symbols, h.frame⟩
  exact ⟨_, _, rfl, rfl, same.entry, same.offset, same.params,
    List.rel_append same.body (.cons (moved _ _ h.temps) .nil)⟩

/-- What one of the shared symbols is told in both tables is told there only. -/
theorem Beside.modify {s s' : Lowering} (h : δ.Beside done done' given C s s') (own : δ.own id)
    {f f' : Symbol → Symbol}
    (kept : ∀ x x', x.Moved δ.names δ.temps x' → (f x).Moved δ.names δ.temps (f' x')) :
    δ.Beside done done' given C
      { s with symbols := { s.symbols with symbols := s.symbols.symbols.modify id f } }
      { s' with symbols := { s'.symbols with
        symbols := s'.symbols.symbols.modify (δ.symbol id) f' } } := by
  refine ⟨h.temps, h.labels, h.current, h.finished, h.finished', ?_, ?_⟩
  · intro other owned
    have before := h.symbols other owned
    by_cases same : id = other
    · subst same
      rw [List.getElem?_modify_eq, List.getElem?_modify_eq]
      generalize s.symbols.symbols[id]? = x at before
      generalize s'.symbols.symbols[δ.symbol id]? = x' at before
      cases before with
      | none => exact .none
      | some moved => exact .some (kept _ _ moved)
    · rw [List.getElem?_modify_ne _ _ same,
        List.getElem?_modify_ne _ _ (δ.symbol_injective.ne same)]
      exact before
  · intro other apart
    rw [List.getElem?_modify_ne _ _ (Ne.symm (apart id own))]
    exact h.frame other apart

theorem record (own : δ.own id) {f f' : VariableInfo → VariableInfo}
    (kept : ∀ v v', v.Moved δ.temps v' → (f v).Moved δ.temps (f' v')) :
    δ.InStep done done' given C (fun _ _ => True) (Lower.record id f)
      (Lower.record (δ.symbol id) f') := by
  intro s s' h
  refine .inl ⟨(), _, (), _, rfl, rfl, trivial, h.modify own ?_⟩
  intro x x' moved
  cases moved with
  | var moved => exact .var (kept _ _ moved)
  | fn same => exact .fn same

theorem recordFunction (own : δ.own id) {f f' : FunctionInfo → FunctionInfo}
    (kept : ∀ g g', g.Renamed δ.names g' → (f g).Renamed δ.names (f' g')) :
    δ.InStep done done' given C (fun _ _ => True) (Lower.recordFunction id f)
      (Lower.recordFunction (δ.symbol id) f') := by
  intro s s' h
  refine .inl ⟨(), _, (), _, rfl, rfl, trivial, h.modify own ?_⟩
  intro x x' moved
  cases moved with
  | var moved => exact .var moved
  | fn same => exact .fn (kept _ _ same)

theorem Beside.variableAt {s s' : Lowering} (h : δ.Beside done done' given C s s')
    (own : δ.own id) : Option.Rel (VariableInfo.Moved δ.temps) (s.symbols.variableAt id)
      (s'.symbols.variableAt (δ.symbol id)) := by
  have here := h.symbols id own
  unfold SymbolTable.variableAt
  generalize s.symbols.symbols[id]? = x at here
  generalize s'.symbols.symbols[δ.symbol id]? = x' at here
  cases here with
  | none => exact .none
  | some moved =>
    cases moved with
    | var moved => exact .some moved
    | fn => exact .none

theorem Beside.functionAt {s s' : Lowering} (h : δ.Beside done done' given C s s')
    (own : δ.own id) : Option.Rel (FunctionInfo.Renamed δ.names) (s.symbols.functionAt id)
      (s'.symbols.functionAt (δ.symbol id)) := by
  have here := h.symbols id own
  unfold SymbolTable.functionAt
  generalize s.symbols.symbols[id]? = x at here
  generalize s'.symbols.symbols[δ.symbol id]? = x' at here
  cases here with
  | none => exact .none
  | some moved =>
    cases moved with
    | var => exact .none
    | fn same => exact .some same

theorem function (own : δ.own id) (name : String) (span : Span) :
    δ.InStep done done' given C (FunctionInfo.Renamed δ.names) (Lower.function id name span)
      (Lower.function (δ.symbol id) (δ.names.name name) (span.rename δ.names)) := by
  refine .get_bind fun s s' h => ?_
  have here := h.functionAt own
  generalize s.symbols.functionAt id = found at here
  generalize s'.symbols.functionAt (δ.symbol id) = found' at here
  cases here with
  | none => exact .throw rfl
  | some same => exact .pure same

theorem boundTemp (own : δ.own id) (name : String) (span : Span) :
    δ.InStep done done' given C (Moved δ.temps) (Lower.boundTemp id name span)
      (Lower.boundTemp (δ.symbol id) (δ.names.name name) (span.rename δ.names)) := by
  refine .get_bind fun s s' h => ?_
  have here : Option.Rel (Moved δ.temps) ((s.symbols.variableAt id).bind VariableInfo.temp)
      ((s'.symbols.variableAt (δ.symbol id)).bind VariableInfo.temp) := by
    have here := h.variableAt own
    generalize s.symbols.variableAt id = x at here
    generalize s'.symbols.variableAt (δ.symbol id) = x' at here
    cases here with
    | none => exact .none
    | some moved => exact moved
  generalize (s.symbols.variableAt id).bind VariableInfo.temp = found at here
  generalize (s'.symbols.variableAt (δ.symbol id)).bind VariableInfo.temp = found' at here
  cases here with
  | none => exact .throw rfl
  | some moved => exact .pure moved

theorem bindTemp (own : δ.own id) (name : String) (span : Span) :
    δ.InStep done done' given C (Moved δ.temps) (Lower.bindTemp id name span)
      (Lower.bindTemp (δ.symbol id) (δ.names.name name) (span.rename δ.names)) := by
  refine .get_bind fun s s' h => ?_
  have here := h.variableAt own
  generalize s.symbols.variableAt id = found at here
  generalize s'.symbols.variableAt (δ.symbol id) = found' at here
  cases here with
  | none => exact .throw rfl
  | some moved =>
    refine freshTemp.bind fun t t' taken => ?_
    refine (record own ?_).bind fun _ _ _ => .pure taken
    exact fun _ _ _ => .some taken

theorem ref {r : Typed.Ref} (owns : δ.Owns [.ref r]) :
    δ.InStep done done' given C (Moved δ.temps) (lowerRef r)
      (lowerRef (r.rename δ.names δ.symbol)) := by
  obtain ⟨name, symbol, storage, ty, span⟩ := r
  cases symbol with
  | none => exact .throw rfl
  | some id =>
    cases storage with
    | none => exact .throw rfl
    | some place =>
      cases place
      exact boundTemp (owns _ List.mem_cons_self id rfl) name span

end Shift

open Shift

/-! ## The walk -/

variable {δ : Shift} {done done' : List Piece} {given : List Symbol}

theorem Shift.owns_append {needs needs' : List Need} :
    δ.Owns (needs ++ needs') ↔ δ.Owns needs ∧ δ.Owns needs' := List.forall_mem_append

theorem Shift.owns_cons {need : Need} {needs : List Need} :
    δ.Owns (need :: needs) ↔ δ.Owns [need] ∧ δ.Owns needs := by
  rw [← List.singleton_append, owns_append]

/-- An expression is lowered in step. -/
theorem lowerExpr_inStep (e : Typed.Expr) (owns : δ.Owns e.needs) :
    δ.InStep done done' given δ.Open (Moved δ.temps) (lowerExpr e)
      (lowerExpr (e.rename δ.names δ.symbol)) := by
  induction e with
  | const value ty span => exact emitFresh fun _ _ dst => .load dst
  | var r ty span => exact ref owns
  | unary op operand ty span ih =>
    exact (ih owns).bind fun _ _ src => emitFresh fun _ _ dst => .unary dst src
  | binary op left right ty span ihl ihr =>
    obtain ⟨inLeft, inRight⟩ := owns_append.1 owns
    exact (ihl inLeft).bind fun _ _ l => (ihr inRight).bind fun _ _ r =>
      emitFresh fun _ _ dst => .binary dst l r
  | assign target value ty span ih =>
    obtain ⟨inTarget, inValue⟩ := owns_cons.1 owns
    exact (ref inTarget).bind fun _ _ dst => (ih inValue).bind fun _ _ src =>
      (emit (.copy dst src)).bind fun _ _ _ => .pure dst
  | cond test ifTrue ifFalse ty span iht iha ihb =>
    obtain ⟨inFirst, inFalse⟩ := owns_append.1 owns
    obtain ⟨inTest, inTrue⟩ := owns_append.1 inFirst
    refine freshTemp.bind fun _ _ result => freshLabel.bind fun _ _ otherwise =>
      freshLabel.bind fun _ _ done => ?_
    refine (iht inTest).bind fun _ _ test =>
      (emit (.jumpIfZero otherwise test)).bind fun _ _ _ => ?_
    refine (iha inTrue).bind fun _ _ src => (emit (.copy result src)).bind fun _ _ _ =>
      (emit (.jump done)).bind fun _ _ _ => (emit (.mark otherwise)).bind fun _ _ _ => ?_
    exact (ihb inFalse).bind fun _ _ src => (emit (.copy result src)).bind fun _ _ _ =>
      (emit (.mark done)).bind fun _ _ _ => .pure result

theorem lowerEffect_inStep (e : Typed.Expr) (owns : δ.Owns e.needs) :
    δ.InStep done done' given δ.Open (fun _ _ => True) (lowerEffect e)
      (lowerEffect (e.rename δ.names δ.symbol)) :=
  (lowerExpr_inStep e owns).bind fun _ _ _ => .pure trivial

theorem lowerOption_inStep (e : Option Typed.Expr) (owns : δ.Owns (Typed.optionNeeds e)) :
    δ.InStep done done' given δ.Open (fun _ _ => True) (lowerOption e)
      (lowerOption (e.map (Typed.Expr.rename δ.names δ.symbol))) := by
  cases e with
  | none => exact .pure trivial
  | some e => exact lowerEffect_inStep e owns

theorem lowerTest_inStep {exit exit' : Label} (label : Moved δ.labels exit exit')
    (test : Typed.Expr) (owns : δ.Owns test.needs) :
    δ.InStep done done' given δ.Open (fun _ _ => True) (lowerTest exit test)
      (lowerTest exit' (test.rename δ.names δ.symbol)) :=
  (lowerExpr_inStep test owns).bind fun _ _ value => emit (.jumpIfZero label value)

theorem lowerTestOption_inStep {exit exit' : Label} (label : Moved δ.labels exit exit')
    (test : Option Typed.Expr) (owns : δ.Owns (Typed.optionNeeds test)) :
    δ.InStep done done' given δ.Open (fun _ _ => True) (lowerTestOption exit test)
      (lowerTestOption exit' (test.map (Typed.Expr.rename δ.names δ.symbol))) := by
  cases test with
  | none => exact .pure trivial
  | some test => exact lowerTest_inStep label test owns

theorem lowerVarDecl_inStep (d : Typed.VarDecl) (owns : δ.Owns d.needs) :
    δ.InStep done done' given δ.Open (fun _ _ => True) (lowerVarDecl d)
      (lowerVarDecl (d.rename δ.names δ.symbol)) := by
  obtain ⟨name, symbol, ty, init, span⟩ := d
  obtain ⟨inName, inInit⟩ := owns_cons.1 owns
  refine (bindTemp (inName _ List.mem_cons_self symbol rfl) name span).bind fun _ _ dst => ?_
  cases init with
  | none => exact .pure trivial
  | some init => exact (lowerExpr_inStep init inInit).bind fun _ _ src => emit (.copy dst src)

theorem lowerForInit_inStep (init : Option Typed.ForInit)
    (owns : δ.Owns (Typed.ForInit.needs init)) :
    δ.InStep done done' given δ.Open (fun _ _ => True) (lowerForInit init)
      (lowerForInit (init.map (Typed.ForInit.rename δ.names δ.symbol))) := by
  match init with
  | none => exact .pure trivial
  | some (.decl d) => exact lowerVarDecl_inStep d owns
  | some (.expr e) => exact lowerEffect_inStep e owns

theorem lowerLoop_inStep (test : Typed.Expr) (owns : δ.Owns test.needs)
    {body body' : LoopTargets → Lower Unit}
    (h : ∀ targets targets', targets.Moved δ.labels targets' →
      δ.InStep done done' given δ.Open (fun _ _ => True) (body targets) (body' targets')) :
    δ.InStep done done' given δ.Open (fun _ _ => True) (lowerLoop test body)
      (lowerLoop (test.rename δ.names δ.symbol) body') := by
  refine freshLabel.bind fun _ _ top => freshLabel.bind fun _ _ exit =>
    (emit (.mark top)).bind fun _ _ _ => (lowerTest_inStep exit test owns).bind fun _ _ _ => ?_
  exact (h _ _ ⟨exit, top⟩).bind fun _ _ _ => (emit (.jump top)).bind fun _ _ _ => emit (.mark exit)

mutual

/-- A statement is lowered in step. -/
theorem lowerStmt_inStep {δ : Shift} {done done' : List Piece} {given : List Symbol}
    {targets targets' : Option LoopTargets}
    (moved : Option.Rel (LoopTargets.Moved δ.labels) targets targets') (s : Typed.Stmt)
    (owns : δ.Owns (s.needs targets.isSome)) :
    δ.InStep done done' given δ.Open (fun _ _ => True) (lowerStmt targets s)
      (lowerStmt targets' (s.rename δ.names δ.symbol)) := by
  cases s with
  | decl d => exact lowerVarDecl_inStep d owns
  | expr e => exact lowerEffect_inStep e owns
  | empty => exact .pure trivial
  | block body => exact lowerStmts_inStep moved body owns
  | ite test ifTrue ifFalse =>
    obtain ⟨inFirst, inFalse⟩ := owns_append.1 owns
    obtain ⟨inTest, inTrue⟩ := owns_append.1 inFirst
    refine freshLabel.bind fun _ _ otherwise => freshLabel.bind fun _ _ done => ?_
    refine (lowerTest_inStep otherwise test inTest).bind fun _ _ _ => ?_
    refine (lowerStmt_inStep moved ifTrue inTrue).bind fun _ _ _ =>
      (emit (.jump done)).bind fun _ _ _ => (emit (.mark otherwise)).bind fun _ _ _ => ?_
    exact (lowerStmt_inStep moved ifFalse inFalse).bind fun _ _ _ => emit (.mark done)
  | whileDo test body | doWhile body test =>
    -- both loops test first, whatever the order in the source
    obtain ⟨inTest, inBody⟩ := owns_append.1 owns
    exact lowerLoop_inStep test inTest fun _ _ inner => lowerStmt_inStep (.some inner) body inBody
  | forLoop init test step body =>
    obtain ⟨inFirst, inStep⟩ := owns_append.1 owns
    obtain ⟨inClauses, inBody⟩ := owns_append.1 inFirst
    obtain ⟨inInit, inTest⟩ := owns_append.1 inClauses
    refine freshLabel.bind fun _ _ top => freshLabel.bind fun _ _ exit =>
      freshLabel.bind fun _ _ next => ?_
    refine (lowerForInit_inStep init inInit).bind fun _ _ _ =>
      (emit (.mark top)).bind fun _ _ _ => ?_
    refine (lowerTestOption_inStep exit test inTest).bind fun _ _ _ => ?_
    refine (lowerStmt_inStep (.some ⟨exit, next⟩) body inBody).bind fun _ _ _ =>
      (emit (.mark next)).bind fun _ _ _ => ?_
    exact (lowerOption_inStep step inStep).bind fun _ _ _ => (emit (.jump top)).bind fun _ _ _ =>
      emit (.mark exit)
  | brk span =>
    cases moved with
    | none => exact .throw rfl
    | some inner => exact emit (.jump inner.1)
  | cont span =>
    cases moved with
    | none => exact .throw rfl
    | some inner => exact emit (.jump inner.2)
  | ret value => exact (lowerExpr_inStep value owns).bind fun _ _ value => emit (.ret value)

theorem lowerStmts_inStep {δ : Shift} {done done' : List Piece} {given : List Symbol}
    {targets targets' : Option LoopTargets}
    (moved : Option.Rel (LoopTargets.Moved δ.labels) targets targets') (ss : List Typed.Stmt)
    (owns : δ.Owns (Typed.needsOf targets.isSome ss)) :
    δ.InStep done done' given δ.Open (fun _ _ => True) (lowerStmts targets ss)
      (lowerStmts targets' (Typed.renameOf δ.names δ.symbol ss)) := by
  cases ss with
  | nil => exact .pure trivial
  | cons s rest =>
    obtain ⟨inFirst, inRest⟩ := owns_append.1 owns
    exact (lowerStmt_inStep moved s inFirst).bind fun _ _ _ => lowerStmts_inStep moved rest inRest

end

/-! ## Functions -/

theorem bindParams_inStep {C : Option Piece → Option Piece → Prop} (order : Nat)
    (ps : List Typed.Param) (owns : ∀ p ∈ ps, δ.own p.symbol) :
    δ.InStep done done' given C (List.Forall₂ (Moved δ.temps)) (bindParams order ps)
      (bindParams order (ps.map (Typed.Param.rename δ.names δ.symbol))) := by
  induction ps generalizing order with
  | nil => exact .pure .nil
  | cons p rest ih =>
    obtain ⟨own, others⟩ := List.forall_mem_cons.1 owns
    refine (bindTemp own p.name p.span).bind fun _ _ temp => ?_
    refine (record own ?_).bind fun _ _ _ =>
      (ih (order + 1) others).bind fun _ _ temps => .pure (.cons temp temps)
    exact fun _ _ moved => moved

theorem placeParams_inStep {C : Option Piece → Option Piece → Prop} (size : Int)
    (ps : List Typed.Param) (owns : ∀ p ∈ ps, δ.own p.symbol) :
    δ.InStep done done' given C (fun _ _ => True) (placeParams size ps)
      (placeParams size (ps.map (Typed.Param.rename δ.names δ.symbol))) := by
  induction ps with
  | nil => exact .pure trivial
  | cons p rest ih =>
    obtain ⟨own, others⟩ := List.forall_mem_cons.1 owns
    have taken : δ.InStep done done' given C (fun _ _ => True) (Lower.emit (.nextOffset size))
        (Lower.emit (.nextOffset size)) := fun _ _ h =>
      .inl ⟨_, _, _, _, rfl, rfl, trivial, h.temps, h.labels, h.current, h.finished, h.finished',
        h.symbols, h.frame⟩
    refine taken.bind fun _ _ _ => (record own ?_).bind fun _ _ _ => ih others
    exact fun _ _ moved => moved

theorem lowerImplicitReturn_inStep (config : Config) :
    δ.InStep done done' given δ.Open (fun _ _ => True) (lowerImplicitReturn config)
      (lowerImplicitReturn config) := by
  unfold lowerImplicitReturn
  split
  · exact (emitFresh fun _ _ dst => .load dst).bind fun _ _ value => emit (.ret value)
  · exact .pure trivial

/-- Two lowerings after one more function, with the pieces they made of it. -/
def Shift.Ended (δ : Shift) (done done' : List Piece) (given : List Symbol) (s s' : Lowering) :
    Prop :=
  ∃ piece piece', (piece.rename δ.names).Moved δ.temps δ.labels piece' ∧
    δ.Beside (done ++ [piece]) (done' ++ [piece']) given Closed s s'

/-- A function is lowered in step: each lowering files one more piece, or both fail. -/
theorem lowerFunction_inStep {C : Option Piece → Option Piece → Prop} (config : Config)
    (f : Typed.Function) (owns : δ.Owns f.needs) :
    Lockstep (δ.Beside done done' given C) (δ.Ended done done' given)
      (fun e e' => e' = e.rename δ.names) (fun _ _ => True) (lowerFunction config f)
      (lowerFunction config (f.rename δ.names δ.symbol)) := by
  obtain ⟨inHead, inBody⟩ := owns_append.1 owns
  obtain ⟨inName, inParams⟩ := owns_cons.1 inHead
  obtain ⟨-, inBody⟩ := owns_cons.1 inBody
  have own : δ.own f.symbol := inName _ List.mem_cons_self _ rfl
  have params : ∀ p ∈ f.params, δ.own p.symbol := fun p mem =>
    inParams _ (List.mem_map_of_mem mem) _ rfl
  refine (function own f.name f.span).bind fun info info' called => ?_
  refine (recordFunction own fun g g' same => ?_).bind fun _ _ _ => ?_
  · exact ⟨same.name, congrArg some called.name, same.offset⟩
  refine (bindParams_inStep 0 f.params params).bind fun temps temps' bound => ?_
  have reset : δ.InStep done done' given C (fun _ _ => True) (Lower.emit .resetOffset)
      (Lower.emit .resetOffset) := fun _ _ h =>
    .inl ⟨_, _, _, _, rfl, rfl, trivial, h.temps, h.labels, h.current, h.finished, h.finished',
      h.symbols, h.frame⟩
  refine reset.bind fun _ _ _ => (placeParams_inStep _ f.params params).bind fun _ _ _ => ?_
  refine (recordFunction own fun g g' same => ?_).bind fun _ _ _ => ?_
  · exact ⟨same.name, same.entry, by rw [bound.length_eq]⟩
  refine (function own f.name f.span).bind fun entered entered' same => ?_
  have start : Lockstep (δ.Beside done done' given C) (δ.Beside done done' given δ.Open)
      (fun e e' => e' = e.rename δ.names) (fun _ _ => True) (Lower.emit (.start entered temps))
      (Lower.emit (.start entered' temps')) := by
    intro s s' h
    refine .inl ⟨(), _, (), _, rfl, rfl, trivial, h.temps, h.labels, ?_, h.finished, h.finished',
      h.symbols, h.frame⟩
    refine ⟨_, _, rfl, rfl, ?_, same.offset, bound, .nil⟩
    show entered'.entryName = δ.names.name entered.entryName
    unfold FunctionInfo.entryName
    rw [same.entry, same.name]
    cases entered.entry <;> rfl
  have finish : Lockstep (δ.Beside done done' given δ.Open) (δ.Ended done done' given)
      (fun e e' => e' = e.rename δ.names) (fun _ _ => True) (Lower.emit .finish)
      (Lower.emit .finish) := by
    intro s s' h
    obtain ⟨piece, piece', current, current', moved⟩ := h.current
    unfold Lower.emit
    simp only [EStateM.run, Emit.finish_of_open current, Emit.finish_of_open current']
    refine .inl ⟨(), _, (), _, rfl, rfl, trivial, piece, piece', moved, h.temps, h.labels,
      ⟨rfl, rfl⟩, ?_, ?_, h.symbols, h.frame⟩
    · exact congrArg (· ++ [piece]) h.finished
    · exact congrArg (· ++ [piece']) h.finished'
  refine start.bind fun _ _ _ => (lowerStmts_inStep .none f.body inBody).bind fun _ _ _ => ?_
  exact (lowerImplicitReturn_inStep config).bind fun _ _ _ => finish

end MiddleEnd
