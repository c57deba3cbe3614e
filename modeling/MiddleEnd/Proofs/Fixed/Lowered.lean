import MiddleEnd.Proofs.Fixed.Reading
import MiddleEnd.Proofs.Steps

/-!
# Lowering in words against lowering without a bound

Each step of the lowering in words follows the same step of the unbounded one: both succeed or both
fail, and what they answer and leave behind is the same as words show it. It may get off only where
a result comes up that no word holds. If overflow stops, the run stops there. If it wraps, the
numbers are no longer exact. Either way the unbounded counters tell that it came to that, because
they never decrease.

Results:
1. `Follows.bind`: parts that follow their unbounded likes make a whole that does.
2. `lowerExpr_follows`, `lowerStmt_follows`, `lowerFunction_follows`: the walk.
-/

namespace MiddleEnd

variable {ε σ α : Type}

/-- The state that a result leaves behind. -/
def lastState : EStateM.Result ε σ α → σ
  | .ok _ s | .error _ s => s

namespace Fixed

/-! ## Two runs -/

/-- A lowering in words is in the state of an unbounded one, as words show it. -/
structure Agree (r : Reading) (s : MiddleEnd.Lowering) (s' : Lowering) : Prop where
  temps : s'.emitter.temps.toNat = r.nat s.emitter.temps
  labels : s'.emitter.labels.toNat = r.nat s.emitter.labels
  paramOffset : s'.emitter.paramOffset.toInt = r.int s.emitter.paramOffset
  current : s'.emitter.current = s.emitter.current.map (Piece.read r)
  finished : s'.emitter.finished = s.emitter.finished.map (Piece.read r)
  symbols : s'.symbols = s.symbols.read r

/-- The counters did not decrease. -/
structure Grown (s t : MiddleEnd.Lowering) : Prop where
  temps : s.emitter.temps ≤ t.emitter.temps
  labels : s.emitter.labels ≤ t.emitter.labels

/-- A counter is beyond what a word holds. -/
def Spent (s : MiddleEnd.Lowering) : Prop :=
  ¬Unsigned s.emitter.temps ∨ ¬Unsigned s.emitter.labels

theorem Grown.refl (s : MiddleEnd.Lowering) : Grown s s := ⟨Nat.le_refl _, Nat.le_refl _⟩

theorem Grown.trans {s t u : MiddleEnd.Lowering} (h₁ : Grown s t) (h₂ : Grown t u) : Grown s u :=
  ⟨Nat.le_trans h₁.temps h₂.temps, Nat.le_trans h₁.labels h₂.labels⟩

theorem Grown.spent {s t : MiddleEnd.Lowering} (grown : Grown s t) (spent : Spent s) : Spent t :=
  spent.imp (fun excess fits => excess (Nat.lt_of_le_of_lt grown.temps fits))
    fun excess fits => excess (Nat.lt_of_le_of_lt grown.labels fits)

/-- How a run in words ends beside an unbounded one. `answer` is what the unbounded answer is in
words, and `beyond` what beside the counters may be beyond what a word holds. -/
inductive Ends (o : Overflow) (r : Reading) (beyond : Prop)
    (T : MiddleEnd.Lowering → Lowering → Prop) {α α' : Type} (answer : α → α') :
    EStateM.Result Error MiddleEnd.Lowering α → EStateM.Result Stop Lowering α' → Prop
  | ok {a : α} {t : MiddleEnd.Lowering} {t' : Lowering} : T t t' →
      Ends o r beyond T answer (.ok a t) (.ok (answer a) t')
  | error {e : Error} {t : MiddleEnd.Lowering} {t' : Lowering} : Agree r t t' →
      Ends o r beyond T answer (.error e t) (.error (.error e) t')
  | overflow {result : EStateM.Result Error MiddleEnd.Lowering α}
      {result' : EStateM.Result Stop Lowering α'} : r = .exact →
      Spent (lastState result) ∨ beyond →
      (o = .stops → ∃ t', result' = .error .overflow t') →
      Ends o r beyond T answer result result'

/-- A step in words follows an unbounded one. From states that are related by `S` it ends beside it,
in states that are related by `T`. -/
structure Follows (o : Overflow) (r : Reading) (beyond : Prop)
    (S T : MiddleEnd.Lowering → Lowering → Prop) {α α' : Type} (answer : α → α')
    (x : MiddleEnd.Lower α) (x' : Lower α') : Prop where
  grows : ∀ s, Grown s (lastState (x s))
  ends : ∀ s s', S s s' → Ends o r beyond T answer (x s) (x' s')

namespace Follows

variable {o : Overflow} {r : Reading} {beyond : Prop} {S T U : MiddleEnd.Lowering → Lowering → Prop}
  {α α' β β' : Type} {answer : α → α'} {answer' : β → β'}

theorem pure (a : α) : Follows o r beyond S S answer (pure a) (pure (answer a)) :=
  ⟨Grown.refl, fun _ _ here => .ok here⟩

theorem fail (cause : Cause) (pos : Pos) :
    Follows o r beyond (Agree r) T answer (MiddleEnd.Lower.fail cause pos) (Lower.fail cause pos) :=
  ⟨Grown.refl, fun _ _ here => .error here⟩

/-- One step after another that may answer `a`. -/
theorem bind_of_answers {x : MiddleEnd.Lower α} {x' : Lower α'} {f : α → MiddleEnd.Lower β}
    {f' : α' → Lower β'} (hx : Follows o r beyond S T answer x x')
    (hf : ∀ a, (∃ s t, x s = .ok a t) → Follows o r beyond T U answer' (f a) (f' (answer a))) :
    Follows o r beyond S U answer' (x >>= f) (x' >>= f') := by
  refine ⟨fun s => ?_, fun s s' here => ?_⟩
  · have first := hx.grows s
    cases ran : x s with
    | ok a t =>
      rw [ran] at first
      rw [bind_of_ok ran]
      exact first.trans ((hf a ⟨s, t, ran⟩).grows t)
    | error e t =>
      rw [ran] at first
      rw [bind_of_error ran]
      exact first
  · have first := hx.ends s s' here
    generalize ran : x s = result at first
    generalize ran' : x' s' = result' at first
    cases first with
    | ok there =>
      rw [bind_of_ok ran, bind_of_ok ran']
      exact (hf _ ⟨s, _, ran⟩).ends _ _ there
    | error there =>
      rw [bind_of_error ran, bind_of_error ran']
      exact .error there
    | overflow exact spent stops =>
      refine .overflow exact (spent.imp_left fun spent => ?_) fun stopped => ?_
      · -- the steps that follow leave the counters where they are or beyond
        cases result with
        | ok a t =>
          rw [bind_of_ok ran]
          exact ((hf a ⟨s, t, ran⟩).grows t).spent spent
        | error e t =>
          rw [bind_of_error ran]
          exact spent
      · obtain ⟨t', rfl⟩ := stops stopped
        exact ⟨t', bind_of_error ran'⟩

/-- One step after the other. -/
theorem bind {x : MiddleEnd.Lower α} {x' : Lower α'} {f : α → MiddleEnd.Lower β}
    {f' : α' → Lower β'} (hx : Follows o r beyond S T answer x x')
    (hf : ∀ a, Follows o r beyond T U answer' (f a) (f' (answer a))) :
    Follows o r beyond S U answer' (x >>= f) (x' >>= f') :=
  hx.bind_of_answers fun a _ => hf a

end Follows
/-! ## Steps -/

end Fixed

namespace Lower

variable {α : Type} {step : Emit α} {s : Lowering} {e : Emitter}

theorem emit_of_ok {a : α} (h : step s.emitter = .ok a e) :
    emit step s = .ok a { s with emitter := e } := by
  rw [emit, EStateM.run, h]

theorem emit_of_error {error : Error} (h : step s.emitter = .error error e) :
    emit step s = .error error { s with emitter := e } := by
  rw [emit, EStateM.run, h]

end Lower

namespace Fixed

namespace Lower

variable {α : Type} {step : Emit α} {s : Lowering} {e : Emitter}

theorem emit_of_ok {a : α} (h : step s.emitter = .ok a e) :
    emit step s = .ok a { s with emitter := e } := by
  rw [emit, EStateM.run, h]

theorem emit_of_error {stop : Stop} (h : step s.emitter = .error stop e) :
    emit step s = .error stop { s with emitter := e } := by
  rw [emit, EStateM.run, h]

end Lower

namespace Follows

variable {o : Overflow} {r : Reading} {beyond : Prop}

/-- A step that goes from states that agree to states that agree. -/
abbrev Keeps (o : Overflow) (r : Reading) (beyond : Prop) {α α' : Type} (answer : α → α')
    (x : MiddleEnd.Lower α) (x' : Lower α') : Prop :=
  Follows o r beyond (Agree r) (Agree r) answer x x'

section

variable (kept : r = .exact ∨ o = .wraps)

include kept

theorem freshTemp :
    Keeps o r beyond r.nat (MiddleEnd.Lower.emit .freshTemp) (Lower.emit (.freshTemp o)) := by
  refine ⟨fun s => ⟨Nat.le_succ _, Nat.le_refl _⟩, fun s s' here => ?_⟩
  rcases Reading.succ kept here.temps with ⟨next, counted, shown⟩ | ⟨exact, spent, stops⟩
  · rw [Lower.emit_of_ok (Emit.freshTemp_of_succ counted), here.temps]
    exact .ok (a := s.emitter.temps) { here with temps := shown }
  · refine .overflow exact (.inl (.inl spent)) fun stopped => ⟨s', ?_⟩
    exact Lower.emit_of_error (Emit.freshTemp_of_overflow (stops stopped))

theorem freshLabel :
    Keeps o r beyond r.nat (MiddleEnd.Lower.emit .freshLabel) (Lower.emit (.freshLabel o)) := by
  refine ⟨fun s => ⟨Nat.le_refl _, Nat.le_succ _⟩, fun s s' here => ?_⟩
  rcases Reading.succ kept here.labels with ⟨next, counted, shown⟩ | ⟨exact, spent, stops⟩
  · rw [Lower.emit_of_ok (Emit.freshLabel_of_succ counted), here.labels]
    exact .ok (a := s.emitter.labels) { here with labels := shown }
  · refine .overflow exact (.inl (.inr spent)) fun stopped => ⟨s', ?_⟩
    exact Lower.emit_of_error (Emit.freshLabel_of_overflow (stops stopped))

end

theorem emit (i : Instr) :
    Keeps o r beyond id (MiddleEnd.Lower.emit (.emit i)) (Lower.emit (.emit (i.read r))) := by
  refine ⟨fun s => ?_, fun s s' here => ?_⟩
  · cases opened : s.emitter.current with
    | none =>
      rw [MiddleEnd.Lower.emit_of_error (MiddleEnd.Emit.emit_of_closed i opened)]
      exact .refl s
    | some piece =>
      rw [MiddleEnd.Lower.emit_of_ok (MiddleEnd.Emit.emit_of_open i opened)]
      exact ⟨Nat.le_refl _, Nat.le_refl _⟩
  · have opened' := here.current
    cases opened : s.emitter.current with
    | none =>
      rw [opened] at opened'
      rw [MiddleEnd.Lower.emit_of_error (MiddleEnd.Emit.emit_of_closed i opened),
        Lower.emit_of_error (Emit.emit_of_closed _ opened')]
      exact .error here
    | some piece =>
      rw [opened] at opened'
      rw [MiddleEnd.Lower.emit_of_ok (MiddleEnd.Emit.emit_of_open i opened),
        Lower.emit_of_ok (Emit.emit_of_open _ opened')]
      exact .ok (a := ()) { here with current := by simp [Piece.read] }

theorem emitFresh (kept : r = .exact ∨ o = .wraps) {write write' : Temp → Instr}
    (same : ∀ t, write' (r.nat t) = (write t).read r) :
    Keeps o r beyond r.nat (MiddleEnd.Lower.emit (.emitFresh write))
      (Lower.emit (.emitFresh o write')) := by
  refine ⟨fun s => ?_, fun s s' here => ?_⟩
  · cases opened : s.emitter.current with
    | none =>
      rw [MiddleEnd.Lower.emit_of_error (MiddleEnd.Emit.emitFresh_of_closed write opened)]
      exact .refl s
    | some piece =>
      rw [MiddleEnd.Lower.emit_of_ok (MiddleEnd.Emit.emitFresh_of_open write opened)]
      exact ⟨Nat.le_succ _, Nat.le_refl _⟩
  · have opened' := here.current
    cases opened : s.emitter.current with
    | none =>
      rw [opened] at opened'
      rw [MiddleEnd.Lower.emit_of_error (MiddleEnd.Emit.emitFresh_of_closed write opened),
        Lower.emit_of_error (Emit.emitFresh_of_closed write' opened')]
      exact .error here
    | some piece =>
      rw [opened] at opened'
      rw [MiddleEnd.Lower.emit_of_ok (MiddleEnd.Emit.emitFresh_of_open write opened)]
      rcases Reading.succ kept here.temps with ⟨next, counted, shown⟩ | ⟨exact, spent, stops⟩
      · rw [Lower.emit_of_ok (Emit.emitFresh_of_open write' opened' counted), here.temps, same]
        exact .ok (a := s.emitter.temps)
          { here with temps := shown, current := by simp [Piece.read] }
      · refine .overflow exact (.inl (.inl spent)) fun stopped => ⟨s', ?_⟩
        exact Lower.emit_of_error (Emit.emitFresh_of_overflow write' opened' (stops stopped))

theorem start (f : FunctionInfo) (params : List Temp) :
    Keeps o r beyond id (MiddleEnd.Lower.emit (.start f params))
      (Lower.emit (.start (f.read r) (params.map r.nat))) :=
  ⟨fun _ => ⟨Nat.le_refl _, Nat.le_refl _⟩,
    fun _ _ here => .ok (a := ()) { here with current := rfl }⟩

theorem finish : Keeps o r beyond id (MiddleEnd.Lower.emit .finish) (Lower.emit .finish) := by
  refine ⟨fun s => ?_, fun s s' here => ?_⟩
  · cases opened : s.emitter.current with
    | none =>
      rw [MiddleEnd.Lower.emit_of_error (MiddleEnd.Emit.finish_of_closed opened)]
      exact .refl s
    | some piece =>
      rw [MiddleEnd.Lower.emit_of_ok (MiddleEnd.Emit.finish_of_open opened)]
      exact ⟨Nat.le_refl _, Nat.le_refl _⟩
  · have opened' := here.current
    cases opened : s.emitter.current with
    | none =>
      rw [opened] at opened'
      rw [MiddleEnd.Lower.emit_of_error (MiddleEnd.Emit.finish_of_closed opened),
        Lower.emit_of_error (Emit.finish_of_closed opened')]
      exact .error here
    | some piece =>
      rw [opened] at opened'
      rw [MiddleEnd.Lower.emit_of_ok (MiddleEnd.Emit.finish_of_open opened),
        Lower.emit_of_ok (Emit.finish_of_open opened')]
      exact .ok (a := ()) { here with current := rfl, finished := by simp [here.finished] }

section

variable {id : SymbolId}

theorem record {f f' : VariableInfo → VariableInfo} (same : ∀ v, f' (v.read r) = (f v).read r) :
    Keeps o r beyond (fun _ => ()) (MiddleEnd.Lower.record id f) (Lower.record id f') := by
  refine ⟨fun s => ⟨Nat.le_refl _, Nat.le_refl _⟩, fun s s' here => .ok (a := ()) ?_⟩
  have symbols := congrArg (SymbolTable.modifyVariable · id f') here.symbols
  exact { here with symbols := symbols.trans (SymbolTable.modifyVariable_read _ _ same) }

theorem recordFunction {f f' : FunctionInfo → FunctionInfo}
    (same : ∀ g, f' (g.read r) = (f g).read r) :
    Keeps o r beyond (fun _ => ()) (MiddleEnd.Lower.recordFunction id f)
      (Lower.recordFunction id f') := by
  refine ⟨fun s => ⟨Nat.le_refl _, Nat.le_refl _⟩, fun s s' here => .ok (a := ()) ?_⟩
  have symbols := congrArg (SymbolTable.modifyFunction · id f') here.symbols
  exact { here with symbols := symbols.trans (SymbolTable.modifyFunction_read _ _ same) }

variable (name : String) (span : Span)

/-- Steps that look at the state first. What they go on with may depend on it. -/
theorem get_bind {α α' : Type} {answer : α → α'} {T : MiddleEnd.Lowering → Lowering → Prop}
    {f : MiddleEnd.Lowering → MiddleEnd.Lower α} {f' : Lowering → Lower α'}
    (grows : ∀ s, Grown s (lastState (f s s)))
    (follows : ∀ s s', Agree r s s' → Follows o r beyond (Agree r) T answer (f s) (f' s')) :
    Follows o r beyond (Agree r) T answer (get >>= f) (get >>= f') :=
  ⟨grows, fun s s' here => (follows s s' here).ends s s' here⟩

theorem function :
    Keeps o r beyond (FunctionInfo.read r) (MiddleEnd.Lower.function id name span)
      (Lower.function id name span) := by
  refine get_bind (fun s => ?_) fun s s' here => ?_
  · cases s.symbols.functionAt id <;> exact .refl s
  · rw [here.symbols, SymbolTable.functionAt_read]
    cases s.symbols.functionAt id with
    | none => exact fail _ _
    | some f => exact pure f

theorem boundTemp :
    Keeps o r beyond r.nat (MiddleEnd.Lower.boundTemp id name span)
      (Lower.boundTemp id name span) := by
  refine get_bind (fun s => ?_) fun s s' here => ?_
  · cases (s.symbols.variableAt id).bind VariableInfo.temp <;> exact .refl s
  · have shown : (s'.symbols.variableAt id).bind VariableInfo.temp =
        ((s.symbols.variableAt id).bind VariableInfo.temp).map r.nat := by
      rw [here.symbols, SymbolTable.variableAt_read]
      cases s.symbols.variableAt id <;> rfl
    rw [shown]
    cases (s.symbols.variableAt id).bind VariableInfo.temp with
    | none => exact fail _ _
    | some t => exact pure t

theorem bindTemp (kept : r = .exact ∨ o = .wraps) :
    Keeps o r beyond r.nat (MiddleEnd.Lower.bindTemp id name span)
      (Lower.bindTemp o id name span) := by
  have bound : Keeps o r beyond r.nat
      (MiddleEnd.Lower.emit .freshTemp >>= fun t =>
        MiddleEnd.Lower.record id (fun v => { v with temp := some t }) >>= fun _ => Pure.pure t)
      (Lower.emit (.freshTemp o) >>= fun t =>
        Lower.record id (fun v => { v with temp := some t }) >>= fun _ => Pure.pure t) := by
    refine (freshTemp kept).bind fun t => Follows.bind (record fun v => ?_) fun _ => pure t
    rfl
  refine get_bind (fun s => ?_) fun s s' here => ?_
  · cases s.symbols.variableAt id with
    | none => exact .refl s
    | some _ => exact bound.grows s
  · rw [here.symbols, SymbolTable.variableAt_read]
    cases s.symbols.variableAt id with
    | none => exact fail _ _
    | some _ => exact bound

end

end Follows
open MiddleEnd.Fixed.Follows

/-! ## The walk -/

variable {o : Overflow} {r : Reading} {beyond : Prop}

theorem lowerRef_follows (ref : Typed.Ref) :
    Keeps o r beyond r.nat (MiddleEnd.lowerRef ref) (lowerRef ref) := by
  obtain ⟨name, symbol, storage, ty, span⟩ := ref
  cases symbol with
  | none => exact fail _ _
  | some id =>
    cases storage with
    | none => exact fail _ _
    | some place =>
      cases place
      exact boundTemp name span

section

variable (kept : r = .exact ∨ o = .wraps)

include kept

theorem lowerExpr_follows (e : Typed.Expr) :
    Keeps o r beyond r.nat (MiddleEnd.lowerExpr e) (lowerExpr o e) := by
  induction e with
  | const value ty span => exact emitFresh kept fun _ => rfl
  | var ref ty span => exact lowerRef_follows ref
  | unary op operand ty span ih => exact ih.bind fun src => emitFresh kept fun _ => rfl
  | binary op left right ty span ihl ihr =>
    exact ihl.bind fun left => ihr.bind fun right => emitFresh kept fun _ => rfl
  | assign target value ty span ih =>
    refine (lowerRef_follows target).bind fun dst => ih.bind fun src => ?_
    exact (emit (.copy dst src)).bind fun _ => pure dst
  | cond test ifTrue ifFalse ty span iht iha ihb =>
    refine (freshTemp kept).bind fun result => (freshLabel kept).bind fun otherwise => ?_
    refine (freshLabel kept).bind fun done => iht.bind fun test => ?_
    refine (emit (.jumpIfZero otherwise test)).bind fun _ => iha.bind fun src => ?_
    refine (emit (.copy result src)).bind fun _ => (emit (.jump done)).bind fun _ => ?_
    refine (emit (.mark otherwise)).bind fun _ => ihb.bind fun src => ?_
    exact (emit (.copy result src)).bind fun _ => (emit (.mark done)).bind fun _ => pure result

theorem lowerEffect_follows (e : Typed.Expr) :
    Keeps o r beyond id (MiddleEnd.lowerEffect e) (lowerEffect o e) :=
  (lowerExpr_follows kept e).bind fun _ => pure ()

theorem lowerOption_follows (e : Option Typed.Expr) :
    Keeps o r beyond id (MiddleEnd.lowerOption e) (lowerOption o e) := by
  cases e with
  | none => exact pure ()
  | some e => exact lowerEffect_follows kept e

theorem lowerTest_follows (exit : Label) (test : Typed.Expr) :
    Keeps o r beyond id (MiddleEnd.lowerTest exit test) (lowerTest o (r.nat exit) test) :=
  (lowerExpr_follows kept test).bind fun test => emit (.jumpIfZero exit test)

theorem lowerTestOption_follows (exit : Label) (test : Option Typed.Expr) :
    Keeps o r beyond id (MiddleEnd.lowerTestOption exit test)
      (lowerTestOption o (r.nat exit) test) := by
  cases test with
  | none => exact pure ()
  | some test => exact lowerTest_follows kept exit test

theorem lowerVarDecl_follows (d : Typed.VarDecl) :
    Keeps o r beyond id (MiddleEnd.lowerVarDecl d) (lowerVarDecl o d) := by
  refine (bindTemp d.name d.span kept).bind fun dst => ?_
  cases d.init with
  | none => exact pure ()
  | some init => exact (lowerExpr_follows kept init).bind fun src => emit (.copy dst src)

theorem lowerForInit_follows (init : Option Typed.ForInit) :
    Keeps o r beyond id (MiddleEnd.lowerForInit init) (lowerForInit o init) := by
  match init with
  | none => exact pure ()
  | some (.decl d) => exact lowerVarDecl_follows kept d
  | some (.expr e) => exact lowerEffect_follows kept e

theorem lowerLoop_follows (test : Typed.Expr) {body : LoopTargets → MiddleEnd.Lower Unit}
    {body' : LoopTargets → Lower Unit}
    (inside : ∀ t, Keeps o r beyond id (body t) (body' (t.read r))) :
    Keeps o r beyond id (MiddleEnd.lowerLoop test body) (lowerLoop o test body') := by
  refine (freshLabel kept).bind fun top => (freshLabel kept).bind fun exit => ?_
  refine (emit (.mark top)).bind fun _ => (lowerTest_follows kept exit test).bind fun _ => ?_
  refine (inside ⟨exit, top⟩).bind fun _ => ?_
  exact (emit (.jump top)).bind fun _ => emit (.mark exit)

end

mutual

theorem lowerStmt_follows {o : Overflow} {r : Reading} {beyond : Prop}
    (kept : r = .exact ∨ o = .wraps) (targets : Option LoopTargets) (s : Typed.Stmt) :
    Keeps o r beyond id (MiddleEnd.lowerStmt targets s)
      (lowerStmt o (targets.map (LoopTargets.read r)) s) := by
  cases s with
  | decl d => exact lowerVarDecl_follows kept d
  | expr e => exact lowerEffect_follows kept e
  | empty => exact pure ()
  | block body => exact lowerStmts_follows kept targets body
  | ite test ifTrue ifFalse =>
    refine (freshLabel kept).bind fun otherwise => (freshLabel kept).bind fun done => ?_
    refine (lowerTest_follows kept otherwise test).bind fun _ => ?_
    refine (lowerStmt_follows kept targets ifTrue).bind fun _ => ?_
    refine (emit (.jump done)).bind fun _ => (emit (.mark otherwise)).bind fun _ => ?_
    exact (lowerStmt_follows kept targets ifFalse).bind fun _ => emit (.mark done)
  | whileDo test body | doWhile body test =>
    exact lowerLoop_follows kept test fun t => lowerStmt_follows kept (some t) body
  | forLoop init test step body =>
    refine (freshLabel kept).bind fun top => (freshLabel kept).bind fun exit => ?_
    refine (freshLabel kept).bind fun next => (lowerForInit_follows kept init).bind fun _ => ?_
    refine (emit (.mark top)).bind fun _ => ?_
    refine (lowerTestOption_follows kept exit test).bind fun _ => ?_
    refine (lowerStmt_follows kept (some ⟨exit, next⟩) body).bind fun _ => ?_
    refine (emit (.mark next)).bind fun _ => (lowerOption_follows kept step).bind fun _ => ?_
    exact (emit (.jump top)).bind fun _ => emit (.mark exit)
  | brk span =>
    cases targets with
    | none => exact fail _ _
    | some t => exact emit (.jump t.exit)
  | cont span =>
    cases targets with
    | none => exact fail _ _
    | some t => exact emit (.jump t.next)
  | ret value => exact (lowerExpr_follows kept value).bind fun value => emit (.ret value)

theorem lowerStmts_follows {o : Overflow} {r : Reading} {beyond : Prop}
    (kept : r = .exact ∨ o = .wraps) (targets : Option LoopTargets) (ss : List Typed.Stmt) :
    Keeps o r beyond id (MiddleEnd.lowerStmts targets ss)
      (lowerStmts o (targets.map (LoopTargets.read r)) ss) := by
  cases ss with
  | nil => exact pure ()
  | cons s rest =>
    exact (lowerStmt_follows kept targets s).bind fun _ => lowerStmts_follows kept targets rest

end

section

variable (kept : r = .exact ∨ o = .wraps)

include kept

theorem bindParams_follows (order : Nat) (ps : List Typed.Param) :
    Keeps o r beyond (List.map r.nat) (MiddleEnd.bindParams order ps) (bindParams o order ps) := by
  induction ps generalizing order with
  | nil => exact pure []
  | cons p rest ih =>
    refine (bindTemp p.name p.span kept).bind fun t => ?_
    refine Follows.bind (record fun _ => rfl) fun _ => ?_
    exact (ih (order + 1)).bind fun ts => pure (t :: ts)

theorem lowerImplicitReturn_follows (config : Config) :
    Keeps o r beyond id (MiddleEnd.lowerImplicitReturn config.unbounded)
      (lowerImplicitReturn o config) := by
  unfold MiddleEnd.lowerImplicitReturn lowerImplicitReturn
  cases returns : config.implicitReturn with
  | true =>
    rw [if_pos (show config.unbounded.implicitReturn = true from returns), if_pos rfl]
    exact (emitFresh kept fun _ => rfl).bind fun value => emit (.ret value)
  | false =>
    rw [if_neg (by simp [Config.unbounded, returns]), if_neg nofun]
    exact pure ()

end

/-! ## Functions -/

/-- A word holds the bytes that each of a number of parameters takes, all in a row. -/
def ParamsFit (config : Config) (f : Typed.Function) : Prop :=
  f.params.length < 2147483648 ∧ Signed (f.params.length * config.pointerSize.toInt)

/-- As many parameters are bound as there are. -/
theorem length_of_bindParams {order : Nat} {ps : List Typed.Param} {s t : MiddleEnd.Lowering}
    {temps : List Temp} (h : MiddleEnd.bindParams order ps s = .ok temps t) :
    temps.length = ps.length := by
  induction ps generalizing order s t temps with
  | nil =>
    cases h
    rfl
  | cons p rest ih =>
    obtain ⟨_, _, -, h⟩ := bind_eq_ok.1 h
    obtain ⟨_, _, -, h⟩ := bind_eq_ok.1 h
    obtain ⟨others, _, bound, h⟩ := bind_eq_ok.1 h
    cases h
    exact congrArg Nat.succ (ih bound)

/-- States that agree, where the next parameter is placed at `offset`. -/
def Placing (r : Reading) (offset : Int) (s : MiddleEnd.Lowering) (s' : Lowering) : Prop :=
  Agree r s s' ∧ s.emitter.paramOffset = offset

/-- A step that keeps states in agreement and places nothing. -/
theorem Follows.placing {α α' : Type} {answer : α → α'} {x : MiddleEnd.Lower α} {x' : Lower α'}
    {offset : Int} (h : Keeps o r beyond answer x x')
    (still : ∀ s, (lastState (x s)).emitter.paramOffset = s.emitter.paramOffset) :
    Follows o r beyond (Placing r offset) (Placing r offset) answer x x' := by
  refine ⟨h.grows, ?_⟩
  rintro s s' ⟨here, rfl⟩
  have still := still s
  have ends := h.ends s s' here
  generalize x s = result at ends still
  generalize x' s' = result' at ends
  cases ends with
  | ok there => exact .ok ⟨there, still⟩
  | error there => exact .error there
  | overflow exact excess stops => exact .overflow exact excess stops

theorem resetOffset_follows :
    Follows o r beyond (Agree r) (Placing r 0) id (MiddleEnd.Lower.emit .resetOffset)
      (Lower.emit .resetOffset) := by
  refine ⟨fun s => ⟨Nat.le_refl _, Nat.le_refl _⟩, fun s s' here => .ok (a := ()) ⟨?_, rfl⟩⟩
  exact { here with paramOffset := by cases r <;> rfl }

section

variable (kept : r = .exact ∨ o = .wraps)

include kept

theorem nextOffset_follows {offset : Int} (size : Int32)
    (room : ¬Signed (offset + size.toInt) → beyond) :
    Follows o r beyond (Placing r offset) (Placing r (offset + size.toInt)) r.int
      (MiddleEnd.Lower.emit (.nextOffset size.toInt)) (Lower.emit (.nextOffset o size)) := by
  refine ⟨fun s => ⟨Nat.le_refl _, Nat.le_refl _⟩, ?_⟩
  rintro s s' ⟨here, rfl⟩
  rcases Reading.add kept (b := size) here.paramOffset with
    ⟨sum, added, shown⟩ | ⟨exact, big, stops⟩
  · rw [Lower.emit_of_ok (Emit.nextOffset_of_add added), here.paramOffset]
    exact .ok (a := s.emitter.paramOffset) ⟨{ here with paramOffset := shown }, rfl⟩
  · refine .overflow exact (.inr (room big)) fun stopped => ⟨s', ?_⟩
    exact Lower.emit_of_error (Emit.nextOffset_of_overflow (stops stopped))

theorem placeParams_follows (size : Int32) (ps : List Typed.Param) {placed n : Nat} {offset : Int}
    (reached : offset = placed * size.toInt) (counted : placed + ps.length = n)
    (room : ¬Signed (n * size.toInt) → beyond) :
    Follows o r beyond (Placing r offset) (Placing r (n * size.toInt)) id
      (MiddleEnd.placeParams size.toInt ps) (placeParams o size ps) := by
  induction ps generalizing placed offset with
  | nil =>
    obtain rfl : placed = n := counted
    rw [← reached]
    exact pure ()
  | cons p rest ih =>
    have next : offset + size.toInt = (placed + 1 : Nat) * size.toInt := by
      rw [reached]
      grind
    rw [List.length_cons, Nat.add_comm rest.length, ← Nat.add_assoc] at counted
    refine Follows.bind (nextOffset_follows kept size fun big => room fun fits => big ?_)
      fun offset => Follows.bind (.placing (record fun _ => rfl) fun _ => rfl) fun _ =>
        ih next counted
    rw [next]
    exact signed_mul_of_le (Nat.le_trans (Nat.le_add_right _ _) (Nat.le_of_eq counted)) fits

/-- The bytes of all parameters, behind the last of which the next one would be placed. -/
theorem word_follows (size : Int32) {n : Nat} (room : ¬n < 2147483648 → beyond)
    {T : MiddleEnd.Lowering → Lowering → Prop} {α α' : Type} {answer : α → α'}
    {x : MiddleEnd.Lower α} {x' : Int → Lower α'}
    (h : Follows o r beyond (Agree r) T answer x (x' (r.int (n * size.toInt)))) :
    Follows o r beyond (Placing r (n * size.toInt)) T answer x
      (Lower.word (o.mul (.ofNat n) size) >>= x') := by
  refine ⟨h.grows, ?_⟩
  rintro s s' ⟨here, offset⟩
  cases product : o.mul (.ofNat n) size with
  | some bytes =>
    have shown : bytes.toInt = r.int (n * size.toInt) := by
      rw [Overflow.toInt_of_mul product, Int32.toInt_ofNat', show Int32.size = UInt32.size from rfl,
        Int.bmod_mul_bmod]
      cases r with
      | exact =>
        -- the last offset is a word, and it is these bytes
        have held := signed_toInt s'.emitter.paramOffset
        rw [here.paramOffset, offset] at held
        exact held.bmod_eq
      | wrapped => rfl
    rw [← shown] at h
    exact h.ends s s' here
  | none =>
    obtain ⟨rfl, big⟩ := Overflow.mul_eq_none_iff.1 product
    obtain rfl := kept.resolve_right nofun
    refine .overflow rfl (.inr (room fun few => big ?_)) fun _ => ⟨s', rfl⟩
    have held := signed_toInt s'.emitter.paramOffset
    rw [here.paramOffset, offset] at held
    rwa [Int32.toInt_ofNat_of_lt few]

theorem lowerFunction_follows (config : Config) (f : Typed.Function)
    (room : ¬ParamsFit config f → beyond) :
    Keeps o r beyond id (MiddleEnd.lowerFunction config.unbounded f)
      (lowerFunction o config f) := by
  refine (function f.name f.span).bind fun info => ?_
  refine Follows.bind (recordFunction fun _ => rfl) fun _ => ?_
  refine (bindParams_follows kept 0 f.params).bind_of_answers ?_
  rintro params ⟨s, t, bound⟩
  have length := length_of_bindParams bound
  refine resetOffset_follows.bind fun _ => ?_
  refine Follows.bind (placeParams_follows kept config.pointerSize f.params (Int.zero_mul _).symm
    (Nat.zero_add _) fun big => room fun fits => big fits.2) fun _ => ?_
  rw [List.length_map, length]
  refine word_follows kept config.pointerSize (fun many => room fun fits => many fits.1) ?_
  refine Follows.bind (recordFunction fun _ => rfl) fun _ => (function f.name f.span).bind ?_
  refine fun info => (start info params).bind fun _ => ?_
  refine (lowerStmts_follows kept none f.body).bind fun _ => ?_
  exact (lowerImplicitReturn_follows kept config).bind fun _ => finish

theorem lowerFunctions_follows (config : Config) (p : Typed.Program)
    (room : ∀ f ∈ p.functions, ¬ParamsFit config f → beyond) :
    Keeps o r beyond id (MiddleEnd.lowerFunctions config.unbounded p)
      (lowerFunctions o config p) := by
  unfold MiddleEnd.lowerFunctions lowerFunctions
  generalize p.functions = fs at room
  induction fs with
  | nil => exact pure ()
  | cons f rest ih =>
    obtain ⟨first, others⟩ := List.forall_mem_cons.1 room
    exact (lowerFunction_follows kept config f first).bind fun _ => ih others

end

/-! ## Programs -/

/-- No result of a lowering is one that no word holds. -/
structure Fits (config : Config) (t : SymbolTable) (p : Typed.Program) : Prop where
  /-- The unbounded counters end within a word, also if the lowering fails. -/
  counters : ¬Spent (lastState (MiddleEnd.lowerFunctions config.unbounded p { symbols := t }))
  params : ∀ f ∈ p.functions, ParamsFit config f

/-- What words show of the outcome of a lowering. -/
def readOutcome (r : Reading) :
    Except Error Code × SymbolTable → Except Stop Code × SymbolTable
  | (.ok code, t) => (.ok (code.read r), t.read r)
  | (.error e, t) => (.error (.error e), t.read r)

theorem Agree.start (r : Reading) (t : SymbolTable) :
    Agree r { symbols := t } { symbols := t.read r } := by
  cases r <;> exact ⟨rfl, rfl, rfl, rfl, rfl, rfl⟩

/-- A lowering in words shows what the unbounded one makes, or some result was one that no word
holds. -/
theorem lowerProgram_follows (kept : r = .exact ∨ o = .wraps) (config : Config) (t : SymbolTable)
    (p : Typed.Program) :
    lowerProgram o config (t.read r) p =
        readOutcome r (MiddleEnd.lowerProgram config.unbounded t p) ∨
      r = .exact ∧ ¬Fits config t p ∧
        (o = .stops → (lowerProgram o config (t.read r) p).1 = .error .overflow) := by
  have room : ∀ f ∈ p.functions, ¬ParamsFit config f → ∃ f ∈ p.functions, ¬ParamsFit config f :=
    fun f mem big => ⟨f, mem, big⟩
  have follows := lowerFunctions_follows kept config p room
  have ends := follows.ends _ _ (Agree.start r t)
  unfold lowerProgram MiddleEnd.lowerProgram EStateM.run
  generalize ran : MiddleEnd.lowerFunctions config.unbounded p { symbols := t } = result at ends
  generalize lowerFunctions o config p { symbols := t.read r } = result' at ends
  cases ends with
  | ok there =>
    refine .inl (Prod.ext (congrArg Except.ok ?_) there.symbols)
    exact congrArg Code.mk there.finished
  | error there => exact .inl (Prod.ext rfl there.symbols)
  | overflow exact excess stops =>
    refine .inr ⟨exact, fun fits => ?_, fun stopped => ?_⟩
    · rcases excess with spent | ⟨f, mem, big⟩
      · exact fits.counters (ran ▸ spent)
      · exact big (fits.params f mem)
    · obtain ⟨t', rfl⟩ := stops stopped
      rfl

/-- A lowering in words that overflow does not stop makes what the unbounded one makes, with its
numbers modulo `2 ^ 32`. -/
theorem lowerProgram_wraps (config : Config) (t : SymbolTable) (p : Typed.Program) :
    lowerProgram .wraps config (t.read .wrapped) p =
      readOutcome .wrapped (MiddleEnd.lowerProgram config.unbounded t p) :=
  (lowerProgram_follows (.inr rfl) config t p).resolve_right nofun

/-- Where words hold all results, a lowering in words makes what the unbounded one makes. -/
theorem lowerProgram_of_fits (o : Overflow) {config : Config} {t : SymbolTable} {p : Typed.Program}
    (fits : Fits config t p) :
    lowerProgram o config t p =
      readOutcome .exact (MiddleEnd.lowerProgram config.unbounded t p) := by
  have follows := lowerProgram_follows (.inl rfl) (o := o) config t p
  rw [SymbolTable.read_exact] at follows
  exact follows.resolve_right fun excess => excess.2.1 fits

/-- A lowering in words that overflow stops makes what the unbounded one makes or is stopped. -/
theorem lowerProgram_stops (config : Config) (t : SymbolTable) (p : Typed.Program) :
    lowerProgram .stops config t p =
        readOutcome .exact (MiddleEnd.lowerProgram config.unbounded t p) ∨
      ¬Fits config t p ∧ (lowerProgram .stops config t p).1 = .error .overflow := by
  have follows := lowerProgram_follows (.inl rfl) (o := .stops) config t p
  rw [SymbolTable.read_exact] at follows
  exact follows.imp_right fun excess => ⟨excess.2.1, excess.2.2 rfl⟩

end Fixed
end MiddleEnd
