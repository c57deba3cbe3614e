import MiddleEnd.Code.Lower
import MiddleEnd.Proofs.Steps

/-!
# The shape of lowered code

Lowering is a monadic walk. This module says what a walk that succeeds leaves behind, without the
monad: `ExprCode e c t code c'` means that `e`, lowered with the counters and bindings of `c`, emits
`code`, answers `t` and ends with those of `c'`. There is one rule for each construct, and the rules
are read off the table of patterns of the lowering. `lowerExpr_shape`, `lowerStmt_shape` and
`lowerProgram_shape` say that the walk does nothing else.

The statements of a block are lowered one after the other, so a list of statements has the shape of
the block around it and needs no relation of its own.
-/

namespace MiddleEnd

/-- What lowering has numbered and bound so far. -/
structure Cursor where
  temps : Temp
  labels : Label
  symbols : SymbolTable

/-- The temporary that a variable is bound to. -/
def SymbolTable.tempOf (t : SymbolTable) (id : SymbolId) : Option Temp :=
  (t.variableAt id).bind VariableInfo.temp

namespace SymbolTable

theorem tempOf_modifyVariable (t : SymbolTable) (id other : SymbolId)
    (f : VariableInfo → VariableInfo) :
    (t.modifyVariable id f).tempOf other =
      if id = other then ((t.variableAt other).map f).bind VariableInfo.temp
      else t.tempOf other := by
  unfold tempOf
  rw [variableAt_modifyVariable]
  split <;> rfl

/-- What is recorded beside the temporary does not move a variable. -/
theorem tempOf_modifyVariable_of_temp {f : VariableInfo → VariableInfo}
    (same : ∀ v, (f v).temp = v.temp) (t : SymbolTable) (id : SymbolId) :
    (t.modifyVariable id f).tempOf = t.tempOf := by
  funext other
  rw [tempOf_modifyVariable]
  unfold tempOf
  split
  · cases t.variableAt other <;> simp [same]
  · rfl

theorem tempOf_modifyFunction (t : SymbolTable) (id : SymbolId) (f : FunctionInfo → FunctionInfo) :
    (t.modifyFunction id f).tempOf = t.tempOf := by
  funext other
  rw [tempOf, variableAt_modifyFunction, tempOf]

end SymbolTable

namespace Cursor

/-- One temporary later. -/
def takeTemp (c : Cursor) : Cursor := { c with temps := c.temps + 1 }

/-- Some labels later. -/
def takeLabels (c : Cursor) (n : Nat) : Cursor := { c with labels := c.labels + n }

/-- A variable bound to the next temporary. -/
def bind (c : Cursor) (id : SymbolId) : Cursor :=
  { c with
    temps := c.temps + 1
    symbols := c.symbols.modifyVariable id fun v => { v with temp := some c.temps } }

@[simp] theorem takeTemp_temps (c : Cursor) : c.takeTemp.temps = c.temps + 1 := rfl

@[simp] theorem takeTemp_labels (c : Cursor) : c.takeTemp.labels = c.labels := rfl

@[simp] theorem takeTemp_symbols (c : Cursor) : c.takeTemp.symbols = c.symbols := rfl

@[simp] theorem takeLabels_temps (c : Cursor) (n : Nat) : (c.takeLabels n).temps = c.temps := rfl

@[simp] theorem takeLabels_labels (c : Cursor) (n : Nat) :
    (c.takeLabels n).labels = c.labels + n := rfl

@[simp] theorem takeLabels_symbols (c : Cursor) (n : Nat) :
    (c.takeLabels n).symbols = c.symbols := rfl

@[simp] theorem takeLabels_takeLabels (c : Cursor) (m n : Nat) :
    (c.takeLabels m).takeLabels n = c.takeLabels (m + n) := by
  simp [takeLabels, Nat.add_assoc]

@[simp] theorem bind_temps (c : Cursor) (id : SymbolId) : (c.bind id).temps = c.temps + 1 := rfl

@[simp] theorem bind_labels (c : Cursor) (id : SymbolId) : (c.bind id).labels = c.labels := rfl

/-- Something recorded about a variable. -/
def record (c : Cursor) (id : SymbolId) (f : VariableInfo → VariableInfo) : Cursor :=
  { c with symbols := c.symbols.modifyVariable id f }

/-- Something recorded about a function. -/
def recordFunction (c : Cursor) (id : SymbolId) (f : FunctionInfo → FunctionInfo) : Cursor :=
  { c with symbols := c.symbols.modifyFunction id f }

@[simp] theorem recordFunction_labels (c : Cursor) (id : SymbolId)
    (f : FunctionInfo → FunctionInfo) : (c.recordFunction id f).labels = c.labels := rfl

end Cursor

/-- A reference that lowering turns into `t`. -/
def Typed.Ref.BoundTo (r : Typed.Ref) (symbols : SymbolTable) (t : Temp) : Prop :=
  ∃ id, r.symbol = some id ∧ r.storage = some .frame ∧ symbols.tempOf id = some t

/-! ## Expressions -/

/-- The code of an expression. A conditional takes its result temporary and its labels before its
parts are lowered. -/
inductive ExprCode : Typed.Expr → Cursor → Temp → List Instr → Cursor → Prop
  | const {value : Int} {ty : Ty} {span : Span} {c : Cursor} :
      ExprCode (.const value ty span) c c.temps [.load c.temps value] c.takeTemp
  | var {r : Typed.Ref} {ty : Ty} {span : Span} {c : Cursor} {t : Temp} :
      r.BoundTo c.symbols t → ExprCode (.var r ty span) c t [] c
  | unary {op : UnaryOp} {operand : Typed.Expr} {ty : Ty} {span : Span} {c c' : Cursor} {src : Temp}
      {code : List Instr} :
      ExprCode operand c src code c' →
      ExprCode (.unary op operand ty span) c c'.temps (code ++ [.unary op c'.temps src]) c'.takeTemp
  | binary {op : BinaryOp} {left right : Typed.Expr} {ty : Ty} {span : Span} {c c₁ c₂ : Cursor}
      {l r : Temp} {code₁ code₂ : List Instr} :
      ExprCode left c l code₁ c₁ → ExprCode right c₁ r code₂ c₂ →
      ExprCode (.binary op left right ty span) c c₂.temps
        (code₁ ++ code₂ ++ [.binary op c₂.temps l r]) c₂.takeTemp
  | assign {target : Typed.Ref} {value : Typed.Expr} {ty : Ty} {span : Span} {c c' : Cursor}
      {dst src : Temp} {code : List Instr} :
      target.BoundTo c.symbols dst → ExprCode value c src code c' →
      ExprCode (.assign target value ty span) c dst (code ++ [.copy dst src]) c'
  | cond {test ifTrue ifFalse : Typed.Expr} {ty : Ty} {span : Span} {c c₁ c₂ c₃ : Cursor}
      {t t₁ t₂ : Temp} {code₁ code₂ code₃ : List Instr} :
      ExprCode test (c.takeTemp.takeLabels 2) t code₁ c₁ →
      ExprCode ifTrue c₁ t₁ code₂ c₂ → ExprCode ifFalse c₂ t₂ code₃ c₃ →
      ExprCode (.cond test ifTrue ifFalse ty span) c c.temps
        (code₁ ++ .jumpIfZero c.labels t :: code₂ ++ .copy c.temps t₁ :: .jump (c.labels + 1) ::
          .mark c.labels :: code₃ ++ [.copy c.temps t₂, .mark (c.labels + 1)]) c₃

/-- The code of an expression whose value is dropped, or of no expression. -/
inductive EffectCode : Option Typed.Expr → Cursor → List Instr → Cursor → Prop
  | none {c : Cursor} : EffectCode none c [] c
  | some {e : Typed.Expr} {c c' : Cursor} {t : Temp} {code : List Instr} :
      ExprCode e c t code c' → EffectCode (some e) c code c'

/-- The code of a test that jumps to `exit` on zero, or of no test. -/
inductive TestCode (exit : Label) : Option Typed.Expr → Cursor → List Instr → Cursor → Prop
  | none {c : Cursor} : TestCode exit none c [] c
  | some {test : Typed.Expr} {c c' : Cursor} {t : Temp} {code : List Instr} :
      ExprCode test c t code c' →
      TestCode exit (some test) c (code ++ [.jumpIfZero exit t]) c'

/-! ## Statements -/

/-- The code of a declaration. The variable is bound before its initializer is lowered. -/
inductive VarDeclCode : Typed.VarDecl → Cursor → List Instr → Cursor → Prop
  | plain {d : Typed.VarDecl} {c : Cursor} :
      (c.symbols.variableAt d.symbol).isSome → d.init = none →
      VarDeclCode d c [] (c.bind d.symbol)
  | init {d : Typed.VarDecl} {init : Typed.Expr} {c c' : Cursor} {src : Temp} {code : List Instr} :
      (c.symbols.variableAt d.symbol).isSome → d.init = some init →
      ExprCode init (c.bind d.symbol) src code c' →
      VarDeclCode d c (code ++ [.copy c.temps src]) c'

/-- The code of the first clause of a `for`. -/
inductive ForInitCode : Option Typed.ForInit → Cursor → List Instr → Cursor → Prop
  | none {c : Cursor} : ForInitCode none c [] c
  | decl {d : Typed.VarDecl} {c c' : Cursor} {code : List Instr} :
      VarDeclCode d c code c' → ForInitCode (some (.decl d)) c code c'
  | expr {e : Typed.Expr} {c c' : Cursor} {t : Temp} {code : List Instr} :
      ExprCode e c t code c' → ForInitCode (some (.expr e)) c code c'

/-- The condition and the body of a loop that tests first. A `do` is one of them. -/
def Typed.Stmt.loop? : Typed.Stmt → Option (Typed.Expr × Typed.Stmt)
  | .whileDo test body | .doWhile body test => some (test, body)
  | _ => none

/-- The code of a statement in the loop of `targets`. Labels are taken before the parts are
lowered, and a loop hands its own targets to its body. -/
inductive StmtCode : Option LoopTargets → Typed.Stmt → Cursor → List Instr → Cursor → Prop
  | decl {targets : Option LoopTargets} {d : Typed.VarDecl} {c c' : Cursor} {code : List Instr} :
      VarDeclCode d c code c' → StmtCode targets (.decl d) c code c'
  | expr {targets : Option LoopTargets} {e : Typed.Expr} {c c' : Cursor} {t : Temp}
      {code : List Instr} :
      ExprCode e c t code c' → StmtCode targets (.expr e) c code c'
  | empty {targets : Option LoopTargets} {c : Cursor} : StmtCode targets .empty c [] c
  | done {targets : Option LoopTargets} {c : Cursor} : StmtCode targets (.block []) c [] c
  | next {targets : Option LoopTargets} {s : Typed.Stmt} {rest : List Typed.Stmt} {c c₁ c₂ : Cursor}
      {code₁ code₂ : List Instr} :
      StmtCode targets s c code₁ c₁ → StmtCode targets (.block rest) c₁ code₂ c₂ →
      StmtCode targets (.block (s :: rest)) c (code₁ ++ code₂) c₂
  | ite {targets : Option LoopTargets} {test : Typed.Expr} {ifTrue ifFalse : Typed.Stmt}
      {c c₁ c₂ c₃ : Cursor} {code₁ code₂ code₃ : List Instr} :
      TestCode c.labels (some test) (c.takeLabels 2) code₁ c₁ →
      StmtCode targets ifTrue c₁ code₂ c₂ → StmtCode targets ifFalse c₂ code₃ c₃ →
      StmtCode targets (.ite test ifTrue ifFalse) c
        (code₁ ++ code₂ ++ .jump (c.labels + 1) :: .mark c.labels :: code₃ ++
          [.mark (c.labels + 1)]) c₃
  | loop {targets : Option LoopTargets} {s body : Typed.Stmt} {test : Typed.Expr}
      {c c₁ c₂ : Cursor} {code₁ code₂ : List Instr} :
      s.loop? = some (test, body) →
      TestCode (c.labels + 1) (some test) (c.takeLabels 2) code₁ c₁ →
      StmtCode (some ⟨c.labels + 1, c.labels⟩) body c₁ code₂ c₂ →
      StmtCode targets s c
        (.mark c.labels :: code₁ ++ code₂ ++ [.jump c.labels, .mark (c.labels + 1)]) c₂
  | forLoop {targets : Option LoopTargets} {init : Option Typed.ForInit}
      {test step : Option Typed.Expr} {body : Typed.Stmt} {c c₁ c₂ c₃ c₄ : Cursor}
      {code₁ code₂ code₃ code₄ : List Instr} :
      ForInitCode init (c.takeLabels 3) code₁ c₁ →
      TestCode (c.labels + 1) test c₁ code₂ c₂ →
      StmtCode (some ⟨c.labels + 1, c.labels + 2⟩) body c₂ code₃ c₃ →
      EffectCode step c₃ code₄ c₄ →
      StmtCode targets (.forLoop init test step body) c
        (code₁ ++ .mark c.labels :: code₂ ++ code₃ ++ .mark (c.labels + 2) :: code₄ ++
          [.jump c.labels, .mark (c.labels + 1)]) c₄
  | brk {t : LoopTargets} {span : Span} {c : Cursor} :
      StmtCode (some t) (.brk span) c [.jump t.exit] c
  | cont {t : LoopTargets} {span : Span} {c : Cursor} :
      StmtCode (some t) (.cont span) c [.jump t.next] c
  | ret {targets : Option LoopTargets} {value : Typed.Expr} {c c' : Cursor} {t : Temp}
      {code : List Instr} :
      ExprCode value c t code c' → StmtCode targets (.ret value) c (code ++ [.ret t]) c'

/-! ## Functions -/

/-- The parameters, bound in order to `temps`. -/
inductive ParamsCode : Nat → List Typed.Param → Cursor → List Temp → Cursor → Prop
  | nil {order : Nat} {c : Cursor} : ParamsCode order [] c [] c
  | cons {order : Nat} {p : Typed.Param} {rest : List Typed.Param} {c c' : Cursor}
      {temps : List Temp} :
      (c.symbols.variableAt p.symbol).isSome →
      ParamsCode (order + 1) rest
        ((c.bind p.symbol).record p.symbol fun v => { v with order := some order }) temps c' →
      ParamsCode order (p :: rest) c (c.temps :: temps) c'

/-- The places of parameters recorded from `offset` on. -/
def Cursor.placeParams (size : Int) : Int → List Typed.Param → Cursor → Cursor
  | _, [], c => c
  | offset, p :: rest, c =>
    Cursor.placeParams size (offset + size) rest
      (c.record p.symbol fun v => { v with offset := some offset })

/-- The code that ends a function, where the settings ask for it. -/
inductive ImplicitReturnCode (config : Config) : Cursor → List Instr → Cursor → Prop
  | on {c : Cursor} : config.implicitReturn = true →
      ImplicitReturnCode config c [.load c.temps 0, .ret c.temps] c.takeTemp
  | off {c : Cursor} : config.implicitReturn = false → ImplicitReturnCode config c [] c

/-- The piece of a function. -/
inductive FunctionCode (config : Config) : Typed.Function → Cursor → Piece → Cursor → Prop
  | mk {f : Typed.Function} {info entered : FunctionInfo} {c c₁ c₂ c₃ c₄ : Cursor}
      {temps : List Temp} {code ending : List Instr} :
      c.symbols.functionAt f.symbol = some info →
      ParamsCode 0 f.params
        (c.recordFunction f.symbol fun g => { g with entry := some info.name }) temps c₁ →
      c₂ = (c₁.placeParams config.pointerSize 0 f.params).recordFunction f.symbol
        (fun g => { g with offset := temps.length * config.pointerSize }) →
      c₂.symbols.functionAt f.symbol = some entered →
      StmtCode none (.block f.body) c₂ code c₃ →
      ImplicitReturnCode config c₃ ending c₄ →
      FunctionCode config f c ⟨entered.entryName, entered.offset, temps, code ++ ending⟩ c₄

/-- The pieces of functions lowered one after the other. -/
inductive FunctionsCode (config : Config) :
    List Typed.Function → Cursor → List Piece → Cursor → Prop
  | nil {c : Cursor} : FunctionsCode config [] c [] c
  | cons {f : Typed.Function} {rest : List Typed.Function} {c c₁ c₂ : Cursor} {piece : Piece}
      {pieces : List Piece} :
      FunctionCode config f c piece c₁ → FunctionsCode config rest c₁ pieces c₂ →
      FunctionsCode config (f :: rest) c (piece :: pieces) c₂

/-! ## The walk -/

namespace Lowering

/-- Where a lowering stands. -/
def cursor (s : Lowering) : Cursor := ⟨s.emitter.temps, s.emitter.labels, s.symbols⟩

/-- A lowering after some code was emitted, standing at `c`. -/
def after (s : Lowering) (code : List Instr) (c : Cursor) : Lowering where
  emitter :=
    { s.emitter with
      temps := c.temps
      labels := c.labels
      current := s.emitter.current.map fun piece => { piece with body := piece.body ++ code } }
  symbols := c.symbols

@[simp] theorem cursor_after (s : Lowering) (code : List Instr) (c : Cursor) :
    (s.after code c).cursor = c := rfl

@[simp] theorem after_after (s : Lowering) (code₁ code₂ : List Instr) (c₁ c₂ : Cursor) :
    (s.after code₁ c₁).after code₂ c₂ = s.after (code₁ ++ code₂) c₂ := by
  cases s with
  | mk emitter symbols => cases h : emitter.current <;> simp [after, h]

theorem after_nil_symbols (s : Lowering) (t : SymbolTable) :
    s.after [] { s.cursor with symbols := t } = { s with symbols := t } := by
  cases s with
  | mk emitter symbols =>
    cases emitter with
    | mk temps labels paramOffset current finished => cases current <;> simp [after, cursor]

@[simp] theorem after_nil_cursor (s : Lowering) : s.after [] s.cursor = s :=
  after_nil_symbols s s.symbols

@[simp] theorem current_after_isSome (s : Lowering) (code : List Instr) (c : Cursor) :
    (s.after code c).emitter.current.isSome = s.emitter.current.isSome := by
  simp [after]

end Lowering

namespace Lower

theorem fail_ne_ok {cause : Cause} {pos : Pos} {s s' : Lowering} {a : α} :
    (fail cause pos : Lower α) s ≠ .ok a s' := nofun

/-- An instruction is emitted if a function is open. -/
theorem emit_eq_ok {i : Instr} {s s' : Lowering} {a : Unit} :
    Lower.emit (Emit.emit i) s = .ok a s' ↔
      s.emitter.current.isSome ∧ s' = s.after [i] s.cursor := by
  cases h : s.emitter.current with
  | none => simp [Lower.emit, EStateM.run, Emit.emit_of_closed i h]
  | some piece =>
    simp [Lower.emit, EStateM.run, Emit.emit_of_open i h, Lowering.after, Lowering.cursor, h,
      eq_comm]

/-- An instruction that writes is emitted if a function is open, and it writes the next
temporary. -/
theorem emitFresh_eq_ok {write : Temp → Instr} {s s' : Lowering} {t : Temp} :
    Lower.emit (Emit.emitFresh write) s = .ok t s' ↔
      s.emitter.current.isSome ∧ t = s.cursor.temps ∧
        s' = s.after [write s.cursor.temps] s.cursor.takeTemp := by
  cases h : s.emitter.current with
  | none => simp [Lower.emit, EStateM.run, Emit.emitFresh_of_closed write h]
  | some piece =>
    simp [Lower.emit, EStateM.run, Emit.emitFresh_of_open write h, Lowering.after, Lowering.cursor,
      Cursor.takeTemp, h, eq_comm]

theorem freshTemp_eq (s : Lowering) :
    Lower.emit .freshTemp s = .ok s.cursor.temps (s.after [] s.cursor.takeTemp) := by
  cases h : s.emitter.current <;>
    simp [Lower.emit, EStateM.run, Emit.freshTemp, Lowering.after, Lowering.cursor,
      Cursor.takeTemp, h]

theorem freshLabel_eq (s : Lowering) :
    Lower.emit .freshLabel s = .ok s.cursor.labels (s.after [] (s.cursor.takeLabels 1)) := by
  cases h : s.emitter.current <;>
    simp [Lower.emit, EStateM.run, Emit.freshLabel, Lowering.after, Lowering.cursor,
      Cursor.takeLabels, h]

/-- Taking a temporary never fails. -/
theorem freshTemp_bind (f : Temp → Lower β) (s : Lowering) :
    (Lower.emit .freshTemp >>= f) s = f s.cursor.temps (s.after [] s.cursor.takeTemp) :=
  bind_of_ok (freshTemp_eq ..)

/-- Taking a label never fails. -/
theorem freshLabel_bind (f : Label → Lower β) (s : Lowering) :
    (Lower.emit .freshLabel >>= f) s = f s.cursor.labels (s.after [] (s.cursor.takeLabels 1)) :=
  bind_of_ok (freshLabel_eq ..)

theorem emit_bind_eq_ok {i : Instr} {f : Unit → Lower β} {s s' : Lowering} {b : β} :
    (Lower.emit (Emit.emit i) >>= f) s = .ok b s' ↔
      s.emitter.current.isSome ∧ f () (s.after [i] s.cursor) = .ok b s' := by
  rw [bind_eq_ok]
  constructor
  · rintro ⟨_, _, emitted, rest⟩
    obtain ⟨opened, rfl⟩ := emit_eq_ok.1 emitted
    exact ⟨opened, rest⟩
  · rintro ⟨opened, rest⟩
    exact ⟨(), _, emit_eq_ok.2 ⟨opened, rfl⟩, rest⟩

theorem boundTemp_eq_ok {id : SymbolId} {name : String} {span : Span} {s s' : Lowering} {t : Temp} :
    boundTemp id name span s = .ok t s' ↔ s.symbols.tempOf id = some t ∧ s' = s := by
  unfold boundTemp SymbolTable.tempOf
  rw [get_bind]
  cases (s.symbols.variableAt id).bind VariableInfo.temp with
  | none => simp [fail_ne_ok]
  | some u => simp [pure_eq_ok, eq_comm]

theorem bindTemp_eq_ok {id : SymbolId} {name : String} {span : Span} {s s' : Lowering} {t : Temp} :
    bindTemp id name span s = .ok t s' ↔
      (s.symbols.variableAt id).isSome ∧ t = s.cursor.temps ∧
        s' = s.after [] (s.cursor.bind id) := by
  unfold bindTemp
  rw [get_bind]
  cases s.symbols.variableAt id with
  | none => simp [fail_ne_ok]
  | some v =>
    simp only [freshTemp_bind, Option.isSome_some, true_and]
    show EStateM.Result.ok _ _ = EStateM.Result.ok t s' ↔ _
    simp [Lowering.after, Cursor.bind, Cursor.takeTemp, eq_comm]

end Lower

open Lower Lowering Cursor

theorem lowerRef_eq_ok {r : Typed.Ref} {s s' : Lowering} {t : Temp} :
    lowerRef r s = .ok t s' ↔ r.BoundTo s.symbols t ∧ s' = s := by
  unfold lowerRef Typed.Ref.BoundTo
  cases r.symbol with
  | none => simp [fail_ne_ok]
  | some id =>
    cases r.storage with
    | none => simp [fail_ne_ok]
    | some place =>
      cases place
      simp [boundTemp_eq_ok]

/-- Lowering an expression emits its code and nothing else. -/
theorem lowerExpr_shape {e : Typed.Expr} {s s' : Lowering} {t : Temp}
    (h : lowerExpr e s = .ok t s') :
    ∃ code c, ExprCode e s.cursor t code c ∧ s' = s.after code c := by
  induction e generalizing s s' t with
  | const value ty span =>
    obtain ⟨-, rfl, rfl⟩ := emitFresh_eq_ok.1 h
    exact ⟨_, _, .const, rfl⟩
  | var r ty span =>
    obtain ⟨bound, rfl⟩ := lowerRef_eq_ok.1 h
    exact ⟨_, _, .var bound, by simp⟩
  | unary op operand ty span ih =>
    obtain ⟨src, s₁, lowered, emitted⟩ := bind_eq_ok.1 h
    obtain ⟨code, c, shape, rfl⟩ := ih lowered
    obtain ⟨-, rfl, rfl⟩ := emitFresh_eq_ok.1 emitted
    exact ⟨_, _, .unary shape, by simp⟩
  | binary op left right ty span ihl ihr =>
    obtain ⟨l, s₁, lowered₁, rest⟩ := bind_eq_ok.1 h
    obtain ⟨code₁, c₁, shape₁, rfl⟩ := ihl lowered₁
    obtain ⟨r, s₂, lowered₂, emitted⟩ := bind_eq_ok.1 rest
    obtain ⟨code₂, c₂, shape₂, rfl⟩ := ihr lowered₂
    obtain ⟨-, rfl, rfl⟩ := emitFresh_eq_ok.1 emitted
    exact ⟨_, _, .binary shape₁ shape₂, by simp⟩
  | assign target value ty span ih =>
    obtain ⟨dst, s₁, found, rest⟩ := bind_eq_ok.1 h
    obtain ⟨bound, rfl⟩ := lowerRef_eq_ok.1 found
    obtain ⟨src, s₂, lowered, rest⟩ := bind_eq_ok.1 rest
    obtain ⟨code, c, shape, rfl⟩ := ih lowered
    obtain ⟨-, rest⟩ := emit_bind_eq_ok.1 rest
    obtain ⟨rfl, rfl⟩ := pure_eq_ok.1 rest
    exact ⟨_, _, .assign bound shape, by simp⟩
  | cond test ifTrue ifFalse ty span iht iha ihb =>
    simp only [lowerExpr, freshTemp_bind, freshLabel_bind, cursor_after, after_after,
      takeLabels_takeLabels] at h
    obtain ⟨t, s₁, lowered₁, rest⟩ := bind_eq_ok.1 h
    obtain ⟨code₁, c₁, shape₁, rfl⟩ := iht lowered₁
    obtain ⟨-, rest⟩ := emit_bind_eq_ok.1 rest
    obtain ⟨t₁, s₂, lowered₂, rest⟩ := bind_eq_ok.1 rest
    obtain ⟨code₂, c₂, shape₂, rfl⟩ := iha lowered₂
    obtain ⟨-, rest⟩ := emit_bind_eq_ok.1 rest
    obtain ⟨-, rest⟩ := emit_bind_eq_ok.1 rest
    obtain ⟨-, rest⟩ := emit_bind_eq_ok.1 rest
    obtain ⟨t₂, s₃, lowered₃, rest⟩ := bind_eq_ok.1 rest
    obtain ⟨code₃, c₃, shape₃, rfl⟩ := ihb lowered₃
    obtain ⟨-, rest⟩ := emit_bind_eq_ok.1 rest
    obtain ⟨-, rest⟩ := emit_bind_eq_ok.1 rest
    obtain ⟨rfl, rfl⟩ := pure_eq_ok.1 rest
    exact ⟨_, _, .cond shape₁ shape₂ shape₃, by simp⟩

theorem lowerOption_shape {e : Option Typed.Expr} {s s' : Lowering} {u : Unit}
    (h : lowerOption e s = .ok u s') :
    ∃ code c, EffectCode e s.cursor code c ∧ s' = s.after code c := by
  cases e with
  | none =>
    obtain ⟨-, rfl⟩ := pure_eq_ok.1 h
    exact ⟨_, _, .none, by simp⟩
  | some e =>
    obtain ⟨t, s₁, lowered, rest⟩ := bind_eq_ok.1 h
    obtain ⟨-, rfl⟩ := pure_eq_ok.1 rest
    obtain ⟨code, c, shape, rfl⟩ := lowerExpr_shape lowered
    exact ⟨_, _, .some shape, rfl⟩

theorem lowerTest_shape {exit : Label} {test : Typed.Expr} {s s' : Lowering} {u : Unit}
    (h : lowerTest exit test s = .ok u s') :
    ∃ code c, TestCode exit (some test) s.cursor code c ∧ s' = s.after code c := by
  obtain ⟨t, s₁, lowered, rest⟩ := bind_eq_ok.1 h
  obtain ⟨code, c, shape, rfl⟩ := lowerExpr_shape lowered
  obtain ⟨-, rfl⟩ := emit_eq_ok.1 rest
  exact ⟨_, _, .some shape, by simp⟩

theorem lowerTestOption_shape {exit : Label} {test : Option Typed.Expr} {s s' : Lowering} {u : Unit}
    (h : lowerTestOption exit test s = .ok u s') :
    ∃ code c, TestCode exit test s.cursor code c ∧ s' = s.after code c := by
  cases test with
  | none =>
    obtain ⟨-, rfl⟩ := pure_eq_ok.1 h
    exact ⟨_, _, .none, by simp⟩
  | some test => exact lowerTest_shape h

theorem lowerVarDecl_shape {d : Typed.VarDecl} {s s' : Lowering} {u : Unit}
    (h : lowerVarDecl d s = .ok u s') :
    ∃ code c, VarDeclCode d s.cursor code c ∧ s' = s.after code c := by
  obtain ⟨dst, s₁, bound, rest⟩ := bind_eq_ok.1 h
  obtain ⟨isVar, rfl, rfl⟩ := bindTemp_eq_ok.1 bound
  cases hd : d.init with
  | none =>
    simp only [hd] at rest
    obtain ⟨-, rfl⟩ := pure_eq_ok.1 rest
    exact ⟨_, _, .plain isVar hd, rfl⟩
  | some init =>
    simp only [hd] at rest
    obtain ⟨src, s₂, lowered, rest⟩ := bind_eq_ok.1 rest
    obtain ⟨code, c, shape, rfl⟩ := lowerExpr_shape lowered
    obtain ⟨-, rfl⟩ := emit_eq_ok.1 rest
    exact ⟨_, _, .init isVar hd shape, by simp⟩

theorem lowerForInit_shape {init : Option Typed.ForInit} {s s' : Lowering} {u : Unit}
    (h : lowerForInit init s = .ok u s') :
    ∃ code c, ForInitCode init s.cursor code c ∧ s' = s.after code c := by
  match init with
  | none =>
    obtain ⟨-, rfl⟩ := pure_eq_ok.1 h
    exact ⟨_, _, .none, by simp⟩
  | some (.decl d) =>
    obtain ⟨code, c, shape, rfl⟩ := lowerVarDecl_shape h
    exact ⟨_, _, .decl shape, rfl⟩
  | some (.expr e) =>
    obtain ⟨t, s₁, lowered, rest⟩ := bind_eq_ok.1 h
    obtain ⟨-, rfl⟩ := pure_eq_ok.1 rest
    obtain ⟨code, c, shape, rfl⟩ := lowerExpr_shape lowered
    exact ⟨_, _, .expr shape, rfl⟩

/-- A loop has its shape if its body, whatever loop it stands in, has one. -/
theorem lowerLoop_shape {targets : Option LoopTargets} {stmt body : Typed.Stmt} {test : Typed.Expr}
    (isLoop : stmt.loop? = some (test, body))
    (ih : ∀ {targets : Option LoopTargets} {s s' : Lowering} {u : Unit},
      lowerStmt targets body s = .ok u s' →
        ∃ code c, StmtCode targets body s.cursor code c ∧ s' = s.after code c)
    {s s' : Lowering} {u : Unit}
    (h : lowerLoop test (fun targets => lowerStmt (some targets) body) s = .ok u s') :
    ∃ code c, StmtCode targets stmt s.cursor code c ∧ s' = s.after code c := by
  simp only [lowerLoop, freshLabel_bind, cursor_after, after_after, takeLabels_takeLabels] at h
  obtain ⟨-, rest⟩ := emit_bind_eq_ok.1 h
  obtain ⟨_, s₁, lowered₁, rest⟩ := bind_eq_ok.1 rest
  obtain ⟨code₁, c₁, shape₁, rfl⟩ := lowerTest_shape lowered₁
  obtain ⟨_, s₂, lowered₂, rest⟩ := bind_eq_ok.1 rest
  obtain ⟨code₂, c₂, shape₂, rfl⟩ := ih lowered₂
  obtain ⟨-, rest⟩ := emit_bind_eq_ok.1 rest
  obtain ⟨-, rfl⟩ := emit_eq_ok.1 rest
  exact ⟨_, _, .loop isLoop shape₁ shape₂, by simp⟩

mutual

/-- Lowering a statement emits its code and nothing else. -/
theorem lowerStmt_shape {targets : Option LoopTargets} {stmt : Typed.Stmt} {s s' : Lowering}
    {u : Unit} (h : lowerStmt targets stmt s = .ok u s') :
    ∃ code c, StmtCode targets stmt s.cursor code c ∧ s' = s.after code c := by
  cases stmt with
  | decl d =>
    obtain ⟨code, c, shape, rfl⟩ := lowerVarDecl_shape h
    exact ⟨_, _, .decl shape, rfl⟩
  | expr e =>
    obtain ⟨t, s₁, lowered, rest⟩ := bind_eq_ok.1 h
    obtain ⟨-, rfl⟩ := pure_eq_ok.1 rest
    obtain ⟨code, c, shape, rfl⟩ := lowerExpr_shape lowered
    exact ⟨_, _, .expr shape, rfl⟩
  | empty =>
    obtain ⟨-, rfl⟩ := pure_eq_ok.1 h
    exact ⟨_, _, .empty, by simp⟩
  | block body => exact lowerStmts_shape h
  | ite test ifTrue ifFalse =>
    simp only [lowerStmt, freshLabel_bind, cursor_after, after_after, takeLabels_takeLabels] at h
    obtain ⟨_, s₁, lowered₁, rest⟩ := bind_eq_ok.1 h
    obtain ⟨code₁, c₁, shape₁, rfl⟩ := lowerTest_shape lowered₁
    obtain ⟨_, s₂, lowered₂, rest⟩ := bind_eq_ok.1 rest
    obtain ⟨code₂, c₂, shape₂, rfl⟩ := lowerStmt_shape lowered₂
    obtain ⟨-, rest⟩ := emit_bind_eq_ok.1 rest
    obtain ⟨-, rest⟩ := emit_bind_eq_ok.1 rest
    obtain ⟨_, s₃, lowered₃, rest⟩ := bind_eq_ok.1 rest
    obtain ⟨code₃, c₃, shape₃, rfl⟩ := lowerStmt_shape lowered₃
    obtain ⟨-, rfl⟩ := emit_eq_ok.1 rest
    exact ⟨_, _, .ite shape₁ shape₂ shape₃, by simp⟩
  | whileDo test body => exact lowerLoop_shape rfl lowerStmt_shape h
  | doWhile body test => exact lowerLoop_shape rfl lowerStmt_shape h
  | forLoop init test step body =>
    simp only [lowerStmt, freshLabel_bind, cursor_after, after_after, takeLabels_takeLabels] at h
    obtain ⟨_, s₁, lowered₁, rest⟩ := bind_eq_ok.1 h
    obtain ⟨code₁, c₁, shape₁, rfl⟩ := lowerForInit_shape lowered₁
    obtain ⟨-, rest⟩ := emit_bind_eq_ok.1 rest
    obtain ⟨_, s₂, lowered₂, rest⟩ := bind_eq_ok.1 rest
    obtain ⟨code₂, c₂, shape₂, rfl⟩ := lowerTestOption_shape lowered₂
    obtain ⟨_, s₃, lowered₃, rest⟩ := bind_eq_ok.1 rest
    obtain ⟨code₃, c₃, shape₃, rfl⟩ := lowerStmt_shape lowered₃
    obtain ⟨-, rest⟩ := emit_bind_eq_ok.1 rest
    obtain ⟨_, s₄, lowered₄, rest⟩ := bind_eq_ok.1 rest
    obtain ⟨code₄, c₄, shape₄, rfl⟩ := lowerOption_shape lowered₄
    obtain ⟨-, rest⟩ := emit_bind_eq_ok.1 rest
    obtain ⟨-, rfl⟩ := emit_eq_ok.1 rest
    exact ⟨_, _, .forLoop shape₁ shape₂ shape₃ shape₄, by simp⟩
  | brk span =>
    cases targets with
    | none => exact absurd h fail_ne_ok
    | some t =>
      obtain ⟨-, rfl⟩ := emit_eq_ok.1 h
      exact ⟨_, _, .brk, rfl⟩
  | cont span =>
    cases targets with
    | none => exact absurd h fail_ne_ok
    | some t =>
      obtain ⟨-, rfl⟩ := emit_eq_ok.1 h
      exact ⟨_, _, .cont, rfl⟩
  | ret value =>
    obtain ⟨t, s₁, lowered, rest⟩ := bind_eq_ok.1 h
    obtain ⟨code, c, shape, rfl⟩ := lowerExpr_shape lowered
    obtain ⟨-, rfl⟩ := emit_eq_ok.1 rest
    exact ⟨_, _, .ret shape, by simp⟩

theorem lowerStmts_shape {targets : Option LoopTargets} {stmts : List Typed.Stmt} {s s' : Lowering}
    {u : Unit} (h : lowerStmts targets stmts s = .ok u s') :
    ∃ code c, StmtCode targets (.block stmts) s.cursor code c ∧ s' = s.after code c := by
  cases stmts with
  | nil =>
    obtain ⟨-, rfl⟩ := pure_eq_ok.1 h
    exact ⟨_, _, .done, by simp⟩
  | cons stmt rest =>
    obtain ⟨_, s₁, lowered₁, h⟩ := bind_eq_ok.1 h
    obtain ⟨code₁, c₁, shape₁, rfl⟩ := lowerStmt_shape lowered₁
    obtain ⟨code₂, c₂, shape₂, rfl⟩ := lowerStmts_shape h
    exact ⟨_, _, .next shape₁ shape₂, by simp⟩

end

/-! ## Functions -/

namespace Lower

theorem record_eq (id : SymbolId) (f : VariableInfo → VariableInfo) (s : Lowering) :
    record id f s = .ok () (s.after [] (s.cursor.record id f)) := by
  rw [Cursor.record, after_nil_symbols]
  rfl

theorem recordFunction_eq (id : SymbolId) (f : FunctionInfo → FunctionInfo) (s : Lowering) :
    recordFunction id f s = .ok () (s.after [] (s.cursor.recordFunction id f)) := by
  rw [Cursor.recordFunction, after_nil_symbols]
  rfl

theorem record_bind (id : SymbolId) (f : VariableInfo → VariableInfo) (g : Unit → Lower β)
    (s : Lowering) : (record id f >>= g) s = g () (s.after [] (s.cursor.record id f)) :=
  bind_of_ok (record_eq ..)

theorem recordFunction_bind (id : SymbolId) (f : FunctionInfo → FunctionInfo) (g : Unit → Lower β)
    (s : Lowering) :
    (recordFunction id f >>= g) s = g () (s.after [] (s.cursor.recordFunction id f)) :=
  bind_of_ok (recordFunction_eq ..)

theorem function_eq_ok {id : SymbolId} {name : String} {span : Span} {s s' : Lowering}
    {info : FunctionInfo} :
    function id name span s = .ok info s' ↔ s.symbols.functionAt id = some info ∧ s' = s := by
  unfold function
  rw [get_bind]
  cases s.symbols.functionAt id with
  | none => simp [fail_ne_ok]
  | some f => simp [pure_eq_ok, eq_comm]

end Lower

theorem bindParams_shape {order : Nat} {params : List Typed.Param} {s s' : Lowering}
    {temps : List Temp} (h : bindParams order params s = .ok temps s') :
    ∃ c, ParamsCode order params s.cursor temps c ∧ s' = s.after [] c := by
  induction params generalizing order s temps with
  | nil =>
    obtain ⟨rfl, rfl⟩ := pure_eq_ok.1 h
    exact ⟨_, .nil, by simp⟩
  | cons p rest ih =>
    obtain ⟨t, s₁, bound, rest₁⟩ := bind_eq_ok.1 h
    obtain ⟨isVar, rfl, rfl⟩ := bindTemp_eq_ok.1 bound
    rw [record_bind] at rest₁
    obtain ⟨ts, s₃, others, rest₂⟩ := bind_eq_ok.1 rest₁
    obtain ⟨rfl, rfl⟩ := pure_eq_ok.1 rest₂
    obtain ⟨c, shape, rfl⟩ := ih others
    exact ⟨c, .cons isVar shape, by simp⟩

/-- Placing parameters records their places and files no piece. -/
theorem placeParams_shape {size : Int} {params : List Typed.Param} {s s' : Lowering} {u : Unit}
    (h : placeParams size params s = .ok u s') :
    s'.cursor = s.cursor.placeParams size s.emitter.paramOffset params ∧
      s'.emitter.finished = s.emitter.finished := by
  induction params generalizing s with
  | nil =>
    obtain ⟨-, rfl⟩ := pure_eq_ok.1 h
    exact ⟨rfl, rfl⟩
  | cons p rest ih =>
    obtain ⟨offset, s₁, taken, rest₁⟩ := bind_eq_ok.1 h
    cases taken
    rw [record_bind] at rest₁
    exact ih rest₁

theorem lowerImplicitReturn_shape {config : Config} {s s' : Lowering} {u : Unit}
    (h : lowerImplicitReturn config s = .ok u s') :
    ∃ code c, ImplicitReturnCode config s.cursor code c ∧ s' = s.after code c := by
  unfold lowerImplicitReturn at h
  split at h
  · next on =>
    obtain ⟨t, s₁, loaded, rest⟩ := bind_eq_ok.1 h
    obtain ⟨-, rfl, rfl⟩ := emitFresh_eq_ok.1 loaded
    obtain ⟨-, rfl⟩ := emit_eq_ok.1 rest
    exact ⟨_, _, .on on, by simp⟩
  · next off =>
    obtain ⟨-, rfl⟩ := pure_eq_ok.1 h
    exact ⟨_, _, .off (by simpa using off), by simp⟩

/-- Lowering a function files its piece behind those that were there. -/
theorem lowerFunction_shape {config : Config} {f : Typed.Function} {s s' : Lowering} {u : Unit}
    (h : lowerFunction config f s = .ok u s') :
    ∃ piece, FunctionCode config f s.cursor piece s'.cursor ∧
      s'.emitter.finished = s.emitter.finished ++ [piece] := by
  obtain ⟨info, s₁, found, rest₁⟩ := bind_eq_ok.1 h
  obtain ⟨isFn, rfl⟩ := function_eq_ok.1 found
  rw [recordFunction_bind] at rest₁
  obtain ⟨temps, s₂, bound, rest₂⟩ := bind_eq_ok.1 rest₁
  obtain ⟨c₁, params, rfl⟩ := bindParams_shape bound
  obtain ⟨_, s₃, reset, rest₃⟩ := bind_eq_ok.1 rest₂
  cases reset
  obtain ⟨_, s₄, placed, rest₄⟩ := bind_eq_ok.1 rest₃
  obtain ⟨placedAt, finished⟩ := placeParams_shape placed
  rw [recordFunction_bind] at rest₄
  obtain ⟨entered, s₅, again, rest₅⟩ := bind_eq_ok.1 rest₄
  obtain ⟨isEntered, rfl⟩ := function_eq_ok.1 again
  obtain ⟨_, s₆, started, rest₆⟩ := bind_eq_ok.1 rest₅
  cases started
  obtain ⟨_, s₇, lowered, rest₇⟩ := bind_eq_ok.1 rest₆
  obtain ⟨code, c₃, body, rfl⟩ := lowerStmts_shape lowered
  obtain ⟨_, s₈, returned, rest₈⟩ := bind_eq_ok.1 rest₇
  obtain ⟨ending, c₄, ends, rfl⟩ := lowerImplicitReturn_shape returned
  cases rest₈
  have placedAt : s₄.cursor = c₁.placeParams config.pointerSize 0 f.params := placedAt
  refine ⟨_, .mk isFn params (placedAt ▸ rfl) isEntered body ends, ?_⟩
  exact congrArg (· ++ [_]) finished

theorem forM_lowerFunction_shape {config : Config} {fs : List Typed.Function} {s s' : Lowering}
    {u : Unit} (h : fs.forM (lowerFunction config) s = .ok u s') :
    ∃ pieces, FunctionsCode config fs s.cursor pieces s'.cursor ∧
      s'.emitter.finished = s.emitter.finished ++ pieces := by
  induction fs generalizing s with
  | nil =>
    obtain ⟨-, rfl⟩ := pure_eq_ok.1 h
    exact ⟨[], .nil, by simp⟩
  | cons f rest ih =>
    obtain ⟨_, s₁, lowered, rest₁⟩ := bind_eq_ok.1 h
    obtain ⟨piece, shape, finished⟩ := lowerFunction_shape lowered
    obtain ⟨pieces, shapes, others⟩ := ih rest₁
    exact ⟨piece :: pieces, .cons shape shapes, by simp [others, finished]⟩

theorem lowerProgram_of_ok {config : Config} {t : SymbolTable} {p : Typed.Program} {u : Unit}
    {s : Lowering} (ran : p.functions.forM (lowerFunction config) { symbols := t } = .ok u s) :
    (lowerProgram config t p).1 = .ok s.emitter.code := by
  have ran : (lowerFunctions config p).run { symbols := t } = .ok u s := ran
  rw [lowerProgram, ran]

theorem lowerProgram_of_error {config : Config} {t : SymbolTable} {p : Typed.Program} {e : Error}
    {s : Lowering}
    (failed : p.functions.forM (lowerFunction config) { symbols := t } = .error e s) :
    (lowerProgram config t p).1 = .error e := by
  have failed : (lowerFunctions config p).run { symbols := t } = .error e s := failed
  rw [lowerProgram, failed]

/-- A program is lowered from an empty emitter into the pieces of its functions. -/
theorem lowerProgram_shape {config : Config} {symbols symbols' : SymbolTable} {p : Typed.Program}
    {code : Code} (h : lowerProgram config symbols p = (.ok code, symbols')) :
    ∃ s, (lowerFunctions config p).run { symbols } = .ok () s ∧
      s.emitter.code = code ∧ s.symbols = symbols' ∧
      FunctionsCode config p.functions ⟨0, 0, symbols⟩ code.pieces s.cursor := by
  unfold lowerProgram at h
  split at h
  · next u s lowered =>
    obtain ⟨pieces, shape, finished⟩ := forM_lowerFunction_shape lowered
    have pieces_eq : s.emitter.finished = pieces := by simpa using finished
    cases h
    refine ⟨s, lowered, rfl, rfl, ?_⟩
    rw [Emitter.code, pieces_eq]
    exact shape
  · simp at h

end MiddleEnd
