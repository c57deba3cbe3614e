import MiddleEnd.Proofs.Lowered.Needs
import Mathlib.Data.List.Count

/-!
# What temporaries are taken for

Temporaries are numbered in the order in which lowering takes them, and each is taken for one
purpose: it holds a variable, the value of a single instruction, or the value of a conditional. The
slots of a typed tree list these purposes in that order. `Filled` counts what a stretch of code
writes against the slots that it takes, with copies to a result that was taken before the stretch
left open until the conditional is complete.

Results:
1. `StmtCode.filled`, `FunctionsCode.filled`: code fills the slots of its tree.
2. `Filled.count_value`, `Filled.count_result`: in code that fills its slots and left nothing open,
   the temporary of a value is written once and the temporary of a conditional twice, both times by
   a copy.
-/

namespace MiddleEnd

/-! ## Instructions -/

namespace Instr

/-- The temporary that an instruction writes. -/
def dst? : Instr → Option Temp
  | load dst _ | unary _ dst _ | binary _ dst _ _ | copy dst _ => some dst
  | jump _ | jumpIfZero _ _ | mark _ | ret _ => none

/-- The temporary that a copy writes. -/
def copied? : Instr → Option Temp
  | copy dst _ => some dst
  | _ => none

/-- The temporary that an instruction writes which is no copy. -/
def made? : Instr → Option Temp
  | load dst _ | unary _ dst _ | binary _ dst _ _ => some dst
  | _ => none

/-- The temporaries that an instruction reads. -/
def reads : Instr → List Temp
  | load _ _ | jump _ | mark _ => []
  | unary _ _ src | copy _ src => [src]
  | binary _ _ left right => [left, right]
  | jumpIfZero _ test => [test]
  | ret value => [value]

/-- The temporaries that an instruction mentions. -/
def temps (i : Instr) : List Temp := i.dst?.toList ++ i.reads

end Instr

/-- The temporaries that a piece mentions. -/
def Piece.temps (p : Piece) : List Temp := p.params ++ p.body.flatMap Instr.temps

/-- The temporaries that a list of instructions writes, in order. -/
def writtenTemps (code : List Instr) : List Temp := code.filterMap Instr.dst?

/-- The temporaries that it writes by copies, in order. -/
def copiedTemps (code : List Instr) : List Temp := code.filterMap Instr.copied?

/-- The temporaries that it writes otherwise, in order. -/
def madeTemps (code : List Instr) : List Temp := code.filterMap Instr.made?

@[simp] theorem copiedTemps_append (code code' : List Instr) :
    copiedTemps (code ++ code') = copiedTemps code ++ copiedTemps code' := List.filterMap_append

@[simp] theorem madeTemps_append (code code' : List Instr) :
    madeTemps (code ++ code') = madeTemps code ++ madeTemps code' := List.filterMap_append

theorem writtenTemps_cons (i : Instr) (code : List Instr) :
    writtenTemps (i :: code) = i.dst?.toList ++ writtenTemps code := by
  cases i <;> rfl

@[simp] theorem copiedTemps_singleton (i : Instr) : copiedTemps [i] = i.copied?.toList := by
  cases i <;> rfl

@[simp] theorem madeTemps_singleton (i : Instr) : madeTemps [i] = i.made?.toList := by
  cases i <;> rfl

/-- A temporary is written by copies and otherwise. -/
theorem count_writtenTemps (code : List Instr) (t : Temp) :
    (writtenTemps code).count t = (madeTemps code).count t + (copiedTemps code).count t := by
  induction code with
  | nil => rfl
  | cons i rest ih =>
    have first : i.dst?.toList.count t = i.made?.toList.count t + i.copied?.toList.count t := by
      cases i <;> simp [Instr.dst?, Instr.made?, Instr.copied?]
    rw [writtenTemps_cons, ← List.singleton_append, madeTemps_append, copiedTemps_append,
      madeTemps_singleton, copiedTemps_singleton, List.count_append, List.count_append,
      List.count_append, first, ih]
    omega

/-! ## Slots -/

/-- What a temporary is taken for. -/
inductive Slot
  /-- It holds a variable. -/
  | var (id : SymbolId)
  /-- It holds the value of one instruction. -/
  | value
  /-- It holds the value of a conditional, whichever branch is taken. -/
  | result
deriving DecidableEq

/-- The variable that a slot is for. -/
def Slot.var? : Slot → Option SymbolId
  | .var id => some id
  | .value | .result => none

namespace Typed

/-- The slots of an expression. A conditional takes its own before its parts take theirs. -/
def Expr.slots : Expr → List Slot
  | .const .. => [.value]
  | .var .. => []
  | .unary _ operand .. => operand.slots ++ [.value]
  | .binary _ left right .. => left.slots ++ right.slots ++ [.value]
  | .assign _ value .. => value.slots
  | .cond test ifTrue ifFalse .. => .result :: (test.slots ++ ifTrue.slots ++ ifFalse.slots)

/-- The slots of an expression that may be absent. -/
def optionSlots : Option Expr → List Slot
  | none => []
  | some e => e.slots

/-- The slots of a declaration. The variable comes before its initializer. -/
def VarDecl.slots (d : VarDecl) : List Slot := .var d.symbol :: optionSlots d.init

/-- The slots of the first clause of a `for`. -/
def ForInit.slots : Option ForInit → List Slot
  | none => []
  | some (.decl d) => d.slots
  | some (.expr e) => e.slots

mutual

/-- The slots of a statement. The test of a `do` comes before its body, the last clause of a `for`
behind it. -/
def Stmt.slots : Stmt → List Slot
  | .decl d => d.slots
  | .expr e | .ret e => e.slots
  | .empty | .brk _ | .cont _ => []
  | .block body => slotsOf body
  | .ite test ifTrue ifFalse => test.slots ++ ifTrue.slots ++ ifFalse.slots
  | .whileDo test body | .doWhile body test => test.slots ++ body.slots
  | .forLoop init test step body =>
    ForInit.slots init ++ optionSlots test ++ body.slots ++ optionSlots step

/-- The slots of statements. -/
def slotsOf : List Stmt → List Slot
  | [] => []
  | s :: rest => s.slots ++ slotsOf rest

end

/-- The slot of the zero that a function returns at its end, where the settings ask for it. -/
def endingSlots (config : Config) : List Slot := if config.implicitReturn then [.value] else []

/-- The slots of a function, its parameters first. -/
def Function.slots (config : Config) (f : Function) : List Slot :=
  f.params.map (fun p => .var p.symbol) ++ slotsOf f.body ++ endingSlots config

/-- The slots of a program: what each of its temporaries is taken for. -/
def Program.slots (config : Config) (p : Program) : List Slot :=
  p.functions.flatMap (Function.slots config)

theorem Stmt.slots_of_loop? {s body : Stmt} {test : Expr} (h : s.loop? = some (test, body)) :
    s.slots = test.slots ++ body.slots := by
  cases s <;> simp [loop?] at h <;> simp [slots, h]

theorem Stmt.needs_of_loop? {s body : Stmt} {test : Expr} (h : s.loop? = some (test, body))
    (inLoop : Bool) : s.needs inLoop = test.needs ++ body.needs true := by
  cases s <;> simp [loop?] at h <;> simp [needs, h]

theorem Expr.filterMap_slots (e : Expr) : e.slots.filterMap Slot.var? = [] := by
  induction e with
  | const | var => rfl
  | unary _ _ _ _ ih => rw [slots, List.filterMap_append, ih]; rfl
  | binary _ _ _ _ _ ih₁ ih₂ =>
    rw [slots, List.filterMap_append, List.filterMap_append, ih₁, ih₂]; rfl
  | assign _ _ _ _ ih => exact ih
  | cond _ _ _ _ _ ih₁ ih₂ ih₃ =>
    rw [slots, List.filterMap_cons, List.filterMap_append, List.filterMap_append, ih₁, ih₂, ih₃]
    rfl

theorem filterMap_optionSlots (e : Option Expr) :
    (optionSlots e).filterMap Slot.var? = [] := by
  cases e with
  | none => rfl
  | some e => exact e.filterMap_slots

theorem VarDecl.filterMap_slots (d : VarDecl) :
    d.slots.filterMap Slot.var? = [d.symbol] := by
  simp [slots, Slot.var?, filterMap_optionSlots]

theorem ForInit.filterMap_slots (init : Option ForInit) :
    (ForInit.slots init).filterMap Slot.var? = ForInit.binds init := by
  match init with
  | none => rfl
  | some (.decl d) => exact d.filterMap_slots
  | some (.expr e) => exact e.filterMap_slots

mutual

/-- The variables among the slots of a statement are those that it declares. -/
theorem Stmt.filterMap_slots (s : Stmt) : s.slots.filterMap Slot.var? = s.binds := by
  cases s with
  | decl d => exact d.filterMap_slots
  | expr e | ret e => exact e.filterMap_slots
  | empty | brk | cont => rfl
  | block body => exact filterMap_slotsOf body
  | ite test ifTrue ifFalse =>
    simp [Stmt.slots, Stmt.binds, test.filterMap_slots, ifTrue.filterMap_slots,
      ifFalse.filterMap_slots]
  | whileDo test body | doWhile body test =>
    simp [Stmt.slots, Stmt.binds, test.filterMap_slots, body.filterMap_slots]
  | forLoop init test step body =>
    simp [Stmt.slots, Stmt.binds, ForInit.filterMap_slots, filterMap_optionSlots,
      body.filterMap_slots]

theorem filterMap_slotsOf (ss : List Stmt) :
    (slotsOf ss).filterMap Slot.var? = bindsOf ss := by
  cases ss with
  | nil => rfl
  | cons s rest => simp [slotsOf, bindsOf, s.filterMap_slots, filterMap_slotsOf rest]

end

theorem Function.filterMap_slots (config : Config) (f : Function) :
    (f.slots config).filterMap Slot.var? = f.binds := by
  have params : (f.params.map fun p => Slot.var p.symbol).filterMap Slot.var? =
      f.params.map Param.symbol := by
    rw [List.filterMap_map]
    exact congrFun List.filterMap_eq_map _
  have ending : (endingSlots config).filterMap Slot.var? = [] := by
    unfold endingSlots
    split <;> rfl
  rw [slots, List.filterMap_append, List.filterMap_append, params, filterMap_slotsOf, ending,
    List.append_nil, binds]

theorem Program.filterMap_slots (config : Config) (p : Program) :
    (p.slots config).filterMap Slot.var? = p.binds := by
  rw [slots, List.filterMap_flatMap, binds]
  exact List.flatMap_congr fun f _ => f.filterMap_slots config

end Typed

/-- The temporaries from `a` on whose slot is `s`. -/
def Slot.places (s : Slot) (a : Nat) (slots : List Slot) : List Temp :=
  (slots.zipIdx a).filterMap fun p => if p.1 = s then some p.2 else none

namespace Slot

@[simp] theorem places_nil (s : Slot) (a : Nat) : s.places a [] = [] := rfl

theorem places_append (s : Slot) (a : Nat) (slots slots' : List Slot) :
    s.places a (slots ++ slots') = s.places a slots ++ s.places (a + slots.length) slots' := by
  rw [places, List.zipIdx_append, List.filterMap_append, places, places]

theorem places_cons (s s' : Slot) (a : Nat) (slots : List Slot) :
    s.places a (s' :: slots) = (if s' = s then [a] else []) ++ s.places (a + 1) slots := by
  rw [places, List.zipIdx_cons, List.filterMap_cons, places]
  by_cases same : s' = s <;> simp [same]

/-- Each temporary has one slot. -/
theorem count_places (s : Slot) (a : Nat) (slots : List Slot) (t : Nat) :
    (s.places a slots).count t = if a ≤ t ∧ slots[t - a]? = some s then 1 else 0 := by
  induction slots generalizing a with
  | nil => simp
  | cons s' rest ih =>
    rw [places_cons, List.count_append, ih]
    rcases Nat.lt_trichotomy t a with below | rfl | above
    · have outside : ¬a ≤ t := by omega
      have outside' : ¬a + 1 ≤ t := by omega
      have differs : a ≠ t := by omega
      by_cases same : s' = s <;> simp [same, outside, outside', differs]
    · have outside : ¬t + 1 ≤ t := by omega
      by_cases same : s' = s <;> simp [same, outside]
    · obtain ⟨k, rfl⟩ : ∃ k, t = a + 1 + k := ⟨t - a - 1, by omega⟩
      have differs : a ≠ a + 1 + k := by omega
      have inside : a ≤ a + 1 + k := by omega
      have index : a + 1 + k - a = k + 1 := by omega
      by_cases same : s' = s <;> simp [same, differs, inside, index]

end Slot

/-! ## What code writes -/

variable {home : SymbolId → Option Temp}

/-- Code that takes the temporaries from `a` to `b` for `slots`. A value is written once and not by
a copy, a result by two copies, and of the results that were taken before, `owed` are copied to. -/
structure Filled (home : SymbolId → Option Temp) (a : Nat) (slots : List Slot) (b : Nat)
    (owed : List Temp) (code : List Instr) : Prop where
  stop : b = a + slots.length
  lives : ∀ k x, slots[k]? = some (.var x) → home x = some (a + k)
  made : madeTemps code = Slot.value.places a slots
  copied : ∀ t, (∀ x, home x ≠ some t) →
    (copiedTemps code).count t = owed.count t + 2 * (Slot.result.places a slots).count t

namespace Filled

variable {a b d : Nat} {slots slots' : List Slot} {owed owed' : List Temp} {code code' : List Instr}

theorem nil (a : Nat) : Filled home a [] a [] [] :=
  ⟨rfl, by simp, rfl, by simp [copiedTemps]⟩

theorem append (h : Filled home a slots b owed code) (h' : Filled home b slots' d owed' code') :
    Filled home a (slots ++ slots') d (owed ++ owed') (code ++ code') where
  stop := by rw [h'.stop, h.stop, List.length_append, Nat.add_assoc]
  lives k x slot := by
    by_cases first : k < slots.length
    · rw [List.getElem?_append_left first] at slot
      exact h.lives k x slot
    · obtain ⟨j, rfl⟩ : ∃ j, k = slots.length + j := ⟨k - slots.length, by omega⟩
      rw [List.getElem?_append_right (Nat.le_add_right ..), Nat.add_sub_cancel_left] at slot
      rw [h'.lives j x slot, h.stop, Nat.add_assoc]
  made := by rw [madeTemps_append, h.made, h'.made, Slot.places_append, h.stop]
  copied t notHome := by
    rw [copiedTemps_append, List.count_append, h.copied t notHome, h'.copied t notHome,
      Slot.places_append, List.count_append, List.count_append, h.stop]
    omega

/-- Then an instruction that writes nothing. -/
theorem skip (h : Filled home a slots b owed code) (i : Instr) (still : i.dst? = none) :
    Filled home a slots b owed (code ++ [i]) := by
  have single : Filled home b [] b [] [i] := by
    cases i with
    | load | unary | binary | copy => cases still
    | jump | jumpIfZero | mark | ret => exact ⟨rfl, by simp, rfl, by simp [Instr.copied?]⟩
  simpa using h.append single

/-- Then an instruction that writes the next temporary. -/
theorem value (h : Filled home a slots b owed code) {i : Instr} (made : i.made? = some b) :
    Filled home a (slots ++ [.value]) (b + 1) owed (code ++ [i]) := by
  have single : Filled home b [.value] (b + 1) [] [i] := by
    have noCopy : i.copied? = none := by
      cases i <;> first | rfl | cases made
    refine ⟨rfl, ?_, ?_, ?_⟩
    · intro k x slot
      cases k <;> cases slot
    · rw [madeTemps_singleton, made]
      rfl
    · simp [noCopy, Slot.places_cons]
  simpa using h.append single

/-- Then a copy to a variable. -/
theorem copy_home (h : Filled home a slots b owed code) {x : SymbolId} {dst : Temp}
    (lives : home x = some dst) (src : Temp) :
    Filled home a slots b owed (code ++ [.copy dst src]) := by
  have single : Filled home b [] b [] [.copy dst src] := by
    refine ⟨rfl, by simp, rfl, fun t notHome => ?_⟩
    have differs : dst ≠ t := by
      rintro rfl
      exact notHome x lives
    simp [Instr.copied?, differs]
  simpa using h.append single

/-- Then a copy to a result. -/
theorem copy_owed (h : Filled home a slots b owed code) (dst src : Temp) :
    Filled home a slots b (owed ++ [dst]) (code ++ [.copy dst src]) := by
  have single : Filled home b [] b [dst] [.copy dst src] :=
    ⟨rfl, by simp, rfl, by simp [Instr.copied?]⟩
  simpa using h.append single

/-- The next temporary is taken for a variable. -/
theorem bind {x : SymbolId} (lives : home x = some a) :
    Filled home a [.var x] (a + 1) [] [] where
  stop := rfl
  lives k y slot := by
    cases k with
    | zero =>
      cases slot
      exact lives
    | succ k => cases slot
  made := rfl
  copied t _ := by simp [copiedTemps, Slot.places_cons]

/-- The temporary before is taken for a result that the code copies to twice. -/
theorem result (h : Filled home (a + 1) slots b [a, a] code) :
    Filled home a (.result :: slots) b [] code where
  stop := by rw [h.stop, List.length_cons]; omega
  lives k x slot := by
    cases k with
    | zero => cases slot
    | succ k => rw [h.lives k x slot, Nat.add_assoc, Nat.add_comm 1 k]
  made := by rw [h.made, Slot.places_cons]; rfl
  copied t notHome := by
    rw [h.copied t notHome, Slot.places_cons, if_pos rfl, List.count_append]
    simp only [List.count_cons, List.count_nil]
    omega

/-- A variable lives in the temporary that was taken for it, and nothing else does. -/
theorem home_eq_iff (h : Filled home 0 slots b owed code)
    (only : ∀ x t, home x = some t → x ∈ slots.filterMap Slot.var?) {x : SymbolId} {t : Temp} :
    home x = some t ↔ slots[t]? = some (.var x) := by
  have lives (k : Nat) (slot : slots[k]? = some (.var x)) : home x = some k := by
    rw [h.lives k x slot, Nat.zero_add]
  refine ⟨?_, lives t⟩
  intro placed
  obtain ⟨slot, mem, isVar⟩ := List.mem_filterMap.1 (only x t placed)
  obtain ⟨k, here⟩ := List.getElem?_of_mem mem
  cases slot with
  | var y =>
    cases isVar
    cases placed.symm.trans (lives k here)
    exact here
  | value | result => cases isVar

/-- A value is written by one instruction. -/
theorem count_value (h : Filled home 0 slots b [] code) {t : Nat} (slot : slots[t]? = some .value)
    (notHome : ∀ x, home x ≠ some t) : (writtenTemps code).count t = 1 := by
  rw [count_writtenTemps, h.made, h.copied t notHome, Slot.count_places, Slot.count_places]
  simp [slot]

/-- A result is written by two copies. -/
theorem count_result (h : Filled home 0 slots b [] code) {t : Nat}
    (slot : slots[t]? = some .result) (notHome : ∀ x, home x ≠ some t) :
    (writtenTemps code).count t = 2 ∧ (copiedTemps code).count t = 2 := by
  rw [count_writtenTemps, h.made, h.copied t notHome, Slot.count_places, Slot.count_places]
  simp [slot]

end Filled

/-- The code of an expression takes temporaries for its slots. -/
theorem ExprCode.filled {e : Typed.Expr} {c c' : Cursor} {t : Temp} {code : List Instr}
    (h : ExprCode e c t code c') (fits : Fits home c [] c') :
    Filled home c.temps e.slots c'.temps [] code := by
  induction h with
  | const => exact (Filled.nil _).value rfl
  | var => exact .nil _
  | unary h ih =>
    have inner := fits.left h.binds (Cursor.Binds.refl _).takeTemp rfl
    exact (ih inner).value rfl
  | binary h₁ h₂ ih₁ ih₂ =>
    have inner := fits.left (h₁.binds.append h₂.binds) (Cursor.Binds.refl _).takeTemp rfl
    have first := ih₁ (inner.left h₁.binds h₂.binds rfl)
    exact (first.append (ih₂ (inner.right h₁.binds h₂.binds rfl))).value rfl
  | assign bound h ih =>
    obtain ⟨x, -, lives⟩ := fits.ref bound
    exact (ih fits).copy_home lives _
  | @cond test ifTrue ifFalse ty span c c₁ c₂ c₃ t t₁ t₂ code₁ code₂ code₃ h₁ h₂ h₃ ih₁ ih₂ ih₃ =>
    have taken := (Cursor.Binds.refl c).takeTemp.takeLabels 2
    obtain ⟨fits₁, fits₂, fits₃⟩ := fits.three taken h₁.binds h₂.binds h₃.binds rfl
    have tested := (ih₁ fits₁).skip (.jumpIfZero c.labels t) rfl
    have first := (tested.append (ih₂ fits₂)).copy_owed c.temps t₁
    have between := (first.skip (.jump (c.labels + 1)) rfl).skip (.mark c.labels) rfl
    have second := (between.append (ih₃ fits₃)).copy_owed c.temps t₂
    have whole := (second.skip (.mark (c.labels + 1)) rfl).result
    simpa [Typed.Expr.slots] using whole

theorem EffectCode.filled {e : Option Typed.Expr} {c c' : Cursor} {code : List Instr}
    (h : EffectCode e c code c') (fits : Fits home c [] c') :
    Filled home c.temps (Typed.optionSlots e) c'.temps [] code := by
  cases h with
  | none => exact .nil _
  | some h => exact h.filled fits

theorem TestCode.filled {exit : Label} {test : Option Typed.Expr} {c c' : Cursor}
    {code : List Instr} (h : TestCode exit test c code c') (fits : Fits home c [] c') :
    Filled home c.temps (Typed.optionSlots test) c'.temps [] code := by
  cases h with
  | none => exact .nil _
  | some h => exact (h.filled fits).skip _ rfl

theorem VarDeclCode.filled {d : Typed.VarDecl} {c c' : Cursor} {code : List Instr}
    (h : VarDeclCode d c code c') (fits : Fits home c [d.symbol] c') :
    Filled home c.temps d.slots c'.temps [] code := by
  cases h with
  | plain isVar absent =>
    have lives : home d.symbol = some c.temps :=
      fits.agrees _ _ (by rw [Cursor.tempOf_bind isVar, if_pos rfl])
    rw [Typed.VarDecl.slots, absent]
    exact .bind lives
  | init isVar present h =>
    have inner := fits.right (Cursor.Binds.bind isVar) h.binds rfl
    have lives : home d.symbol = some c.temps :=
      inner.bound (by rw [Cursor.tempOf_bind isVar, if_pos rfl])
    rw [Typed.VarDecl.slots, present]
    exact ((Filled.bind lives).append (h.filled inner)).copy_home lives _

theorem ForInitCode.filled {init : Option Typed.ForInit} {c c' : Cursor} {code : List Instr}
    (h : ForInitCode init c code c') (fits : Fits home c (Typed.ForInit.binds init) c') :
    Filled home c.temps (Typed.ForInit.slots init) c'.temps [] code := by
  cases h with
  | none => exact .nil _
  | decl h => exact h.filled fits
  | expr h => exact h.filled fits

/-- The code of a statement takes temporaries for its slots. -/
theorem StmtCode.filled {targets : Option LoopTargets} {s : Typed.Stmt} {c c' : Cursor}
    {code : List Instr} (h : StmtCode targets s c code c') (fits : Fits home c s.binds c') :
    Filled home c.temps s.slots c'.temps [] code := by
  induction h with
  | decl h => exact h.filled fits
  | expr h => exact h.filled fits
  | empty | done => exact .nil _
  | brk | cont => exact (Filled.nil _).skip _ rfl
  | ret h => exact (h.filled fits).skip _ rfl
  | next h₁ h₂ ih₁ ih₂ =>
    exact (ih₁ (fits.left h₁.binds h₂.binds rfl)).append (ih₂ (fits.right h₁.binds h₂.binds rfl))
  | @ite targets test ifTrue ifFalse c c₁ c₂ c₃ code₁ code₂ code₃ h₁ h₂ h₃ ih₂ ih₃ =>
    obtain ⟨fits₁, fits₂, fits₃⟩ :=
      fits.three ((Cursor.Binds.refl c).takeLabels 2) h₁.binds h₂.binds h₃.binds rfl
    have first := (h₁.filled fits₁).append (ih₂ fits₂)
    have between := (first.skip (.jump (c.labels + 1)) rfl).skip (.mark c.labels) rfl
    have whole := (between.append (ih₃ fits₃)).skip (.mark (c.labels + 1)) rfl
    simpa [Typed.Stmt.slots, Typed.optionSlots] using whole
  | @loop targets s body test c c₁ c₂ code₁ code₂ isLoop h₁ h₂ ih =>
    rw [Typed.Stmt.binds_of_loop? isLoop] at fits
    obtain ⟨fits₁, fits₂⟩ := fits.two ((Cursor.Binds.refl c).takeLabels 2) h₁.binds h₂.binds rfl
    have tested := ((Filled.nil _).skip (.mark c.labels) rfl).append (h₁.filled fits₁)
    have back := (tested.append (ih fits₂)).skip (.jump c.labels) rfl
    have whole := back.skip (.mark (c.labels + 1)) rfl
    simpa [Typed.Stmt.slots_of_loop? isLoop, Typed.optionSlots] using whole
  | @forLoop targets init test step body c c₁ c₂ c₃ c₄ code₁ code₂ code₃ code₄ h₁ h₂ h₃ h₄ ih =>
    obtain ⟨fits₁, fits₂, fits₃, fits₄⟩ := fits.four ((Cursor.Binds.refl c).takeLabels 3)
      h₁.binds h₂.binds h₃.binds h₄.binds (by simp [Typed.Stmt.binds])
    have tested := ((h₁.filled fits₁).skip (.mark c.labels) rfl).append (h₂.filled fits₂)
    have ran := (tested.append (ih fits₃)).skip (.mark (c.labels + 2)) rfl
    have back := (ran.append (h₄.filled fits₄)).skip (.jump c.labels) rfl
    have whole := back.skip (.mark (c.labels + 1)) rfl
    simpa [Typed.Stmt.slots] using whole

theorem ParamsCode.filled {order : Nat} {params : List Typed.Param} {c c' c'' : Cursor}
    {temps : List Temp} (h : ParamsCode order params c temps c') {xs : List SymbolId}
    (others : c'.Binds xs c'') (fits : Fits home c (params.map Typed.Param.symbol ++ xs) c'') :
    Filled home c.temps (params.map fun p => .var p.symbol) c'.temps [] [] := by
  induction h with
  | nil => exact .nil _
  | cons isVar h ih =>
    have inner := fits.right (Cursor.Binds.param isVar _) (h.binds.append others) rfl
    exact (Filled.bind (inner.param isVar)).append (ih others inner)

theorem ImplicitReturnCode.filled {config : Config} {c c' : Cursor} {code : List Instr}
    (h : ImplicitReturnCode config c code c') :
    Filled home c.temps (Typed.endingSlots config) c'.temps [] code := by
  unfold Typed.endingSlots
  cases h with
  | on on =>
    rw [if_pos on]
    exact ((Filled.nil c.temps).value rfl).skip (.ret c.temps) rfl
  | off off =>
    rw [if_neg (by simp [off])]
    exact .nil _

/-- The piece of a function takes temporaries for its slots. -/
theorem FunctionCode.filled {config : Config} {f : Typed.Function} {c c' : Cursor} {piece : Piece}
    (h : FunctionCode config f c piece c') (fits : Fits home c f.binds c') :
    Filled home c.temps (f.slots config) c'.temps [] piece.body := by
  obtain ⟨c₀, c₁, c₂, c₃, code, ending, params, others, fits₁, same₀, same₂, split, main, fits₂,
    ends⟩ := h.parts fits
  have first := params.filled others fits₁
  have second := main.filled fits₂
  rw [same₀] at first
  rw [same₂] at second
  rw [split]
  exact (first.append second).append ends.filled

theorem FunctionsCode.filled {config : Config} {fs : List Typed.Function} {c c' : Cursor}
    {pieces : List Piece} (h : FunctionsCode config fs c pieces c')
    (fits : Fits home c (fs.flatMap Typed.Function.binds) c') :
    Filled home c.temps (fs.flatMap (Typed.Function.slots config)) c'.temps []
      (pieces.flatMap Piece.body) := by
  induction h with
  | nil => exact .nil _
  | cons first others ih =>
    have own := first.filled (fits.left first.binds others.binds rfl)
    exact own.append (ih (fits.right first.binds others.binds rfl))

end MiddleEnd
