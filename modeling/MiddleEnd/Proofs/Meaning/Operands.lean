import MiddleEnd.Proofs.Lowered.Slots
import MiddleEnd.Proofs.Meaning.Simulation

/-!
# Operands that are overwritten

A reference and an assignment answer the temporary of their variable and not a copy of it. As a left
operand they stand for what the variable holds when the operator is reached, and the right operand
may have assigned it by then. Every other left operand has a temporary of its own, which is written
no more.

Results:
1. `ExprCode.written`, `ExprCode.assigned_written`: what the code of an expression writes.
2. `ExprCode.overwritten_iff`: when the code of a right operand writes the temporary of the left
   one.
3. `ExprCode.passes`: the code of an expression is run to its end and spares what it does not write.
4. `binary_operands`: what a lowered operator is applied to.
-/

namespace MiddleEnd

open Machine

theorem mem_writtenTemps_append {t : Temp} {code code' : List Instr} :
    t ∈ writtenTemps (code ++ code') ↔ t ∈ writtenTemps code ∨ t ∈ writtenTemps code' := by
  rw [writtenTemps, List.filterMap_append, List.mem_append, writtenTemps, writtenTemps]

theorem mem_writtenTemps_cons {t : Temp} {i : Instr} {code : List Instr} :
    t ∈ writtenTemps (i :: code) ↔ i.dst? = some t ∨ t ∈ writtenTemps code := by
  rw [writtenTemps_cons, List.mem_append, Option.mem_toList]

theorem not_mem_writtenTemps_nil (t : Temp) : t ∉ writtenTemps [] := List.not_mem_nil

theorem mem_writtenTemps_singleton {t : Temp} {i : Instr} :
    t ∈ writtenTemps [i] ↔ i.dst? = some t := by
  rw [mem_writtenTemps_cons, or_iff_left (not_mem_writtenTemps_nil t)]

/-! ## What an expression writes -/

/-- An expression binds no variable. -/
theorem ExprCode.tempOf_eq {e : Typed.Expr} {c c' : Cursor} {t : Temp} {code : List Instr}
    (h : ExprCode e c t code c') : c'.tempOf = c.tempOf :=
  funext fun x => h.binds.kept x List.not_mem_nil

/-- A temporary that is not taken yet, or one of the variables `xs`. -/
def Cursor.Writable (c : Cursor) (xs : List SymbolId) (u : Nat) : Prop :=
  c.temps ≤ u ∨ ∃ x ∈ xs, c.tempOf x = some u

theorem Cursor.Writable.mono {c c' : Cursor} {xs ys : List SymbolId} {u : Nat}
    (h : c'.Writable xs u) (le : c.temps ≤ c'.temps) (same : c'.tempOf = c.tempOf)
    (sub : xs ⊆ ys) : c.Writable ys u := by
  rcases h with fresh | ⟨x, mem, bound⟩
  · exact .inl (Nat.le_trans le fresh)
  · exact .inr ⟨x, sub mem, same ▸ bound⟩

/-- The code of an expression writes temporaries that are taken for it and those of the variables
that it assigns. -/
theorem ExprCode.written {e : Typed.Expr} {c c' : Cursor} {t : Temp} {code : List Instr}
    (h : ExprCode e c t code c') {u : Temp} (mem : u ∈ writtenTemps code) :
    c.Writable e.assigned u := by
  induction h with
  | const =>
    obtain rfl := Option.some_inj.1 (mem_writtenTemps_singleton.1 mem)
    exact .inl (Nat.le_refl _)
  | var => cases mem
  | unary h ih =>
    rcases mem_writtenTemps_append.1 mem with mem | last
    · exact ih mem
    · obtain rfl := Option.some_inj.1 (mem_writtenTemps_singleton.1 last)
      exact .inl h.binds.le
  | binary h₁ h₂ ih₁ ih₂ =>
    rcases mem_writtenTemps_append.1 mem with mem | last
    · rcases mem_writtenTemps_append.1 mem with mem | mem
      · exact (ih₁ mem).mono (Nat.le_refl _) rfl (List.subset_append_left _ _)
      · exact (ih₂ mem).mono h₁.binds.le h₁.tempOf_eq (List.subset_append_right _ _)
    · obtain rfl := Option.some_inj.1 (mem_writtenTemps_singleton.1 last)
      exact .inl (h₁.binds.append h₂.binds).le
  | assign bound _ ih =>
    rcases mem_writtenTemps_append.1 mem with mem | last
    · exact (ih mem).mono (Nat.le_refl _) rfl (List.subset_append_right _ _)
    · obtain rfl := Option.some_inj.1 (mem_writtenTemps_singleton.1 last)
      obtain ⟨x, symbol, -, bound⟩ := bound
      exact .inr ⟨x, List.mem_append_left _ (symbol ▸ List.mem_singleton_self x), bound⟩
  | @cond test ifTrue ifFalse _ _ c c₁ c₂ c₃ t t₁ t₂ code₁ code₂ code₃ h₁ h₂ h₃ ih₁ ih₂ ih₃ =>
    have taken : c.temps ≤ (c.takeTemp.takeLabels 2).temps := Nat.le_succ _
    have le₁ := Nat.le_trans taken h₁.binds.le
    simp only [mem_writtenTemps_append, mem_writtenTemps_cons, not_mem_writtenTemps_nil,
      Instr.dst?, Option.some_inj, reduceCtorEq, false_or, or_false] at mem
    rcases mem with (((mem | mem) | rfl | mem) | rfl)
    · refine (ih₁ mem).mono taken rfl ?_
      exact List.Subset.trans (List.subset_append_left _ _) (List.subset_append_left _ _)
    · refine (ih₂ mem).mono le₁ h₁.tempOf_eq ?_
      exact List.Subset.trans (List.subset_append_right _ _) (List.subset_append_left _ _)
    · exact .inl (Nat.le_refl _)
    · refine (ih₃ mem).mono (Nat.le_trans le₁ h₂.binds.le) ?_ (List.subset_append_right _ _)
      exact h₂.tempOf_eq.trans h₁.tempOf_eq
    · exact .inl (Nat.le_refl _)

/-- The code of an expression writes the temporary of every variable that it assigns. -/
theorem ExprCode.assigned_written {e : Typed.Expr} {c c' : Cursor} {t : Temp} {code : List Instr}
    (h : ExprCode e c t code c') {x : SymbolId} (assigned : x ∈ e.assigned) :
    ∃ u, c.tempOf x = some u ∧ u ∈ writtenTemps code := by
  induction h with
  | const | var => cases assigned
  | unary _ ih =>
    obtain ⟨u, bound, mem⟩ := ih assigned
    exact ⟨u, bound, mem_writtenTemps_append.2 (.inl mem)⟩
  | binary h₁ _ ih₁ ih₂ =>
    rw [h₁.tempOf_eq] at ih₂
    simp only [mem_writtenTemps_append]
    rcases List.mem_append.1 assigned with assigned | assigned
    · obtain ⟨u, bound, mem⟩ := ih₁ assigned
      exact ⟨u, bound, .inl (.inl mem)⟩
    · obtain ⟨u, bound, mem⟩ := ih₂ assigned
      exact ⟨u, bound, .inl (.inr mem)⟩
  | @assign target value _ _ c c' dst src code bound _ ih =>
    rcases List.mem_append.1 assigned with own | assigned
    · obtain ⟨x', symbol, -, bound⟩ := bound
      rw [symbol] at own
      obtain rfl := List.mem_singleton.1 own
      exact ⟨dst, bound, mem_writtenTemps_append.2 (.inr (mem_writtenTemps_singleton.2 rfl))⟩
    · obtain ⟨u, bound, mem⟩ := ih assigned
      exact ⟨u, bound, mem_writtenTemps_append.2 (.inl mem)⟩
  | cond h₁ h₂ _ ih₁ ih₂ ih₃ =>
    rw [h₂.tempOf_eq, h₁.tempOf_eq] at ih₃
    rw [h₁.tempOf_eq] at ih₂
    simp only [mem_writtenTemps_append, mem_writtenTemps_cons]
    simp only [Typed.Expr.assigned, List.mem_append] at assigned
    rcases assigned with (assigned | assigned) | assigned
    · obtain ⟨u, bound, mem⟩ := ih₁ assigned
      exact ⟨u, bound, by simp [mem]⟩
    · obtain ⟨u, bound, mem⟩ := ih₂ assigned
      exact ⟨u, bound, by simp [mem]⟩
    · obtain ⟨u, bound, mem⟩ := ih₃ assigned
      exact ⟨u, bound, by simp [mem]⟩

/-- Variables that live apart, below the next temporary, stay where they live while an expression is
lowered. -/
theorem ExprCode.fits {e : Typed.Expr} {c c' : Cursor} {t : Temp} {code : List Instr}
    (h : ExprCode e c t code c')
    (apart : ∀ x y u, c.tempOf x = some u → c.tempOf y = some u → x = y)
    (below : ∀ x (u : Nat), c.tempOf x = some u → u < c.temps) : Fits c.tempOf c [] c' where
  binds := h.binds
  nodup := List.nodup_nil
  unbound _ mem := absurd mem List.not_mem_nil
  below := below
  agrees _ _ bound := h.tempOf_eq ▸ bound
  behind _ _ bound := .inl (h.tempOf_eq ▸ bound)
  injective := apart

/-- A reference and an assignment answer the temporary of their variable. -/
theorem ExprCode.tempOf_variable {e : Typed.Expr} {c c' : Cursor} {t : Temp} {code : List Instr}
    (h : ExprCode e c t code c') {x : SymbolId} (isVar : e.variable? = some x) :
    c.tempOf x = some t := by
  cases h with
  | var bound | assign bound _ =>
    obtain ⟨x', symbol, -, bound⟩ := bound
    obtain rfl := Option.some_inj.1 (symbol.symm.trans isVar)
    exact bound
  | const | unary | binary | cond => cases isVar

/-- The code of a right operand writes the temporary of the left one exactly if the left one is a
reference or an assignment to a variable that the right one assigns. -/
theorem ExprCode.overwritten_iff {left right : Typed.Expr} {c c₁ c₂ : Cursor} {l r : Temp}
    {code₁ code₂ : List Instr} (h₁ : ExprCode left c l code₁ c₁) (h₂ : ExprCode right c₁ r code₂ c₂)
    (apart : ∀ x y u, c.tempOf x = some u → c.tempOf y = some u → x = y)
    (below : ∀ x (u : Nat), c.tempOf x = some u → u < c.temps) :
    l ∈ writtenTemps code₂ ↔ ∃ x, left.variable? = some x ∧ x ∈ right.assigned := by
  constructor
  · intro mem
    rcases h₁.temp (h₁.fits apart below) with ⟨x, isVar, lives⟩ | ⟨above, under⟩
    · rcases h₂.written mem with fresh | ⟨y, assigned, lives'⟩
      · exact absurd (below x l lives) (Nat.not_lt.2 (Nat.le_trans h₁.binds.le fresh))
      · rw [h₁.tempOf_eq] at lives'
        exact ⟨x, isVar, apart x y l lives lives' ▸ assigned⟩
    · rcases h₂.written mem with fresh | ⟨y, -, lives⟩
      · exact absurd under (Nat.not_lt.2 fresh)
      · rw [h₁.tempOf_eq] at lives
        exact absurd (below y l lives) (Nat.not_lt.2 above)
  · rintro ⟨x, isVar, assigned⟩
    obtain ⟨u, lives, mem⟩ := h₂.assigned_written assigned
    rw [h₁.tempOf_eq] at lives
    obtain rfl := Option.some_inj.1 ((h₁.tempOf_variable isVar).symm.trans lives)
    exact mem

/-! ## Running an expression -/

/-- Only what the code writes is different. -/
def Spares (code : List Instr) (m m' : Memory) : Prop := ∀ u, u ∉ writtenTemps code → m' u = m u

namespace Spares

variable {code code' : List Instr} {m m' m'' : Memory}

theorem refl (code : List Instr) (m : Memory) : Spares code m m := fun _ _ => rfl

theorem trans (h₁ : Spares code m m') (h₂ : Spares code m' m'') : Spares code m m'' :=
  fun u spared => (h₂ u spared).trans (h₁ u spared)

theorem mono (h : Spares code m m') (sub : ∀ u ∈ writtenTemps code, u ∈ writtenTemps code') :
    Spares code' m m' := fun u spared => h u fun mem => spared (sub u mem)

theorem left (h : Spares code m m') (code' : List Instr) : Spares (code ++ code') m m' :=
  h.mono fun _ mem => mem_writtenTemps_append.2 (.inl mem)

theorem right (h : Spares code' m m') (code : List Instr) : Spares (code ++ code') m m' :=
  h.mono fun _ mem => mem_writtenTemps_append.2 (.inr mem)

theorem update (h : Spares code m m') {t : Temp} (mem : t ∈ writtenTemps code) (v : Int) :
    Spares code m (Function.update m' t v) := by
  intro u spared
  have differs : u ≠ t := fun same => spared (same ▸ mem)
  rw [Function.update_of_ne differs]
  exact h u spared

/-- One instruction more, which writes `t`. -/
theorem write (h : Spares code m m') {i : Instr} {t : Temp} (writes : i.dst? = some t) (v : Int) :
    Spares (code ++ [i]) m (Function.update m' t v) :=
  (h.left [i]).update
    (mem_writtenTemps_append.2 (.inr (mem_writtenTemps_singleton.2 writes))) v

end Spares

variable {ops : Operators} {body : List Instr}

/-- The code of an expression is run to its end, and what it does not write is kept. -/
theorem ExprCode.passes (once : (markedLabels body).Nodup) {e : Typed.Expr} {c c' : Cursor}
    {t : Temp} {code : List Instr} (h : ExprCode e c t code c') {pc : Nat}
    (place : CodeAt body pc code) (m : Memory) :
    ∃ m', Reaches ops body ⟨pc, m⟩ ⟨pc + code.length, m'⟩ ∧ Spares code m m' := by
  induction h generalizing pc m with
  | const => exact ⟨_, place.load, (Spares.refl [] m).write rfl _⟩
  | var => exact ⟨m, .refl, .refl _ m⟩
  | unary _ ih =>
    obtain ⟨m₁, reached, spares⟩ := ih place.left m
    refine ⟨_, (reached.trans place.right.unary).cast ?_, spares.write rfl _⟩
    rw [List.length_append]
    rfl
  | @binary _ _ _ _ _ _ _ _ _ _ code₁ code₂ _ _ ih₁ ih₂ =>
    obtain ⟨m₁, reached₁, spares₁⟩ := ih₁ place.left.left m
    obtain ⟨m₂, reached₂, spares₂⟩ := ih₂ place.left.right m₁
    refine ⟨_, (((reached₁.trans reached₂).cast ?_).trans place.right.binary).cast ?_,
      ((spares₁.left code₂).trans (spares₂.right code₁)).write rfl _⟩
    · simp only [List.length_append]
      omega
    · simp only [List.length_append, List.length_singleton]
      omega
  | assign _ _ ih =>
    obtain ⟨m₁, reached, spares⟩ := ih place.left m
    refine ⟨_, (reached.trans place.right.copy).cast ?_, spares.write rfl _⟩
    rw [List.length_append]
    rfl
  | @cond _ _ _ _ _ _ _ _ _ t _ _ _ _ _ _ _ _ ih₁ ih₂ ih₃ =>
    have branch := place.left.left.right
    have middle := place.left.right
    have ending := place.right
    obtain ⟨m₁, reached₁, spares₁⟩ := ih₁ place.left.left.left m
    by_cases zero : m₁ t = 0
    · obtain ⟨m₃, reached₃, spares₃⟩ := ih₃ middle.tail.tail.tail m₁
      have jumped : Reaches ops body _ _ :=
        branch.jumpIfZero_zero zero (middle.tail.tail.markPlace once)
      have moved := reached₁.trans (jumped.trans (middle.tail.tail.mark.trans reached₃))
      refine ⟨_, ((moved.cast ?_).trans (ending.copy.trans ending.tail.mark)).cast ?_,
        ((spares₁.mono ?_).trans (spares₃.mono ?_)).update ?_ _⟩
      · simp only [List.length_append, List.length_cons]
        omega
      · simp only [List.length_append, List.length_cons, List.length_nil]
        omega
      · intro u mem
        simp [mem_writtenTemps_append, mem]
      · intro u mem
        simp [mem_writtenTemps_append, mem_writtenTemps_cons, mem]
      · simp [mem_writtenTemps_append, mem_writtenTemps_cons, Instr.dst?]
    · obtain ⟨m₂, reached₂, spares₂⟩ := ih₂ branch.tail m₁
      have passed : Reaches ops body _ _ := branch.jumpIfZero_nonzero zero
      have moved := reached₁.trans (passed.trans reached₂)
      refine ⟨_, ((moved.cast ?_).trans (middle.copy.trans ((middle.tail.jump
        (ending.tail.markPlace once)).trans ending.tail.mark))).cast ?_,
        ((spares₁.mono ?_).trans (spares₂.mono ?_)).update ?_ _⟩
      · simp only [List.length_append, List.length_cons]
        omega
      · simp only [List.length_append, List.length_cons, List.length_nil]
        omega
      · intro u mem
        simp [mem_writtenTemps_append, mem]
      · intro u mem
        simp [mem_writtenTemps_append, mem_writtenTemps_cons, mem]
      · simp [mem_writtenTemps_append, mem_writtenTemps_cons, Instr.dst?]

/-! ## What an operator is applied to -/

/-- The operands of a binary operator are lowered one after the other, and the operator is applied
to what their temporaries hold behind the code of both. For a left operand that is a reference or an
assignment, this is what its variable holds by then. Among variables that live apart, below the next
temporary, the code of the right operand writes the temporary of the left one exactly if the left
one is a reference or an assignment to a variable that the right one assigns. Otherwise the operator
is applied to the value that the left operand had behind its own code. -/
theorem binary_operands {op : BinaryOp} {left right : Typed.Expr} {ty : Ty} {span : Span}
    {s s' : Lowering} {t : Temp}
    (apart : ∀ x y u, s.symbols.tempOf x = some u → s.symbols.tempOf y = some u → x = y)
    (below : ∀ x (u : Nat), s.symbols.tempOf x = some u → u < s.emitter.temps)
    (lowered : lowerExpr (.binary op left right ty span) s = .ok t s') :
    ∃ (l r : Temp) (s₁ s₂ : Lowering) (code₁ code₂ : List Instr),
      lowerExpr left s = .ok l s₁ ∧ s₁ = s.after code₁ s₁.cursor ∧
      lowerExpr right s₁ = .ok r s₂ ∧ s₂ = s₁.after code₂ s₂.cursor ∧
      s' = s₂.after [.binary op t l r] s'.cursor ∧
      (∀ x, left.variable? = some x → s.symbols.tempOf x = some l) ∧
      (l ∈ writtenTemps code₂ ↔ ∃ x, left.variable? = some x ∧ x ∈ right.assigned) ∧
      ∀ (ops : Operators) (body : List Instr) (pc : Nat) (m : Memory),
        (markedLabels body).Nodup → CodeAt body pc (code₁ ++ code₂ ++ [.binary op t l r]) →
        ∃ m₁ m₂ : Memory,
          Reaches ops body ⟨pc, m⟩ ⟨pc + code₁.length, m₁⟩ ∧
          Reaches ops body ⟨pc + code₁.length, m₁⟩ ⟨pc + (code₁ ++ code₂).length, m₂⟩ ∧
          Reaches ops body ⟨pc + (code₁ ++ code₂).length, m₂⟩
            ⟨pc + (code₁ ++ code₂).length + 1,
              Function.update m₂ t (ops.binary op (m₂ l) (m₂ r))⟩ ∧
          ((∀ x, left.variable? = some x → x ∉ right.assigned) → m₂ l = m₁ l) := by
  obtain ⟨l, s₁, lowered₁, rest⟩ := bind_eq_ok.1 lowered
  obtain ⟨r, s₂, lowered₂, emitted⟩ := bind_eq_ok.1 rest
  obtain ⟨code₁, c₁, h₁, rfl⟩ := lowerExpr_shape lowered₁
  obtain ⟨code₂, c₂, h₂, rfl⟩ := lowerExpr_shape lowered₂
  obtain ⟨-, rfl, rfl⟩ := Lower.emitFresh_eq_ok.1 emitted
  have overwritten := h₁.overwritten_iff h₂ apart below
  refine ⟨l, r, _, _, code₁, code₂, lowered₁, rfl, lowered₂, rfl, rfl,
    fun x isVar => h₁.tempOf_variable isVar, overwritten, ?_⟩
  intro ops body pc m once place
  obtain ⟨m₁, reached₁, -⟩ := h₁.passes once place.left.left m
  obtain ⟨m₂, reached₂, spares⟩ := h₂.passes once place.left.right m₁
  refine ⟨m₁, m₂, reached₁, reached₂.cast ?_, place.right.binary, fun kept => ?_⟩
  · rw [List.length_append, Nat.add_assoc]
  · refine spares l fun written => ?_
    obtain ⟨x, isVar, assigned⟩ := overwritten.1 written
    exact kept x isVar assigned

/-- `x = value`, where `x` is the first symbol. -/
def assignFirst (value : Int) : Typed.Expr :=
  .assign ⟨"x", some 0, some .frame, .int, .null⟩ (.const value .int .null) .int .null

/-- An open function that has bound its only variable. -/
def oneBound : Lowering where
  emitter := { temps := 1, current := some ⟨"main", 0, [], []⟩ }
  symbols :=
    ⟨[.var { name := "x", ty := .int, pos := .null, isParameter := false, temp := some 0 }], []⟩

/-- In `(x = 1) + (x = 2)` both operands are the variable, which the right one assigns last. -/
theorem binary_operands_of_oneBound :
    ∃ (l r : Temp) (s₁ s₂ : Lowering) (code₁ code₂ : List Instr),
      lowerExpr (assignFirst 1) oneBound = .ok l s₁ ∧ s₁ = oneBound.after code₁ s₁.cursor ∧
      lowerExpr (assignFirst 2) s₁ = .ok r s₂ ∧ s₂ = s₁.after code₂ s₂.cursor ∧
      l = 0 ∧ l ∈ writtenTemps code₂ := by
  have only (x : SymbolId) (u : Temp) (bound : oneBound.symbols.tempOf x = some u) :
      x = 0 ∧ u = 0 := by
    cases x with
    | zero => exact ⟨rfl, (Option.some_inj.1 bound).symm⟩
    | succ x => cases bound
  obtain ⟨t, s', lowered⟩ : ∃ t s', lowerExpr (.binary .add (assignFirst 1) (assignFirst 2) .int
      .null) oneBound = .ok t s' := ⟨_, _, rfl⟩
  obtain ⟨l, r, s₁, s₂, code₁, code₂, lowered₁, emitted₁, lowered₂, emitted₂, -, isVar, overwritten,
    -⟩ := binary_operands (fun x y u hx hy => (only x u hx).1.trans (only y u hy).1.symm)
      (fun x u hx => (only x u hx).2 ▸ Nat.one_pos) lowered
  exact ⟨l, r, s₁, s₂, code₁, code₂, lowered₁, emitted₁, lowered₂, emitted₂,
    (only 0 l (isVar 0 rfl)).2, overwritten.2 ⟨0, rfl, List.mem_singleton_self 0⟩⟩

end MiddleEnd
