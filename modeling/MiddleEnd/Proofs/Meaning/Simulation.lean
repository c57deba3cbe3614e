import MiddleEnd.Proofs.Lowered.Labels
import MiddleEnd.Proofs.Lowered.Bindings
import MiddleEnd.Proofs.Meaning.Evaluate

/-!
# Code does what its tree means

The machine follows the tree. While it does, each temporary that a variable lives in holds what the
variable holds (`Agrees`), and the temporaries taken for results keep their values until they are
used (`Keeps`).

Results:
1. `ExprCode.runs`: the code of an expression computes its value.
2. `StmtCode.runs`: the code of a statement ends as the statement does, and runs on for as many
   steps as there is fuel if the statement runs out of it.
-/

namespace MiddleEnd

open Machine

/-- The temporaries that variables live in hold what the variables hold. -/
def Agrees (home : SymbolId → Option Temp) (σ : Store) (m : Memory) : Prop :=
  ∀ x t, home x = some t → m t = σ x

/-- The temporaries below `n` that no variable lives in are the same. -/
def Keeps (home : SymbolId → Option Temp) (n : Nat) (m m' : Memory) : Prop :=
  ∀ u : Nat, u < n → (∀ x, home x ≠ some u) → m' u = m u

variable {ops : Operators} {body : List Instr} {home : SymbolId → Option Temp}

namespace Agrees

variable {σ : Store} {m : Memory}

/-- Writing where no variable lives changes no variable. -/
theorem update_fresh (h : Agrees home σ m) {t : Temp} (fresh : ∀ x, home x ≠ some t) (v : Int) :
    Agrees home σ (Function.update m t v) := by
  intro x u lives
  have differs : u ≠ t := fun same => fresh x (same ▸ lives)
  rw [Function.update_of_ne differs]
  exact h x u lives

/-- Writing where a variable lives changes that variable. -/
theorem update_home (h : Agrees home σ m) {x : SymbolId} {t : Temp} (lives : home x = some t)
    (injective : ∀ x y t, home x = some t → home y = some t → x = y) (v : Int) :
    Agrees home (Function.update σ x v) (Function.update m t v) := by
  intro y u lives'
  by_cases same : y = x
  · subst same
    rw [lives, Option.some_inj] at lives'
    subst lives'
    rw [Function.update_self, Function.update_self]
  · have differs : u ≠ t := fun eq => same (injective y x t (eq ▸ lives') lives)
    rw [Function.update_of_ne differs, Function.update_of_ne same]
    exact h y u lives'

end Agrees

namespace Keeps

variable {n k : Nat} {m m' m'' : Memory}

theorem refl (n : Nat) (m : Memory) : Keeps home n m m := fun _ _ _ => rfl

theorem trans (h₁ : Keeps home n m m') (h₂ : Keeps home k m' m'') (le : n ≤ k) :
    Keeps home n m m'' := fun u below notHome =>
  (h₂ u (Nat.lt_of_lt_of_le below le) notHome).trans (h₁ u below notHome)

/-- Writing above, or where a variable lives, is not noticed. -/
theorem update (h : Keeps home n m m') {t : Nat} (apart : n ≤ t ∨ ∃ x, home x = some t) (v : Int) :
    Keeps home n m (Function.update m' t v) := by
  intro u below notHome
  have differs : u ≠ t := by
    rintro rfl
    rcases apart with above | ⟨x, lives⟩
    · omega
    · exact notHome x lives
  rw [Function.update_of_ne differs]
  exact h u below notHome

end Keeps

/-! ## Expressions -/

/-- The value of an expression is held by the variable that the expression refers to, or by a
temporary taken for it. -/
theorem ExprCode.temp {e : Typed.Expr} {c c' : Cursor} {t : Nat} {code : List Instr}
    (h : ExprCode e c t code c') (fits : Fits home c [] c') :
    (∃ x, e.variable? = some x ∧ home x = some t) ∨ (c.temps ≤ t ∧ t < c'.temps) := by
  cases h with
  | const => exact .inr ⟨Nat.le_refl _, Nat.lt_succ_self _⟩
  | var bound => exact .inl (fits.ref bound)
  | unary h => exact .inr ⟨h.binds.le, Nat.lt_succ_self _⟩
  | binary h₁ h₂ => exact .inr ⟨(h₁.binds.append h₂.binds).le, Nat.lt_succ_self _⟩
  | assign bound => exact .inl (fits.ref bound)
  | cond h₁ h₂ h₃ => exact .inr ⟨Nat.le_refl _, (h₁.binds.append (h₂.binds.append h₃.binds)).le⟩

/-- From `⟨pc, m⟩` control comes to `last` with the value in `t` and the store in the homes of the
variables. The temporaries below `n` are kept. -/
def Computes (ops : Operators) (body : List Instr) (home : SymbolId → Option Temp) (n : Nat)
    (pc : Nat) (m : Memory) (last : Nat) (t : Temp) (v : Int × Store) : Prop :=
  ∃ m', Reaches ops body ⟨pc, m⟩ ⟨last, m'⟩ ∧ m' t = v.1 ∧ Agrees home v.2 m' ∧ Keeps home n m m'

variable (ops) in
/-- The code of an expression computes its value. -/
theorem ExprCode.runs (once : (markedLabels body).Nodup) {e : Typed.Expr} {c c' : Cursor} {t : Temp}
    {code : List Instr} (h : ExprCode e c t code c') (fits : Fits home c [] c') (steady : e.Steady)
    {pc : Nat} (place : CodeAt body pc code) {σ : Store} {m : Memory} (agrees : Agrees home σ m) :
    Computes ops body home c.temps pc m (pc + code.length) t (e.eval ops σ) := by
  induction h generalizing pc σ m with
  | @const value ty span c =>
    have fresh := fits.fresh (Nat.le_refl _) (Nat.lt_succ_self _)
    exact ⟨_, place.load, Function.update_self .., agrees.update_fresh fresh value,
      (Keeps.refl _ m).update (.inl (Nat.le_refl _)) value⟩
  | var bound =>
    obtain ⟨x, symbol, lives⟩ := fits.ref bound
    refine ⟨m, .refl, ?_, agrees, .refl _ m⟩
    simpa [Typed.Expr.eval, Typed.Ref.get, symbol] using agrees x _ lives
  | @unary op operand ty span c c' src code h ih =>
    have inner := fits.left h.binds (Cursor.Binds.refl c').takeTemp rfl
    have fresh := fits.fresh h.binds.le (Nat.lt_succ_self c'.temps)
    obtain ⟨m₁, reached, value, agrees₁, keeps⟩ := ih inner steady place.left agrees
    refine ⟨_, (reached.trans place.right.unary).cast ?_, ?_, agrees₁.update_fresh fresh _,
      keeps.update (.inl h.binds.le) _⟩
    · rw [List.length_append]
      rfl
    · rw [Function.update_self, value]
      rfl
  | @binary op left right ty span c c₁ c₂ l r code₁ code₂ h₁ h₂ ih₁ ih₂ =>
    obtain ⟨steady₁, steady₂, apart⟩ := steady
    have le := (h₁.binds.append h₂.binds).le
    have fresh := fits.fresh le (Nat.lt_succ_self c₂.temps)
    have inner := fits.left (h₁.binds.append h₂.binds) (Cursor.Binds.refl c₂).takeTemp rfl
    have fits₁ := inner.left h₁.binds h₂.binds rfl
    have fits₂ := inner.right h₁.binds h₂.binds rfl
    obtain ⟨m₁, reached₁, value₁, agrees₁, keeps₁⟩ := ih₁ fits₁ steady₁ place.left.left agrees
    obtain ⟨m₂, reached₂, value₂, agrees₂, keeps₂⟩ := ih₂ fits₂ steady₂ place.left.right agrees₁
    -- the left operand is still there: the right one assigns no variable that could hold it
    have held : m₂ l = m₁ l := by
      rcases h₁.temp fits₁ with ⟨x, isVar, lives⟩ | ⟨above, below⟩
      · rw [agrees₂ x l lives, agrees₁ x l lives]
        exact Typed.Expr.eval_of_not_assigned ops (apart x isVar) _
      · exact keeps₂ l below (fits₁.fresh above below)
    refine ⟨_, (((reached₁.trans reached₂).cast ?_).trans place.right.binary).cast ?_, ?_,
      agrees₂.update_fresh fresh _, (keeps₁.trans keeps₂ h₁.binds.le).update (.inl le) _⟩
    · simp only [List.length_append]
      omega
    · simp only [List.length_append, List.length_singleton]
      omega
    · rw [Function.update_self, held, value₁, value₂]
      rfl
  | @assign target value ty span c c' dst src code bound h ih =>
    obtain ⟨x, symbol, lives⟩ := fits.ref bound
    obtain ⟨m₁, reached, value, agrees₁, keeps⟩ := ih fits steady place.left agrees
    refine ⟨_, (reached.trans place.right.copy).cast ?_, ?_, ?_, keeps.update (.inr ⟨x, lives⟩) _⟩
    · rw [List.length_append]
      rfl
    · rw [Function.update_self, value]
      rfl
    · rw [value]
      simpa [Typed.Expr.eval, Typed.Ref.set, symbol] using
        agrees₁.update_home lives fits.injective _
  | @cond test ifTrue ifFalse ty span c c₁ c₂ c₃ t t₁ t₂ code₁ code₂ code₃ h₁ h₂ h₃ ih₁ ih₂ ih₃ =>
    obtain ⟨steady₁, steady₂, steady₃⟩ := steady
    have taken := (Cursor.Binds.refl c).takeTemp.takeLabels 2
    have branches := h₂.binds.append h₃.binds
    have fresh := (fits.left taken (h₁.binds.append branches) rfl).fresh (Nat.le_refl _)
      (Nat.lt_succ_self c.temps)
    have inner := fits.right taken (h₁.binds.append branches) rfl
    have outer := inner.right h₁.binds branches rfl
    have branch := place.left.left.right
    have middle := place.left.right
    have ending := place.right
    -- the result has its own temporary, taken before anything else, so both values are kept below
    obtain ⟨m₁, reached₁, value₁, agrees₁, keeps₁⟩ :=
      ih₁ (inner.left h₁.binds branches rfl) steady₁ place.left.left.left agrees
    have kept := (Keeps.refl c.temps m).trans keeps₁ (Nat.le_succ _)
    simp only [Typed.Expr.eval]
    split
    · next zero =>
      obtain ⟨m₃, reached₃, value₃, agrees₃, keeps₃⟩ :=
        ih₃ (outer.right h₂.binds h₃.binds rfl) steady₃ middle.tail.tail.tail agrees₁
      have jumped : Reaches ops body _ _ :=
        branch.jumpIfZero_zero (value₁.trans zero) (middle.tail.tail.markPlace once)
      have moved := reached₁.trans (jumped.trans (middle.tail.tail.mark.trans reached₃))
      refine ⟨_, ((moved.cast ?_).trans (ending.copy.trans ending.tail.mark)).cast ?_, ?_,
        agrees₃.update_fresh fresh _,
        (kept.trans keeps₃ (taken.append (h₁.binds.append h₂.binds)).le).update
          (.inl (Nat.le_refl _)) _⟩
      · simp only [List.length_append, List.length_cons]
        omega
      · simp only [List.length_append, List.length_cons, List.length_nil]
        omega
      · rw [Function.update_self, value₃]
    · next nonzero =>
      obtain ⟨m₂, reached₂, value₂, agrees₂, keeps₂⟩ :=
        ih₂ (outer.left h₂.binds h₃.binds rfl) steady₂ branch.tail agrees₁
      have passed : Reaches ops body _ _ :=
        branch.jumpIfZero_nonzero fun zero => nonzero (value₁.symm.trans zero)
      have moved := reached₁.trans (passed.trans reached₂)
      refine ⟨_, ((moved.cast ?_).trans (middle.copy.trans ((middle.tail.jump
        (ending.tail.markPlace once)).trans ending.tail.mark))).cast ?_, ?_,
        agrees₂.update_fresh fresh _,
        (kept.trans keeps₂ (taken.append h₁.binds).le).update (.inl (Nat.le_refl _)) _⟩
      · simp only [List.length_append, List.length_cons]
        omega
      · simp only [List.length_append, List.length_cons, List.length_nil]
        omega
      · rw [Function.update_self, value₂]

/-! ## Statements -/

/-- Control comes from `s` to `pc` with the store in the homes of the variables. -/
def Arrives (ops : Operators) (body : List Instr) (home : SymbolId → Option Temp) (s : State)
    (pc : Nat) (σ : Store) : Prop :=
  ∃ m, Reaches ops body s ⟨pc, m⟩ ∧ Agrees home σ m

/-- What the machine does from `s` on where a statement ends as `result` says: control comes to
`last`, to a target of the loop, or to a return, and without a result it goes on for `fuel`
steps. -/
def Lands (ops : Operators) (body : List Instr) (home : SymbolId → Option Temp) (fuel : Nat)
    (targets : Option LoopTargets) (s : State) (last : Nat) :
    Option (Typed.Outcome × Store) → Prop
  | none => Lasts ops body s fuel
  | some (.normal, σ) => Arrives ops body home s last σ
  | some (.brk, σ) => ∃ t pc, targets = some t ∧ markPlace? body t.exit = some pc ∧
      Arrives ops body home s pc σ
  | some (.cont, σ) => ∃ t pc, targets = some t ∧ markPlace? body t.next = some pc ∧
      Arrives ops body home s pc σ
  | some (.ret v, _) => Halts ops body s v

theorem Arrives.after {s s' : State} {pc : Nat} {σ : Store} (h : Arrives ops body home s' pc σ)
    (reached : Reaches ops body s s') : Arrives ops body home s pc σ := by
  obtain ⟨m, h, agrees⟩ := h
  exact ⟨m, reached.trans h, agrees⟩

theorem Lands.after {fuel : Nat} {targets : Option LoopTargets} {s s' : State} {last : Nat}
    {result : Option (Typed.Outcome × Store)} (h : Lands ops body home fuel targets s' last result)
    (reached : Reaches ops body s s') : Lands ops body home fuel targets s last result := by
  match result, h with
  | none, h => exact reached.lasts h
  | some (.normal, σ), h => exact Arrives.after h reached
  | some (.brk, σ), ⟨t, pc, inLoop, place, h⟩ => exact ⟨t, pc, inLoop, place, h.after reached⟩
  | some (.cont, σ), ⟨t, pc, inLoop, place, h⟩ => exact ⟨t, pc, inLoop, place, h.after reached⟩
  | some (.ret v, σ), h => exact reached.halts h

/-- Where control comes to the end of a statement, it goes on behind it. -/
theorem Lands.andThen {fuel : Nat} {targets : Option LoopTargets} {s : State}
    {last behind last' : Nat} {result : Option (Typed.Outcome × Store)}
    (h : Lands ops body home fuel targets s last result) (eq : last = behind)
    (next : ∀ {σ m}, Agrees home σ m → Arrives ops body home ⟨behind, m⟩ last' σ) :
    Lands ops body home fuel targets s last' result := by
  subst eq
  match result, h with
  | none, h => exact h
  | some (.normal, σ), h =>
    obtain ⟨m, reached, agrees⟩ := h
    exact Arrives.after (next agrees) reached
  | some (.brk, σ), h => exact h
  | some (.cont, σ), h => exact h
  | some (.ret v, σ), h => exact h

section Parts

variable (ops) (once : (markedLabels body).Nodup)

include once

theorem ExprCode.arrives {e : Typed.Expr} {c c' : Cursor} {t : Temp} {code : List Instr}
    (h : ExprCode e c t code c') (fits : Fits home c [] c') (steady : e.Steady) {pc : Nat}
    (place : CodeAt body pc code) {σ : Store} {m : Memory} (agrees : Agrees home σ m) :
    Arrives ops body home ⟨pc, m⟩ (pc + code.length) (e.eval ops σ).2 := by
  obtain ⟨m', reached, -, agrees', -⟩ := h.runs ops once fits steady place agrees
  exact ⟨m', reached, agrees'⟩

theorem EffectCode.runs {e : Option Typed.Expr} {c c' : Cursor} {code : List Instr}
    (h : EffectCode e c code c') (fits : Fits home c [] c') (steady : ∀ e' ∈ e, e'.Steady)
    {pc : Nat} (place : CodeAt body pc code) {σ : Store} {m : Memory} (agrees : Agrees home σ m) :
    Arrives ops body home ⟨pc, m⟩ (pc + code.length) (Typed.effect ops e σ) := by
  cases h with
  | none => exact ⟨m, .refl, agrees⟩
  | some h => exact h.arrives ops once fits (steady _ rfl) place agrees

/-- A test that passes is followed by the code behind it, one that fails by the exit. -/
theorem TestCode.runs {exit : Label} {test : Option Typed.Expr} {c c' : Cursor}
    {code : List Instr} (h : TestCode exit test c code c') (fits : Fits home c [] c')
    (steady : ∀ e ∈ test, e.Steady) {pc behind out : Nat} (place : CodeAt body pc code)
    (next : pc + code.length = behind) (marked : markPlace? body exit = Option.some out) {σ : Store}
    {m : Memory} (agrees : Agrees home σ m) :
    Arrives ops body home ⟨pc, m⟩ (if (Typed.passes ops test σ).1 then behind else out)
      (Typed.passes ops test σ).2 := by
  subst next
  cases h with
  | none => exact ⟨m, .refl, agrees⟩
  | @some test c c' t code h =>
    obtain ⟨m', reached, value, agrees', -⟩ := h.runs ops once fits (steady _ rfl) place.left agrees
    refine ⟨m', reached.trans ?_, agrees'⟩
    simp only [Typed.passes, bne_iff_ne, ← value]
    split
    · next nonzero => exact (place.right.jumpIfZero_nonzero nonzero).cast (by simp; omega)
    · next zero => exact place.right.jumpIfZero_zero (not_not.1 zero) marked

theorem VarDeclCode.runs {d : Typed.VarDecl} {c c' : Cursor} {code : List Instr}
    (h : VarDeclCode d c code c') (fits : Fits home c [d.symbol] c')
    (steady : ∀ e ∈ d.init, e.Steady) {pc : Nat} (place : CodeAt body pc code) {σ : Store}
    {m : Memory} (agrees : Agrees home σ m) :
    Arrives ops body home ⟨pc, m⟩ (pc + code.length) (d.exec ops σ) := by
  cases h with
  | plain isVar absent =>
    refine ⟨m, .refl, ?_⟩
    simpa [Typed.VarDecl.exec, absent] using agrees
  | @init init _ _ src code isVar present h =>
    have inner := fits.right (Cursor.Binds.bind isVar) h.binds rfl
    have lives : home d.symbol = some c.temps :=
      inner.bound (by rw [Cursor.tempOf_bind isVar, if_pos rfl])
    obtain ⟨m', reached, value, agrees', -⟩ :=
      h.runs ops once inner (steady init present) place.left agrees
    refine ⟨_, (reached.trans place.right.copy).cast ?_, ?_⟩
    · rw [List.length_append]
      rfl
    · simpa only [Typed.VarDecl.exec, present, value] using
        agrees'.update_home lives fits.injective _

theorem ForInitCode.runs {init : Option Typed.ForInit} {c c' : Cursor} {code : List Instr}
    (h : ForInitCode init c code c') (fits : Fits home c (Typed.ForInit.binds init) c')
    (steady : Typed.ForInit.AllExprs Typed.Expr.Steady init) {pc : Nat}
    (place : CodeAt body pc code) {σ : Store} {m : Memory} (agrees : Agrees home σ m) :
    Arrives ops body home ⟨pc, m⟩ (pc + code.length) (Typed.ForInit.exec ops init σ) := by
  cases h with
  | none => exact ⟨m, .refl, agrees⟩
  | decl h => exact h.runs ops once fits steady place agrees
  | expr h => exact h.arrives ops once fits steady place agrees

end Parts

/-! ## Loops -/

/-- What the machine does where a round of a loop leads to `next`: control comes back to `top` for
another round, or lands as the loop does. -/
def RoundLands (ops : Operators) (body : List Instr) (home : SymbolId → Option Temp) (fuel : Nat)
    (targets : Option LoopTargets) (s : State) (top last : Nat) : Option Typed.Round → Prop
  | none => Lasts ops body s fuel
  | some (.again σ) => Arrives ops body home s top σ
  | some (.stop outcome σ) => Lands ops body home fuel targets s last (some (outcome, σ))

/-- Rounds that each lead to where they should add up to a loop that does. Every round passes the
mark at its top, so a loop that uses up its fuel takes at least as many steps. -/
theorem rounds_land {round : Store → Option Typed.Round} {fuel : Nat}
    {targets : Option LoopTargets} {top last : Nat} {l : Label} {code : List Instr}
    (place : CodeAt body top (.mark l :: code))
    (each : ∀ {σ m}, Agrees home σ m →
      RoundLands ops body home fuel targets ⟨top + 1, m⟩ top last (round σ))
    {k : Nat} (le : k ≤ fuel) {σ : Store} {m : Memory} (agrees : Agrees home σ m) :
    Lands ops body home k targets ⟨top, m⟩ last (Typed.rounds round k σ) := by
  induction k generalizing σ m with
  | zero => exact ⟨0, _, Nat.le_refl 0, rfl⟩
  | succ k ih =>
    have first := each agrees
    rw [Typed.rounds]
    cases ended : round σ with
    | none =>
      rw [ended] at first
      exact (place.mark.lasts first).mono le
    | some next =>
      rw [ended] at first
      cases next with
      | stop outcome σ' =>
        have landed := Lands.after first place.mark
        cases outcome <;> exact landed
      | again σ' =>
        obtain ⟨m', reached, agrees'⟩ := first
        -- the mark at the top is the step that this round adds to the others
        have others := (ih (Nat.le_of_succ_le le) agrees').after reached
        show Lands ops body home (k + 1) targets _ last (Typed.rounds round k σ')
        cases result : Typed.rounds round k σ' with
        | none =>
          rw [result] at others
          have stepped : step ops body ⟨top, m⟩ = .running ⟨top + 1, m⟩ := place.step
          exact Lasts.step stepped others
        | some result' =>
          rw [result] at others
          obtain ⟨outcome, σ''⟩ := result'
          have landed := Lands.after others place.mark
          cases outcome <;> exact landed

/-- One round, given what its test, its body and the way back to the top do. -/
theorem round_lands {test step : Option Typed.Expr} {run : Store → Option (Typed.Outcome × Store)}
    {fuel : Nat} {outer : Option LoopTargets} {exit next : Label} {pc behind top out : Nat}
    (marked : markPlace? body exit = some out) (leave : CodeAt body out [.mark exit])
    (tested : ∀ {σ m}, Agrees home σ m → Arrives ops body home ⟨pc, m⟩
      (if (Typed.passes ops test σ).1 then behind else out) (Typed.passes ops test σ).2)
    (ran : ∀ {σ m}, Agrees home σ m → ∃ last,
      Lands ops body home fuel (some ⟨exit, next⟩) ⟨behind, m⟩ last (run σ) ∧
      ∀ {σ m}, Agrees home σ m →
        Arrives ops body home ⟨last, m⟩ top (Typed.effect ops step σ))
    (continued : ∀ {σ m place}, markPlace? body next = some place → Agrees home σ m →
      Arrives ops body home ⟨place, m⟩ top (Typed.effect ops step σ))
    {σ : Store} {m : Memory} (agrees : Agrees home σ m) :
    RoundLands ops body home fuel outer ⟨pc, m⟩ top (out + 1)
      (Typed.round ops test step run σ) := by
  -- a failed test and a `break` both leave through the mark of the exit
  have left : ∀ {σ m}, Agrees home σ m → Arrives ops body home ⟨out, m⟩ (out + 1) σ :=
    fun agrees => ⟨_, leave.mark, agrees⟩
  obtain ⟨m₁, reached, agrees₁⟩ := tested agrees
  unfold Typed.round
  cases passed : (Typed.passes ops test σ).1 with
  | false =>
    rw [passed] at reached
    simp only [passed, Bool.false_eq_true, if_false]
    exact (left agrees₁).after reached
  | true =>
    rw [passed] at reached
    obtain ⟨last, landed, back⟩ := ran agrees₁
    have landed := landed.after reached
    simp only [passed, if_true]
    cases ended : run (Typed.passes ops test σ).2 with
    | none =>
      rw [ended] at landed
      exact landed
    | some result =>
      rw [ended] at landed
      obtain ⟨outcome, σ'⟩ := result
      cases outcome with
      | normal =>
        obtain ⟨m₂, reached₂, agrees₂⟩ := landed
        exact (back agrees₂).after reached₂
      | cont =>
        obtain ⟨t, place, inLoop, marked', m₂, reached₂, agrees₂⟩ := landed
        cases inLoop
        exact (continued marked' agrees₂).after reached₂
      | brk =>
        obtain ⟨t, place, inLoop, marked', m₂, reached₂, agrees₂⟩ := landed
        cases inLoop
        cases marked.symm.trans marked'
        exact (left agrees₂).after reached₂
      | ret v => exact landed

/-! ## All statements -/

namespace Typed.Stmt

theorem exec_of_loop? {s body : Stmt} {test : Expr} (h : s.loop? = some (test, body)) (fuel : Nat) :
    s.exec ops fuel = rounds (round ops (some test) none (body.exec ops fuel)) fuel := by
  cases s <;> simp only [loop?, Option.some.injEq, Prod.mk.injEq, reduceCtorEq] at h
  all_goals
    obtain ⟨rfl, rfl⟩ := h
    rfl

theorem allExprs_of_loop? {s body : Stmt} {test : Expr} (h : s.loop? = some (test, body))
    {P : Expr → Prop} (all : s.AllExprs P) : P test ∧ body.AllExprs P := by
  cases s <;> simp only [loop?, Option.some.injEq, Prod.mk.injEq, reduceCtorEq] at h
  all_goals
    obtain ⟨rfl, rfl⟩ := h
    exact all

end Typed.Stmt

variable (ops) in
/-- The code of a statement lands where the statement ends. -/
theorem StmtCode.runs (once : (markedLabels body).Nodup) (fuel : Nat)
    {targets : Option LoopTargets} {s : Typed.Stmt} {c c' : Cursor} {code : List Instr}
    (h : StmtCode targets s c code c') (fits : Fits home c s.binds c')
    (steady : s.AllExprs Typed.Expr.Steady)
    (known : ∀ l ∈ loopLabels targets, ∃ pc, markPlace? body l = some pc) {pc : Nat}
    (place : CodeAt body pc code) {σ : Store} {m : Memory} (agrees : Agrees home σ m) :
    Lands ops body home fuel targets ⟨pc, m⟩ (pc + code.length) (s.exec ops fuel σ) := by
  induction h generalizing pc σ m with
  | decl h => exact h.runs ops once fits steady place agrees
  | expr h => exact h.arrives ops once fits steady place agrees
  | empty => exact ⟨m, .refl, agrees⟩
  | done => exact ⟨m, .refl, agrees⟩
  | @next targets s rest c c₁ c₂ code₁ code₂ h₁ h₂ ih₁ ih₂ =>
    have landed := ih₁ (fits.left h₁.binds h₂.binds rfl) steady.1 known place.left agrees
    simp only [Typed.Stmt.exec, Typed.execStmts]
    cases ended : s.exec ops fuel σ with
    | none =>
      rw [ended] at landed
      exact landed
    | some result =>
      rw [ended] at landed
      obtain ⟨outcome, σ'⟩ := result
      cases outcome with
      | normal =>
        obtain ⟨m', reached, agrees'⟩ := landed
        have others := ih₂ (fits.right h₁.binds h₂.binds rfl) steady.2 known place.right agrees'
        rw [List.length_append, ← Nat.add_assoc]
        exact others.after reached
      | brk | cont | ret v => exact landed
  | @ite targets test ifTrue ifFalse c c₁ c₂ c₃ code₁ code₂ code₃ h h₁ h₂ ih₁ ih₂ =>
    obtain ⟨steady, steady₁, steady₂⟩ := steady
    have taken := (Cursor.Binds.refl c).takeLabels 2
    have first := taken.append h.binds
    have others := h₁.binds.append h₂.binds
    have fits₀ := (fits.left first others rfl).right taken h.binds rfl
    have fits₁ := (fits.right first others rfl).left h₁.binds h₂.binds rfl
    have fits₂ := (fits.right first others rfl).right h₁.binds h₂.binds rfl
    have middle := place.left.right
    obtain ⟨m₁, reached, agrees₁⟩ := h.runs ops once fits₀ (by simpa using steady)
      place.left.left.left rfl (middle.tail.markPlace once) agrees
    -- both branches end before the mark behind the second one
    simp only [Typed.passes, bne_iff_ne, ite_not] at reached agrees₁
    rw [List.length_append, List.length_singleton, ← Nat.add_assoc]
    simp only [Typed.Stmt.exec]
    split
    · next zero =>
      rw [if_pos zero] at reached
      have landed := (ih₂ fits₂ steady₂ known middle.tail.tail agrees₁).after
        (reached.trans middle.tail.mark)
      refine landed.andThen ?_ fun agrees => ⟨_, place.right.mark, agrees⟩
      simp only [List.length_append, List.length_cons]
      omega
    · next nonzero =>
      rw [if_neg nonzero] at reached
      have landed := (ih₁ fits₁ steady₁ known place.left.left.right agrees₁).after reached
      refine landed.andThen ?_ fun agrees =>
        ⟨_, (middle.jump (place.right.markPlace once)).trans place.right.mark, agrees⟩
      simp only [List.length_append]
      omega
  | @loop targets s inner test c c₁ c₂ code₁ code₂ isLoop h₁ h₂ ih =>
    rw [Typed.Stmt.binds_of_loop? isLoop] at fits
    obtain ⟨steady₁, steady₂⟩ := Typed.Stmt.allExprs_of_loop? isLoop steady
    have taken := (Cursor.Binds.refl c).takeLabels 2
    have first := taken.append h₁.binds
    have fits₁ := (fits.left first h₂.binds rfl).right taken h₁.binds rfl
    have fits₂ := fits.right first h₂.binds rfl
    have top := place.left.left
    have ending := place.right
    have exit := ending.tail.markPlace once
    have again := top.markPlace once
    rw [Typed.Stmt.exec_of_loop? isLoop, List.length_append, ← Nat.add_assoc]
    have inside : ∀ l ∈ loopLabels (some ⟨c.labels + 1, c.labels⟩),
        ∃ pc, markPlace? body l = some pc :=
      forall_mem_loopLabels.2 ⟨⟨_, exit⟩, ⟨_, again⟩⟩
    refine rounds_land top ?_ (Nat.le_refl fuel) agrees
    intro σ m agrees
    refine round_lands exit ending.tail ?_
      (fun agrees => ⟨_, ih fits₂ steady₂ inside place.left.right agrees, ?_⟩) ?_ agrees
    · intro σ m agrees
      refine h₁.runs ops once fits₁ (by simpa using steady₁) top.tail ?_ exit agrees
      rw [List.length_cons]
      omega
    · intro σ m agrees
      exact ⟨_, (Reaches.refl.cast (by simp; omega)).trans (ending.jump again), agrees⟩
    · -- `continue` goes to the top itself
      intro σ m pc place agrees
      cases again.symm.trans place
      exact ⟨_, .refl, agrees⟩
  | @forLoop targets init test step inner c c₁ c₂ c₃ c₄ code₁ code₂ code₃ code₄ h₁ h₂ h₃ h₄ ih =>
    obtain ⟨steady₁, steady₂, steady₄, steady₃⟩ := steady
    have taken := (Cursor.Binds.refl c).takeLabels 3
    have front := taken.append h₁.binds
    have back := h₂.binds.append (h₃.binds.append h₄.binds)
    have split : ([] ++ Typed.ForInit.binds init) ++ ([] ++ (inner.binds ++ [])) =
        (Typed.Stmt.forLoop init test step inner).binds := by
      simp [Typed.Stmt.binds]
    have fits₁ := (fits.left front back split).right taken h₁.binds rfl
    have rest := fits.right front back split
    have fits₂ := rest.left h₂.binds (h₃.binds.append h₄.binds) rfl
    have fits₃ := (rest.right h₂.binds (h₃.binds.append h₄.binds) rfl).left h₃.binds h₄.binds rfl
    have fits₄ := (rest.right h₂.binds (h₃.binds.append h₄.binds) rfl).right h₃.binds h₄.binds rfl
    have top := place.left.left.left.right
    have after := place.left.right
    have ending := place.right
    have exit := ending.tail.markPlace once
    have again := top.markPlace once
    have next := after.markPlace once
    obtain ⟨m₁, reached, agrees₁⟩ := h₁.runs ops once fits₁ steady₁
      place.left.left.left.left agrees
    refine Lands.after ?_ reached
    rw [Typed.Stmt.exec, List.length_append, ← Nat.add_assoc]
    -- the way from the mark of `next` back to the top
    have back : ∀ {σ m}, Agrees home σ m →
        Arrives ops body home ⟨pc + (code₁ ++ Instr.mark c.labels :: code₂ ++ code₃).length, m⟩
          (pc + code₁.length) (Typed.effect ops step σ) := by
      intro σ m agrees
      obtain ⟨m', stepped, agrees'⟩ := h₄.runs ops once fits₄ steady₄ after.tail agrees
      refine ⟨m', after.mark.trans ((stepped.cast ?_).trans (ending.jump again)), agrees'⟩
      simp only [List.length_append, List.length_cons]
      omega
    have inside : ∀ l ∈ loopLabels (some ⟨c.labels + 1, c.labels + 2⟩),
        ∃ pc, markPlace? body l = some pc :=
      forall_mem_loopLabels.2 ⟨⟨_, exit⟩, ⟨_, next⟩⟩
    refine rounds_land top ?_ (Nat.le_refl fuel) agrees₁
    intro σ m agrees
    refine round_lands exit ending.tail ?_
      (fun agrees => ⟨_, ih fits₃ steady₃ inside place.left.left.right agrees, ?_⟩) ?_ agrees
    · intro σ m agrees
      refine h₂.runs ops once fits₂ steady₂ top.tail ?_ exit agrees
      simp only [List.length_append, List.length_cons]
      omega
    · intro σ m agrees
      exact (back agrees).after (Reaches.refl.cast (by simp; omega))
    · intro σ m pc place agrees
      cases next.symm.trans place
      exact back agrees
  | brk =>
    obtain ⟨out, marked⟩ := known _ (List.mem_cons_self ..)
    exact ⟨_, out, rfl, marked, m, place.jump marked, agrees⟩
  | cont =>
    obtain ⟨next, marked⟩ := known _ (List.mem_cons_of_mem _ (List.mem_cons_self ..))
    exact ⟨_, next, rfl, marked, m, place.jump marked, agrees⟩
  | ret h =>
    obtain ⟨m', reached, value, -, -⟩ := h.runs ops once fits steady place.left agrees
    have halted := reached.halts place.right.ret
    rw [value] at halted
    exact halted

end MiddleEnd
