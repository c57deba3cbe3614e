import MiddleEnd.Proofs.Lowered.Needs
import MiddleEnd.Proofs.Lowered.Slots

/-!
# Which temporaries code mentions

The code of a tree mentions the temporaries that were taken while it was lowered, and the homes of
the variables that the tree refers to. So the piece of a function that refers to its own variables
only mentions no temporaries but those that were taken for it.

Results:
1. `ExprCode.mentions`, `StmtCode.mentions`: expressions and statements.
2. `FunctionCode.mem_temps`: the piece of a function.
-/

namespace MiddleEnd

/-- Every temporary that code mentions satisfies `P`. -/
def Mentions (P : Temp → Prop) (code : List Instr) : Prop := ∀ i ∈ code, ∀ t ∈ i.temps, P t

/-- So does the home of every variable that is referred to. -/
def Refers (home : SymbolId → Option Temp) (P : Temp → Prop) (needs : List Need) : Prop :=
  ∀ r x t, .ref r ∈ needs → r.symbol = some x → home x = some t → P t

/-- So does every temporary that is taken between two points of a lowering. -/
def Cursor.Takes (c c' : Cursor) (P : Temp → Prop) : Prop :=
  ∀ t : Nat, c.temps ≤ t → t < c'.temps → P t

variable {home : SymbolId → Option Temp} {P : Temp → Prop}

@[simp] theorem mentions_nil : Mentions P [] := fun _ mem => absurd mem List.not_mem_nil

@[simp] theorem mentions_append {code code' : List Instr} :
    Mentions P (code ++ code') ↔ Mentions P code ∧ Mentions P code' := List.forall_mem_append

@[simp] theorem mentions_cons {i : Instr} {code : List Instr} :
    Mentions P (i :: code) ↔ (∀ t ∈ i.temps, P t) ∧ Mentions P code := List.forall_mem_cons

theorem Refers.mono {needs needs' : List Need} (h : Refers home P needs') (sub : needs ⊆ needs') :
    Refers home P needs := fun r x t mem => h r x t (sub mem)

theorem refers_append {needs needs' : List Need} :
    Refers home P (needs ++ needs') ↔ Refers home P needs ∧ Refers home P needs' := by
  refine ⟨fun h => ⟨h.mono (List.subset_append_left ..), h.mono (List.subset_append_right ..)⟩, ?_⟩
  rintro ⟨h, h'⟩ r x t mem
  exact (List.mem_append.1 mem).elim (h r x t) (h' r x t)

theorem Cursor.Takes.mono {c₁ c₂ c c' : Cursor} (h : c.Takes c' P) (le : c.temps ≤ c₁.temps)
    (le' : c₂.temps ≤ c'.temps) : c₁.Takes c₂ P :=
  fun t above below => h t (Nat.le_trans le above) (Nat.lt_of_lt_of_le below le')

/-- The code of an expression, and the temporary that holds the value. -/
theorem ExprCode.mentions {e : Typed.Expr} {c c' : Cursor} {t : Temp} {code : List Instr}
    (h : ExprCode e c t code c') (fits : Fits home c [] c') (refers : Refers home P e.needs)
    (takes : c.Takes c' P) : P t ∧ Mentions P code := by
  induction h with
  | @const value ty span c =>
    have own := takes c.temps (Nat.le_refl _) (Nat.lt_succ_self _)
    exact ⟨own, by simp [Instr.temps, Instr.dst?, Instr.reads, own]⟩
  | @var r ty span c t bound =>
    obtain ⟨x, symbol, lives⟩ := fits.ref bound
    exact ⟨refers r x t (List.mem_singleton_self _) symbol lives, mentions_nil⟩
  | @unary op operand ty span c c' src code h ih =>
    have own := takes c'.temps h.binds.le (Nat.lt_succ_self _)
    have inner := fits.left h.binds (Cursor.Binds.refl c').takeTemp rfl
    obtain ⟨value, mentions⟩ := ih inner refers (takes.mono (Nat.le_refl _) (Nat.le_succ _))
    exact ⟨own, by simp [Instr.temps, Instr.dst?, Instr.reads, own, value, mentions]⟩
  | @binary op left right ty span c c₁ c₂ l r code₁ code₂ h₁ h₂ ih₁ ih₂ =>
    have own := takes c₂.temps (h₁.binds.append h₂.binds).le (Nat.lt_succ_self _)
    have inner := fits.left (h₁.binds.append h₂.binds) (Cursor.Binds.refl c₂).takeTemp rfl
    obtain ⟨refers₁, refers₂⟩ := refers_append.1 refers
    obtain ⟨value₁, mentions₁⟩ := ih₁ (inner.left h₁.binds h₂.binds rfl) refers₁
      (takes.mono (Nat.le_refl _) (Nat.le_succ_of_le h₂.binds.le))
    obtain ⟨value₂, mentions₂⟩ := ih₂ (inner.right h₁.binds h₂.binds rfl) refers₂
      (takes.mono h₁.binds.le (Nat.le_succ _))
    refine ⟨own, ?_⟩
    simp [Instr.temps, Instr.dst?, Instr.reads, own, value₁, mentions₁, value₂, mentions₂]
  | @assign target value ty span c c' dst src code bound h ih =>
    obtain ⟨x, symbol, lives⟩ := fits.ref bound
    have own := refers target x dst List.mem_cons_self symbol lives
    obtain ⟨held, mentions⟩ := ih fits (refers.mono (List.subset_cons_self _ _)) takes
    exact ⟨own, by simp [Instr.temps, Instr.dst?, Instr.reads, own, held, mentions]⟩
  | @cond test ifTrue ifFalse ty span c c₁ c₂ c₃ t t₁ t₂ code₁ code₂ code₃ h₁ h₂ h₃ ih₁ ih₂ ih₃ =>
    have taken := (Cursor.Binds.refl c).takeTemp.takeLabels 2
    have branches := h₂.binds.append h₃.binds
    have own := takes c.temps (Nat.le_refl _) (h₁.binds.append branches).le
    obtain ⟨fits₁, fits₂, fits₃⟩ := fits.three taken h₁.binds h₂.binds h₃.binds rfl
    obtain ⟨refers, refers₃⟩ := refers_append.1 refers
    obtain ⟨refers₁, refers₂⟩ := refers_append.1 refers
    obtain ⟨value₁, mentions₁⟩ := ih₁ fits₁ refers₁ (takes.mono taken.le branches.le)
    obtain ⟨value₂, mentions₂⟩ := ih₂ fits₂ refers₂
      (takes.mono (taken.append h₁.binds).le h₃.binds.le)
    obtain ⟨value₃, mentions₃⟩ := ih₃ fits₃ refers₃
      (takes.mono (taken.append (h₁.binds.append h₂.binds)).le (Nat.le_refl _))
    refine ⟨own, ?_⟩
    simp [Instr.temps, Instr.dst?, Instr.reads, own, value₁, mentions₁, value₂, mentions₂, value₃,
      mentions₃]

theorem EffectCode.mentions {e : Option Typed.Expr} {c c' : Cursor} {code : List Instr}
    (h : EffectCode e c code c') (fits : Fits home c [] c')
    (refers : Refers home P (Typed.optionNeeds e)) (takes : c.Takes c' P) : Mentions P code := by
  cases h with
  | none => exact mentions_nil
  | some h => exact (h.mentions fits refers takes).2

theorem TestCode.mentions {exit : Label} {test : Option Typed.Expr} {c c' : Cursor}
    {code : List Instr} (h : TestCode exit test c code c') (fits : Fits home c [] c')
    (refers : Refers home P (Typed.optionNeeds test)) (takes : c.Takes c' P) :
    Mentions P code := by
  cases h with
  | none => exact mentions_nil
  | some h =>
    obtain ⟨value, mentions⟩ := h.mentions fits refers takes
    simp [Instr.temps, Instr.dst?, Instr.reads, value, mentions]

theorem VarDeclCode.mentions {d : Typed.VarDecl} {c c' : Cursor} {code : List Instr}
    (h : VarDeclCode d c code c') (fits : Fits home c [d.symbol] c')
    (refers : Refers home P d.needs) (takes : c.Takes c' P) : Mentions P code := by
  cases h with
  | plain => exact mentions_nil
  | init isVar present h =>
    have own := takes c.temps (Nat.le_refl _) h.binds.le
    rw [Typed.VarDecl.needs, present] at refers
    obtain ⟨value, mentions⟩ := h.mentions (fits.right (Cursor.Binds.bind isVar) h.binds rfl)
      (refers.mono (List.subset_cons_self _ _)) (takes.mono (Nat.le_succ _) (Nat.le_refl _))
    simp [Instr.temps, Instr.dst?, Instr.reads, own, value, mentions]

theorem ForInitCode.mentions {init : Option Typed.ForInit} {c c' : Cursor} {code : List Instr}
    (h : ForInitCode init c code c') (fits : Fits home c (Typed.ForInit.binds init) c')
    (refers : Refers home P (Typed.ForInit.needs init)) (takes : c.Takes c' P) :
    Mentions P code := by
  cases h with
  | none => exact mentions_nil
  | decl h => exact h.mentions fits refers takes
  | expr h => exact (h.mentions fits refers takes).2

/-- The code of a statement. -/
theorem StmtCode.mentions {targets : Option LoopTargets} {s : Typed.Stmt} {c c' : Cursor}
    {code : List Instr} (h : StmtCode targets s c code c') (fits : Fits home c s.binds c')
    {inLoop : Bool} (refers : Refers home P (s.needs inLoop)) (takes : c.Takes c' P) :
    Mentions P code := by
  induction h generalizing inLoop with
  | decl h => exact h.mentions fits refers takes
  | expr h => exact (h.mentions fits refers takes).2
  | empty | done => exact mentions_nil
  | brk | cont => simp [Instr.temps, Instr.dst?, Instr.reads]
  | ret h =>
    obtain ⟨value, mentions⟩ := h.mentions fits refers takes
    simp [Instr.temps, Instr.dst?, Instr.reads, value, mentions]
  | next h₁ h₂ ih₁ ih₂ =>
    obtain ⟨refers₁, refers₂⟩ := refers_append.1 refers
    exact mentions_append.2 ⟨
      ih₁ (fits.left h₁.binds h₂.binds rfl) refers₁ (takes.mono (Nat.le_refl _) h₂.binds.le),
      ih₂ (fits.right h₁.binds h₂.binds rfl) refers₂ (takes.mono h₁.binds.le (Nat.le_refl _))⟩
  | @ite targets test ifTrue ifFalse c c₁ c₂ c₃ code₁ code₂ code₃ h₁ h₂ h₃ ih₂ ih₃ =>
    obtain ⟨fits₁, fits₂, fits₃⟩ :=
      fits.three ((Cursor.Binds.refl c).takeLabels 2) h₁.binds h₂.binds h₃.binds rfl
    obtain ⟨refers, refers₃⟩ := refers_append.1 refers
    obtain ⟨refers₁, refers₂⟩ := refers_append.1 refers
    have mentions₁ := h₁.mentions fits₁ refers₁
      (takes.mono (Nat.le_refl _) (h₂.binds.append h₃.binds).le)
    have mentions₂ := ih₂ fits₂ refers₂ (takes.mono h₁.binds.le h₃.binds.le)
    have mentions₃ := ih₃ fits₃ refers₃
      (takes.mono (h₁.binds.append h₂.binds).le (Nat.le_refl _))
    simp [Instr.temps, Instr.dst?, Instr.reads, mentions₁, mentions₂, mentions₃]
  | @loop targets s body test c c₁ c₂ code₁ code₂ isLoop h₁ h₂ ih =>
    rw [Typed.Stmt.binds_of_loop? isLoop] at fits
    rw [Typed.Stmt.needs_of_loop? isLoop] at refers
    obtain ⟨fits₁, fits₂⟩ := fits.two ((Cursor.Binds.refl c).takeLabels 2) h₁.binds h₂.binds rfl
    obtain ⟨refers₁, refers₂⟩ := refers_append.1 refers
    have mentions₁ := h₁.mentions fits₁ refers₁ (takes.mono (Nat.le_refl _) h₂.binds.le)
    have mentions₂ := ih fits₂ refers₂ (takes.mono h₁.binds.le (Nat.le_refl _))
    simp [Instr.temps, Instr.dst?, Instr.reads, mentions₁, mentions₂]
  | @forLoop targets init test step body c c₁ c₂ c₃ c₄ code₁ code₂ code₃ code₄ h₁ h₂ h₃ h₄ ih =>
    obtain ⟨fits₁, fits₂, fits₃, fits₄⟩ := fits.four ((Cursor.Binds.refl c).takeLabels 3)
      h₁.binds h₂.binds h₃.binds h₄.binds (by simp [Typed.Stmt.binds])
    obtain ⟨refers, refers₄⟩ := refers_append.1 refers
    obtain ⟨refers, refers₃⟩ := refers_append.1 refers
    obtain ⟨refers₁, refers₂⟩ := refers_append.1 refers
    have mentions₁ := h₁.mentions fits₁ refers₁
      (takes.mono (Nat.le_refl _) (h₂.binds.append (h₃.binds.append h₄.binds)).le)
    have mentions₂ := h₂.mentions fits₂ refers₂
      (takes.mono h₁.binds.le (h₃.binds.append h₄.binds).le)
    have mentions₃ := ih fits₃ refers₃ (takes.mono (h₁.binds.append h₂.binds).le h₄.binds.le)
    have mentions₄ := h₄.mentions fits₄ refers₄
      (takes.mono ((h₁.binds.append h₂.binds).append h₃.binds).le (Nat.le_refl _))
    simp [Instr.temps, Instr.dst?, Instr.reads, mentions₁, mentions₂, mentions₃, mentions₄]

/-- The temporaries of parameters are taken for them. -/
theorem ParamsCode.mem_temps {order : Nat} {params : List Typed.Param} {c c' : Cursor}
    {temps : List Temp} (h : ParamsCode order params c temps c') (takes : c.Takes c' P) :
    ∀ t ∈ temps, P t := by
  induction h with
  | nil => exact fun t mem => absurd mem List.not_mem_nil
  | cons _ h ih =>
    refine List.forall_mem_cons.2 ⟨takes _ (Nat.le_refl _) h.binds.le, ?_⟩
    exact ih (takes.mono (Nat.le_succ _) (Nat.le_refl _))

theorem ImplicitReturnCode.mentions {config : Config} {c c' : Cursor} {code : List Instr}
    (h : ImplicitReturnCode config c code c') (takes : c.Takes c' P) : Mentions P code := by
  cases h with
  | on =>
    have own := takes c.temps (Nat.le_refl _) (Nat.lt_succ_self _)
    simp [Instr.temps, Instr.dst?, Instr.reads, own]
  | off => exact mentions_nil

/-- The piece of a function that refers to its own variables only mentions no temporaries but those
that were taken for it. -/
theorem FunctionCode.mem_temps {config : Config} {f : Typed.Function} {c c' : Cursor}
    {piece : Piece} (h : FunctionCode config f c piece c') (fits : Fits home c f.binds c')
    (own : ∀ r x, .ref r ∈ f.needs → r.symbol = some x → x ∈ f.binds) :
    ∀ t : Nat, t ∈ piece.temps → c.temps ≤ t ∧ t < c'.temps := by
  have refers : Refers home (fun t : Nat => c.temps ≤ t ∧ t < c'.temps) f.needs := by
    intro r x t mem symbol lives
    obtain ⟨u, bound, inside⟩ := h.binds.bound x (own r x mem symbol)
    rw [fits.agrees x u bound] at lives
    cases lives
    exact inside
  obtain ⟨c₀, c₁, c₂, c₃, code, ending, params, others, -, same₀, same₂, split, main, fits₂,
    ends⟩ := h.parts fits
  have takes : c.Takes c' fun t : Nat => c.temps ≤ t ∧ t < c'.temps :=
    fun t above below => ⟨above, below⟩
  have le₁ : c.temps ≤ c₁.temps := same₀ ▸ params.binds.le
  have le₂ : c.temps ≤ c₂.temps := same₂ ▸ le₁
  have entered := params.mem_temps (takes.mono (Nat.le_of_eq same₀.symm) others.le)
  have body : Refers home (fun t : Nat => c.temps ≤ t ∧ t < c'.temps)
      ((Typed.Stmt.block f.body).needs false) := by
    refine refers.mono ?_
    intro need mem
    rw [Typed.Stmt.needs] at mem
    exact List.mem_append_right _ (List.mem_cons_of_mem _ mem)
  have ran := main.mentions fits₂ body (takes.mono le₂ ends.binds.le)
  have ended := ends.mentions (takes.mono (Nat.le_trans le₂ main.binds.le) (Nat.le_refl _))
  intro t mem
  rcases List.mem_append.1 mem with mem | mem
  · exact entered t mem
  · obtain ⟨i, mem, mem'⟩ := List.mem_flatMap.1 mem
    rw [split] at mem
    exact mentions_append.2 ⟨ran, ended⟩ i mem t mem'

end MiddleEnd
