import MiddleEnd.Proofs.Lowered.Labels
import MiddleEnd.Proofs.Lowered.Slots
import MiddleEnd.Proofs.Meaning.Machine

/-!
# Written before it is read

A path through a body starts at its first instruction and goes either way at a conditional jump. On
every path, what an instruction reads lives in the home of a variable or was written on the way.
Loops make paths of any length, so this is shown for the next `n` instructions, for all `n`. Code
hands a value on to what follows it, so what follows is a parameter of the statements about code.

Results:
1. `ExprCode.safe`, `StmtCode.safeFrom`: code is safe if what follows it is.
2. `FunctionCode.written_before_read`: every path through the piece of a function.
-/

namespace MiddleEnd

/-- A path through a body: the instructions that it runs, and the place that it leads to. -/
inductive Path (body : List Instr) : List Instr → Nat → Prop
  | start : Path body [] 0
  | step {ran : List Instr} {pc pc' : Nat} {i : Instr} :
      Path body ran pc → body[pc]? = some i → Flow body pc pc' → Path body (ran ++ [i]) pc'

/-- A temporary that a variable lives in or that was written. -/
def Ready (home : SymbolId → Option Temp) (ran : List Instr) (t : Temp) : Prop :=
  (∃ x, home x = some t) ∨ t ∈ writtenTemps ran

/-- The next `n` instructions, whichever way control goes, read only what is ready. -/
def Safe (home : SymbolId → Option Temp) (body : List Instr) : Nat → Nat → List Instr → Prop
  | 0, _, _ => True
  | n + 1, pc, ran => ∀ i, body[pc]? = some i →
    (∀ t ∈ i.reads, Ready home ran t) ∧ ∀ pc', Flow body pc pc' → Safe home body n pc' (ran ++ [i])

variable {home : SymbolId → Option Temp} {body code : List Instr} {n pc pc' : Nat}
  {ran ran' : List Instr} {t : Temp}

theorem Ready.mono (h : Ready home ran t) (further : ran <+: ran') : Ready home ran' t := by
  obtain ⟨rest, rfl⟩ := further
  refine h.imp_right ?_
  intro written
  rw [writtenTemps, List.filterMap_append]
  exact List.mem_append_left _ written

/-- What an instruction writes is ready behind it. -/
theorem Ready.written (home : SymbolId → Option Temp) (ran : List Instr) {i : Instr}
    (writes : i.dst? = some t) : Ready home (ran ++ [i]) t :=
  .inr (List.mem_filterMap.2 ⟨i, List.mem_concat_self, writes⟩)

theorem Fits.ready {r : Typed.Ref} {c c' : Cursor} {xs : List SymbolId} (fits : Fits home c xs c')
    (bound : r.BoundTo c.symbols t) (ran : List Instr) : Ready home ran t := by
  obtain ⟨x, -, lives⟩ := fits.ref bound
  exact .inl ⟨x, lives⟩

namespace Safe

theorem pred (h : Safe home body (n + 1) pc ran) : Safe home body n pc ran := by
  induction n generalizing pc ran with
  | zero => trivial
  | succ n ih =>
    intro i here
    obtain ⟨reads, next⟩ := h i here
    exact ⟨reads, fun pc' flow => ih (next pc' flow)⟩

theorem mono {m : Nat} (h : Safe home body n pc ran) (le : m ≤ n) : Safe home body m pc ran := by
  induction le with
  | refl => exact h
  | step _ ih => exact ih h.pred

/-- The place may be counted in another way. -/
theorem cast (h : Safe home body n pc ran) (eq : pc = pc') : Safe home body n pc' ran := eq ▸ h

/-- One instruction more, given what is known wherever it leads to. -/
theorem step {i : Instr} (here : body[pc]? = some i) (reads : ∀ t ∈ i.reads, Ready home ran t)
    (next : i.fallsThrough = true → Safe home body n (pc + 1) (ran ++ [i]))
    (jump : ∀ l pc', i.target? = some l → markPlace? body l = some pc' →
      Safe home body n pc' (ran ++ [i])) : Safe home body (n + 1) pc ran := by
  intro j there
  cases here.symm.trans there
  refine ⟨reads, ?_⟩
  intro pc' flow
  cases flow with
  | next there falls =>
    cases here.symm.trans there
    exact next falls
  | jump there target place =>
    cases here.symm.trans there
    exact jump _ _ target place

/-- An instruction that does not jump. -/
theorem plain {i : Instr} (place : CodeAt body pc (i :: code)) (straight : i.target? = none)
    (reads : ∀ t ∈ i.reads, Ready home ran t) (next : Safe home body n (pc + 1) (ran ++ [i])) :
    Safe home body (n + 1) pc ran :=
  step place.head reads (fun _ => next) fun l pc' target => by
    rw [straight] at target
    cases target

theorem mark {l : Label} (place : CodeAt body pc (.mark l :: code))
    (next : Safe home body n (pc + 1) (ran ++ [.mark l])) : Safe home body (n + 1) pc ran :=
  plain place rfl (fun t mem => by cases mem) next

theorem jump {l : Label} (place : CodeAt body pc (.jump l :: code))
    (next : ∀ pc', markPlace? body l = some pc' → Safe home body n pc' (ran ++ [.jump l])) :
    Safe home body (n + 1) pc ran := by
  refine step place.head (fun t mem => by cases mem) nofun ?_
  intro l' pc' target place
  cases target
  exact next pc' place

theorem jumpIfZero {l : Label} (place : CodeAt body pc (.jumpIfZero l t :: code))
    (ready : Ready home ran t) (next : Safe home body n (pc + 1) (ran ++ [.jumpIfZero l t]))
    (jump : ∀ pc', markPlace? body l = some pc' →
      Safe home body n pc' (ran ++ [.jumpIfZero l t])) : Safe home body (n + 1) pc ran := by
  refine step place.head (List.forall_mem_singleton.2 ready) (fun _ => next) ?_
  intro l' pc' target place
  cases target
  exact jump pc' place

theorem ret (place : CodeAt body pc (.ret t :: code)) (ready : Ready home ran t) :
    Safe home body n pc ran := by
  refine (step place.head (List.forall_mem_singleton.2 ready) nofun ?_ :
    Safe home body (n + 1) pc ran).pred
  nofun

/-- On a path that started safely, everything that is read is ready. -/
theorem path (h : ∀ n, Safe home body n 0 []) (path : Path body ran pc) (n : Nat) :
    Safe home body n pc ran := by
  induction path generalizing n with
  | start => exact h n
  | step _ here flow ih => exact (ih (n + 1) _ here).2 _ flow

end Safe

/-- The same, whatever was written before. -/
def SafeFrom (home : SymbolId → Option Temp) (body : List Instr) (n pc : Nat) : Prop :=
  ∀ ran, Safe home body n pc ran

/-- The same at the mark of a label. -/
def SafeAt (home : SymbolId → Option Temp) (body : List Instr) (n : Nat) (l : Label) : Prop :=
  ∀ pc, markPlace? body l = some pc → SafeFrom home body n pc

theorem SafeFrom.cast (h : SafeFrom home body n pc) (eq : pc = pc') : SafeFrom home body n pc' :=
  eq ▸ h

theorem SafeFrom.mono {m : Nat} (h : SafeFrom home body n pc) (le : m ≤ n) :
    SafeFrom home body m pc :=
  fun ran => (h ran).mono le

theorem SafeAt.mono {m : Nat} {l : Label} (h : SafeAt home body n l) (le : m ≤ n) :
    SafeAt home body m l :=
  fun pc marked => (h pc marked).mono le

theorem SafeFrom.mark {l : Label} (place : CodeAt body pc (.mark l :: code))
    (next : SafeFrom home body n (pc + 1)) : SafeFrom home body n pc :=
  fun _ => (Safe.mark place (next _)).pred

theorem SafeFrom.jump {l : Label} (place : CodeAt body pc (.jump l :: code))
    (next : SafeAt home body n l) : SafeFrom home body n pc :=
  fun _ => (Safe.jump place fun pc' marked => next pc' marked _).pred

/-- A label is safe where its mark is. -/
theorem SafeFrom.marked {l : Label} (h : SafeFrom home body n pc)
    (once : (markedLabels body).Nodup) (place : CodeAt body pc (.mark l :: code)) :
    SafeAt home body n l := by
  intro pc' marked
  cases (place.markPlace once).symm.trans marked
  exact h

section Parts

variable (once : (markedLabels body).Nodup)

include once

/-- The code of an expression is safe if what follows is, given the value. -/
theorem ExprCode.safe {e : Typed.Expr} {c c' : Cursor} {t : Temp} {code : List Instr}
    (h : ExprCode e c t code c') (fits : Fits home c [] c') {pc : Nat}
    (place : CodeAt body pc code)
    (next : ∀ ran', ran <+: ran' → Ready home ran' t → Safe home body n (pc + code.length) ran') :
    Safe home body n pc ran := by
  induction h generalizing pc ran with
  | @const value ty span c =>
    refine (Safe.plain place rfl (fun t mem => by cases mem) ?_).pred
    exact next _ (List.prefix_append ..) (.written _ _ rfl)
  | var bound => exact next ran (List.prefix_refl ran) (fits.ready bound ran)
  | @unary op operand ty span c c' src code h ih =>
    refine ih (fits.left h.binds (Cursor.Binds.refl c').takeTemp rfl) place.left ?_
    intro ran₁ further ready
    refine (Safe.plain place.right rfl (List.forall_mem_singleton.2 ready) ?_).pred
    simpa [Nat.add_assoc] using
      next _ (further.trans (List.prefix_append ..)) (.written _ ran₁ rfl)
  | @binary op left right ty span c c₁ c₂ l r code₁ code₂ h₁ h₂ ih₁ ih₂ =>
    have inner := fits.left (h₁.binds.append h₂.binds) (Cursor.Binds.refl c₂).takeTemp rfl
    refine ih₁ (inner.left h₁.binds h₂.binds rfl) place.left.left ?_
    intro ran₁ further₁ ready₁
    refine ih₂ (inner.right h₁.binds h₂.binds rfl) place.left.right ?_
    intro ran₂ further₂ ready₂
    have both : ∀ t ∈ [l, r], Ready home ran₂ t :=
      List.forall_mem_cons.2 ⟨ready₁.mono further₂, List.forall_mem_singleton.2 ready₂⟩
    have last := place.right
    rw [List.length_append, ← Nat.add_assoc] at last
    refine (Safe.plain last rfl both ?_).pred
    simpa [Nat.add_assoc] using
      next _ ((further₁.trans further₂).trans (List.prefix_append ..)) (.written _ ran₂ rfl)
  | @assign target value ty span c c' dst src code bound h ih =>
    refine ih fits place.left ?_
    intro ran₁ further ready
    refine (Safe.plain place.right rfl (List.forall_mem_singleton.2 ready) ?_).pred
    simpa [Nat.add_assoc] using
      next _ (further.trans (List.prefix_append ..)) (.written _ ran₁ rfl)
  | @cond test ifTrue ifFalse ty span c c₁ c₂ c₃ t t₁ t₂ code₁ code₂ code₃ h₁ h₂ h₃ ih₁ ih₂ ih₃ =>
    have taken := (Cursor.Binds.refl c).takeTemp.takeLabels 2
    obtain ⟨fits₁, fits₂, fits₃⟩ := fits.three taken h₁.binds h₂.binds h₃.binds rfl
    have branch := place.left.left.right
    have middle := place.left.right
    have ending := place.right
    -- both branches meet at the last mark
    have out := ending.tail.markPlace once
    have last : ∀ {ran' pc'}, markPlace? body (c.labels + 1) = some pc' → ran <+: ran' →
        Ready home ran' c.temps → Safe home body n pc' ran' := by
      intro ran' pc' marked further ready
      cases out.symm.trans marked
      refine (Safe.mark ending.tail ((next _ (further.trans (List.prefix_append ..))
        (ready.mono (List.prefix_append ..))).cast ?_)).pred
      simp only [List.length_append, List.length_cons, List.length_nil]
      omega
    refine ih₁ fits₁ place.left.left.left ?_
    intro ran₁ further₁ ready₁
    refine (Safe.jumpIfZero branch ready₁ ?_ ?_).pred
    · refine ih₂ fits₂ branch.tail ?_
      intro ran₂ further₂ ready₂
      refine Safe.cast (Safe.plain middle rfl (List.forall_mem_singleton.2 ready₂) ?_).pred ?_
      · refine (Safe.jump middle.tail ?_).pred
        intro pc' marked
        refine last marked ?_ ((Ready.written home ran₂ rfl).mono (List.prefix_append ..))
        exact (further₁.trans ((List.prefix_append ..).trans further₂)).trans
          ((List.prefix_append ..).trans (List.prefix_append ..))
      · simp only [List.length_append, List.length_cons]
        omega
    · intro pc' marked
      cases (middle.tail.tail.markPlace once).symm.trans marked
      refine (Safe.mark middle.tail.tail ?_).pred
      refine ih₃ fits₃ middle.tail.tail.tail ?_
      intro ran₃ further₃ ready₃
      refine Safe.cast (Safe.plain ending rfl (List.forall_mem_singleton.2 ready₃) ?_).pred ?_
      · refine last out ?_ (.written home ran₃ rfl)
        exact (further₁.trans ((List.prefix_append ..).trans ((List.prefix_append ..).trans
          further₃))).trans (List.prefix_append ..)
      · simp only [List.length_append, List.length_cons]
        omega

/-- So is the code of an expression whose value is dropped, whatever was written before. -/
theorem ExprCode.safeFrom {e : Typed.Expr} {c c' : Cursor} {t : Temp} {code : List Instr}
    (h : ExprCode e c t code c') (fits : Fits home c [] c') {pc : Nat}
    (place : CodeAt body pc code) (next : SafeFrom home body n (pc + code.length)) :
    SafeFrom home body n pc :=
  fun _ => h.safe once fits place fun ran' _ _ => next ran'

theorem EffectCode.safeFrom {e : Option Typed.Expr} {c c' : Cursor} {code : List Instr}
    (h : EffectCode e c code c') (fits : Fits home c [] c') {pc : Nat}
    (place : CodeAt body pc code) (next : SafeFrom home body n (pc + code.length)) :
    SafeFrom home body n pc := by
  cases h with
  | none => exact next
  | some h => exact h.safeFrom once fits place next

theorem TestCode.safeFrom {exit : Label} {test : Option Typed.Expr} {c c' : Cursor}
    {code : List Instr} (h : TestCode exit test c code c') (fits : Fits home c [] c') {pc : Nat}
    (place : CodeAt body pc code) (next : SafeFrom home body n (pc + code.length))
    (out : SafeAt home body n exit) : SafeFrom home body n pc := by
  cases h with
  | none => exact next
  | some h =>
    refine fun ran => h.safe once fits place.left fun ran' _ ready => ?_
    refine (Safe.jumpIfZero place.right ready ?_ fun pc' marked => out pc' marked _).pred
    exact (next _).cast (by rw [List.length_append]; rfl)

theorem VarDeclCode.safeFrom {d : Typed.VarDecl} {c c' : Cursor} {code : List Instr}
    (h : VarDeclCode d c code c') (fits : Fits home c [d.symbol] c') {pc : Nat}
    (place : CodeAt body pc code) (next : SafeFrom home body n (pc + code.length)) :
    SafeFrom home body n pc := by
  cases h with
  | plain => exact next
  | init isVar _ h =>
    have inner := fits.right (Cursor.Binds.bind isVar) h.binds rfl
    refine fun ran => h.safe once inner place.left fun ran' _ ready => ?_
    refine (Safe.plain place.right rfl (List.forall_mem_singleton.2 ready) ?_).pred
    exact (next _).cast (by rw [List.length_append]; rfl)

theorem ForInitCode.safeFrom {init : Option Typed.ForInit} {c c' : Cursor} {code : List Instr}
    (h : ForInitCode init c code c') (fits : Fits home c (Typed.ForInit.binds init) c') {pc : Nat}
    (place : CodeAt body pc code) (next : SafeFrom home body n (pc + code.length)) :
    SafeFrom home body n pc := by
  cases h with
  | none => exact next
  | decl h => exact h.safeFrom once fits place next
  | expr h => exact h.safeFrom once fits place next

end Parts

/-- A loop is safe if every round is that leads back to its top. The mark at the top is the
instruction that each round adds to those of the rounds behind it. -/
theorem SafeFrom.rounds {top : Nat} {l : Label} (place : CodeAt body top (.mark l :: code))
    (round : ∀ m, m ≤ n → SafeFrom home body m top → SafeFrom home body m (top + 1)) :
    SafeFrom home body n top := by
  induction n with
  | zero => exact fun _ => trivial
  | succ n ih =>
    have others := ih fun m le => round m (Nat.le_succ_of_le le)
    exact fun ran => Safe.mark place (round n (Nat.le_succ n) others _)

/-- The code of a statement is safe if what follows it is, and the targets of the loop are. -/
theorem StmtCode.safeFrom (once : (markedLabels body).Nodup) {targets : Option LoopTargets}
    {s : Typed.Stmt} {c c' : Cursor} {code : List Instr} (h : StmtCode targets s c code c')
    (fits : Fits home c s.binds c') {pc : Nat} (place : CodeAt body pc code)
    (next : SafeFrom home body n (pc + code.length))
    (leave : ∀ t ∈ targets, SafeAt home body n t.exit ∧ SafeAt home body n t.next) :
    SafeFrom home body n pc := by
  induction h generalizing n pc with
  | decl h => exact h.safeFrom once fits place next
  | expr h => exact h.safeFrom once fits place next
  | empty | done => exact next
  | brk => exact SafeFrom.jump place (leave _ rfl).1
  | cont => exact SafeFrom.jump place (leave _ rfl).2
  | ret h => exact fun ran => h.safe once fits place.left fun ran' _ => Safe.ret place.right
  | next h₁ h₂ ih₁ ih₂ =>
    refine ih₁ (fits.left h₁.binds h₂.binds rfl) place.left ?_ leave
    refine ih₂ (fits.right h₁.binds h₂.binds rfl) place.right (next.cast ?_) leave
    rw [List.length_append, Nat.add_assoc]
  | @ite targets test ifTrue ifFalse c c₁ c₂ c₃ code₁ code₂ code₃ h₁ h₂ h₃ ih₂ ih₃ =>
    obtain ⟨fits₁, fits₂, fits₃⟩ :=
      fits.three ((Cursor.Binds.refl c).takeLabels 2) h₁.binds h₂.binds h₃.binds rfl
    have middle := place.left.right
    have ending := place.right
    have last : SafeFrom home body n _ := SafeFrom.mark ending (next.cast (by simp; omega))
    have second : SafeFrom home body n _ := SafeFrom.mark middle.tail
      (ih₃ fits₃ middle.tail.tail (last.cast (by simp; omega)) leave)
    have between : SafeFrom home body n _ := SafeFrom.jump middle (last.marked once ending)
    have first := ih₂ fits₂ place.left.left.right (between.cast (by simp; omega)) leave
    exact h₁.safeFrom once fits₁ place.left.left.left first (second.marked once middle.tail)
  | @loop targets s inner test c c₁ c₂ code₁ code₂ isLoop h₁ h₂ ih =>
    rw [Typed.Stmt.binds_of_loop? isLoop] at fits
    obtain ⟨fits₁, fits₂⟩ := fits.two ((Cursor.Binds.refl c).takeLabels 2) h₁.binds h₂.binds rfl
    have top := place.left.left
    have ending := place.right
    have out : SafeFrom home body n _ := SafeFrom.mark ending.tail (next.cast (by simp; omega))
    refine SafeFrom.rounds top fun m le again => ?_
    have exit := (out.mono le).marked once ending.tail
    have back : SafeFrom home body m _ := SafeFrom.jump ending (again.marked once top)
    have ran := ih fits₂ place.left.right (back.cast (by simp; omega)) (by
      rintro _ ⟨⟩
      exact ⟨exit, again.marked once top⟩)
    exact h₁.safeFrom once fits₁ top.tail (ran.cast (by simp; omega)) exit
  | @forLoop targets init test step inner c c₁ c₂ c₃ c₄ code₁ code₂ code₃ code₄ h₁ h₂ h₃ h₄ ih =>
    obtain ⟨fits₁, fits₂, fits₃, fits₄⟩ := fits.four ((Cursor.Binds.refl c).takeLabels 3)
      h₁.binds h₂.binds h₃.binds h₄.binds (by simp [Typed.Stmt.binds])
    have top := place.left.left.left.right
    have after := place.left.right
    have ending := place.right
    have out : SafeFrom home body n _ := SafeFrom.mark ending.tail (next.cast (by simp; omega))
    refine h₁.safeFrom once fits₁ place.left.left.left.left ?_
    refine SafeFrom.rounds top fun m le again => ?_
    have exit := (out.mono le).marked once ending.tail
    have back : SafeFrom home body m _ := SafeFrom.jump ending (again.marked once top)
    have stepped : SafeFrom home body m _ := SafeFrom.mark after
      (h₄.safeFrom once fits₄ after.tail (back.cast (by simp; omega)))
    have ran := ih fits₃ place.left.left.right (stepped.cast (by simp; omega)) (by
      rintro _ ⟨⟩
      exact ⟨exit, stepped.marked once after⟩)
    exact h₂.safeFrom once fits₂ top.tail (ran.cast (by simp; omega)) exit

/-- On every path through the piece of a function, what an instruction reads lives in the home of a
variable or was written on the way. -/
theorem FunctionCode.written_before_read {config : Config} {f : Typed.Function} {c c' : Cursor}
    {piece : Piece} (h : FunctionCode config f c piece c') (fits : Fits home c f.binds c')
    {ran : List Instr} {pc : Nat} (path : Path piece.body ran pc) {i : Instr}
    (here : piece.body[pc]? = some i) : ∀ t ∈ i.reads, Ready home ran t := by
  have once := h.closed.nodup
  obtain ⟨c₀, c₁, c₂, c₃, code, ending, -, -, -, -, -, split, main, fits₂, ends⟩ := h.parts fits
  rw [split] at path here once
  have place := CodeAt.whole (code ++ ending)
  have safe (n : Nat) : SafeFrom home (code ++ ending) n 0 := by
    refine main.safeFrom once fits₂ place.left ?_ (by simp)
    cases ends with
    | on =>
      intro ran
      refine (Safe.plain place.right rfl (fun t mem => by cases mem) ?_).pred
      exact Safe.ret place.right.tail (.written _ _ rfl)
    | off =>
      -- nothing stands behind the body
      cases n with
      | zero => exact fun _ => trivial
      | succ n =>
        intro ran i there
        simp at there
  exact (Safe.path (fun n => safe n []) path 1 i here).1

end MiddleEnd
