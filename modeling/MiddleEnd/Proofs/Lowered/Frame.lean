import MiddleEnd.Proofs.Lowered.Bindings
import MiddleEnd.Proofs.Lowered.Flow
import MiddleEnd.Proofs.Lowered.Slots
import MiddleEnd.Proofs.Meaning.Evaluate

/-!
# What lowering leaves alone

Lowering a statement extends the open function and takes temporaries and labels, and it leaves all
else as it is, also where it fails. What it may write and mark beside what it takes is told by
`Rights`: a part of a statement is lowered with the temporaries and labels that were taken for the
whole, and with a temporary that a variable was found to live in. Rights are all that the parts of a
statement have to know of each other.

Results:
1. `Cursor.Grows.trans`: what was taken first is right for what follows.
2. `extends_lowerExpr`, `extends_lowerStmt`: lowering stays within its rights however it ends.
3. `lowerStmt_extends_open`: what a statement changes in a state with an open function.
-/

namespace MiddleEnd

/-! ## What is assigned -/

namespace Typed

/-- The variables that an expression assigns, if there is one. -/
def optionAssigned : Option Expr → List SymbolId
  | none => []
  | some e => e.assigned

/-- The variables that the first clause of a `for` assigns. -/
def ForInit.assigned : Option ForInit → List SymbolId
  | none => []
  | some (.decl d) => optionAssigned d.init
  | some (.expr e) => e.assigned

mutual

/-- The variables that the assignments in a statement refer to. -/
def Stmt.assigned : Stmt → List SymbolId
  | .decl d => optionAssigned d.init
  | .expr e | .ret e => e.assigned
  | .empty | .brk _ | .cont _ => []
  | .block body => assignedOf body
  | .ite test ifTrue ifFalse => test.assigned ++ ifTrue.assigned ++ ifFalse.assigned
  | .whileDo test body | .doWhile body test => test.assigned ++ body.assigned
  | .forLoop init test step body =>
    ForInit.assigned init ++ optionAssigned test ++ optionAssigned step ++ body.assigned

/-- The variables that the assignments in statements refer to. -/
def assignedOf : List Stmt → List SymbolId
  | [] => []
  | s :: rest => s.assigned ++ assignedOf rest

end

end Typed

/-! ## Rights -/

/-- What a stretch of lowering may change beside what it takes itself. -/
structure Rights where
  /-- The variables whose temporaries it may write. -/
  assigned : List SymbolId
  /-- The variables that it may bind. -/
  declared : List SymbolId
  /-- Other temporaries that it may write. -/
  temps : List Temp := []
  /-- The labels that it may mark. -/
  labels : List Label := []

namespace Rights

/-- Between `c` and `c'` a temporary may be written. -/
def MayWrite (R : Rights) (c c' : Cursor) (t : Temp) : Prop :=
  t ∈ R.temps ∨ (c.temps ≤ t ∧ t < c'.temps) ∨ ∃ x ∈ R.assigned, c.symbols.tempOf x = some t

/-- Between `c` and `c'` a label may be marked. -/
def MayMark (R : Rights) (c c' : Cursor) (l : Label) : Prop :=
  l ∈ R.labels ∨ c.labels ≤ l ∧ l < c'.labels

theorem mayWrite_taken {R : Rights} {c c' : Cursor} (lt : c.temps < c'.temps) :
    R.MayWrite c c' c.temps :=
  .inr (.inl ⟨Nat.le_refl _, lt⟩)

theorem mayMark_taken {R : Rights} {c c' : Cursor} (lt : c.labels < c'.labels) :
    R.MayMark c c' c.labels :=
  .inr ⟨Nat.le_refl _, lt⟩

/-- The right to write one more temporary. -/
def withTemp (R : Rights) (t : Temp) : Rights := { R with temps := t :: R.temps }

/-- The right to mark one more label. -/
def withLabel (R : Rights) (l : Label) : Rights := { R with labels := l :: R.labels }

end Rights

/-- A symbol is a variable, and what `t'` has of it differs from what `t` has in the temporary
alone, which is one from `a` on and below `b`. -/
def SymbolTable.BoundAnew (t t' : SymbolTable) (a b : Temp) (x : SymbolId) : Prop :=
  ∃ v temp, t.symbols[x]? = some (.var v) ∧
    t'.symbols[x]? = some (.var { v with temp := some temp }) ∧ a ≤ temp ∧ temp < b

/-- From `c` to `c'` lowering emits `code` and stays within the rights `R`. -/
structure Cursor.Grows (R : Rights) (c : Cursor) (code : List Instr) (c' : Cursor) : Prop where
  temps_le : c.temps ≤ c'.temps
  labels_le : c.labels ≤ c'.labels
  scopes : c'.symbols.scopes = c.symbols.scopes
  symbols : ∀ x, c'.symbols.symbols[x]? = c.symbols.symbols[x]? ∨
    x ∈ R.declared ∧ c.symbols.BoundAnew c'.symbols c.temps c'.temps x
  writes : ∀ t ∈ writtenTemps code, R.MayWrite c c' t
  marks : ∀ l ∈ markedLabels code, R.MayMark c c' l

variable {R R' : Rights} {c c₁ c' : Cursor} {code code' : List Instr}

namespace Cursor.Grows

/-- A variable lives where it lived before, or it was bound in between. -/
theorem tempOf (h : c.Grows R code c₁) {x : SymbolId} {t : Temp}
    (lives : c₁.symbols.tempOf x = some t) :
    c.symbols.tempOf x = some t ∨ c.temps ≤ t ∧ t < c₁.temps := by
  rcases h.symbols x with same | ⟨-, v, temp, -, bound, le, lt⟩
  · refine .inl ?_
    rw [← lives, SymbolTable.tempOf, SymbolTable.variableAt, SymbolTable.tempOf,
      SymbolTable.variableAt, same]
  · rw [SymbolTable.tempOf, SymbolTable.variableAt, bound] at lives
    obtain rfl := Option.some_inj.1 lives
    exact .inr ⟨le, lt⟩

theorem refl (R : Rights) (c : Cursor) : c.Grows R [] c :=
  ⟨Nat.le_refl _, Nat.le_refl _, rfl, fun _ => .inl rfl, nofun, nofun⟩

/-- What may be written may be written in a longer stretch. -/
theorem mayWrite (h : c₁.Grows R' code c') {t : Temp} (may : R.MayWrite c c₁ t) :
    R.MayWrite c c' t :=
  may.imp_right fun may => may.imp_left fun ⟨le, lt⟩ => ⟨le, Nat.lt_of_lt_of_le lt h.temps_le⟩

/-- What may be marked may be marked in a longer stretch. -/
theorem mayMark (h : c₁.Grows R' code c') {l : Label} (may : R.MayMark c c₁ l) :
    R.MayMark c c' l :=
  may.imp_right fun ⟨le, lt⟩ => ⟨le, Nat.lt_of_lt_of_le lt h.labels_le⟩

/-- What was taken in a first stretch may be written and marked in the one behind it. -/
theorem trans {temps : List Temp} {labels : List Label} (h₁ : c.Grows R code c₁)
    (h₂ : c₁.Grows { R with temps, labels } code' c')
    (writable : ∀ t ∈ temps, R.MayWrite c c₁ t) (markable : ∀ l ∈ labels, R.MayMark c c₁ l) :
    c.Grows R (code ++ code') c' where
  temps_le := Nat.le_trans h₁.temps_le h₂.temps_le
  labels_le := Nat.le_trans h₁.labels_le h₂.labels_le
  scopes := h₂.scopes.trans h₁.scopes
  symbols x := by
    rcases h₁.symbols x with same₁ | ⟨mem, v, t₁, before, bound₁, le, lt⟩ <;>
      rcases h₂.symbols x with same₂ | ⟨mem₂, w, t₂, between, bound₂, le₂, lt₂⟩
    · exact .inl (same₂.trans same₁)
    · exact .inr ⟨mem₂, w, t₂, same₁ ▸ between, bound₂, Nat.le_trans h₁.temps_le le₂, lt₂⟩
    · exact .inr ⟨mem, v, t₁, before, same₂.trans bound₁, le, Nat.lt_of_lt_of_le lt h₂.temps_le⟩
    · -- of two bindings only the second shows
      cases bound₁.symm.trans between
      exact .inr ⟨mem, v, t₂, before, bound₂, Nat.le_trans h₁.temps_le le₂, lt₂⟩
  writes t mem := by
    rw [writtenTemps, List.filterMap_append] at mem
    rcases List.mem_append.1 mem with mem | mem
    · exact h₂.mayWrite (h₁.writes t mem)
    · rcases h₂.writes t mem with given | ⟨le, lt⟩ | ⟨x, assigned, lives⟩
      · exact h₂.mayWrite (writable t given)
      · exact .inr (.inl ⟨Nat.le_trans h₁.temps_le le, lt⟩)
      · -- a variable that was bound in the first stretch lives in a temporary taken there
        rcases h₁.tempOf lives with lived | taken
        · exact .inr (.inr ⟨x, assigned, lived⟩)
        · exact h₂.mayWrite (.inr (.inl taken))
  marks l mem := by
    rw [markedLabels_append] at mem
    rcases List.mem_append.1 mem with mem | mem
    · exact h₂.mayMark (h₁.marks l mem)
    · rcases h₂.marks l mem with given | ⟨le, lt⟩
      · exact h₂.mayMark (markable l given)
      · exact .inr ⟨Nat.le_trans h₁.labels_le le, lt⟩

/-- An instruction that writes and marks what is given. -/
theorem emit {i : Instr} (c : Cursor) (writes : ∀ t, i.dst? = some t → t ∈ R.temps)
    (marks : ∀ l, i.marked? = some l → l ∈ R.labels) : c.Grows R [i] c where
  __ := refl R c
  writes t mem := by
    obtain ⟨_, only, writes_t⟩ := List.mem_filterMap.1 mem
    obtain rfl := List.mem_singleton.1 only
    exact .inl (writes t writes_t)
  marks l mem := by
    obtain ⟨_, only, marks_l⟩ := List.mem_filterMap.1 mem
    obtain rfl := List.mem_singleton.1 only
    exact .inl (marks l marks_l)

theorem takeTemp (R : Rights) (c : Cursor) : c.Grows R [] c.takeTemp :=
  ⟨Nat.le_succ _, Nat.le_refl _, rfl, fun _ => .inl rfl, nofun, nofun⟩

theorem takeLabel (R : Rights) (c : Cursor) : c.Grows R [] (c.takeLabels 1) :=
  ⟨Nat.le_refl _, Nat.le_succ _, rfl, fun _ => .inl rfl, nofun, nofun⟩

/-- A variable that may be bound is bound to the next temporary. -/
theorem bind {x : SymbolId} (declared : x ∈ R.declared) (c : Cursor) :
    c.Grows R [] (c.bind x) := by
  refine ⟨Nat.le_succ _, Nat.le_refl _, rfl, fun y => ?_, nofun, nofun⟩
  show (c.symbols.symbols.modify x _)[y]? = _ ∨ _
  rw [List.getElem?_modify]
  by_cases same : x = y
  · subst same
    cases at_x : c.symbols.symbols[x]? with
    | none => exact .inl (by simp)
    | some s =>
      cases s with
      | fn g => exact .inl (by simp)
      | var v =>
        refine .inr ⟨declared, v, c.temps, at_x, ?_, Nat.le_refl _, Nat.lt_succ_self _⟩
        show (c.symbols.symbols.modify x _)[x]? = _
        rw [List.getElem?_modify, at_x]
        simp
  · exact .inl (by simp [same])

/-- The temporary that was taken last is the one that is written. -/
theorem emitFresh {write : Temp → Instr} (c : Cursor) (writes : (write c.temps).dst? = some c.temps)
    (plain : (write c.temps).marked? = none) : c.Grows R [write c.temps] c.takeTemp := by
  have written : c.takeTemp.Grows (R.withTemp c.temps) [write c.temps] c.takeTemp := by
    refine emit _ ?_ ?_
    · rintro t writes_t
      cases writes.symm.trans writes_t
      exact List.mem_cons_self
    · rintro l marks_l
      cases plain.symm.trans marks_l
  exact (takeTemp R c).trans written
    (List.forall_mem_cons.2 ⟨Rights.mayWrite_taken (Nat.lt_succ_self _), fun _ => .inl⟩)
    fun _ => .inl

end Cursor.Grows

/-! ## Steps of lowering -/

/-- However it ends, a step that is taken from `s` appends code to the open function and stays
within the rights `R`. -/
def Lower.ExtendsFrom (R : Rights) (x : Lower α) (s : Lowering) : Prop :=
  ∃ code c, finalState x s = s.after code c ∧ s.cursor.Grows R code c

/-- From every state with an open function a step extends that function, within the rights `R`. -/
def Lower.Extends (R : Rights) (x : Lower α) : Prop :=
  ∀ s : Lowering, s.emitter.current.isSome → ExtendsFrom R x s

namespace Lower.Extends

variable {x : Lower α} {f : α → Lower β}

/-- A step that leaves the state as it is. -/
theorem of_still (still : ∀ s, finalState x s = s) : Extends R x :=
  fun s _ => ⟨[], s.cursor, by simp [still s], .refl R _⟩

theorem pure (R : Rights) (a : α) : Extends R (pure a) := of_still fun _ => rfl

theorem fail (R : Rights) (cause : Cause) (pos : Pos) : Extends R (fail cause pos : Lower α) :=
  of_still fun _ => rfl

/-- Behind a step that emits nothing, with rights that this step has given. -/
theorem granted {s : Lowering} {c : Cursor} {a : α} {temps : List Temp} {labels : List Label}
    (opened : s.emitter.current.isSome) (first : x s = .ok a (s.after [] c))
    (grows : s.cursor.Grows R [] c) (writable : ∀ t ∈ temps, R.MayWrite s.cursor c t)
    (markable : ∀ l ∈ labels, R.MayMark s.cursor c l)
    (rest : Extends { R with temps, labels } (f a)) : ExtendsFrom R (x >>= f) s := by
  obtain ⟨code, c', ends, grows'⟩ := rest (s.after [] c) (by simpa using opened)
  refine ⟨code, c', ?_, grows.trans grows' writable markable⟩
  rw [finalState_bind_of_ok first, ends, Lowering.after_after, List.nil_append]

/-- Behind a step that gives the right to write the temporary that it answers. -/
theorem answered {f : Temp → Lower β} {x : Lower Temp} {s : Lowering} {c : Cursor} {t : Temp}
    (opened : s.emitter.current.isSome) (first : x s = .ok t (s.after [] c))
    (grows : s.cursor.Grows R [] c) (writable : R.MayWrite s.cursor c t)
    (rest : Extends (R.withTemp t) (f t)) : ExtendsFrom R (x >>= f) s :=
  granted opened first grows (List.forall_mem_cons.2 ⟨writable, fun _ => .inl⟩) (fun _ => .inl) rest

/-- Behind a step that fails at once. -/
theorem refused {s : Lowering} {e : Error} (fails : x s = .error e s) :
    ExtendsFrom R (x >>= f) s :=
  ⟨[], s.cursor, by rw [finalState, bind_of_error fails, Lowering.after_nil_cursor], .refl R _⟩

theorem bind (first : Extends R x) (rest : ∀ a, Extends R (f a)) : Extends R (x >>= f) := by
  intro s opened
  obtain ⟨code, c, ends, grows⟩ := first s opened
  cases ran : x s with
  | error e s₁ =>
    refine ⟨code, c, ?_, grows⟩
    rw [finalState, bind_of_error ran, ← ends, finalState, ran]
  | ok a s₁ =>
    obtain rfl : s₁ = s.after code c := by rw [← ends, finalState, ran]
    obtain ⟨code', c', ends', grows'⟩ := rest a (s.after code c) (by simpa using opened)
    refine ⟨code ++ code', c', ?_, grows.trans grows' (fun t => .inl) fun l => .inl⟩
    rw [finalState_bind_of_ok ran, ends', Lowering.after_after]

theorem emit {i : Instr} (writes : ∀ t, i.dst? = some t → t ∈ R.temps)
    (marks : ∀ l, i.marked? = some l → l ∈ R.labels) : Extends R (Lower.emit (Emit.emit i)) := by
  intro s opened
  refine ⟨[i], s.cursor, ?_, .emit _ writes marks⟩
  have emitted : Lower.emit (Emit.emit i) s = .ok () (s.after [i] s.cursor) :=
    emit_eq_ok.2 ⟨opened, rfl⟩
  rw [finalState, emitted]

/-- An instruction that writes nothing and marks nothing. -/
theorem emitPlain (R : Rights) {i : Instr} (writes : i.dst? = none) (marks : i.marked? = none) :
    Extends R (Lower.emit (Emit.emit i)) :=
  emit (fun _ writes_t => nomatch writes.symm.trans writes_t)
    fun _ marks_l => nomatch marks.symm.trans marks_l

theorem jump (R : Rights) (target : Label) : Extends R (Lower.emit (.jump target)) :=
  emitPlain R rfl rfl

theorem jumpIfZero (R : Rights) (target : Label) (test : Temp) :
    Extends R (Lower.emit (.jumpIfZero target test)) :=
  emitPlain R rfl rfl

theorem ret (R : Rights) (value : Temp) : Extends R (Lower.emit (.ret value)) :=
  emitPlain R rfl rfl

theorem emitFresh {write : Temp → Instr} (writes : ∀ t, (write t).dst? = some t)
    (plain : ∀ t, (write t).marked? = none) : Extends R (Lower.emit (Emit.emitFresh write)) := by
  intro s opened
  refine ⟨[write s.cursor.temps], s.cursor.takeTemp, ?_, .emitFresh _ (writes _) (plain _)⟩
  rw [finalState, emitFresh_eq_ok.2 ⟨opened, rfl, rfl⟩]

theorem copy {dst : Temp} (src : Temp) (given : dst ∈ R.temps) :
    Extends R (Lower.emit (.copy dst src)) :=
  emit (by rintro _ ⟨⟩; exact given) nofun

theorem mark {l : Label} (given : l ∈ R.labels) : Extends R (Lower.emit (.mark l)) :=
  emit nofun (by rintro _ ⟨⟩; exact given)

/-- A temporary that is taken may be written. -/
theorem freshTemp {f : Temp → Lower β} (rest : ∀ t, Extends (R.withTemp t) (f t)) :
    Extends R (Lower.emit .freshTemp >>= f) := by
  intro s opened
  exact answered opened (freshTemp_eq s) (.takeTemp R _)
    (Rights.mayWrite_taken (Nat.lt_succ_self _)) (rest s.cursor.temps)

/-- A label that is taken may be marked. -/
theorem freshLabel {f : Label → Lower β} (rest : ∀ l, Extends (R.withLabel l) (f l)) :
    Extends R (Lower.emit .freshLabel >>= f) := by
  intro s opened
  exact granted opened (freshLabel_eq s) (.takeLabel R _) (fun _ => .inl)
    (List.forall_mem_cons.2 ⟨Rights.mayMark_taken (Nat.lt_succ_self _), fun _ => .inl⟩)
    (rest s.cursor.labels)

/-- A variable that is bound may be stored to. -/
theorem bindTemp {id : SymbolId} {name : String} {span : Span} {f : Temp → Lower β}
    (declared : id ∈ R.declared) (rest : ∀ t, Extends (R.withTemp t) (f t)) :
    Extends R (Lower.bindTemp id name span >>= f) := by
  intro s opened
  cases isVariable : s.symbols.variableAt id with
  | none =>
    have fails : Lower.bindTemp id name span s = .error ⟨.unresolvedSymbol name, span.start⟩ s := by
      rw [Lower.bindTemp, get_bind, isVariable]
      rfl
    exact refused fails
  | some v =>
    exact answered opened (bindTemp_eq_ok.2 ⟨by simp [isVariable], rfl, rfl⟩) (.bind declared _)
      (Rights.mayWrite_taken (Nat.lt_succ_self _)) (rest s.cursor.temps)

end Lower.Extends

theorem finalState_lowerRef (r : Typed.Ref) (s : Lowering) : finalState (lowerRef r) s = s := by
  unfold lowerRef
  cases r.symbol with
  | none => rfl
  | some id =>
    cases r.storage with
    | none => rfl
    | some place =>
      cases place
      show finalState (Lower.boundTemp id r.name r.span) s = s
      rw [Lower.boundTemp, finalState, get_bind]
      cases (s.symbols.variableAt id).bind VariableInfo.temp <;> rfl

namespace Lower.Extends

theorem lowerRef (R : Rights) (r : Typed.Ref) : Extends R (lowerRef r) :=
  of_still (finalState_lowerRef r)

/-- The temporary of a variable that is assigned may be written. -/
theorem lowerTarget {r : Typed.Ref} {f : Temp → Lower β} (assigned : ∀ x ∈ r.symbol, x ∈ R.assigned)
    (rest : ∀ t, Extends (R.withTemp t) (f t)) : Extends R (MiddleEnd.lowerRef r >>= f) := by
  intro s opened
  cases ran : MiddleEnd.lowerRef r s with
  | error e s₁ =>
    obtain rfl : s₁ = s := by rw [← finalState_lowerRef r s, finalState, ran]
    exact refused ran
  | ok dst s₁ =>
    obtain ⟨⟨x, isSymbol, -, lives⟩, rfl⟩ := lowerRef_eq_ok.1 ran
    exact answered opened (by rw [ran, Lowering.after_nil_cursor]) (.refl R _)
      (.inr (.inr ⟨x, assigned x isSymbol, lives⟩)) (rest dst)

end Lower.Extends

/-! ## Expressions and statements -/

open Lower

theorem extends_lowerExpr {e : Typed.Expr} (assigned : e.assigned ⊆ R.assigned) :
    Extends R (lowerExpr e) := by
  induction e generalizing R with
  | const value ty span => exact .emitFresh (fun _ => rfl) fun _ => rfl
  | var r ty span => exact .lowerRef R r
  | unary op operand ty span ih =>
    exact .bind (ih assigned) fun _ => .emitFresh (fun _ => rfl) fun _ => rfl
  | binary op left right ty span ihl ihr =>
    obtain ⟨inLeft, inRight⟩ := List.append_subset.1 assigned
    exact .bind (ihl inLeft) fun _ => .bind (ihr inRight) fun _ =>
      .emitFresh (fun _ => rfl) fun _ => rfl
  | assign target value ty span ih =>
    obtain ⟨inTarget, inValue⟩ := List.append_subset.1 assigned
    refine .lowerTarget (fun x isSymbol => inTarget (Option.mem_toList.2 isSymbol)) fun dst => ?_
    refine .bind (ih inValue) fun src => ?_
    exact .bind (.copy src (.head _)) fun _ => .pure _ dst
  | cond test ifTrue ifFalse ty span iht iha ihb =>
    obtain ⟨inParts, inFalse⟩ := List.append_subset.1 assigned
    obtain ⟨inTest, inTrue⟩ := List.append_subset.1 inParts
    refine .freshTemp fun result => .freshLabel fun otherwise => .freshLabel fun done => ?_
    refine .bind (iht inTest) fun test => .bind (.jumpIfZero _ otherwise test) fun _ => ?_
    refine .bind (iha inTrue) fun src => .bind (.copy src (.head _)) fun _ => ?_
    refine .bind (.jump _ done) fun _ => .bind (.mark (.tail _ (.head _))) fun _ => ?_
    refine .bind (ihb inFalse) fun src => .bind (.copy src (.head _)) fun _ => ?_
    exact .bind (.mark (.head _)) fun _ => .pure _ result

theorem extends_lowerEffect {e : Typed.Expr} (assigned : e.assigned ⊆ R.assigned) :
    Extends R (lowerEffect e) :=
  .bind (extends_lowerExpr assigned) fun _ => .pure R ()

theorem extends_lowerOption {e : Option Typed.Expr}
    (assigned : Typed.optionAssigned e ⊆ R.assigned) : Extends R (lowerOption e) := by
  cases e with
  | none => exact .pure R ()
  | some e => exact extends_lowerEffect assigned

theorem extends_lowerTest {exit : Label} {test : Typed.Expr}
    (assigned : test.assigned ⊆ R.assigned) : Extends R (lowerTest exit test) :=
  .bind (extends_lowerExpr assigned) fun test => .jumpIfZero R exit test

theorem extends_lowerTestOption {exit : Label} {test : Option Typed.Expr}
    (assigned : Typed.optionAssigned test ⊆ R.assigned) :
    Extends R (lowerTestOption exit test) := by
  cases test with
  | none => exact .pure R ()
  | some test => exact extends_lowerTest assigned

theorem extends_lowerVarDecl {d : Typed.VarDecl} (declared : d.symbol ∈ R.declared)
    (assigned : Typed.optionAssigned d.init ⊆ R.assigned) : Extends R (lowerVarDecl d) := by
  refine .bindTemp declared fun dst => ?_
  cases init : d.init with
  | none => exact .pure _ ()
  | some e =>
    have assigned : e.assigned ⊆ R.assigned := by rwa [init] at assigned
    exact .bind (extends_lowerExpr assigned) fun src => .copy src (.head _)

theorem extends_lowerForInit {init : Option Typed.ForInit}
    (declared : Typed.ForInit.binds init ⊆ R.declared)
    (assigned : Typed.ForInit.assigned init ⊆ R.assigned) : Extends R (lowerForInit init) := by
  match init with
  | none => exact .pure R ()
  | some (.decl d) => exact extends_lowerVarDecl (declared (.head _)) assigned
  | some (.expr e) => exact extends_lowerEffect assigned

theorem extends_lowerLoop {test : Typed.Expr} {body : LoopTargets → Lower Unit}
    (assigned : test.assigned ⊆ R.assigned)
    (inside : ∀ l l' targets, Extends ((R.withLabel l).withLabel l') (body targets)) :
    Extends R (lowerLoop test body) := by
  refine .freshLabel fun top => .freshLabel fun exit => ?_
  refine .bind (.mark (.tail _ (.head _))) fun _ => .bind (extends_lowerTest assigned) fun _ => ?_
  refine .bind (inside top exit _) fun _ => .bind (.jump _ top) fun _ => ?_
  exact .mark (.head _)

mutual

/-- A statement is lowered within the rights to assign what it assigns and to bind what it
declares. -/
theorem extends_lowerStmt (R : Rights) (targets : Option LoopTargets) :
    ∀ {s : Typed.Stmt}, s.binds ⊆ R.declared → s.assigned ⊆ R.assigned →
      Extends R (lowerStmt targets s)
  | .decl d, declared, assigned => extends_lowerVarDecl (declared (.head _)) assigned
  | .expr e, _, assigned => extends_lowerEffect assigned
  | .empty, _, _ => .pure R ()
  | .block body, declared, assigned => extends_lowerStmts R targets declared assigned
  | .ite test ifTrue ifFalse, declared, assigned => by
    obtain ⟨declaresTrue, declaresFalse⟩ := List.append_subset.1 declared
    obtain ⟨inParts, inFalse⟩ := List.append_subset.1 assigned
    obtain ⟨inTest, inTrue⟩ := List.append_subset.1 inParts
    refine .freshLabel fun otherwise => .freshLabel fun done => ?_
    refine .bind (extends_lowerTest inTest) fun _ => ?_
    refine .bind (extends_lowerStmt _ targets declaresTrue inTrue) fun _ => ?_
    refine .bind (.jump _ done) fun _ => .bind (.mark (.tail _ (.head _))) fun _ => ?_
    exact .bind (extends_lowerStmt _ targets declaresFalse inFalse) fun _ => .mark (.head _)
  | .whileDo test body, declared, assigned | .doWhile body test, declared, assigned => by
    obtain ⟨inTest, inBody⟩ := List.append_subset.1 assigned
    exact extends_lowerLoop inTest fun _ _ targets => extends_lowerStmt _ targets declared inBody
  | .forLoop init test step body, declared, assigned => by
    obtain ⟨declaresInit, declaresBody⟩ := List.append_subset.1 declared
    obtain ⟨inHead, inBody⟩ := List.append_subset.1 assigned
    obtain ⟨inHead, inStep⟩ := List.append_subset.1 inHead
    obtain ⟨inInit, inTest⟩ := List.append_subset.1 inHead
    refine .freshLabel fun top => .freshLabel fun exit => .freshLabel fun next => ?_
    refine .bind (extends_lowerForInit declaresInit inInit) fun _ => ?_
    refine .bind (.mark (.tail _ (.tail _ (.head _)))) fun _ => ?_
    refine .bind (extends_lowerTestOption inTest) fun _ => ?_
    refine .bind (extends_lowerStmt _ _ declaresBody inBody) fun _ => ?_
    refine .bind (.mark (.head _)) fun _ => .bind (extends_lowerOption inStep) fun _ => ?_
    exact .bind (.jump _ top) fun _ => .mark (.tail _ (.head _))
  | .brk span, _, _ => by
    cases targets with
    | none => exact .fail R _ _
    | some targets => exact .jump R targets.exit
  | .cont span, _, _ => by
    cases targets with
    | none => exact .fail R _ _
    | some targets => exact .jump R targets.next
  | .ret value, _, assigned => .bind (extends_lowerExpr assigned) fun value => .ret R value

theorem extends_lowerStmts (R : Rights) (targets : Option LoopTargets) :
    ∀ {ss : List Typed.Stmt}, Typed.bindsOf ss ⊆ R.declared → Typed.assignedOf ss ⊆ R.assigned →
      Extends R (lowerStmts targets ss)
  | [], _, _ => .pure R ()
  | _ :: _, declared, assigned =>
    have ⟨declaresFirst, declaresRest⟩ := List.append_subset.1 declared
    have ⟨inFirst, inRest⟩ := List.append_subset.1 assigned
    .bind (extends_lowerStmt R targets declaresFirst inFirst) fun _ =>
      extends_lowerStmts R targets declaresRest inRest

end

/-- Lowering a statement while a function is open appends to the body of that function, whether or
not it succeeds. What was emitted, finished and placed before stays, no number is given back, and of
the symbols only variables that the statement declares are bound anew. What is appended writes
temporaries that were taken for it, or those of variables that assignments in the statement refer
to, and it marks labels that were taken for it. -/
theorem lowerStmt_extends_open {s : Lowering} {piece : Piece}
    (opened : s.emitter.current = some piece) (targets : Option LoopTargets) (stmt : Typed.Stmt) :
    let s' := finalState (lowerStmt targets stmt) s
    ∃ code,
      s'.emitter.current = some { piece with body := piece.body ++ code } ∧
      s'.emitter.finished = s.emitter.finished ∧
      s'.emitter.paramOffset = s.emitter.paramOffset ∧
      s.emitter.temps ≤ s'.emitter.temps ∧ s.emitter.labels ≤ s'.emitter.labels ∧
      s'.symbols.scopes = s.symbols.scopes ∧
      (∀ x, s'.symbols.symbols[x]? = s.symbols.symbols[x]? ∨
        x ∈ stmt.binds ∧
          s.symbols.BoundAnew s'.symbols s.emitter.temps s'.emitter.temps x) ∧
      (∀ t ∈ writtenTemps code, (s.emitter.temps ≤ t ∧ t < s'.emitter.temps) ∨
        ∃ x ∈ stmt.assigned, s.symbols.tempOf x = some t) ∧
      ∀ l ∈ markedLabels code, s.emitter.labels ≤ l ∧ l < s'.emitter.labels := by
  intro s'
  have within := extends_lowerStmt ⟨stmt.assigned, stmt.binds, [], []⟩ targets
    (List.Subset.refl stmt.binds) (List.Subset.refl stmt.assigned)
  obtain ⟨code, c, ends, grows⟩ := within s (by rw [opened]; rfl)
  have ends : s' = s.after code c := ends
  refine ⟨code, ?_, ?_⟩
  · rw [ends, Lowering.after, opened]
    rfl
  · rw [ends]
    refine ⟨rfl, rfl, grows.temps_le, grows.labels_le, grows.scopes, grows.symbols, ?_, ?_⟩
    · exact fun t mem => (grows.writes t mem).resolve_left List.not_mem_nil
    · exact fun l mem => (grows.marks l mem).resolve_left List.not_mem_nil

/-- An open function with a variable `x` that is bound, and a variable `y` that is not. -/
def halfBound : Lowering where
  emitter := { temps := 1, labels := 2, current := some ⟨"main", 0, [0], [.load 0 5]⟩ }
  symbols :=
    ⟨[.var { name := "x", ty := .int, pos := .null, isParameter := true, temp := some 0 },
      .var { name := "y", ty := .int, pos := .null, isParameter := false }], []⟩

/-- `{ int y = 1; x = 7; break; }`, in no loop. -/
def strayBreak : Typed.Stmt :=
  .block [.decl ⟨"y", 1, .int, some (.const 1 .int .null), .null⟩,
    .expr (.assign ⟨"x", some 0, some .frame, .int, .null⟩ (.const 7 .int .null) .int .null),
    .brk .null]

/-- The statement fails at its end. Until then it has bound `y` and stored to `y` and `x`. -/
theorem lowerStmt_extends_open_of_strayBreak :
    let s' := finalState (lowerStmt none strayBreak) halfBound
    halfBound.emitter.current = some ⟨"main", 0, [0], [.load 0 5]⟩ ∧
      lowerStmt none strayBreak halfBound = .error ⟨.breakOutsideLoop, .null⟩ s' ∧
      s'.symbols.tempOf 1 = some 1 ∧
      ∃ code, s'.emitter.current = some ⟨"main", 0, [0], [.load 0 5] ++ code⟩ ∧
        ∀ t ∈ writtenTemps code, (1 ≤ t ∧ t < 4) ∨ t = 0 := by
  intro s'
  have opened : halfBound.emitter.current = some ⟨"main", 0, [0], [.load 0 5]⟩ := rfl
  obtain ⟨code, current, -, -, -, -, -, -, writes, -⟩ :=
    lowerStmt_extends_open opened none strayBreak
  refine ⟨opened, rfl, rfl, code, current, fun t mem => (writes t mem).imp_right ?_⟩
  rintro ⟨x, assigned, lives⟩
  obtain rfl : x = 0 := List.mem_singleton.1 assigned
  exact (Option.some_inj.1 lives).symm

end MiddleEnd
