import MiddleEnd.Proofs.Lowered.Shape
import MiddleEnd.Proofs.Lowered.Flow
import Mathlib.Data.List.Nodup
import Mathlib.Data.List.Range

/-!
# The labels of lowered code

Labels are taken before the code that marks them is complete: a construct takes its own, lets its
parts take theirs, and marks its own in between. `ClosedCode` counts with that in mind. It is
composed along the shape of the code, and a construct that has marked all the labels it took closes
its account.

Results:
1. `StmtCode.closed`: a statement marks the labels it takes once each, and jumps only to those and
   to the targets of its loop.
2. `FunctionsCode.closed`: the same for the functions of a program, which have no loop around them.
3. `lowered_control_closed`: every label is marked once, by the piece that jumps to it, and where
   the settings ask for a return at the end control leaves no piece without one.
-/

namespace MiddleEnd

/-- `code` marks the labels `own` and those from `a` up to `b`, each once, and no others. It jumps
only to labels from `a` up to `b` and to labels of `outer`. -/
structure ClosedCode (outer own : List Nat) (code : List Instr) (a b : Nat) : Prop where
  le : a ≤ b
  marked : ∀ l : Nat, (markedLabels code).count l = own.count l + if a ≤ l ∧ l < b then 1 else 0
  target : ∀ l : Nat, l ∈ targetLabels code → (a ≤ l ∧ l < b) ∨ l ∈ outer

namespace ClosedCode

variable {outer own own₁ own₂ : List Nat} {code code₁ code₂ : List Instr} {a b c : Nat}

theorem nil (outer : List Nat) (a : Nat) : ClosedCode outer [] [] a a where
  le := Nat.le_refl a
  marked l := by
    have empty : ¬(a ≤ l ∧ l < a) := by omega
    simp [empty]
  target := by simp

theorem append (h₁ : ClosedCode outer own₁ code₁ a b) (h₂ : ClosedCode outer own₂ code₂ b c) :
    ClosedCode outer (own₁ ++ own₂) (code₁ ++ code₂) a c where
  le := Nat.le_trans h₁.le h₂.le
  marked l := by
    have le₁ := h₁.le
    have le₂ := h₂.le
    rw [markedLabels_append, List.count_append, List.count_append, h₁.marked, h₂.marked]
    split_ifs <;> omega
  target l mem := by
    have le₁ := h₁.le
    have le₂ := h₂.le
    rw [targetLabels_append, List.mem_append] at mem
    rcases mem with mem | mem
    · exact (h₁.target l mem).imp_left fun _ => by omega
    · exact (h₂.target l mem).imp_left fun _ => by omega

/-- An instruction in front that neither marks nor jumps changes nothing. -/
theorem silent {i : Instr} (unmarked : i.marked? = none) (untargeted : i.target? = none)
    (h : ClosedCode outer own code a b) : ClosedCode outer own (i :: code) a b where
  le := h.le
  marked l := by simpa [unmarked] using h.marked l
  target l mem := h.target l (by simpa [untargeted] using mem)

theorem mark {l : Nat} (h : ClosedCode outer own code a b) :
    ClosedCode outer (l :: own) (.mark l :: code) a b where
  le := h.le
  marked l' := by
    have rest := h.marked l'
    simp only [markedLabels_cons, Instr.marked?, Option.toList_some, List.singleton_append,
      List.count_cons, rest]
    omega
  target l' mem := h.target l' (by simpa [Instr.target?] using mem)

theorem jump {i : Instr} {l : Nat} (unmarked : i.marked? = none) (targets : i.target? = some l)
    (known : l ∈ outer) (h : ClosedCode outer own code a b) :
    ClosedCode outer own (i :: code) a b where
  le := h.le
  marked l' := by simpa [unmarked] using h.marked l'
  target l' mem := by
    rw [targetLabels_cons, targets] at mem
    rcases List.mem_cons.1 mem with rfl | mem
    · exact .inr known
    · exact h.target l' mem

/-- Labels that were taken before the code was emitted, and that it marks, are its own. -/
theorem close {n : Nat} {taken : List Nat} (h : ClosedCode taken own code (a + n) b)
    (all : own.Perm (List.range' a n))
    (known : ∀ l ∈ taken, l ∈ List.range' a n ∨ l ∈ outer) : ClosedCode outer [] code a b where
  le := by
    have := h.le
    omega
  marked l := by
    have le := h.le
    rw [h.marked, all.count_eq, List.Nodup.count List.nodup_range', List.count_nil]
    simp only [List.mem_range'_1]
    split_ifs <;> omega
  target l mem := by
    have le := h.le
    rcases h.target l mem with inside | mem
    · exact .inl (by omega)
    · rcases known l mem with inside | outside
      · have := List.mem_range'_1.1 inside
        exact .inl (by omega)
      · exact .inr outside

end ClosedCode

/-- The labels that statements in a loop may jump to. -/
def loopLabels : Option LoopTargets → List Label
  | none => []
  | some t => [t.exit, t.next]

theorem forall_mem_loopLabels {P : Label → Prop} {exit next : Label} :
    (∀ l ∈ loopLabels (some ⟨exit, next⟩), P l) ↔ P exit ∧ P next := by
  simp [loopLabels]

theorem ExprCode.closed {e : Typed.Expr} {c c' : Cursor} {t : Temp} {code : List Instr}
    (h : ExprCode e c t code c') (outer : List Label) :
    ClosedCode outer [] code c.labels c'.labels := by
  induction h generalizing outer with
  | const => exact (ClosedCode.nil outer _).silent rfl rfl
  | var => exact ClosedCode.nil outer _
  | unary _ ih => exact (ih outer).append ((ClosedCode.nil outer _).silent rfl rfl)
  | binary _ _ ih₁ ih₂ =>
    exact ((ih₁ outer).append (ih₂ outer)).append ((ClosedCode.nil outer _).silent rfl rfl)
  | assign _ _ ih => exact (ih outer).append ((ClosedCode.nil outer _).silent rfl rfl)
  | cond _ _ _ ih₁ ih₂ ih₃ =>
    refine ClosedCode.close (n := 2)
      ((((ih₁ _).append ((ih₂ _).jump rfl rfl ?_)).append
        (((ih₃ _).mark.jump rfl rfl ?_).silent rfl rfl)).append
          ((ClosedCode.nil _ _).mark.silent rfl rfl))
      (.refl _) fun l => List.mem_append.1
    · simp [List.range']
    · simp [List.range']

theorem EffectCode.closed {e : Option Typed.Expr} {c c' : Cursor} {code : List Instr}
    (h : EffectCode e c code c') (outer : List Label) :
    ClosedCode outer [] code c.labels c'.labels := by
  cases h with
  | none => exact ClosedCode.nil outer _
  | some h => exact h.closed outer

theorem TestCode.closed {exit : Label} {test : Option Typed.Expr} {c c' : Cursor}
    {code : List Instr} (h : TestCode exit test c code c') {outer : List Label}
    (known : exit ∈ outer) : ClosedCode outer [] code c.labels c'.labels := by
  cases h with
  | none => exact ClosedCode.nil outer _
  | some h => exact (h.closed outer).append ((ClosedCode.nil outer _).jump rfl rfl known)

theorem VarDeclCode.closed {d : Typed.VarDecl} {c c' : Cursor} {code : List Instr}
    (h : VarDeclCode d c code c') (outer : List Label) :
    ClosedCode outer [] code c.labels c'.labels := by
  cases h with
  | plain => exact ClosedCode.nil outer _
  | init _ _ h => exact (h.closed outer).append ((ClosedCode.nil outer _).silent rfl rfl)

theorem ForInitCode.closed {init : Option Typed.ForInit} {c c' : Cursor} {code : List Instr}
    (h : ForInitCode init c code c') (outer : List Label) :
    ClosedCode outer [] code c.labels c'.labels := by
  cases h with
  | none => exact ClosedCode.nil outer _
  | decl h => exact h.closed outer
  | expr h => exact h.closed outer

/-- The code of a statement marks the labels it takes, and jumps to those and to the targets of the
loop it stands in. -/
theorem StmtCode.closed {targets : Option LoopTargets} {s : Typed.Stmt} {c c' : Cursor}
    {code : List Instr} (h : StmtCode targets s c code c') (outer : List Label)
    (known : ∀ l ∈ loopLabels targets, l ∈ outer) :
    ClosedCode outer [] code c.labels c'.labels := by
  induction h generalizing outer with
  | decl h => exact h.closed outer
  | expr h => exact h.closed outer
  | empty => exact ClosedCode.nil outer _
  | done => exact ClosedCode.nil outer _
  | next _ _ ih₁ ih₂ => exact (ih₁ outer known).append (ih₂ outer known)
  | ite h _ _ ih₁ ih₂ =>
    refine ClosedCode.close (n := 2) (((h.closed ?_).append (ih₁ _ fun l mem => ?_)).append
      ((ih₂ _ fun l mem => ?_).mark.jump rfl rfl ?_) |>.append (ClosedCode.nil _ _).mark)
      (.refl _) fun l => List.mem_append.1
    · simp [List.range']
    · exact List.mem_append_right _ (known l mem)
    · exact List.mem_append_right _ (known l mem)
    · simp [List.range']
  | loop _ h _ ih =>
    refine ClosedCode.close (n := 2)
      (((h.closed ?_).mark.append (ih _ (forall_mem_loopLabels.2 ⟨?_, ?_⟩))).append
        ((ClosedCode.nil _ _).mark.jump rfl rfl ?_)) (.refl _) fun l => List.mem_append.1
    · simp [List.range']
    · simp [List.range']
    · simp [List.range']
    · simp [List.range']
  | forLoop h₁ h₂ _ h₄ ih =>
    -- the labels are marked in the order top, next, exit, but taken in the order top, exit, next
    refine ClosedCode.close (n := 3)
      (((((h₁.closed _).append (h₂.closed ?_).mark).append
        (ih _ (forall_mem_loopLabels.2 ⟨?_, ?_⟩))).append (h₄.closed _).mark).append
        ((ClosedCode.nil _ _).mark.jump rfl rfl ?_))
      (.cons _ (.swap _ _ _)) fun l => List.mem_append.1
    · simp [List.range']
    · simp [List.range']
    · simp [List.range']
    · simp [List.range']
  | brk => exact (ClosedCode.nil outer _).jump rfl rfl (known _ (by simp [loopLabels]))
  | cont => exact (ClosedCode.nil outer _).jump rfl rfl (known _ (by simp [loopLabels]))
  | ret h => exact (h.closed outer).append ((ClosedCode.nil outer _).silent rfl rfl)

/-! ## Functions and programs -/

theorem ParamsCode.labels_eq {order : Nat} {params : List Typed.Param} {c c' : Cursor}
    {temps : List Temp} (h : ParamsCode order params c temps c') : c'.labels = c.labels := by
  induction h with
  | nil => rfl
  | cons _ _ ih => exact ih

theorem Cursor.placeParams_labels (size offset : Int) (params : List Typed.Param) (c : Cursor) :
    (c.placeParams size offset params).labels = c.labels := by
  induction params generalizing offset c with
  | nil => rfl
  | cons p rest ih => exact ih _ _

theorem FunctionCode.closed {config : Config} {f : Typed.Function} {c c' : Cursor} {piece : Piece}
    (h : FunctionCode config f c piece c') :
    ClosedCode [] [] piece.body c.labels c'.labels := by
  cases h with
  | mk _ params placed _ body ending =>
    have closed := body.closed [] (by simp [loopLabels])
    rw [placed, Cursor.recordFunction_labels, Cursor.placeParams_labels, params.labels_eq,
      Cursor.recordFunction_labels] at closed
    cases ending with
    | on => exact closed.append (((ClosedCode.nil _ _).silent rfl rfl).silent rfl rfl)
    | off => exact closed.append (ClosedCode.nil _ _)

/-- The labels of each piece are a part of those of the whole. -/
theorem FunctionsCode.closed {config : Config} {fs : List Typed.Function} {c c' : Cursor}
    {pieces : List Piece} (h : FunctionsCode config fs c pieces c') :
    ClosedCode [] [] (pieces.flatMap Piece.body) c.labels c'.labels ∧
      ∀ piece ∈ pieces, ∃ a b, ClosedCode [] [] piece.body a b := by
  induction h with
  | nil => exact ⟨ClosedCode.nil _ _, by simp⟩
  | cons first _ ih =>
    refine ⟨first.closed.append ih.1, ?_⟩
    rintro piece (_ | ⟨_, mem⟩)
    · exact ⟨_, _, first.closed⟩
    · exact ih.2 piece mem

/-- Where the settings ask for it, a function ends in a return. -/
theorem FunctionCode.getLast? {config : Config} {f : Typed.Function} {c c' : Cursor}
    {piece : Piece} (h : FunctionCode config f c piece c') (on : config.implicitReturn = true) :
    ∃ t, piece.body.getLast? = some (.ret t) := by
  cases h with
  | mk _ _ _ _ _ ending =>
    cases ending with
    | on => exact ⟨_, List.getLast?_append_of_ne_nil _ (by simp) |>.trans rfl⟩
    | off off => simp [on] at off

theorem FunctionsCode.getLast? {config : Config} {fs : List Typed.Function} {c c' : Cursor}
    {pieces : List Piece} (h : FunctionsCode config fs c pieces c')
    (on : config.implicitReturn = true) :
    ∀ piece ∈ pieces, ∃ t, piece.body.getLast? = some (.ret t) := by
  induction h with
  | nil => simp
  | cons first _ ih =>
    rintro piece (_ | ⟨_, mem⟩)
    · exact first.getLast? on
    · exact ih piece mem

theorem markedLabels_flatMap (pieces : List Piece) :
    markedLabels (pieces.flatMap Piece.body) =
      pieces.flatMap fun piece => markedLabels piece.body := by
  induction pieces with
  | nil => rfl
  | cons piece rest ih => rw [List.flatMap_cons, markedLabels_append, ih, List.flatMap_cons]

namespace ClosedCode

variable {code : List Instr} {a b : Nat}

/-- Code that stands alone marks the labels it jumps to, once each. -/
theorem count_target (h : ClosedCode [] [] code a b) {l : Nat} (mem : l ∈ targetLabels code) :
    (markedLabels code).count l = 1 := by
  have inside : a ≤ l ∧ l < b := by simpa using h.target l mem
  simp [h.marked, inside]

theorem nodup (h : ClosedCode [] [] code a b) : (markedLabels code).Nodup := by
  refine List.nodup_iff_count_le_one.2 ?_
  intro l
  rw [h.marked]
  split_ifs <;> simp

end ClosedCode

/-- The control flow of lowered code is closed. A piece marks each label that it jumps to exactly
once. Over all pieces the labels that were taken are marked, each once, and no others. Where the
settings ask for it every piece ends in a return, and control never leaves one in another way. -/
theorem lowered_control_closed {config : Config} {symbols symbols' : SymbolTable}
    {p : Typed.Program} {code : Code} (h : lowerProgram config symbols p = (.ok code, symbols')) :
    (∀ piece ∈ code.pieces, ∀ l ∈ targetLabels piece.body, (markedLabels piece.body).count l = 1) ∧
    (∃ s, (lowerFunctions config p).run { symbols } = .ok () s ∧ code = s.emitter.code ∧
      (code.pieces.flatMap fun piece => markedLabels piece.body).Perm
        (List.range s.emitter.labels)) ∧
    (config.implicitReturn = true → ∀ piece ∈ code.pieces,
      (∃ t, piece.body.getLast? = some (.ret t)) ∧
      ∀ pc, Relation.ReflTransGen (Flow piece.body) 0 pc → Stays piece.body pc) := by
  obtain ⟨s, lowered, rfl, -, shape⟩ := lowerProgram_shape h
  obtain ⟨whole, each⟩ := shape.closed
  refine ⟨?_, ⟨s, lowered, rfl, ?_⟩, ?_⟩
  · intro piece mem l target
    obtain ⟨a, b, closed⟩ := each piece mem
    exact closed.count_target target
  · rw [← markedLabels_flatMap]
    refine (List.perm_ext_iff_of_nodup whole.nodup List.nodup_range).2 ?_
    intro l
    rw [← List.count_pos_iff, whole.marked, List.mem_range]
    by_cases taken : l < s.emitter.labels <;> simp [Lowering.cursor, taken]
  · intro on piece mem
    obtain ⟨a, b, closed⟩ := each piece mem
    obtain ⟨t, ends⟩ := shape.getLast? on piece mem
    have marked : ∀ l ∈ targetLabels piece.body, l ∈ markedLabels piece.body := by
      intro l target
      rw [← List.count_pos_iff, closed.count_target target]
      exact Nat.one_pos
    exact ⟨⟨t, ends⟩, fun pc reached => flow_stays_inside marked ends reached⟩

/-- Two functions with `for (;; 3) if (1 ? 1 : 2) break; else continue;` each. -/
def twoLoops : Typed.Program :=
  let test := .cond (.const 1 .int .null) (.const 1 .int .null) (.const 2 .int .null) .int .null
  let loop := .forLoop none none (some (.const 3 .int .null)) (.ite test (.brk .null) (.cont .null))
  ⟨[⟨"f", 0, [], .int, [loop], .null⟩, ⟨"g", 1, [], .int, [loop], .null⟩]⟩

theorem lowered_control_closed_of_twoLoops :
    let table : SymbolTable :=
      ⟨[.fn ⟨"f", .int, [], 0, .null, 0, none⟩, .fn ⟨"g", .int, [], 1, .null, 0, none⟩], []⟩
    ∃ code table', lowerProgram {} table twoLoops = (.ok code, table') ∧ code.pieces.length = 2 ∧
      (∀ piece ∈ code.pieces, ∀ l ∈ targetLabels piece.body,
        (markedLabels piece.body).count l = 1) ∧
      ∀ piece ∈ code.pieces, ∀ pc, Relation.ReflTransGen (Flow piece.body) 0 pc →
        Stays piece.body pc := by
  intro table
  have ok : (lowerProgram {} table twoLoops).1.map (fun code => code.pieces.length) = .ok 2 := by
    decide +kernel
  match run : lowerProgram {} table twoLoops with
  | (.error e, table') => simp [run, Except.map] at ok
  | (.ok code, table') =>
    have two : code.pieces.length = 2 := by simpa [run, Except.map] using ok
    obtain ⟨marked, -, inside⟩ := lowered_control_closed run
    exact ⟨code, table', rfl, two, marked, fun piece mem => (inside rfl piece mem).2⟩

end MiddleEnd
