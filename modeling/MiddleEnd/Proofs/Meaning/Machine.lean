import MiddleEnd.Proofs.Lowered.Flow
import Mathlib.Logic.Function.Basic

/-!
# Running lowered code

A machine over the body of one piece: a place in the body and a memory of temporaries. The
operators are a parameter. A run is counted in steps, so that a run without end is one that is
still running after any number of them.

Results:
1. `Machine.run_add`: a run can be cut at any step.
2. `Machine.Halts.unique`, `Machine.Halts.not_diverges`: a body ends with one value or not at all.
3. `CodeAt`: code that stands at a place of a body, and what the machine does there.
-/

namespace MiddleEnd

/-- What the operators do to integers. -/
structure Operators where
  unary : UnaryOp → Int → Int
  binary : BinaryOp → Int → Int → Int

/-- The contents of the temporaries. -/
abbrev Memory := Temp → Int

/-- Arguments put into the temporaries of a piece, in order. -/
def Memory.enter (m : Memory) : List Temp → List Int → Memory
  | t :: ts, v :: vs => Memory.enter (Function.update m t v) ts vs
  | _, _ => m

namespace Machine

/-- Where a run stands. -/
structure State where
  pc : Nat
  memory : Memory

/-- What became of a run. -/
inductive Progress
  | running (s : State)
  | halted (value : Int)
  | stuck

/-- The machine goes on at the mark of a label. -/
def goto (body : List Instr) (l : Label) (m : Memory) : Progress :=
  match markPlace? body l with
  | some pc => .running ⟨pc, m⟩
  | none => .stuck

/-- What one instruction does. -/
def exec (ops : Operators) (body : List Instr) (s : State) : Instr → Progress
  | .load dst value => .running ⟨s.pc + 1, Function.update s.memory dst value⟩
  | .unary op dst src =>
    .running ⟨s.pc + 1, Function.update s.memory dst (ops.unary op (s.memory src))⟩
  | .binary op dst left right =>
    .running ⟨s.pc + 1,
      Function.update s.memory dst (ops.binary op (s.memory left) (s.memory right))⟩
  | .copy dst src => .running ⟨s.pc + 1, Function.update s.memory dst (s.memory src)⟩
  | .jump target => goto body target s.memory
  | .jumpIfZero target test =>
    if s.memory test = 0 then goto body target s.memory else .running ⟨s.pc + 1, s.memory⟩
  | .mark _ => .running ⟨s.pc + 1, s.memory⟩
  | .ret value => .halted (s.memory value)

/-- One step. Behind the last instruction there is none. -/
def step (ops : Operators) (body : List Instr) (s : State) : Progress :=
  match body[s.pc]? with
  | some i => exec ops body s i
  | none => .stuck

/-- What became of a run after some steps. -/
def run (ops : Operators) (body : List Instr) : Nat → State → Progress
  | 0, s => .running s
  | n + 1, s =>
    match step ops body s with
    | .running s' => run ops body n s'
    | .halted value => .halted value
    | .stuck => .stuck

/-- A body ends with a value. -/
def Halts (ops : Operators) (body : List Instr) (s : State) (value : Int) : Prop :=
  ∃ n, run ops body n s = .halted value

/-- A body never ends, neither with a value nor without an instruction. -/
def Diverges (ops : Operators) (body : List Instr) (s : State) : Prop :=
  ∀ n, ∃ s', run ops body n s = .running s'

/-- A run passes through a state. -/
def Reaches (ops : Operators) (body : List Instr) (s s' : State) : Prop :=
  ∃ n, run ops body n s = .running s'

/-- A run takes some steps at least. -/
def Lasts (ops : Operators) (body : List Instr) (s : State) (n : Nat) : Prop :=
  ∃ n' s', n ≤ n' ∧ run ops body n' s = .running s'

variable {ops : Operators} {body : List Instr} {s s' s'' : State} {v w : Int} {n : Nat}

theorem run_succ (h : step ops body s = .running s') (n : Nat) :
    run ops body (n + 1) s = run ops body n s' := by
  rw [run, h]

/-- A run can be cut at any step that it takes. -/
theorem run_add {m : Nat} (h : run ops body m s = .running s') (n : Nat) :
    run ops body (m + n) s = run ops body n s' := by
  induction m generalizing s with
  | zero =>
    cases h
    rw [Nat.zero_add]
  | succ m ih =>
    rw [Nat.succ_add, run]
    rw [run] at h
    cases hs : step ops body s with
    | running s₁ =>
      rw [hs] at h
      exact ih h
    | halted value => simp [hs] at h
    | stuck => simp [hs] at h

/-- A run that has ended stays ended. -/
theorem run_halted {m : Nat} (h : run ops body m s = .halted v) (le : m ≤ n) :
    run ops body n s = .halted v := by
  induction m generalizing s n with
  | zero => cases h
  | succ m ih =>
    obtain ⟨n, rfl⟩ : ∃ k, n = k + 1 := ⟨n - 1, by omega⟩
    rw [run] at h ⊢
    cases hs : step ops body s with
    | running s₁ =>
      rw [hs] at h
      exact ih h (Nat.le_of_succ_le_succ le)
    | halted value => simpa [hs] using h
    | stuck => simp [hs] at h

theorem Halts.unique (hv : Halts ops body s v) (hw : Halts ops body s w) : v = w := by
  obtain ⟨m, hv⟩ := hv
  obtain ⟨n, hw⟩ := hw
  have hv' := run_halted hv (Nat.le_max_left m n)
  rw [run_halted hw (Nat.le_max_right m n)] at hv'
  cases hv'
  rfl

theorem Halts.not_diverges (h : Halts ops body s v) : ¬Diverges ops body s := by
  intro diverges
  obtain ⟨m, h⟩ := h
  obtain ⟨s', running⟩ := diverges m
  rw [h] at running
  cases running

/-- A run that lasts for any number of steps never ends. -/
theorem diverges_of_lasts (h : ∀ n, Lasts ops body s n) : Diverges ops body s := by
  intro n
  obtain ⟨n', s', le, running⟩ := h n
  induction n generalizing s n' with
  | zero => exact ⟨s, rfl⟩
  | succ n ih =>
    obtain ⟨k, rfl⟩ : ∃ k, n' = k + 1 := ⟨n' - 1, by omega⟩
    rw [run] at running ⊢
    cases hs : step ops body s with
    | running s₁ =>
      rw [hs] at running
      refine ih (fun j => ?_) _ (Nat.le_of_succ_le_succ le) running
      obtain ⟨j', s₂, le₂, running₂⟩ := h (j + 1)
      obtain ⟨i, rfl⟩ : ∃ i, j' = i + 1 := ⟨j' - 1, by omega⟩
      rw [run_succ hs] at running₂
      exact ⟨i, s₂, Nat.le_of_succ_le_succ le₂, running₂⟩
    | halted value => simp [hs] at running
    | stuck => simp [hs] at running

theorem Reaches.refl : Reaches ops body s s := ⟨0, rfl⟩

theorem Reaches.trans (h₁ : Reaches ops body s s') (h₂ : Reaches ops body s' s'') :
    Reaches ops body s s'' := by
  obtain ⟨m, h₁⟩ := h₁
  obtain ⟨n, h₂⟩ := h₂
  exact ⟨m + n, (run_add h₁ n).trans h₂⟩

theorem Reaches.step (h : step ops body s = .running s') : Reaches ops body s s' :=
  ⟨1, run_succ h 0⟩

/-- The place that is reached may be counted in another way. -/
theorem Reaches.cast {pc pc' : Nat} {m : Memory} (h : Reaches ops body s ⟨pc, m⟩)
    (eq : pc = pc') : Reaches ops body s ⟨pc', m⟩ := eq ▸ h

theorem Reaches.halts (h₁ : Reaches ops body s s') (h₂ : Halts ops body s' v) :
    Halts ops body s v := by
  obtain ⟨m, h₁⟩ := h₁
  obtain ⟨n, h₂⟩ := h₂
  exact ⟨m + n, (run_add h₁ n).trans h₂⟩

theorem Reaches.lasts (h₁ : Reaches ops body s s') (h₂ : Lasts ops body s' n) :
    Lasts ops body s n := by
  obtain ⟨m, h₁⟩ := h₁
  obtain ⟨n', s₂, le, h₂⟩ := h₂
  exact ⟨m + n', s₂, Nat.le_trans le (Nat.le_add_left n' m), (run_add h₁ n').trans h₂⟩

/-- A step more. -/
theorem Lasts.step (h₁ : step ops body s = .running s') (h₂ : Lasts ops body s' n) :
    Lasts ops body s (n + 1) := by
  obtain ⟨n', s₂, le, h₂⟩ := h₂
  exact ⟨n' + 1, s₂, Nat.succ_le_succ le, (run_succ h₁ n').trans h₂⟩

theorem Lasts.mono {m : Nat} (h : Lasts ops body s n) (le : m ≤ n) : Lasts ops body s m := by
  obtain ⟨n', s', le', h⟩ := h
  exact ⟨n', s', Nat.le_trans le le', h⟩

end Machine

/-! ## Code in its place -/

/-- `code` stands in `body` at `pc`. -/
def CodeAt (body : List Instr) (pc : Nat) (code : List Instr) : Prop := code <+: body.drop pc

namespace CodeAt

variable {ops : Operators} {body code code' : List Instr} {pc : Nat} {m : Memory}

theorem whole (body : List Instr) : CodeAt body 0 body := List.prefix_refl body

theorem left (h : CodeAt body pc (code ++ code')) : CodeAt body pc code :=
  (List.prefix_append code code').trans h

theorem right (h : CodeAt body pc (code ++ code')) : CodeAt body (pc + code.length) code' := by
  obtain ⟨behind, h⟩ := h
  refine ⟨behind, ?_⟩
  rw [← List.drop_drop, ← h, List.append_assoc, List.drop_left]

theorem tail {i : Instr} (h : CodeAt body pc (i :: code)) : CodeAt body (pc + 1) code :=
  CodeAt.right (show CodeAt body pc ([i] ++ code) from h)

theorem head {i : Instr} (h : CodeAt body pc (i :: code)) : body[pc]? = some i := by
  obtain ⟨behind, h⟩ := h
  have first := congrArg (·[0]?) h
  simpa [List.getElem?_drop] using first.symm

/-- A label that the body marks once is marked where its mark stands. -/
theorem markPlace {l : Label} (h : CodeAt body pc (.mark l :: code))
    (once : (markedLabels body).Nodup) : markPlace? body l = some pc := by
  obtain ⟨behind, h⟩ := h
  have split : body = body.take pc ++ .mark l :: (code ++ behind) := by
    rw [← List.cons_append, h, List.take_append_drop]
  have inside : (body.take pc).length = pc := by
    have here := (List.getElem?_eq_some_iff.1 (head ⟨behind, h⟩)).1
    rw [List.length_take]
    omega
  rw [split] at once ⊢
  rw [markPlace?_eq once, inside]

theorem step {i : Instr} (h : CodeAt body pc (i :: code)) :
    Machine.step ops body ⟨pc, m⟩ = Machine.exec ops body ⟨pc, m⟩ i := by
  simp only [Machine.step, h.head]

/-- A mark is passed. -/
theorem mark {l : Label} (h : CodeAt body pc (.mark l :: code)) :
    Machine.Reaches ops body ⟨pc, m⟩ ⟨pc + 1, m⟩ := by
  refine Machine.Reaches.step ?_
  rw [h.step]
  rfl

theorem load {dst : Temp} {value : Int} (h : CodeAt body pc (.load dst value :: code)) :
    Machine.Reaches ops body ⟨pc, m⟩ ⟨pc + 1, Function.update m dst value⟩ := .step h.step

theorem unary {op : UnaryOp} {dst src : Temp} (h : CodeAt body pc (.unary op dst src :: code)) :
    Machine.Reaches ops body ⟨pc, m⟩ ⟨pc + 1, Function.update m dst (ops.unary op (m src))⟩ :=
  .step h.step

theorem binary {op : BinaryOp} {dst left right : Temp}
    (h : CodeAt body pc (.binary op dst left right :: code)) :
    Machine.Reaches ops body ⟨pc, m⟩
      ⟨pc + 1, Function.update m dst (ops.binary op (m left) (m right))⟩ := .step h.step

theorem copy {dst src : Temp} (h : CodeAt body pc (.copy dst src :: code)) :
    Machine.Reaches ops body ⟨pc, m⟩ ⟨pc + 1, Function.update m dst (m src)⟩ := .step h.step

theorem jump {l : Label} {pc' : Nat} (h : CodeAt body pc (.jump l :: code))
    (place : markPlace? body l = some pc') : Machine.Reaches ops body ⟨pc, m⟩ ⟨pc', m⟩ := by
  refine .step (h.step.trans ?_)
  simp only [Machine.exec, Machine.goto, place]

theorem jumpIfZero_zero {l : Label} {t : Temp} {pc' : Nat}
    (h : CodeAt body pc (.jumpIfZero l t :: code)) (zero : m t = 0)
    (place : markPlace? body l = some pc') : Machine.Reaches ops body ⟨pc, m⟩ ⟨pc', m⟩ := by
  refine .step (h.step.trans ?_)
  simp only [Machine.exec, zero, if_true, Machine.goto, place]

theorem jumpIfZero_nonzero {l : Label} {t : Temp} (h : CodeAt body pc (.jumpIfZero l t :: code))
    (nonzero : m t ≠ 0) : Machine.Reaches ops body ⟨pc, m⟩ ⟨pc + 1, m⟩ := by
  refine .step (h.step.trans ?_)
  simp only [Machine.exec, nonzero, if_false]

theorem ret {t : Temp} (h : CodeAt body pc (.ret t :: code)) :
    Machine.Halts ops body ⟨pc, m⟩ (m t) :=
  ⟨1, by rw [Machine.run, h.step]; rfl⟩

end CodeAt
end MiddleEnd
