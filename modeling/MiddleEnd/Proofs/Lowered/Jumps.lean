import MiddleEnd.Proofs.Lowered.Labels
import MiddleEnd.Proofs.Meaning.Machine
import Mathlib.Data.List.Infix

/-!
# Where the jumps out of loops go

A `break` or `continue` may stand at any depth of a function. What stands around it is a list of
layers, outermost first, and the last layer that is the body of a loop is the loop it belongs to.
`extent` counts the instructions of a tree from the tree alone, so that the place of every part in
the code of the whole is known.

Results:
1. `StmtCode.length_eq`: a statement has as much code as its extent says.
2. `Stmt.mem_statements_iff`: a statement stands somewhere in another one exactly if that one is a
   nest of layers around it.
3. `StmtCode.nest`: the code of a part stands at its place in the code of the whole, and belongs to
   the same loop if no loop lies between.
4. `jumps_to_innermost_loop`: the jumps of `break` and `continue` and the labels that they go to.
-/

namespace MiddleEnd

namespace Typed

/-! ## How much code a tree has -/

/-- The number of instructions of an expression. -/
def Expr.extent : Expr → Nat
  | .const .. => 1
  | .var .. => 0
  | .unary _ operand .. => operand.extent + 1
  | .binary _ left right .. => left.extent + right.extent + 1
  | .assign _ value .. => value.extent + 1
  | .cond test ifTrue ifFalse .. => test.extent + ifTrue.extent + ifFalse.extent + 6

/-- The number of instructions of an expression that may be absent. -/
def optionExtent : Option Expr → Nat
  | none => 0
  | some e => e.extent

/-- The number of instructions of a test, which are those of a condition and a jump. -/
def testExtent : Option Expr → Nat
  | none => 0
  | some test => test.extent + 1

/-- The number of instructions of a declaration. -/
def VarDecl.extent (d : VarDecl) : Nat := testExtent d.init

/-- The number of instructions of the first clause of a `for`. -/
def ForInit.extent : Option ForInit → Nat
  | none => 0
  | some (.decl d) => d.extent
  | some (.expr e) => e.extent

mutual

/-- The number of instructions of a statement. -/
def Stmt.extent : Stmt → Nat
  | .decl d => d.extent
  | .expr e => e.extent
  | .empty => 0
  | .block body => extentOf body
  | .ite test ifTrue ifFalse => test.extent + ifTrue.extent + ifFalse.extent + 4
  | .whileDo test body | .doWhile body test => test.extent + body.extent + 4
  | .forLoop init test step body =>
    ForInit.extent init + testExtent test + body.extent + optionExtent step + 4
  | .brk _ | .cont _ => 1
  | .ret value => value.extent + 1

/-- The number of instructions of statements in a row. -/
def extentOf : List Stmt → Nat
  | [] => 0
  | s :: rest => s.extent + extentOf rest

end

/-! ## Layers -/

/-- A loop without its body. -/
inductive Loop
  | whileDo (test : Expr)
  | doWhile (test : Expr)
  | forLoop (init : Option ForInit) (test step : Option Expr)

/-- The loop with a body. -/
def Loop.around : Loop → Stmt → Stmt
  | .whileDo test, s => .whileDo test s
  | .doWhile test, s => .doWhile s test
  | .forLoop init test step, s => .forLoop init test step s

/-- What stands directly around a statement. -/
inductive Layer
  | block (before behind : List Stmt)
  | ifTrue (test : Expr) (ifFalse : Stmt)
  | ifFalse (test : Expr) (ifTrue : Stmt)
  | body (loop : Loop)

namespace Layer

/-- Puts a statement into its place. -/
def around : Layer → Stmt → Stmt
  | block before behind, s => .block (before ++ s :: behind)
  | ifTrue test other, s => .ite test s other
  | ifFalse test other, s => .ite test other s
  | body loop, s => loop.around s

/-- The loop whose body a layer is. -/
def loop? : Layer → Option Loop
  | body loop => some loop
  | _ => none

end Layer

/-- A statement with layers around it, the outermost first. -/
def nest (layers : List Layer) (s : Stmt) : Stmt := layers.foldr Layer.around s

/-- No layer is the body of a loop. -/
def LoopFree (layers : List Layer) : Prop := ∀ layer ∈ layers, layer.loop? = none

theorem loopFree_cons {layer : Layer} {layers : List Layer} :
    LoopFree (layer :: layers) ↔ layer.loop? = none ∧ LoopFree layers := List.forall_mem_cons

mutual

/-- A statement and the statements in it at any depth. -/
def Stmt.statements (s : Stmt) : List Stmt :=
  s :: match s with
    | .block body => statementsOf body
    | .ite _ ifTrue ifFalse => ifTrue.statements ++ ifFalse.statements
    | .whileDo _ body | .doWhile body _ | .forLoop _ _ _ body => body.statements
    | .decl _ | .expr _ | .empty | .brk _ | .cont _ | .ret _ => []

/-- The same for statements in a row. -/
def statementsOf : List Stmt → List Stmt
  | [] => []
  | s :: rest => s.statements ++ statementsOf rest

end

theorem Stmt.mem_statements_self (s : Stmt) : s ∈ s.statements := by
  unfold Stmt.statements
  exact List.mem_cons_self

theorem statementsOf_append (ss ss' : List Stmt) :
    statementsOf (ss ++ ss') = statementsOf ss ++ statementsOf ss' := by
  induction ss with
  | nil => rfl
  | cons s rest ih => rw [List.cons_append, statementsOf, statementsOf, ih, List.append_assoc]

/-- A layer adds statements and takes none away. -/
theorem Layer.mem_statements {s part : Stmt} (layer : Layer) (mem : part ∈ s.statements) :
    part ∈ (layer.around s).statements := by
  unfold Stmt.statements
  refine List.mem_cons_of_mem _ ?_
  match layer with
  | block before behind =>
    simp only [around, statementsOf_append, statementsOf]
    exact List.mem_append_right _ (List.mem_append_left _ mem)
  | ifTrue test other => exact List.mem_append_left _ mem
  | ifFalse test other => exact List.mem_append_right _ mem
  | body (.whileDo test) | body (.doWhile test) | body (.forLoop init test step) => exact mem

mutual

theorem Stmt.exists_nest {s part : Stmt} (mem : part ∈ s.statements) :
    ∃ layers, s = nest layers part := by
  unfold Stmt.statements at mem
  rcases List.mem_cons.1 mem with rfl | mem
  · exact ⟨[], rfl⟩
  cases s with
  | decl | expr | empty | brk | cont | ret => cases mem
  | block body =>
    obtain ⟨before, s, behind, layers, rfl, rfl⟩ := exists_nest_of mem
    exact ⟨.block before behind :: layers, rfl⟩
  | ite test ifTrue ifFalse =>
    rcases List.mem_append.1 mem with mem | mem
    · obtain ⟨layers, rfl⟩ := Stmt.exists_nest mem
      exact ⟨.ifTrue test ifFalse :: layers, rfl⟩
    · obtain ⟨layers, rfl⟩ := Stmt.exists_nest mem
      exact ⟨.ifFalse test ifTrue :: layers, rfl⟩
  | whileDo test body =>
    obtain ⟨layers, rfl⟩ := Stmt.exists_nest mem
    exact ⟨.body (.whileDo test) :: layers, rfl⟩
  | doWhile body test =>
    obtain ⟨layers, rfl⟩ := Stmt.exists_nest mem
    exact ⟨.body (.doWhile test) :: layers, rfl⟩
  | forLoop init test step body =>
    obtain ⟨layers, rfl⟩ := Stmt.exists_nest mem
    exact ⟨.body (.forLoop init test step) :: layers, rfl⟩

theorem exists_nest_of {ss : List Stmt} {part : Stmt} (mem : part ∈ statementsOf ss) :
    ∃ before s behind layers, ss = before ++ s :: behind ∧ s = nest layers part := by
  cases ss with
  | nil => cases mem
  | cons s rest =>
    rcases List.mem_append.1 mem with mem | mem
    · obtain ⟨layers, nested⟩ := Stmt.exists_nest mem
      exact ⟨[], s, rest, layers, rfl, nested⟩
    · obtain ⟨before, s', behind, layers, rfl, nested⟩ := exists_nest_of mem
      exact ⟨s :: before, s', behind, layers, rfl, nested⟩

end

/-- The statements in a statement are what stands in a nest of layers. -/
theorem Stmt.mem_statements_iff {s part : Stmt} :
    part ∈ s.statements ↔ ∃ layers, s = nest layers part := by
  constructor
  · exact Stmt.exists_nest
  · rintro ⟨layers, rfl⟩
    induction layers with
    | nil => exact part.mem_statements_self
    | cons layer rest ih => exact layer.mem_statements ih

/-! ## Places -/

/-- The number of instructions before the body of a loop. -/
def Loop.before : Loop → Nat
  | .whileDo test | .doWhile test => test.extent + 2
  | .forLoop init test _ => ForInit.extent init + testExtent test + 1

/-- The number of instructions that a layer has before what it is around. -/
def Layer.before : Layer → Nat
  | .block before _ => extentOf before
  | .ifTrue test _ => testExtent (some test)
  | .ifFalse test other => testExtent (some test) + other.extent + 2
  | .body loop => loop.before

/-- The place of a statement in the code of a nest around it. -/
def place : List Layer → Nat
  | [] => 0
  | layer :: rest => layer.before + place rest

theorem place_append (outer inner : List Layer) :
    place (outer ++ inner) = place outer + place inner := by
  induction outer with
  | nil => exact (Nat.zero_add _).symm
  | cons layer rest ih => rw [List.cons_append, place, place, ih, Nat.add_assoc]

/-- The last loop around a statement, if there is one. -/
theorem exists_innermost {layers : List Layer} (looped : ¬LoopFree layers) :
    ∃ outer loop inner, layers = outer ++ .body loop :: inner ∧ LoopFree inner := by
  induction layers with
  | nil => exact absurd nofun looped
  | cons layer rest ih =>
    by_cases free : LoopFree rest
    · cases layer with
      | body loop => exact ⟨[], loop, rest, rfl, free⟩
      | block | ifTrue | ifFalse => exact absurd (loopFree_cons.2 ⟨rfl, free⟩) looped
    · obtain ⟨outer, loop, inner, rfl, innerFree⟩ := ih free
      exact ⟨layer :: outer, loop, inner, rfl, innerFree⟩

end Typed

open Typed

/-! ## The extent of lowered code -/

theorem ExprCode.length_eq {e : Expr} {c c' : Cursor} {t : Temp} {code : List Instr}
    (h : ExprCode e c t code c') : code.length = e.extent := by
  induction h with
  | const | var => rfl
  | unary _ ih => simp [Expr.extent, ih]
  | binary _ _ ih₁ ih₂ => simp [Expr.extent, ih₁, ih₂, Nat.add_assoc]
  | assign _ _ ih => simp [Expr.extent, ih]
  | cond _ _ _ ih₁ ih₂ ih₃ =>
    simp only [Expr.extent, List.length_append, List.length_cons, List.length_nil, ih₁, ih₂, ih₃]
    omega

theorem EffectCode.length_eq {e : Option Expr} {c c' : Cursor} {code : List Instr}
    (h : EffectCode e c code c') : code.length = optionExtent e := by
  cases h with
  | none => rfl
  | some h => exact h.length_eq

theorem TestCode.length_eq {exit : Label} {test : Option Expr} {c c' : Cursor} {code : List Instr}
    (h : TestCode exit test c code c') : code.length = testExtent test := by
  cases h with
  | none => rfl
  | some h => simp [testExtent, h.length_eq]

theorem VarDeclCode.length_eq {d : VarDecl} {c c' : Cursor} {code : List Instr}
    (h : VarDeclCode d c code c') : code.length = d.extent := by
  cases h with
  | plain _ absent => simp [VarDecl.extent, absent, testExtent]
  | init _ present h => simp [VarDecl.extent, present, testExtent, h.length_eq]

theorem ForInitCode.length_eq {init : Option ForInit} {c c' : Cursor} {code : List Instr}
    (h : ForInitCode init c code c') : code.length = ForInit.extent init := by
  cases h with
  | none => rfl
  | decl h => exact h.length_eq
  | expr h => exact h.length_eq

theorem Typed.Stmt.extent_of_loop? {s body : Stmt} {test : Expr} (h : s.loop? = some (test, body)) :
    s.extent = test.extent + body.extent + 4 := by
  cases s <;> simp [loop?] at h <;> simp [extent, h]

/-- A statement is lowered to as many instructions as its extent says. -/
theorem StmtCode.length_eq {targets : Option LoopTargets} {s : Stmt} {c c' : Cursor}
    {code : List Instr} (h : StmtCode targets s c code c') : code.length = s.extent := by
  induction h with
  | decl h => exact h.length_eq
  | expr h => exact h.length_eq
  | empty | done | brk | cont => rfl
  | next _ _ ih₁ ih₂ =>
    rw [List.length_append, ih₁, ih₂]
    rfl
  | ite h _ _ ih₁ ih₂ =>
    simp only [Stmt.extent, List.length_append, List.length_cons, List.length_nil, h.length_eq,
      testExtent, ih₁, ih₂]
    omega
  | loop isLoop h _ ih =>
    simp only [Stmt.extent_of_loop? isLoop, List.length_append, List.length_cons, List.length_nil,
      h.length_eq, testExtent, ih]
    omega
  | forLoop h₁ h₂ _ h₄ ih =>
    simp only [Stmt.extent, List.length_append, List.length_cons, List.length_nil, h₁.length_eq,
      h₂.length_eq, h₄.length_eq, ih]
    omega
  | ret h =>
    rw [List.length_append, h.length_eq]
    rfl

/-! ## Parts in their place -/

namespace CodeAt

variable {body code inner : List Instr} {pc n : Nat}

theorem trans (h : CodeAt body pc code) (h' : CodeAt code n inner) :
    CodeAt body (pc + n) inner := by
  have inside : code.drop n <+: (body.drop pc).drop n := List.IsPrefix.drop h n
  rw [List.drop_drop] at inside
  exact List.IsPrefix.trans h' inside

end CodeAt

/-- The code of a loop before and behind the code of its body. A `for` with a step or without one
marks a label of its own where a round goes on, every other loop goes on at its condition. -/
inductive Typed.Loop.Code : Loop → LoopTargets → List Instr → List Instr → Prop
  | whileDo {test : Expr} {t : LoopTargets} {c c' : Cursor} {code : List Instr} :
      TestCode t.exit (some test) c code c' →
      Code (.whileDo test) t (.mark t.next :: code) [.jump t.next, .mark t.exit]
  | doWhile {test : Expr} {t : LoopTargets} {c c' : Cursor} {code : List Instr} :
      TestCode t.exit (some test) c code c' →
      Code (.doWhile test) t (.mark t.next :: code) [.jump t.next, .mark t.exit]
  | forLoop {init : Option ForInit} {test step : Option Expr} {t : LoopTargets} {top : Label}
      {c c₁ c₂ c₃ c₄ : Cursor} {code₁ code₂ code₃ : List Instr} :
      ForInitCode init c code₁ c₁ → TestCode t.exit test c₁ code₂ c₂ →
      EffectCode step c₃ code₃ c₄ → t.next ≠ top →
      Code (.forLoop init test step) t (code₁ ++ .mark top :: code₂)
        (.mark t.next :: code₃ ++ [.jump top, .mark t.exit])

theorem Typed.Loop.Code.length_before {loop : Loop} {t : LoopTargets} {before behind : List Instr}
    (h : loop.Code t before behind) : before.length = loop.before := by
  cases h with
  | whileDo h | doWhile h => simp [Loop.before, h.length_eq, testExtent]
  | forLoop h₁ h₂ => simp [Loop.before, h₁.length_eq, h₂.length_eq, Nat.add_assoc]

/-- A loop is lowered to the code of its body with that of the loop around it. -/
theorem StmtCode.loop_inv {targets : Option LoopTargets} {loop : Loop} {s : Stmt} {c c' : Cursor}
    {code : List Instr} (h : StmtCode targets (loop.around s) c code c') :
    ∃ (t : LoopTargets) (before inside behind : List Instr) (c₁ c₂ : Cursor),
      code = before ++ inside ++ behind ∧ loop.Code t before behind ∧
        StmtCode (some t) s c₁ inside c₂ := by
  cases loop with
  | whileDo test =>
    cases h with
    | loop isLoop tested body =>
      obtain ⟨rfl, rfl⟩ := Prod.mk.inj (Option.some.inj isLoop)
      exact ⟨_, _, _, _, _, _, rfl, .whileDo tested, body⟩
  | doWhile test =>
    cases h with
    | loop isLoop tested body =>
      obtain ⟨rfl, rfl⟩ := Prod.mk.inj (Option.some.inj isLoop)
      exact ⟨_, _, _, _, _, _, rfl, .doWhile tested, body⟩
  | forLoop init test step =>
    cases h with
    | loop isLoop => cases isLoop
    | @forLoop _ _ _ _ _ _ _ _ _ _ code₁ code₂ _ code₄ first tested body stepped =>
      have apart : c.labels + 2 ≠ c.labels := Nat.ne_of_gt (Nat.lt_add_of_pos_right Nat.two_pos)
      refine ⟨⟨c.labels + 1, c.labels + 2⟩, code₁ ++ .mark c.labels :: code₂, _,
        .mark (c.labels + 2) :: code₄ ++ [.jump c.labels, .mark (c.labels + 1)], _, _, ?_,
        .forLoop first tested stepped apart, body⟩
      simp only [List.append_assoc, List.cons_append]

/-- The code of statements in a row, cut around one of them. -/
theorem StmtCode.block_inv {targets : Option LoopTargets} {before behind : List Stmt} {s : Stmt}
    {c c' : Cursor} {code : List Instr}
    (h : StmtCode targets (.block (before ++ s :: behind)) c code c') :
    ∃ code₁ code₂ code₃ c₁ c₂, code = code₁ ++ code₂ ++ code₃ ∧
      StmtCode targets (.block before) c code₁ c₁ ∧ StmtCode targets s c₁ code₂ c₂ ∧
      StmtCode targets (.block behind) c₂ code₃ c' := by
  induction before generalizing c code with
  | nil =>
    cases h with
    | next here rest => exact ⟨[], _, _, c, _, rfl, .done, here, rest⟩
    | loop isLoop => cases isLoop
  | cons first before ih =>
    cases h with
    | next here rest =>
      obtain ⟨code₁, code₂, code₃, c₁, c₂, rfl, h₁, h₂, h₃⟩ := ih rest
      exact ⟨_, code₂, code₃, c₁, c₂, by simp only [List.append_assoc], .next here h₁, h₂, h₃⟩
    | loop isLoop => cases isLoop

/-- The code of what a layer is around stands at its place, and belongs to the same loop unless the
layer is the body of one. -/
theorem StmtCode.layer {targets : Option LoopTargets} {layer : Layer} {s : Stmt} {c c' : Cursor}
    {code : List Instr} (h : StmtCode targets (layer.around s) c code c') :
    ∃ targets' inner c₁ c₂, StmtCode targets' s c₁ inner c₂ ∧ CodeAt code layer.before inner ∧
      (layer.loop? = none → targets' = targets) := by
  have whole := CodeAt.whole code
  cases layer with
  | block before behind =>
    obtain ⟨code₁, code₂, code₃, c₁, c₂, rfl, h₁, h₂, -⟩ := h.block_inv
    have here := whole.left.right
    rw [Nat.zero_add, h₁.length_eq] at here
    exact ⟨targets, code₂, c₁, c₂, h₂, here, fun _ => rfl⟩
  | ifTrue test other =>
    cases h with
    | ite tested first _ =>
      have here := whole.left.left.right
      rw [Nat.zero_add, tested.length_eq] at here
      exact ⟨targets, _, _, _, first, here, fun _ => rfl⟩
    | loop isLoop => cases isLoop
  | ifFalse test other =>
    cases h with
    | ite tested first second =>
      have here := whole.left.right.tail.tail
      rw [Nat.zero_add, List.length_append, tested.length_eq, first.length_eq] at here
      exact ⟨targets, _, _, _, second, here, fun _ => rfl⟩
    | loop isLoop => cases isLoop
  | body loop =>
    obtain ⟨t, before, inside, behind, c₁, c₂, rfl, around, body⟩ := h.loop_inv
    have here := whole.left.right
    rw [Nat.zero_add, around.length_before] at here
    exact ⟨some t, inside, c₁, c₂, body, here, nofun⟩

/-- The code of a part stands at its place in the code of the whole, and belongs to the same loop if
no loop lies between. -/
theorem StmtCode.nest {targets : Option LoopTargets} {layers : List Layer} {s : Stmt}
    {c c' : Cursor} {code : List Instr} (h : StmtCode targets (Typed.nest layers s) c code c') :
    ∃ targets' inner c₁ c₂, StmtCode targets' s c₁ inner c₂ ∧ CodeAt code (place layers) inner ∧
      (LoopFree layers → targets' = targets) := by
  induction layers generalizing targets c code c' with
  | nil => exact ⟨targets, code, c, c', h, .whole code, fun _ => rfl⟩
  | cons layer rest ih =>
    obtain ⟨targets₁, code₁, c₁, c₂, h₁, here₁, same₁⟩ := h.layer
    obtain ⟨targets₂, code₂, c₃, c₄, h₂, here₂, same₂⟩ := ih h₁
    refine ⟨targets₂, code₂, c₃, c₄, h₂, ?_, fun free => ?_⟩
    · exact here₁.trans here₂
    · obtain ⟨free₁, free₂⟩ := loopFree_cons.1 free
      exact (same₂ free₂).trans (same₁ free₁)

/-! ## The jumps of a function -/

/-- The place where a round of a loop goes on, with a body of `extent` instructions in a loop that
starts at `start`: the condition, or the step of a `for`. -/
def Typed.Loop.nextPlace (start extent : Nat) : Loop → Nat
  | .whileDo _ | .doWhile _ => start
  | .forLoop init test step => start + (Loop.forLoop init test step).before + extent

/-- A loop around `s` in the body of a piece. Its labels are marked by its last instruction and
where a round goes on, and the jumps of `s` that belong to no loop further inside go there. -/
structure Typed.Loop.Targets (loop : Loop) (outer : List Layer) (s : Stmt) (body : List Instr)
    (t : LoopTargets) : Prop where
  code : ∃ before inside behind, loop.Code t before behind ∧ before.length = loop.before ∧
    inside.length = s.extent ∧ CodeAt body (place outer) (before ++ inside ++ behind)
  exit : ∃ last, markPlace? body t.exit = some last ∧
    last + 1 = place outer + (loop.around s).extent
  next : markPlace? body t.next = some (loop.nextPlace (place outer) s.extent)
  brk : ∀ inner span, LoopFree inner → s = Typed.nest inner (.brk span) →
    body[place (outer ++ .body loop :: inner)]? = some (.jump t.exit)
  cont : ∀ inner span, LoopFree inner → s = Typed.nest inner (.cont span) →
    body[place (outer ++ .body loop :: inner)]? = some (.jump t.next)

/-- Every `break` and `continue` of a function stands in a loop, and every loop has its targets. -/
structure Typed.Function.JumpsInside (f : Function) (body : List Instr) : Prop where
  enclosed : ∀ layers span, .block f.body = Typed.nest layers (.brk span) ∨
    .block f.body = Typed.nest layers (.cont span) →
    ∃ outer loop inner, layers = outer ++ .body loop :: inner ∧ LoopFree inner
  targets : ∀ outer loop s, .block f.body = Typed.nest outer (Loop.around loop s) →
    ∃ t, loop.Targets outer s body t

section Jumps

variable {body : List Instr} {loop : Loop} {t : LoopTargets} {before inside behind : List Instr}

/-- The code of a loop ends with its way back and the label of its exit. -/
theorem Typed.Loop.Code.behind_eq (h : loop.Code t before behind) :
    ∃ rest top, behind = rest ++ [.jump top, .mark t.exit] := by
  cases h with
  | whileDo | doWhile => exact ⟨[], t.next, rfl⟩
  | forLoop => exact ⟨_, _, rfl⟩

theorem Typed.Loop.Code.markPlace_next (h : loop.Code t before behind)
    (once : (markedLabels body).Nodup) {start : Nat}
    (here : CodeAt body start (before ++ inside ++ behind)) :
    markPlace? body t.next = some (loop.nextPlace start inside.length) := by
  have entry := h.length_before
  cases h with
  | whileDo | doWhile => exact here.left.left.markPlace once
  | forLoop =>
    rw [Loop.nextPlace, ← entry, Nat.add_assoc, ← List.length_append]
    exact here.right.left.markPlace once

theorem StmtCode.brk_eq {span : Span} {c c' : Cursor} {code : List Instr}
    (h : StmtCode (some t) (.brk span) c code c') : code = [.jump t.exit] := by
  cases h with
  | brk => rfl
  | loop isLoop => cases isLoop

theorem StmtCode.cont_eq {span : Span} {c c' : Cursor} {code : List Instr}
    (h : StmtCode (some t) (.cont span) c code c') : code = [.jump t.next] := by
  cases h with
  | cont => rfl
  | loop isLoop => cases isLoop

/-- A part that belongs to the loop of `t` and is lowered to one instruction has it in its place. -/
theorem StmtCode.getElem?_place {part : Stmt} {c c' : Cursor} {i : Instr} {inner : List Layer}
    (h : StmtCode (some t) (Typed.nest inner part) c inside c') (free : LoopFree inner)
    (single : ∀ {c c' code}, StmtCode (some t) part c code c' → code = [i]) {start : Nat}
    (here : CodeAt body start inside) : body[start + place inner]? = some i := by
  obtain ⟨targets, code, c₁, c₂, lowered, at_place, same⟩ := h.nest
  rw [same free] at lowered
  rw [single lowered] at at_place
  exact (here.trans at_place).head

/-- Every loop of lowered code has its targets. -/
theorem StmtCode.targets {s : Stmt} {outer : List Layer} {targets : Option LoopTargets}
    {c c' : Cursor} {code : List Instr}
    (h : StmtCode targets (Typed.nest outer (loop.around s)) c code c')
    (once : (markedLabels body).Nodup) (whole : CodeAt body 0 code) :
    ∃ t, loop.Targets outer s body t := by
  obtain ⟨targets', loopCode, c₁, c₂, lowered, at_place, -⟩ := h.nest
  have extent := lowered.length_eq
  obtain ⟨t, before, inside, behind, c₃, c₄, rfl, around, bodyCode⟩ := lowered.loop_inv
  have here := whole.trans at_place
  rw [Nat.zero_add] at here
  have place_inner (inner : List Layer) :
      place (outer ++ .body loop :: inner) = place outer + before.length + place inner := by
    rw [place_append, around.length_before, Nat.add_assoc]
    rfl
  refine ⟨t, ⟨before, inside, behind, around, around.length_before, bodyCode.length_eq, here⟩,
    ?_, ?_, ?_, ?_⟩
  · obtain ⟨rest, top, rfl⟩ := around.behind_eq
    refine ⟨_, here.right.right.tail.markPlace once, ?_⟩
    rw [← extent]
    simp only [List.length_append, List.length_cons, List.length_nil]
    omega
  · rw [← bodyCode.length_eq]
    exact around.markPlace_next once here
  · rintro inner span free rfl
    rw [place_inner]
    exact bodyCode.getElem?_place free StmtCode.brk_eq here.left.right
  · rintro inner span free rfl
    rw [place_inner]
    exact bodyCode.getElem?_place free StmtCode.cont_eq here.left.right

/-- Outside of every loop there is no code for a jump out of one. -/
theorem StmtCode.not_loopFree {layers : List Layer} {span : Span} {s : Stmt} {c c' : Cursor}
    {code : List Instr} (h : StmtCode none s c code c')
    (nested : s = Typed.nest layers (.brk span) ∨ s = Typed.nest layers (.cont span)) :
    ¬LoopFree layers := by
  intro free
  rcases nested with rfl | rfl <;>
  · obtain ⟨targets, code, c₁, c₂, lowered, -, same⟩ := h.nest
    rw [same free] at lowered
    cases lowered with
    | loop isLoop => cases isLoop

end Jumps

theorem FunctionCode.jumpsInside {config : Config} {f : Typed.Function} {c c' : Cursor}
    {piece : Piece} (h : FunctionCode config f c piece c') : f.JumpsInside piece.body := by
  have once := h.closed.nodup
  cases h with
  | mk _ _ _ _ body _ =>
    refine ⟨fun layers span nested => exists_innermost (body.not_loopFree nested), ?_⟩
    intro outer loop s nested
    rw [nested] at body
    exact body.targets once (CodeAt.whole _).left

theorem FunctionsCode.jumpsInside {config : Config} {fs : List Typed.Function} {c c' : Cursor}
    {pieces : List Piece} (h : FunctionsCode config fs c pieces c') :
    List.Forall₂ (fun f piece => f.JumpsInside piece.body) fs pieces := by
  induction h with
  | nil => exact .nil
  | cons first _ ih => exact .cons first.jumpsInside ih

/-- In lowered code every `break` and `continue`, reached or not, jumps to a label of the innermost
loop around it. The label of a `break` is marked by the last instruction of that loop, directly
behind its way back, where a failed condition leads too. The label of a `continue` is marked
directly before the step of a `for` and directly before the condition of any other loop. -/
theorem jumps_to_innermost_loop {config : Config} {symbols symbols' : SymbolTable}
    {p : Typed.Program} {code : Code} (h : lowerProgram config symbols p = (.ok code, symbols')) :
    List.Forall₂ (fun f piece => f.JumpsInside piece.body) p.functions code.pieces := by
  obtain ⟨s, -, -, -, shape⟩ := lowerProgram_shape h
  exact shape.jumpsInside

/-- `for (;; 1)` around a body. -/
def stepLoop : Loop := .forLoop none none (some (.const 1 .int .null))

/-- `while (0)` around a body. -/
def innerLoop : Loop := .whileDo (.const 0 .int .null)

/-- `while (0) break; continue;` -/
def leavingTwice : List Stmt := [innerLoop.around (.brk .null), .cont .null]

/-- A function of its own with `for (;; 1) { while (0) break; continue; }`. -/
def nestedLoops : Typed.Program :=
  ⟨[⟨"f", 0, [], .int, [stepLoop.around (.block leavingTwice)], .null⟩]⟩

/-- Behind the inner loop the labels are those of the outer one again. -/
theorem jumps_to_innermost_loop_of_nestedLoops :
    ∃ code table' piece t t',
      lowerProgram {} ⟨[.fn ⟨"f", .int, [], 0, .null, 0, none⟩], []⟩ nestedLoops =
        (.ok code, table') ∧
      code.pieces = [piece] ∧
      stepLoop.Targets [.block [] []] (.block leavingTwice) piece.body t ∧
      innerLoop.Targets [.block [] [], .body stepLoop, .block [] [.cont .null]] (.brk .null)
        piece.body t' ∧
      piece.body[4]? = some (.jump t'.exit) ∧ piece.body[7]? = some (.jump t.next) := by
  have ok : (lowerProgram {} ⟨[.fn ⟨"f", .int, [], 0, .null, 0, none⟩], []⟩ nestedLoops).1.isOk =
      true := by decide +kernel
  match run : lowerProgram {} ⟨[.fn ⟨"f", .int, [], 0, .null, 0, none⟩], []⟩ nestedLoops with
  | (.error e, table') =>
    rw [run] at ok
    cases ok
  | (.ok code, table') =>
    have each := jumps_to_innermost_loop run
    obtain ⟨piece, rest, jumps, others, pieces⟩ := List.forall₂_cons_left_iff.1 each
    obtain rfl := List.forall₂_nil_left_iff.1 others
    obtain ⟨t, outer⟩ := jumps.targets [.block [] []] stepLoop (.block leavingTwice) rfl
    obtain ⟨t', inner⟩ := jumps.targets [.block [] [], .body stepLoop, .block [] [.cont .null]]
      innerLoop (.brk .null) rfl
    refine ⟨code, table', piece, t, t', rfl, pieces, outer, inner, ?_, ?_⟩
    · exact inner.brk [] .null nofun rfl
    · exact outer.cont [.block [innerLoop.around (.brk .null)] []] .null
        (List.forall_mem_singleton.2 rfl) rfl

end MiddleEnd
