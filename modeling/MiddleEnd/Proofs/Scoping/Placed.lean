import MiddleEnd.Proofs.Building.Taken
import MiddleEnd.Proofs.Scoping.Script

/-!
# Where a builder puts things

A builder counts positions and ids up, and makes its nodes in the order of the script. So the steps
of a script that declare or use a name stand at increasing positions, and the scopes that it enters
are owned by different nodes.

Results:
1. `Draft.Stmt.place_between`: a statement takes its positions and ids from those between the
   builder before and the builder after.
2. `Draft.Program.place_sorted`, `Draft.Program.place_owners_nodup`: the same for a whole program.
-/

namespace MiddleEnd

open Source (Builder)

/-- The positions of the steps that declare or use a name. -/
def offsets (steps : List Step) : List Nat := steps.filterMap Step.offset?

/-- The ids of the scopes that are entered. -/
def enteredIds (steps : List Step) : List NodeId := (steps.filterMap Step.entered?).map Prod.fst

@[simp] theorem offsets_append (steps steps' : List Step) :
    offsets (steps ++ steps') = offsets steps ++ offsets steps' := List.filterMap_append

@[simp] theorem enteredIds_append (steps steps' : List Step) :
    enteredIds (steps ++ steps') = enteredIds steps ++ enteredIds steps' := by
  simp [enteredIds]

/-- The steps take positions and ids from those that a builder hands out from `b` to `b'`, the
positions in order and no id twice. -/
structure Between (steps : List Step) (b b' : Builder) : Prop where
  pos_le : b.pos ≤ b'.pos
  id_le : b.nextId ≤ b'.nextId
  sorted : (offsets steps).Pairwise (· < ·)
  offset : ∀ n ∈ offsets steps, b.pos ≤ n ∧ n < b'.pos
  nodup : (enteredIds steps).Nodup
  id : ∀ i ∈ enteredIds steps, b.nextId ≤ i ∧ i < b'.nextId

namespace Between

variable {steps steps' : List Step} {b b₁ b' : Builder}

theorem refl (b : Builder) : Between [] b b :=
  ⟨Nat.le_refl _, Int.le_refl _, .nil, by simp [offsets], .nil, by simp [enteredIds]⟩

theorem of_counted (positions : Counted (fun n => n) (· < ·) (offsets steps) b.pos b'.pos)
    (owners : Counted (fun i => i) (· ≠ ·) (enteredIds steps) b.nextId b'.nextId) :
    Between steps b b' :=
  ⟨positions.le, owners.le, positions.related, positions.bounds, owners.related, owners.bounds⟩

theorem positions (h : Between steps b b') :
    Counted (fun n => n) (· < ·) (offsets steps) b.pos b'.pos :=
  ⟨h.pos_le, h.sorted, h.offset⟩

theorem owners (h : Between steps b b') :
    Counted (fun i => i) (· ≠ ·) (enteredIds steps) b.nextId b'.nextId :=
  ⟨h.id_le, h.nodup, h.id⟩

theorem append (h₁ : Between steps b b₁) (h₂ : Between steps' b₁ b') :
    Between (steps ++ steps') b b' := by
  refine of_counted ?_ ?_
  · rw [offsets_append]
    exact h₁.positions.append (fun _ _ lt => lt) h₂.positions
  · rw [enteredIds_append]
    exact h₁.owners.append (fun _ _ => Int.ne_of_lt) h₂.owners

/-- A position that no step takes. -/
theorem tick (h : Between steps b b') : Between steps b { b' with pos := b'.pos + 1 } where
  pos_le := Nat.le_succ_of_le h.pos_le
  id_le := h.id_le
  sorted := h.sorted
  offset n mem := ⟨(h.offset n mem).1, Nat.lt_succ_of_lt (h.offset n mem).2⟩
  nodup := h.nodup
  id := h.id

/-- A step that takes the next position. -/
theorem take (s : Step) (entered : s.entered? = none) (offset : s.offset? = some b.pos) :
    Between [s] b { b with pos := b.pos + 1 } := by
  have offsets : offsets [s] = [b.pos] := by simp [MiddleEnd.offsets, offset]
  have ids : enteredIds [s] = [] := by simp [enteredIds, entered]
  refine of_counted ?_ ?_
  · rw [offsets]
    exact .same (Nat.lt_succ_self _) (fun n mem => List.mem_singleton.1 mem)
      (List.pairwise_singleton _ _)
  · rw [ids]
    exact .nil _

/-- Steps inside a scope whose owner takes the next id. -/
theorem scope (h : Between steps b b') (kind : ScopeKind) :
    Between (.enter b'.nextId kind :: steps ++ [.leave]) b
      { b' with nextId := b'.nextId + 1 } := by
  have offsets : offsets (.enter b'.nextId kind :: steps ++ [.leave]) = offsets steps := by
    simp [MiddleEnd.offsets, Step.offset?, List.filterMap_cons]
  have ids : enteredIds (.enter b'.nextId kind :: steps ++ [.leave]) =
      b'.nextId :: enteredIds steps := by
    simp [enteredIds, Step.entered?, List.filterMap_cons]
  refine ⟨h.pos_le, Int.le_add_one h.id_le, ?_, ?_, ?_, ?_⟩
  · rw [offsets]
    exact h.sorted
  · rw [offsets]
    exact h.offset
  · rw [ids]
    exact List.nodup_cons.2 ⟨fun mem => Int.lt_irrefl _ (h.id _ mem).2, h.nodup⟩
  · rw [ids]
    intro i mem
    rcases List.mem_cons.1 mem with rfl | mem
    · exact ⟨h.id_le, Int.lt_succ _⟩
    · exact ⟨(h.id i mem).1, Int.lt_add_one_of_le (Int.le_of_lt (h.id i mem).2)⟩

end Between

namespace Draft

theorem Expr.place_between (e : Expr) (b : Builder) :
    Between (e.place b).1.script b (e.place b).2 := by
  induction e generalizing b with
  | const value => exact (Between.refl b).tick
  | var name => exact Between.take (.use ⟨name, .at ⟨b.pos, b.file⟩⟩) rfl rfl
  | unary op operand ih => exact (ih b).tick
  | binary op left right ihl ihr =>
    have parts := (ihl b).append (ihr _)
    rw [Source.Expr.script, Source.Expr.script, ← List.map_append] at parts
    exact parts.tick
  | assign target value ih =>
    -- the target takes its position behind the value
    have target := Between.take
      (.use ⟨target, .at ⟨(value.place b).2.pos, (value.place b).2.file⟩⟩) rfl rfl
    have parts := (ih b).append target
    rw [Source.Expr.script, ← List.map_singleton, ← List.map_append] at parts
    exact parts.tick
  | cond test ifTrue ifFalse iht iha ihb =>
    have parts := ((iht b).append (iha _)).append (ihb _)
    simp only [Source.Expr.script, ← List.map_append] at parts
    exact parts.tick

theorem placeOption_between (e : Option Expr) (b : Builder) :
    Between (Source.optionScript (placeOption e b).1) b (placeOption e b).2 := by
  cases e with
  | none => exact Between.refl b
  | some e => exact e.place_between b

theorem VarDecl.place_between (d : VarDecl) (b : Builder) :
    Between (d.place b).1.script b (d.place b).2 :=
  (placeOption_between d.init b).append (Between.take _ rfl rfl)

theorem ForInit.place_between (init : Option ForInit) (b : Builder) :
    Between (Source.ForInit.script (ForInit.place init b).1) b (ForInit.place init b).2 := by
  match init with
  | none => exact Between.refl b
  | some (.decl d) => exact d.place_between b
  | some (.expr e) => exact e.place_between b

mutual

/-- A statement takes its positions and ids from those that the builder hands out for it. -/
theorem Stmt.place_between (s : Stmt) (b : Builder) :
    Between (s.place b).1.script b (s.place b).2 := by
  cases s with
  | decl d => exact d.place_between b
  | expr e | ret e => exact (e.place_between b).tick
  | empty | brk | cont => exact (Between.refl b).tick
  | block body => exact ((placeStmts_between body b).scope .block).tick
  | ifThen test ifTrue =>
    -- the missing branch is an empty statement, which takes no position
    have parts := ((test.place_between b).append (ifTrue.place_between _)).append (Between.refl _)
    exact parts.tick
  | ite test ifTrue ifFalse =>
    have parts := ((test.place_between b).append (ifTrue.place_between _)).append
      (ifFalse.place_between _)
    exact parts.tick
  | whileDo test body => exact ((test.place_between b).append (body.place_between _)).tick
  | doWhile body test => exact ((body.place_between b).append (test.place_between _)).tick
  | forLoop init test step body =>
    have clauses := ((ForInit.place_between init b).append (placeOption_between test _)).append
      (placeOption_between step _)
    exact ((clauses.append (body.place_between _)).scope .block).tick

theorem placeStmts_between (ss : List Stmt) (b : Builder) :
    Between (Source.scriptOf (placeStmts ss b).1) b (placeStmts ss b).2 := by
  cases ss with
  | nil => exact Between.refl b
  | cons s rest => exact (s.place_between b).append (placeStmts_between rest _)

end

theorem Param.places_between (ps : List Param) (b : Builder) :
    Between ((ps.mapM Param.place b).1.map fun p => .declare p.symbol) b (ps.mapM Param.place b).2
    := by
  induction ps generalizing b with
  | nil => exact Between.refl b
  | cons p rest ih =>
    rw [List.mapM_cons]
    exact (Between.take (.declare (p.place b).1.symbol) rfl rfl).append (ih _)

theorem Function.place_between (f : Function) (b : Builder) :
    Between (f.place b).1.script b (f.place b).2 := by
  have parts := (Param.places_between f.params b).append (placeStmts_between f.body _)
  exact (parts.scope .function).tick.tick

theorem Function.places_between (fs : List Function) (b : Builder) :
    Between ((fs.mapM Function.place b).1.flatMap Source.Function.script) b
      (fs.mapM Function.place b).2 := by
  induction fs generalizing b with
  | nil => exact Between.refl b
  | cons f rest ih =>
    rw [List.mapM_cons]
    exact (f.place_between b).append (ih _)

/-- What is declared or used inside the functions stands in the order of the script. -/
theorem Program.place_sorted (p : Program) (b : Builder) :
    (offsets (p.place b).1.main).Pairwise (· < ·) :=
  (Function.places_between p.functions b).sorted

/-- No two scopes are owned by one node. -/
theorem Program.place_owners_nodup (p : Program) (b : Builder) :
    ((Survey.ofProgram (p.place b).1).owners.map Prod.fst).Nodup := by
  have parts := Function.places_between p.functions b
  have header : (p.place b).1.header.filterMap Step.entered? = [] := by
    simp [Source.Program.header, Step.entered?]
  rw [Survey.ofProgram, Survey.owners_run, Source.Program.script, List.filterMap_append, header]
  exact List.nodup_cons.2 ⟨fun mem => Int.lt_irrefl _ (parts.id _ mem).2, parts.nodup⟩

end Draft
end MiddleEnd
