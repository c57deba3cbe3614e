import MiddleEnd.Source.Draft
import MiddleEnd.Proofs.Building.Parts
import Mathlib.Data.List.Basic

/-!
# What a builder hands out

A builder counts up one position with each part that it makes, and one id with each that owns a
scope. So what it makes for a tree takes the numbers between the two states of its counters, in
building order. Only two kinds of parts come without a position of their own: a variable stands
where its name stands, and the empty statement for a missing second branch where its `if` stands.

Results:
1. `Draft.Stmt.place_taken`: a statement takes its positions and ids from those between the builder
   before and the builder after.
2. `Draft.Function.place_taken`, `Draft.Program.place_taken`: the same for functions and programs.
-/

namespace MiddleEnd

open Source (Part Builder)

/-! ## Counting -/

/-- Elements that carry numbers from `lo` up to `hi` and of which each is related to all behind
it. -/
structure Counted [LE ι] [LT ι] (num : α → ι) (R : α → α → Prop) (xs : List α) (lo hi : ι) :
    Prop where
  le : lo ≤ hi
  related : xs.Pairwise R
  bounds : ∀ x ∈ xs, lo ≤ num x ∧ num x < hi

namespace Counted

variable [LE ι] [LT ι] [Std.IsPreorder ι] {num : α → ι} {R : α → α → Prop} {xs ys : List α}
  {lo mid hi : ι}

theorem nil (n : ι) : Counted num R [] n n := ⟨Std.le_refl n, .nil, nofun⟩

variable [Std.LawfulOrderLT ι]

/-- Elements that carry the same number. -/
theorem same (lt : lo < hi) (num_eq : ∀ x ∈ xs, num x = lo) (related : xs.Pairwise R) :
    Counted num R xs lo hi where
  le := Std.le_of_lt lt
  related := related
  bounds x mem := by
    rw [num_eq x mem]
    exact ⟨Std.le_refl lo, lt⟩

theorem append (higher : ∀ x y, num x < num y → R x y) (h₁ : Counted num R xs lo mid)
    (h₂ : Counted num R ys mid hi) : Counted num R (xs ++ ys) lo hi where
  le := Std.le_trans h₁.le h₂.le
  related := by
    refine List.pairwise_append.2 ⟨h₁.related, h₂.related, ?_⟩
    intro x memx y memy
    exact higher x y (Std.lt_of_lt_of_le (h₁.bounds x memx).2 (h₂.bounds y memy).1)
  bounds x mem := by
    rcases List.mem_append.1 mem with mem | mem
    · exact ⟨(h₁.bounds x mem).1, Std.lt_of_lt_of_le (h₁.bounds x mem).2 h₂.le⟩
    · exact ⟨Std.le_trans h₁.le (h₂.bounds x mem).1, (h₂.bounds x mem).2⟩

end Counted

/-! ## Positions -/

namespace Source

/-- Two parts that stand in one place: a name and the variable made of it, and the empty statement
for a missing second branch and its `if`. -/
inductive Shares : Part → Part → Prop
  | var (r : Ref) : Shares (.ref r) (.expr (.var r r.span))
  | ite (test : Expr) (ifTrue : Stmt) (span : Span) :
      Shares (.stmt (.empty span)) (.stmt (.ite test ifTrue (.empty span) span))

/-- The position of a part is below that of a later one, or they share one. -/
def Precedes (x y : Part) : Prop := x.offset < y.offset ∨ Shares x y

theorem Shares.span_eq {x y : Part} (shares : Shares x y) : x.span = y.span := by
  cases shares <;> rfl

end Source

open Source (Shares Precedes)

/-- Parts that a builder makes on its way from `b` to `b'`. -/
structure Taken (xs : List Part) (b b' : Builder) : Prop where
  positions : Counted Part.offset Precedes xs b.pos b'.pos
  ids : Counted id (· < ·) (xs.filterMap Part.id?) b.nextId b'.nextId
  file : b'.file = b.file
  /-- A part occupies one place of the file. -/
  places : ∀ x ∈ xs, x.span = .at ⟨x.offset, b.file⟩
  /-- A variable stands where its name stands. -/
  vars : ∀ r span, .expr (.var r span) ∈ xs → span = r.span

namespace Taken

variable {xs ys : List Part} {x y : Part} {b b₁ b' : Builder}

theorem nil (b : Builder) : Taken [] b b := ⟨.nil _, .nil _, rfl, nofun, nofun⟩

theorem append (h₁ : Taken xs b b₁) (h₂ : Taken ys b₁ b') : Taken (xs ++ ys) b b' where
  positions := h₁.positions.append (fun _ _ => .inl) h₂.positions
  ids := by
    rw [List.filterMap_append]
    exact h₁.ids.append (fun _ _ => id) h₂.ids
  file := h₂.file.trans h₁.file
  places x mem := by
    rcases List.mem_append.1 mem with mem | mem
    · exact h₁.places x mem
    · rw [h₂.places x mem, h₁.file]
  vars r span mem := (List.mem_append.1 mem).elim (h₁.vars r span) (h₂.vars r span)

/-- Parts that take the next position together. The ids go on to `n`. -/
theorem next (here : ∀ x ∈ xs, x.span = .at ⟨b.pos, b.file⟩) (related : xs.Pairwise Precedes)
    {n : NodeId} (ids : Counted id (· < ·) (xs.filterMap Part.id?) b.nextId n)
    (vars : ∀ r span, .expr (.var r span) ∈ xs → span = r.span) :
    Taken xs b { b with pos := b.pos + 1, nextId := n } := by
  have offset : ∀ x ∈ xs, x.offset = b.pos := by
    intro x mem
    rw [Part.offset, here x mem]
    rfl
  refine ⟨.same (Nat.lt_succ_self _) offset related, ids, rfl, ?_, vars⟩
  intro x mem
  rw [offset x mem, here x mem]

/-- A part that takes the next position. -/
theorem one (owns : x.id? = none) (here : x.span = .at ⟨b.pos, b.file⟩)
    (notVar : ∀ r span, x ≠ .expr (.var r span)) : Taken [x] b { b with pos := b.pos + 1 } := by
  refine next ?_ (List.pairwise_singleton _ _) ?_ ?_
  · intro y mem
    rw [List.mem_singleton.1 mem, here]
  · rw [List.filterMap_cons_none owns]
    exact .nil _
  · exact fun r span mem => absurd (List.mem_singleton.1 mem).symm (notVar r span)

/-- A part that takes the next id and the next position. -/
theorem owner (owns : x.id? = some b.nextId) (here : x.span = .at ⟨b.pos, b.file⟩) :
    Taken [x] b { b with pos := b.pos + 1, nextId := b.nextId + 1 } := by
  refine next ?_ (List.pairwise_singleton _ _) ?_ ?_
  · intro y mem
    rw [List.mem_singleton.1 mem, here]
  · rw [List.filterMap_cons_some owns]
    refine .same (Int.lt_succ _) ?_ (List.pairwise_singleton _ _)
    exact fun i mem => List.mem_singleton.1 mem
  · intro r span mem
    rw [← List.mem_singleton.1 mem] at owns
    cases owns

/-- Two parts that take the next position together. -/
theorem two (shares : Shares x y) (here : x.span = .at ⟨b.pos, b.file⟩) :
    Taken [x, y] b { b with pos := b.pos + 1 } := by
  refine next ?_ (List.pairwise_pair.2 (.inr shares)) ?_ ?_
  · intro z mem
    rcases List.mem_pair.1 mem with rfl | rfl
    · exact here
    · exact shares.span_eq.symm.trans here
  · have none : [x, y].filterMap Part.id? = [] := by cases shares <;> rfl
    rw [none]
    exact .nil _
  · intro r span mem
    cases shares with
    | var r' =>
      rcases List.mem_pair.1 mem with same | same
      · cases same
      · cases same
        rfl
    | ite test ifTrue span' => rcases List.mem_pair.1 mem with same | same <;> cases same

end Taken

/-! ## Trees -/

namespace Draft

theorem Expr.place_taken (e : Expr) (b : Builder) :
    Taken (e.place b).1.made b (e.place b).2 := by
  induction e generalizing b with
  | const value => exact .one rfl rfl nofun
  | var name => exact .two (.var _) rfl
  | unary op operand ih => exact (ih b).append (.one rfl rfl nofun)
  | binary op left right ihl ihr => exact ((ihl b).append (ihr _)).append (.one rfl rfl nofun)
  | assign target value ih =>
    -- the name of the target takes its position behind the value
    have name := (ih b).append
      (.one (x := .ref ⟨target, .at ⟨(value.place b).2.pos, (value.place b).2.file⟩⟩) rfl rfl nofun)
    exact name.append (.one rfl rfl nofun)
  | cond test ifTrue ifFalse iht iha ihb =>
    exact (((iht b).append (iha _)).append (ihb _)).append (.one rfl rfl nofun)

theorem placeOption_taken (e : Option Expr) (b : Builder) :
    Taken (Source.optionMade (placeOption e b).1) b (placeOption e b).2 := by
  cases e with
  | none => exact .nil b
  | some e => exact e.place_taken b

theorem VarDecl.place_taken (d : VarDecl) (b : Builder) :
    Taken (d.place b).1.made b (d.place b).2 :=
  (placeOption_taken d.init b).append (.one rfl rfl nofun)

theorem ForInit.place_taken (init : Option ForInit) (b : Builder) :
    Taken (Source.ForInit.made (ForInit.place init b).1) b (ForInit.place init b).2 := by
  match init with
  | none => exact .nil b
  | some (.decl d) => exact d.place_taken b
  | some (.expr e) => exact e.place_taken b

mutual

/-- A statement takes its positions and ids from those that the builder hands out for it. -/
theorem Stmt.place_taken (s : Stmt) (b : Builder) :
    Taken (s.place b).1.made b (s.place b).2 := by
  cases s with
  | decl d => exact d.place_taken b
  | expr e | ret e => exact (e.place_taken b).append (.one rfl rfl nofun)
  | empty | brk | cont => exact .one rfl rfl nofun
  | block body => exact (placeStmts_taken body b).append (.owner rfl rfl)
  | ifThen test ifTrue =>
    -- the branch that is made up takes no position of its own
    let b₁ := (ifTrue.place (test.place b).2).2
    have shared : Shares _ (.stmt (Stmt.place (.ifThen test ifTrue) b).1) :=
      .ite (test.place b).1 (ifTrue.place (test.place b).2).1 (.at ⟨b₁.pos, b₁.file⟩)
    have whole := ((test.place_taken b).append (ifTrue.place_taken _)).append (.two shared rfl)
    rw [List.append_cons] at whole
    exact whole
  | ite test ifTrue ifFalse =>
    have branches := ((test.place_taken b).append (ifTrue.place_taken _)).append
      (ifFalse.place_taken _)
    exact branches.append (.one rfl rfl nofun)
  | whileDo test body =>
    exact ((test.place_taken b).append (body.place_taken _)).append (.one rfl rfl nofun)
  | doWhile body test =>
    exact ((body.place_taken b).append (test.place_taken _)).append (.one rfl rfl nofun)
  | forLoop init test step body =>
    have clauses := ((ForInit.place_taken init b).append (placeOption_taken test _)).append
      (placeOption_taken step _)
    exact (clauses.append (body.place_taken _)).append (.owner rfl rfl)

theorem placeStmts_taken (ss : List Stmt) (b : Builder) :
    Taken (Source.madeOf (placeStmts ss b).1) b (placeStmts ss b).2 := by
  cases ss with
  | nil => exact .nil b
  | cons s rest => exact (s.place_taken b).append (placeStmts_taken rest _)

end

theorem Param.places_taken (qs : List Param) (b : Builder) :
    Taken ((qs.mapM Param.place b).1.map .param) b (qs.mapM Param.place b).2 := by
  induction qs generalizing b with
  | nil => exact .nil b
  | cons q rest ih =>
    rw [List.mapM_cons]
    exact (Taken.one (x := .param (q.place b).1) rfl rfl nofun).append (ih _)

theorem Function.place_taken (f : Function) (b : Builder) :
    Taken (f.place b).1.made b (f.place b).2 := by
  have body : Taken (f.place b).1.body.made (f.params.mapM Param.place b).2 _ :=
    (placeStmts_taken f.body _).append (.owner rfl rfl)
  exact ((Param.places_taken f.params b).append body).append (.one rfl rfl nofun)

theorem Function.places_taken (fs : List Function) (b : Builder) :
    Taken ((fs.mapM Function.place b).1.flatMap Source.Function.made) b
      (fs.mapM Function.place b).2 := by
  induction fs generalizing b with
  | nil => exact .nil b
  | cons f rest ih =>
    rw [List.mapM_cons]
    exact (f.place_taken b).append (ih _)

theorem Program.place_taken (p : Program) (b : Builder) :
    Taken (p.place b).1.made b (p.place b).2 :=
  (Function.places_taken p.functions b).append (.owner rfl rfl)

end Draft
end MiddleEnd
