import MiddleEnd.Proofs.Building.Order
import MiddleEnd.Proofs.Fixed.Reading
import Mathlib.Data.List.Nodup

/-!
# What words show of trees

A tree whose positions and ids were counted in words is one with numbers, of which words show what
they can. Its parts are those of the other tree, in the same order. So it is in order as well, as
long as words show its positions as they are and no two of its ids as one.

Results:
1. `Part.made_read`: the parts of a tree that words show.
2. `Part.InOrder.read`: when such a tree is in order.
3. `Part.draft?_read`: when it reads back as the other tree does.
-/

namespace MiddleEnd

open Fixed

/-! ## Trees -/

section

variable (r : Reading)

/-- A position that words show. -/
def Pos.read (p : Pos) : Pos := { p with offset := r.nat p.offset }

/-- A span that words show. -/
def Span.read (s : Span) : Span := ⟨s.start.read r, s.stop.read r⟩

namespace Source

/-- A reference that words show. -/
def Ref.read (x : Ref) : Ref := { x with span := x.span.read r }

/-- An expression that words show. -/
def Expr.read : Expr → Expr
  | .const value span => .const value (span.read r)
  | .var x span => .var (x.read r) (span.read r)
  | .unary op operand span => .unary op operand.read (span.read r)
  | .binary op left right span => .binary op left.read right.read (span.read r)
  | .assign target value span => .assign (target.read r) value.read (span.read r)
  | .cond test ifTrue ifFalse span => .cond test.read ifTrue.read ifFalse.read (span.read r)

/-- A declaration that words show. -/
def VarDecl.read (d : VarDecl) : VarDecl :=
  ⟨d.name, d.ty, d.init.map (Expr.read r), d.span.read r⟩

/-- The first clause of a `for` that words show. -/
def ForInit.read : ForInit → ForInit
  | .decl d => .decl (d.read r)
  | .expr e => .expr (e.read r)

mutual

/-- A statement that words show. -/
def Stmt.read : Stmt → Stmt
  | .decl d => .decl (d.read r)
  | .expr e span => .expr (e.read r) (span.read r)
  | .empty span => .empty (span.read r)
  | .block body id span => .block (readOf body) (r.int id) (span.read r)
  | .ite test ifTrue ifFalse span => .ite (test.read r) ifTrue.read ifFalse.read (span.read r)
  | .whileDo test body span => .whileDo (test.read r) body.read (span.read r)
  | .doWhile body test span => .doWhile body.read (test.read r) (span.read r)
  | .forLoop init test step body id span =>
    .forLoop (init.map (ForInit.read r)) (test.map (Expr.read r)) (step.map (Expr.read r)) body.read
      (r.int id) (span.read r)
  | .brk span => .brk (span.read r)
  | .cont span => .cont (span.read r)
  | .ret value span => .ret (value.read r) (span.read r)

/-- Statements that words show. -/
def readOf : List Stmt → List Stmt
  | [] => []
  | s :: rest => s.read :: readOf rest

end

/-- A parameter that words show. -/
def Param.read (q : Param) : Param := { q with span := q.span.read r }

/-- The body of a function that words show. -/
def Body.read (b : Body) : Body := ⟨readOf r b.stmts, r.int b.id, b.span.read r⟩

/-- A function that words show. -/
def Function.read (f : Function) : Function :=
  ⟨f.name, f.params.map (Param.read r), f.returnTy, f.body.read r, f.span.read r⟩

/-- A program that words show. -/
def Program.read (p : Program) : Program :=
  ⟨p.functions.map (Function.read r), r.int p.id, p.span.read r⟩

/-- A part that words show. -/
def Part.read : Part → Part
  | .ref x => .ref (x.read r)
  | .expr e => .expr (e.read r)
  | .varDecl d => .varDecl (d.read r)
  | .stmt s => .stmt (s.read r)
  | .param q => .param (q.read r)
  | .body b => .body (b.read r)
  | .function f => .function (f.read r)
  | .program p => .program (p.read r)

end Source
end

namespace Source

variable {r : Reading}

/-! ## Parts -/

theorem Part.span_read (x : Part) : (x.read r).span = x.span.read r := by
  cases x with
  | expr e => cases e <;> rfl
  | stmt s => cases s <;> rfl
  | _ => rfl

theorem Part.offset_read (x : Part) : (x.read r).offset = r.nat x.offset := by
  rw [offset, span_read]
  rfl

theorem Part.id?_read (x : Part) : (x.read r).id? = x.id?.map r.int := by
  cases x with
  | stmt s => cases s <;> rfl
  | _ => rfl

theorem Shares.read {x y : Part} (h : Shares x y) : Shares (x.read r) (y.read r) := by
  cases h with
  | var x => exact .var (x.read r)
  | ite test ifTrue span => exact .ite (test.read r) (ifTrue.read r) (span.read r)

theorem Expr.made_read (e : Expr) : (e.read r).made = e.made.map (Part.read r) := by
  induction e with
  | const | var => rfl
  | unary op operand span ih => simp [Expr.read, Expr.made, Part.read, ih]
  | binary op left right span ihl ihr => simp [Expr.read, Expr.made, Part.read, ihl, ihr]
  | assign target value span ih => simp [Expr.read, Expr.made, Part.read, ih]
  | cond test ifTrue ifFalse span iht iha ihb =>
    simp [Expr.read, Expr.made, Part.read, iht, iha, ihb]

theorem optionMade_read (e : Option Expr) :
    optionMade (e.map (Expr.read r)) = (optionMade e).map (Part.read r) := by
  cases e with
  | none => rfl
  | some e => exact e.made_read

theorem VarDecl.made_read (d : VarDecl) : (d.read r).made = d.made.map (Part.read r) := by
  simp [VarDecl.read, VarDecl.made, Part.read, optionMade_read]

theorem ForInit.made_read (init : Option ForInit) :
    ForInit.made (init.map (ForInit.read r)) = (ForInit.made init).map (Part.read r) := by
  match init with
  | none => rfl
  | some (.decl d) => exact d.made_read
  | some (.expr e) => exact e.made_read

mutual

theorem Stmt.made_read (s : Stmt) : (s.read r).made = s.made.map (Part.read r) := by
  cases s with
  | decl d => exact d.made_read
  | expr e | ret e => simp [Stmt.read, Stmt.made, Part.read, Expr.made_read]
  | empty | brk | cont => rfl
  | block body => simp [Stmt.read, Stmt.made, Part.read, madeOf_read body]
  | ite test ifTrue ifFalse =>
    simp [Stmt.read, Stmt.made, Part.read, Expr.made_read, ifTrue.made_read, ifFalse.made_read]
  | whileDo test body =>
    simp [Stmt.read, Stmt.made, Part.read, Expr.made_read, body.made_read]
  | doWhile body test =>
    simp [Stmt.read, Stmt.made, Part.read, Expr.made_read, body.made_read]
  | forLoop init test step body =>
    simp [Stmt.read, Stmt.made, Part.read, ForInit.made_read, optionMade_read, body.made_read]

theorem madeOf_read (ss : List Stmt) : madeOf (readOf r ss) = (madeOf ss).map (Part.read r) := by
  cases ss with
  | nil => rfl
  | cons s rest => simp [readOf, madeOf, s.made_read, madeOf_read rest]

end

theorem Body.made_read (b : Body) : (b.read r).made = b.made.map (Part.read r) := by
  simp [Body.read, Body.made, Part.read, madeOf_read]

theorem Function.made_read (f : Function) : (f.read r).made = f.made.map (Part.read r) := by
  simp [Function.read, Function.made, Part.read, Body.made_read, Function.comp_def]

/-- What is made for a tree that words show are the parts of the tree that words show. -/
theorem Part.made_read (x : Part) : (x.read r).made = x.made.map (Part.read r) := by
  cases x with
  | ref | param => rfl
  | expr e => exact e.made_read
  | varDecl d => exact d.made_read
  | stmt s => exact s.made_read
  | body b => exact b.made_read
  | function f => exact f.made_read
  | program p =>
    simp [Part.read, Program.read, Part.made, Program.made, Function.made_read, List.map_flatMap,
      List.flatMap_map]

/-! ## Order -/

/-- Ids of which words show no two as one are distinct in words. -/
theorem Part.nodup_ids_read {x : Part} (distinct : (x.made.filterMap Part.id?).Nodup)
    (apart : ∀ i ∈ x.made.filterMap Part.id?, ∀ j ∈ x.made.filterMap Part.id?,
      r.int i = r.int j → i = j) : ((x.read r).made.filterMap Part.id?).Nodup := by
  have ids : (x.read r).made.filterMap Part.id? = (x.made.filterMap Part.id?).map r.int := by
    rw [made_read, List.filterMap_map, List.map_filterMap]
    exact List.filterMap_congr fun y _ => y.id?_read
  rw [ids]
  exact List.Nodup.map_on apart distinct

/-- A tree in order is so in words that show its positions, and no two of its ids as one. -/
theorem Part.InOrder.read {x : Part} {file : String} (h : x.InOrder file)
    (apart : ∀ i ∈ x.made.filterMap Part.id?, ∀ j ∈ x.made.filterMap Part.id?,
      r.int i = r.int j → i = j)
    (shown : ∀ y ∈ x.made, r.nat y.offset = y.offset) : (x.read r).InOrder file := by
  refine .of_positions (Part.nodup_ids_read h.ids apart) ?_ ?_ ?_
  · intro y mem
    rw [Part.made_read] at mem
    obtain ⟨z, inside, rfl⟩ := List.mem_map.1 mem
    rw [Part.span_read, Part.offset_read, h.places z inside]
    rfl
  · rw [Part.made_read]
    refine List.pairwise_map.2 (h.positions.imp_of_mem fun {y z} here there precedes => ?_)
    refine precedes.imp (fun below => ?_) Shares.read
    rw [Part.offset_read, Part.offset_read, shown y here, shown z there]
    exact below
  · intro x' span mem
    rw [Part.made_read] at mem
    obtain ⟨z, inside, same⟩ := List.mem_map.1 mem
    cases z with
    | expr e =>
      cases e with
      | var y span =>
        cases same
        rw [h.vars y span inside]
        rfl
      | _ => cases same
    | _ => cases same

/-! ## Reading back -/

theorem Expr.draft_read (e : Expr) : (e.read r).draft = e.draft := by
  induction e with
  | const | var => rfl
  | unary op operand span ih => exact congrArg (Draft.Expr.unary op) ih
  | binary op left right span ihl ihr => exact congrArg₂ (Draft.Expr.binary op) ihl ihr
  | assign target value span ih => exact congrArg (Draft.Expr.assign target.name) ih
  | cond test ifTrue ifFalse span iht iha ihb =>
    simp only [Expr.read, Expr.draft, iht, iha, ihb]

theorem optionDraft_read (e : Option Expr) :
    (e.map (Expr.read r)).map Expr.draft = e.map Expr.draft := by
  cases e with
  | none => rfl
  | some e => exact congrArg some e.draft_read

theorem VarDecl.draft_read (d : VarDecl) : (d.read r).draft = d.draft :=
  congrArg (Draft.VarDecl.mk d.name d.ty) (optionDraft_read d.init)

theorem ForInit.draft_read (init : Option ForInit) :
    (init.map (ForInit.read r)).map ForInit.draft = init.map ForInit.draft := by
  match init with
  | none => rfl
  | some (.decl d) => exact congrArg (some ∘ Draft.ForInit.decl) d.draft_read
  | some (.expr e) => exact congrArg (some ∘ Draft.ForInit.expr) e.draft_read

/-- Words show where a part stands. -/
def ShowsPlaces (r : Reading) (xs : List Part) : Prop := ∀ y ∈ xs, y.span.read r = y.span

theorem showsPlaces_append {xs ys : List Part} :
    ShowsPlaces r (xs ++ ys) ↔ ShowsPlaces r xs ∧ ShowsPlaces r ys :=
  List.forall_mem_append

theorem Stmt.isEmptyAt_read {s : Stmt} (own : ShowsPlaces r s.made) {span : Span}
    (here : span.read r = span) : (s.read r).isEmptyAt (span.read r) = s.isEmptyAt span := by
  cases s with
  | empty span' =>
    have there : span'.read r = span' := own (.stmt (.empty span')) (List.mem_singleton_self _)
    simp only [Stmt.read, isEmptyAt, here, there]
  | _ => rfl

mutual

/-- A statement reads back the same where words show the places of its parts. Those matter, since a
missing branch is told by its place. -/
theorem Stmt.draft_read (s : Stmt) (shown : ShowsPlaces r s.made) :
    (s.read r).draft = s.draft := by
  cases s with
  | decl d => exact congrArg Draft.Stmt.decl d.draft_read
  | expr e => exact congrArg Draft.Stmt.expr e.draft_read
  | ret e => exact congrArg Draft.Stmt.ret e.draft_read
  | empty | brk | cont => rfl
  | block body =>
    obtain ⟨inside, -⟩ := showsPlaces_append.1 shown
    exact congrArg Draft.Stmt.block (draftsOf_read body inside)
  | ite test ifTrue ifFalse span =>
    obtain ⟨parts, here⟩ := showsPlaces_append.1 shown
    obtain ⟨parts, shown₂⟩ := showsPlaces_append.1 parts
    obtain ⟨-, shown₁⟩ := showsPlaces_append.1 parts
    have here : span.read r = span := here _ (List.mem_singleton_self _)
    simp only [Stmt.read, Stmt.draft, Stmt.isEmptyAt_read shown₂ here, Expr.draft_read,
      ifTrue.draft_read shown₁, ifFalse.draft_read shown₂]
  | whileDo test body =>
    obtain ⟨parts, -⟩ := showsPlaces_append.1 shown
    obtain ⟨-, inside⟩ := showsPlaces_append.1 parts
    exact congrArg₂ Draft.Stmt.whileDo test.draft_read (body.draft_read inside)
  | doWhile body test =>
    obtain ⟨parts, -⟩ := showsPlaces_append.1 shown
    obtain ⟨inside, -⟩ := showsPlaces_append.1 parts
    exact congrArg₂ Draft.Stmt.doWhile (body.draft_read inside) test.draft_read
  | forLoop init test step body =>
    obtain ⟨parts, -⟩ := showsPlaces_append.1 shown
    obtain ⟨-, inside⟩ := showsPlaces_append.1 parts
    simp only [Stmt.read, Stmt.draft, ForInit.draft_read, optionDraft_read, body.draft_read inside]

theorem draftsOf_read (ss : List Stmt) (shown : ShowsPlaces r (madeOf ss)) :
    draftsOf (readOf r ss) = draftsOf ss := by
  cases ss with
  | nil => rfl
  | cons s rest =>
    obtain ⟨here, others⟩ := showsPlaces_append.1 shown
    exact congrArg₂ List.cons (s.draft_read here) (draftsOf_read rest others)

end

theorem Function.draft_read (f : Function) (shown : ShowsPlaces r f.made) :
    (f.read r).draft = f.draft := by
  obtain ⟨parts, -⟩ := showsPlaces_append.1 shown
  obtain ⟨-, body⟩ := showsPlaces_append.1 parts
  obtain ⟨inside, -⟩ := showsPlaces_append.1 body
  have params : (f.params.map (Param.read r)).map Param.draft = f.params.map Param.draft := by
    rw [List.map_map]
    rfl
  exact congrArg₂ (Draft.Function.mk f.name · f.returnTy ·) params
    (draftsOf_read f.body.stmts inside)

/-- A tree reads back the same where words show the places of its parts. -/
theorem Part.draft?_read {x : Part} (shown : ShowsPlaces r x.made) :
    (x.read r).draft? = x.draft? := by
  cases x with
  | ref | param | body => rfl
  | expr e => exact congrArg (some ∘ Draft.Tree.expr) e.draft_read
  | varDecl d => exact congrArg (some ∘ Draft.Tree.varDecl) d.draft_read
  | stmt s => exact congrArg (some ∘ Draft.Tree.stmt) (s.draft_read shown)
  | function f => exact congrArg (some ∘ Draft.Tree.function) (f.draft_read shown)
  | program p =>
    obtain ⟨inside, -⟩ := showsPlaces_append.1 shown
    refine congrArg (fun fs => some (Draft.Tree.program ⟨fs⟩)) ?_
    show (p.functions.map (Function.read r)).map Function.draft = _
    rw [List.map_map]
    refine List.map_congr_left fun f mem => f.draft_read fun y here => inside y ?_
    exact List.mem_flatMap.2 ⟨f, mem, here⟩

end Source
end MiddleEnd
