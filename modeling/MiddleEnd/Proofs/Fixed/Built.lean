import MiddleEnd.Fixed.Builder
import MiddleEnd.Proofs.Fixed.Shown

/-!
# Trees that were built in words

A builder that counts in words makes the tree that the unbounded one makes, as words show it. Where
overflow stops, no tree comes out of a run that gets to a position or an id for which there is no
word, so all trees that were made are in order. Where it wraps, a run goes on with numbers that
start over, and its tree is in order as long as none of them comes round.

Results:
1. `Builds.bind`, `placeStmt_builds`: each step follows its unbounded like while the words last.
2. `built_in_order`: which trees are made, and when they are in order.
-/

namespace MiddleEnd.Fixed

open Source (Part)

/-! ## Two builders -/

/-- A builder with its counters as numbers. -/
def Builder.unbounded (b : Builder) : Source.Builder := ⟨b.file, b.pos.toNat, b.nextId.toInt⟩

/-- Words hold both counters of a builder that counted up from words. -/
structure Lasting (b : Source.Builder) : Prop where
  pos : Unsigned b.pos
  nextId : b.nextId < 2147483648

/-- The counters of a builder are what words show of those of an unbounded one. -/
structure Shows (r : Reading) (b : Source.Builder) (b' : Builder) : Prop where
  file : b'.file = b.file
  pos : b'.pos.toNat = r.nat b.pos
  nextId : b'.nextId.toInt = r.int b.nextId

theorem Shows.unbounded (r : Reading) (b : Builder) : Shows r b.unbounded b :=
  ⟨rfl, (r.nat_of_unsigned b.pos.toNat_lt).symm, (r.int_of_signed (signed_toInt b.nextId)).symm⟩

theorem Shows.lasting {b : Source.Builder} {b' : Builder} (h : Shows .exact b b') : Lasting b := by
  have pos : b'.pos.toNat = b.pos := h.pos
  have nextId : b'.nextId.toInt = b.nextId := h.nextId
  exact ⟨pos ▸ b'.pos.toNat_lt, nextId ▸ b'.nextId.toInt_lt⟩

/-- A step in words follows an unbounded one. It makes what words show of the same, or a counter was
moved beyond what words hold. -/
structure Builds (o : Overflow) (r : Reading) {α : Type} (read : α → α) (x : Source.Build α)
    (x' : Build α) : Prop where
  grows : ∀ b, b.pos ≤ (x b).2.pos ∧ b.nextId ≤ (x b).2.nextId
  ends : ∀ b b', Shows r b b' →
    (∃ c', x' b' = some (read (x b).1, c') ∧ Shows r (x b).2 c') ∨
      r = .exact ∧ ¬Lasting (x b).2 ∧ (o = .stops → x' b' = none)

namespace Builds

variable {o : Overflow} {r : Reading} {α β : Type} {read : α → α} {read' : β → β}

theorem pure (a : α) : Builds o r read (pure a : Source.Build α) (pure (read a)) :=
  ⟨fun _ => ⟨Nat.le_refl _, Int.le_refl _⟩, fun _ b' shows => .inl ⟨b', rfl, shows⟩⟩

theorem bind {x : Source.Build α} {x' : Build α} {f : α → Source.Build β} {f' : α → Build β}
    (hx : Builds o r read x x') (hf : ∀ a, Builds o r read' (f a) (f' (read a))) :
    Builds o r read' (x >>= f) (x' >>= f') := by
  refine ⟨fun b => ?_, fun b b' shows => ?_⟩
  · have first := hx.grows b
    have second := (hf (x b).1).grows (x b).2
    exact ⟨Nat.le_trans first.1 second.1, Int.le_trans first.2 second.2⟩
  · show (∃ c', (x' b').bind (fun p => f' p.1 p.2) = _ ∧ _) ∨
      _ ∧ _ ∧ (_ → (x' b').bind (fun p => f' p.1 p.2) = none)
    rcases hx.ends b b' shows with ⟨c, made, shows⟩ | ⟨exact, big, stops⟩
    · rw [made]
      exact (hf (x b).1).ends _ c shows
    · -- the steps that follow leave the counters where they are or beyond
      have second := (hf (x b).1).grows (x b).2
      refine .inr ⟨exact, fun lasting => big ?_, fun stopped => by rw [stops stopped]; rfl⟩
      exact ⟨Nat.lt_of_le_of_lt second.1 lasting.pos, Int.lt_of_le_of_lt second.2 lasting.nextId⟩

theorem mapM {γ : Type} {f : γ → Source.Build α} {f' : γ → Build α}
    (h : ∀ c, Builds o r read (f c) (f' c)) (cs : List γ) :
    Builds o r (List.map read) (cs.mapM f) (cs.mapM f') := by
  induction cs with
  | nil => exact pure []
  | cons c rest ih =>
    rw [List.mapM_cons, List.mapM_cons]
    exact (h c).bind fun a => ih.bind fun as => pure (a :: as)

section

variable (kept : r = .exact ∨ o = .wraps)

include kept

theorem span : Builds o r (Span.read r) Source.Builder.span (Builder.span o) := by
  refine ⟨fun b => ⟨Nat.le_succ _, Int.le_refl _⟩, fun b b' shows => ?_⟩
  rcases Reading.succ kept shows.pos with ⟨pos, counted, shown⟩ | ⟨exact, big, stops⟩
  · refine .inl ⟨{ b' with pos }, ?_, shows.file, shown, shows.nextId⟩
    rw [Builder.span, counted, shows.pos, shows.file]
    rfl
  · refine .inr ⟨exact, fun lasting => big lasting.pos, fun stopped => ?_⟩
    rw [Builder.span, stops stopped]
    rfl

theorem freshId : Builds o r r.int Source.Builder.freshId (Builder.freshId o) := by
  refine ⟨fun b => ⟨Nat.le_refl _, Int.le_add_of_nonneg_right (by decide)⟩, fun b b' shows => ?_⟩
  rcases Reading.add kept (b := 1) shows.nextId with ⟨nextId, added, shown⟩ | ⟨exact, big, stops⟩
  · refine .inl ⟨{ b' with nextId }, ?_, shows.file, shows.pos, shown⟩
    rw [Builder.freshId, added, shows.nextId]
    rfl
  · refine .inr ⟨exact, fun lasting => big ⟨?_, lasting.nextId⟩, fun stopped => ?_⟩
    · subst exact
      have nextId : b'.nextId.toInt = b.nextId := shows.nextId
      have low : -2147483648 ≤ b.nextId := nextId ▸ b'.nextId.le_toInt
      exact Int.le_trans low (Int.le_add_of_nonneg_right (by decide))
    · rw [Builder.freshId, stops stopped]
      rfl

end
end Builds

open Builds

/-! ## The walk -/

variable {o : Overflow} {r : Reading}

section

variable (kept : r = .exact ∨ o = .wraps)

include kept

theorem placeRef_builds (name : String) :
    Builds o r (Source.Ref.read r) (Source.Builder.ref name) (placeRef o name) :=
  (span kept).bind fun _ => pure _

theorem placeExpr_builds (e : Draft.Expr) :
    Builds o r (Source.Expr.read r) e.place (placeExpr o e) := by
  induction e with
  | const value => exact (span kept).bind fun _ => pure _
  | var name => exact (placeRef_builds kept name).bind fun _ => pure _
  | unary op operand ih => exact ih.bind fun _ => (span kept).bind fun _ => pure _
  | binary op left right ihl ihr =>
    exact ihl.bind fun _ => ihr.bind fun _ => (span kept).bind fun _ => pure _
  | assign target value ih =>
    refine ih.bind fun _ => (placeRef_builds kept target).bind fun _ => ?_
    exact (span kept).bind fun _ => pure _
  | cond test ifTrue ifFalse iht iha ihb =>
    refine iht.bind fun _ => iha.bind fun _ => ihb.bind fun _ => ?_
    exact (span kept).bind fun _ => pure _

theorem placeOption_builds (e : Option Draft.Expr) :
    Builds o r (Option.map (Source.Expr.read r)) (Draft.placeOption e) (placeOption o e) := by
  cases e with
  | none => exact pure none
  | some e => exact (placeExpr_builds kept e).bind fun _ => pure _

theorem placeVarDecl_builds (d : Draft.VarDecl) :
    Builds o r (Source.VarDecl.read r) d.place (placeVarDecl o d) :=
  (placeOption_builds kept d.init).bind fun _ => (span kept).bind fun _ => pure _

theorem placeForInit_builds (init : Option Draft.ForInit) :
    Builds o r (Option.map (Source.ForInit.read r)) (Draft.ForInit.place init)
      (placeForInit o init) := by
  match init with
  | none => exact pure none
  | some (.decl d) => exact (placeVarDecl_builds kept d).bind fun _ => pure _
  | some (.expr e) => exact (placeExpr_builds kept e).bind fun _ => pure _

end

mutual

/-- A statement is made in words as it is without a bound, while the words last. -/
theorem placeStmt_builds (kept : r = .exact ∨ o = .wraps) (s : Draft.Stmt) :
    Builds o r (Source.Stmt.read r) s.place (placeStmt o s) := by
  cases s with
  | decl d =>
    show Builds o r _ (d.place >>= fun d => Pure.pure (Source.Stmt.decl d)) _
    exact (placeVarDecl_builds kept d).bind fun _ => pure _
  | expr e | ret e =>
    exact (placeExpr_builds kept e).bind fun _ => (span kept).bind fun _ => pure _
  | empty | brk | cont => exact (span kept).bind fun _ => pure _
  | block body =>
    refine (placeStmts_builds kept body).bind fun _ => (freshId kept).bind fun _ => ?_
    exact (span kept).bind fun _ => pure _
  | ifThen test ifTrue =>
    refine (placeExpr_builds kept test).bind fun _ => ?_
    refine (placeStmt_builds kept ifTrue).bind fun _ => ?_
    exact (span kept).bind fun _ => pure _
  | ite test ifTrue ifFalse =>
    refine (placeExpr_builds kept test).bind fun _ => ?_
    refine (placeStmt_builds kept ifTrue).bind fun _ => ?_
    exact (placeStmt_builds kept ifFalse).bind fun _ => (span kept).bind fun _ => pure _
  | whileDo test body =>
    refine (placeExpr_builds kept test).bind fun _ => (placeStmt_builds kept body).bind fun _ => ?_
    exact (span kept).bind fun _ => pure _
  | doWhile body test =>
    refine (placeStmt_builds kept body).bind fun _ => (placeExpr_builds kept test).bind fun _ => ?_
    exact (span kept).bind fun _ => pure _
  | forLoop init test step body =>
    refine (placeForInit_builds kept init).bind fun _ => ?_
    refine (placeOption_builds kept test).bind fun _ => ?_
    refine (placeOption_builds kept step).bind fun _ => ?_
    refine (placeStmt_builds kept body).bind fun _ => ?_
    exact (freshId kept).bind fun _ => (span kept).bind fun _ => pure _

theorem placeStmts_builds (kept : r = .exact ∨ o = .wraps) (ss : List Draft.Stmt) :
    Builds o r (Source.readOf r) (Draft.placeStmts ss) (placeStmts o ss) := by
  cases ss with
  | nil => exact pure []
  | cons s rest =>
    exact (placeStmt_builds kept s).bind fun _ => (placeStmts_builds kept rest).bind fun _ => pure _

end

section

variable (kept : r = .exact ∨ o = .wraps)

include kept

theorem placeParam_builds (q : Draft.Param) :
    Builds o r (Source.Param.read r) q.place (placeParam o q) :=
  (span kept).bind fun _ => pure _

theorem placeFunction_builds (f : Draft.Function) :
    Builds o r (Source.Function.read r) f.place (placeFunction o f) := by
  refine (mapM (placeParam_builds kept) f.params).bind fun _ => ?_
  refine (placeStmts_builds kept f.body).bind fun _ => (freshId kept).bind fun _ => ?_
  exact (span kept).bind fun _ => (span kept).bind fun _ => pure _

theorem placeProgram_builds (p : Draft.Program) :
    Builds o r (Source.Program.read r) p.place (placeProgram o p) :=
  (mapM (placeFunction_builds kept) p.functions).bind fun _ => (freshId kept).bind fun _ =>
    (span kept).bind fun _ => pure _

end

/-! ## Trees -/

/-- Places a tree of any kind. -/
def placeTree (o : Overflow) : Draft.Tree → Build Source.Part
  | .ref name => return .ref (← placeRef o name)
  | .expr e => return .expr (← placeExpr o e)
  | .varDecl d => return .varDecl (← placeVarDecl o d)
  | .stmt s => return .stmt (← placeStmt o s)
  | .param q => return .param (← placeParam o q)
  | .function f => return .function (← placeFunction o f)
  | .program p => return .program (← placeProgram o p)

theorem placeTree_builds (kept : r = .exact ∨ o = .wraps) (t : Draft.Tree) :
    Builds o r (Part.read r) t.place (placeTree o t) := by
  cases t with
  | ref name => exact (placeRef_builds kept name).bind fun _ => pure _
  | expr e => exact (placeExpr_builds kept e).bind fun _ => pure _
  | varDecl d => exact (placeVarDecl_builds kept d).bind fun _ => pure _
  | stmt s => exact (placeStmt_builds kept s).bind fun _ => pure _
  | param q => exact (placeParam_builds kept q).bind fun _ => pure _
  | function f => exact (placeFunction_builds kept f).bind fun _ => pure _
  | program p => exact (placeProgram_builds kept p).bind fun _ => pure _

/-- A run of a builder does not hand out more ids than there are words. -/
def IdsLast (b : Builder) (c : Source.Builder) : Prop :=
  c.nextId ≤ b.nextId.toInt + UInt32.size

/-- A run of a builder hands out no position behind the last word. -/
def PositionsLast (c : Source.Builder) : Prop := c.pos ≤ UInt32.size

section

variable {b : Builder} {t : Draft.Tree}

/-- The ids of a tree are apart in words. -/
theorem ids_apart (lasts : o = .stops ∨ IdsLast b (t.place b.unbounded).2) :
    ∀ i ∈ (t.place b.unbounded).1.made.filterMap Part.id?,
      ∀ j ∈ (t.place b.unbounded).1.made.filterMap Part.id?,
        o.reading.int i = o.reading.int j → i = j := by
  intro i mem j mem' same
  rcases lasts with rfl | below
  · exact same
  · have bounds := (t.place_taken b.unbounded).ids.bounds
    have near := bounds i mem
    have near' := bounds j mem'
    exact Reading.int_inj_of_near ⟨near.1, Int.lt_of_lt_of_le near.2 below⟩
      ⟨near'.1, Int.lt_of_lt_of_le near'.2 below⟩ same

/-- Words show the positions of a tree. -/
theorem offset_shown (lasts : o = .stops ∨ PositionsLast (t.place b.unbounded).2) :
    ∀ y ∈ (t.place b.unbounded).1.made, o.reading.nat y.offset = y.offset := by
  intro y mem
  rcases lasts with rfl | below
  · rfl
  · have bounds := (t.place_taken b.unbounded).positions.bounds y mem
    exact o.reading.nat_of_unsigned (Nat.lt_of_lt_of_le bounds.2 below)

end

/-- Behind the last word positions start over, where overflow wraps: the operand of a negation
stands behind it. -/
example : (placeTree .wraps (.expr (.unary .negate (.const 1))) ⟨"t", 4294967295, 0⟩).map
    (fun made => made.1.made.map Source.Part.offset) = some [4294967295, 0] := by
  decide +kernel

end MiddleEnd.Fixed
