import MiddleEnd.Proofs.Building.Taken

/-!
# Trees that were built

A tree of any kind that one builder makes, from whatever counters, is the tree of its draft, and its
parts stand in the order in which they were made. Since all that was made for a part stands in one
stretch, the order of the whole tree is also that of each declaration and each function in it.

Results:
1. `Draft.Tree.draft_place`: a tree that was built reads back as its draft. That an `if` had no
   second branch is read off the place of that branch: one that was placed stands before the `if`.
2. `Draft.Tree.place_in_order`: its ids are distinct, its positions increase in building order, and
   so declarations and parameters stand where scopes expect them.
-/

namespace MiddleEnd

open Source (Part Builder Build Shares Precedes)

/-! ## Trees -/

namespace Draft

/-- A tree of any kind to be placed. -/
inductive Tree
  | ref (name : String)
  | expr (expr : Expr)
  | varDecl (decl : VarDecl)
  | stmt (stmt : Stmt)
  | param (param : Param)
  | function (fn : Function)
  | program (program : Program)

/-- Places a tree. -/
def Tree.place : Tree → Build Part
  | .ref name => return .ref (← Builder.ref name)
  | .expr e => return .expr (← e.place)
  | .varDecl d => return .varDecl (← d.place)
  | .stmt s => return .stmt (← s.place)
  | .param q => return .param (← q.place)
  | .function f => return .function (← f.place)
  | .program p => return .program (← p.place)

theorem Tree.place_taken (t : Tree) (b : Builder) : Taken (t.place b).1.made b (t.place b).2 := by
  cases t with
  | ref name => exact .one rfl rfl nofun
  | expr e => exact e.place_taken b
  | varDecl d => exact d.place_taken b
  | stmt s => exact s.place_taken b
  | param q => exact .one rfl rfl nofun
  | function f => exact f.place_taken b
  | program p => exact p.place_taken b

end Draft

/-! ## Reading back -/

namespace Source

/-- An expression without its positions. -/
def Expr.draft : Expr → Draft.Expr
  | .const value _ => .const value
  | .var r _ => .var r.name
  | .unary op operand _ => .unary op operand.draft
  | .binary op left right _ => .binary op left.draft right.draft
  | .assign target value _ => .assign target.name value.draft
  | .cond test ifTrue ifFalse _ => .cond test.draft ifTrue.draft ifFalse.draft

/-- A declaration without its positions. -/
def VarDecl.draft (d : VarDecl) : Draft.VarDecl := ⟨d.name, d.ty, d.init.map Expr.draft⟩

/-- The first clause of a `for` without its positions. -/
def ForInit.draft : ForInit → Draft.ForInit
  | .decl d => .decl d.draft
  | .expr e => .expr e.draft

/-- Whether a statement is an empty one that stands at `span`. -/
def Stmt.isEmptyAt (span : Span) : Stmt → Bool
  | .empty s => s = span
  | _ => false

mutual

/-- A statement without its positions and ids. An `if` has no second branch if an empty statement
stands for it in the place of the `if`. -/
def Stmt.draft : Stmt → Draft.Stmt
  | .decl d => .decl d.draft
  | .expr e _ => .expr e.draft
  | .empty _ => .empty
  | .block body _ _ => .block (draftsOf body)
  | .ite test ifTrue ifFalse span =>
    if ifFalse.isEmptyAt span then .ifThen test.draft ifTrue.draft
    else .ite test.draft ifTrue.draft ifFalse.draft
  | .whileDo test body _ => .whileDo test.draft body.draft
  | .doWhile body test _ => .doWhile body.draft test.draft
  | .forLoop init test step body _ _ =>
    .forLoop (init.map ForInit.draft) (test.map Expr.draft) (step.map Expr.draft) body.draft
  | .brk _ => .brk
  | .cont _ => .cont
  | .ret e _ => .ret e.draft

/-- Statements without their positions and ids. -/
def draftsOf : List Stmt → List Draft.Stmt
  | [] => []
  | s :: rest => s.draft :: draftsOf rest

end

/-- A parameter without its position. -/
def Param.draft (q : Param) : Draft.Param := ⟨q.name, q.ty⟩

/-- A function without its positions and ids. -/
def Function.draft (f : Function) : Draft.Function :=
  ⟨f.name, f.params.map Param.draft, f.returnTy, draftsOf f.body.stmts⟩

/-- A program without its positions and ids. -/
def Program.draft (p : Program) : Draft.Program := ⟨p.functions.map Function.draft⟩

/-- A part without its positions and ids. A body is no tree by itself. -/
def Part.draft? : Part → Option Draft.Tree
  | .ref r => some (.ref r.name)
  | .expr e => some (.expr e.draft)
  | .varDecl d => some (.varDecl d.draft)
  | .stmt s => some (.stmt s.draft)
  | .param q => some (.param q.draft)
  | .body _ => none
  | .function f => some (.function f.draft)
  | .program p => some (.program p.draft)

end Source

namespace Draft

theorem Expr.draft_place (e : Expr) (b : Builder) : (e.place b).1.draft = e := by
  induction e generalizing b with
  | const | var => rfl
  | unary op operand ih => exact congrArg (Expr.unary op) (ih b)
  | binary op left right ihl ihr => exact congrArg₂ (Expr.binary op) (ihl b) (ihr _)
  | assign target value ih => exact congrArg (Expr.assign target) (ih b)
  | cond test ifTrue ifFalse iht iha ihb =>
    exact congr (congrArg₂ Expr.cond (iht b) (iha _)) (ihb _)

theorem placeOption_draft (e : Option Expr) (b : Builder) :
    (placeOption e b).1.map Source.Expr.draft = e := by
  cases e with
  | none => rfl
  | some e => exact congrArg some (e.draft_place b)

theorem VarDecl.draft_place (d : VarDecl) (b : Builder) : (d.place b).1.draft = d :=
  congrArg (VarDecl.mk d.name d.ty) (placeOption_draft d.init b)

theorem ForInit.draft_place (init : Option ForInit) (b : Builder) :
    (ForInit.place init b).1.map Source.ForInit.draft = init := by
  match init with
  | none => rfl
  | some (.decl d) => exact congrArg (some ∘ ForInit.decl) (d.draft_place b)
  | some (.expr e) => exact congrArg (some ∘ ForInit.expr) (e.draft_place b)

/-- A statement that was placed does not stand where the builder goes on. -/
theorem Stmt.not_isEmptyAt (s : Stmt) (b : Builder) (file : String) :
    (s.place b).1.isEmptyAt (.at ⟨(s.place b).2.pos, file⟩) = false := by
  have taken := s.place_taken b
  cases placed : (s.place b).1 with
  | empty span =>
    rw [placed] at taken
    have below : span.start.offset < (s.place b).2.pos :=
      (taken.positions.bounds (.stmt (.empty span)) (List.mem_singleton_self _)).2
    refine decide_eq_false ?_
    rintro rfl
    exact Nat.lt_irrefl _ below
  | _ => rfl

mutual

/-- A statement that was built reads back as its draft. -/
theorem Stmt.draft_place (s : Stmt) (b : Builder) : (s.place b).1.draft = s := by
  cases s with
  | decl d => exact congrArg Stmt.decl (d.draft_place b)
  | expr e => exact congrArg Stmt.expr (e.draft_place b)
  | ret e => exact congrArg Stmt.ret (e.draft_place b)
  | empty | brk | cont => rfl
  | block body => exact congrArg Stmt.block (placeStmts_draft body b)
  | ifThen test ifTrue =>
    have branch := congrArg₂ Stmt.ifThen (test.draft_place b) (ifTrue.draft_place (test.place b).2)
    exact (if_pos (decide_eq_true rfl)).trans branch
  | ite test ifTrue ifFalse =>
    refine (if_neg (Bool.eq_false_iff.1 (ifFalse.not_isEmptyAt _ _))).trans ?_
    exact congr (congrArg₂ Stmt.ite (test.draft_place b) (ifTrue.draft_place _))
      (ifFalse.draft_place _)
  | whileDo test body =>
    exact congrArg₂ Stmt.whileDo (test.draft_place b) (body.draft_place _)
  | doWhile body test =>
    exact congrArg₂ Stmt.doWhile (body.draft_place b) (test.draft_place _)
  | forLoop init test step body =>
    have clauses := congrArg₂ Stmt.forLoop (ForInit.draft_place init b)
      (placeOption_draft test (ForInit.place init b).2)
    exact congr (congr clauses (placeOption_draft step _)) (body.draft_place _)

theorem placeStmts_draft (ss : List Stmt) (b : Builder) :
    Source.draftsOf (placeStmts ss b).1 = ss := by
  cases ss with
  | nil => rfl
  | cons s rest => exact congrArg₂ List.cons (s.draft_place b) (placeStmts_draft rest _)

end

theorem Param.places_draft (qs : List Param) (b : Builder) :
    (qs.mapM Param.place b).1.map Source.Param.draft = qs := by
  induction qs generalizing b with
  | nil => rfl
  | cons q rest ih =>
    rw [List.mapM_cons]
    exact congrArg (List.cons q) (ih _)

theorem Function.draft_place (f : Function) (b : Builder) : (f.place b).1.draft = f := by
  have params := congrArg (fun qs => Function.mk f.name qs f.returnTy)
    (Param.places_draft f.params b)
  exact congr params (placeStmts_draft f.body _)

theorem Function.places_draft (fs : List Function) (b : Builder) :
    (fs.mapM Function.place b).1.map Source.Function.draft = fs := by
  induction fs generalizing b with
  | nil => rfl
  | cons f rest ih =>
    rw [List.mapM_cons]
    exact congrArg₂ List.cons (f.draft_place b) (ih _)

theorem Program.draft_place (p : Program) (b : Builder) : (p.place b).1.draft = p :=
  congrArg Program.mk (Function.places_draft p.functions b)

/-- A tree that was built reads back as its draft. -/
theorem Tree.draft_place (t : Tree) (b : Builder) : (t.place b).1.draft? = some t := by
  cases t with
  | ref | param => rfl
  | expr e => exact congrArg (some ∘ Tree.expr) (e.draft_place b)
  | varDecl d => exact congrArg (some ∘ Tree.varDecl) (d.draft_place b)
  | stmt s => exact congrArg (some ∘ Tree.stmt) (s.draft_place b)
  | function f => exact congrArg (some ∘ Tree.function) (f.draft_place b)
  | program p => exact congrArg (some ∘ Tree.program) (p.draft_place b)

end Draft

/-! ## Order -/

namespace Source

/-- A tree in a file whose parts stand in building order. -/
structure Part.InOrder (x : Part) (file : String) : Prop where
  /-- The nodes that own scopes have ids of their own. -/
  ids : (x.made.filterMap Part.id?).Nodup
  /-- Every part occupies one place of the file. -/
  places : ∀ y ∈ x.made, y.span = .at ⟨y.offset, file⟩
  /-- Positions increase, but for the parts that share one. -/
  positions : x.made.Pairwise Precedes
  /-- A variable stands where its name stands. -/
  vars : ∀ r span, .expr (.var r span) ∈ x.made → span = r.span
  /-- A declaration stands behind all of its initializer. -/
  initializers : ∀ d, .varDecl d ∈ x.made →
    ∀ y ∈ optionMade d.init, y.offset < d.span.start.offset
  /-- A declaration stands before all that is made later. -/
  declarations : ∀ d before after, x.made = before ++ .varDecl d :: after →
    ∀ y ∈ after, d.span.start.offset < y.offset
  /-- The parameters of a function stand before all of its body. -/
  params : ∀ f, .function f ∈ x.made →
    ∀ q ∈ f.params, ∀ y ∈ f.body.made, q.span.start.offset < y.offset

namespace Part

variable {x : Part}

/-- What is related in the order of a tree is so in that of each of its parts. -/
theorem pairwise_of_mem_made {R : Part → Part → Prop} (related : x.made.Pairwise R) {y : Part}
    (mem : y ∈ x.made) : y.made.Pairwise R :=
  related.sublist (infix_of_mem_made mem).sublist

theorem initializer_lt (related : x.made.Pairwise Precedes) {d : VarDecl}
    (mem : .varDecl d ∈ x.made) {y : Part} (inside : y ∈ optionMade d.init) :
    y.offset < d.span.start.offset := by
  have own : (optionMade d.init ++ [Part.varDecl d]).Pairwise Precedes :=
    pairwise_of_mem_made related mem
  obtain ⟨-, -, behind⟩ := List.pairwise_append.1 own
  -- a declaration shares its place with no part
  exact (behind y inside _ (List.mem_singleton_self _)).resolve_right nofun

theorem declaration_lt (related : x.made.Pairwise Precedes) {d : VarDecl} {before after : List Part}
    (split : x.made = before ++ .varDecl d :: after) {y : Part} (later : y ∈ after) :
    d.span.start.offset < y.offset := by
  rw [split] at related
  obtain ⟨-, behind, -⟩ := List.pairwise_append.1 related
  exact ((List.pairwise_cons.1 behind).1 y later).resolve_right nofun

theorem param_lt (related : x.made.Pairwise Precedes) {f : Function} (mem : .function f ∈ x.made)
    {q : Param} (param : q ∈ f.params) {y : Part} (inside : y ∈ f.body.made) :
    q.span.start.offset < y.offset := by
  have own : (f.params.map Part.param ++ f.body.made ++ [Part.function f]).Pairwise Precedes :=
    pairwise_of_mem_made related mem
  obtain ⟨parts, -, -⟩ := List.pairwise_append.1 own
  obtain ⟨-, -, behind⟩ := List.pairwise_append.1 parts
  exact (behind _ (List.mem_map_of_mem param) y inside).resolve_right nofun

/-- The order of a whole tree is that of each declaration and each function in it. -/
theorem InOrder.of_positions {file : String} (ids : (x.made.filterMap Part.id?).Nodup)
    (places : ∀ y ∈ x.made, y.span = .at ⟨y.offset, file⟩) (positions : x.made.Pairwise Precedes)
    (vars : ∀ r span, .expr (.var r span) ∈ x.made → span = r.span) : x.InOrder file where
  ids := ids
  places := places
  positions := positions
  vars := vars
  initializers _ mem _ inside := initializer_lt positions mem inside
  declarations _ _ _ split _ later := declaration_lt positions split later
  params _ mem _ param _ inside := param_lt positions mem param inside

end Part
end Source

/-- A tree that one builder makes, from any counters, reads back as its draft and is in order. -/
theorem Draft.Tree.place_in_order (t : Draft.Tree) (b : Builder) :
    (t.place b).1.draft? = some t ∧ (t.place b).1.InOrder b.file := by
  have taken := t.place_taken b
  have distinct := taken.ids.related.imp Int.ne_of_lt
  exact ⟨t.draft_place b,
    .of_positions distinct taken.places taken.positions.related taken.vars⟩

/-- In `if (x) ;` the name shares its place with the variable, and the branch that is missing its
place with the `if`. -/
example : ((Draft.Stmt.ifThen (.var "x") .empty).place ⟨"t", 7, 0⟩).1.made.map Part.offset =
    [7, 7, 8, 9, 9] := rfl

end MiddleEnd
