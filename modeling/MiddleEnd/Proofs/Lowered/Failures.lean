import MiddleEnd.Proofs.Checked.Resolution
import MiddleEnd.Proofs.Lowered.Obstacles
import MiddleEnd.Proofs.Scoping.Sheltered

/-!
# Where lowering fails

A checked program may have been reported on, and may still be lowered. If no body of a `do` declares
a variable in the scope around it, lowering fails at the references that were not resolved and at
the jumps outside of a loop, and nowhere else: every variable that a reference was resolved to is
bound by then. A survey says which: at a use, the variables that its scopes have, and a variable
that is declared twice in a scope is the same one both times.

Results:
1. `Ends.append`: needs fail with the first that fails by itself.
2. `StmtCheck.ends`: the needs of a statement, with all variables bound that a survey has.
3. `stops_at_first_failure_of_ordered`: whole programs, where positions do not mislead.
4. `lowering_stops_at_first_failure`: programs that were built.
-/

namespace MiddleEnd

open Survey

/-- The error of a need that fails by itself: a reference that was not resolved, or a jump outside
of a loop. -/
def Need.failure? : Need → Option Error
  | ref r => if r.symbol = none then some r.unbound else none
  | never e => some e
  | function .. | bind .. => none

/-- The errors of such needs, in the order in which lowering meets them. -/
def failuresOf (needs : List Need) : Log := needs.filterMap Need.failure?

theorem failuresOf_append (needs needs' : List Need) :
    failuresOf (needs ++ needs') = failuresOf needs ++ failuresOf needs' := List.filterMap_append

namespace Typed

/-- The errors of the references that were not resolved. -/
def lost (refs : List Ref) : Log := (refs.filter fun r => r.symbol.isNone).map Ref.unbound

mutual

/-- The errors of the jumps that stand in no loop of a statement. -/
def Stmt.strays : Stmt → Log
  | .block body => straysOf body
  | .ite _ ifTrue ifFalse => ifTrue.strays ++ ifFalse.strays
  | .brk span => [⟨.breakOutsideLoop, span.start⟩]
  | .cont span => [⟨.continueOutsideLoop, span.start⟩]
  | .decl _ | .expr _ | .empty | .whileDo .. | .doWhile .. | .forLoop .. | .ret _ => []

/-- The same for statements. -/
def straysOf : List Stmt → Log
  | [] => []
  | s :: rest => s.strays ++ straysOf rest

end

mutual

theorem Stmt.cause_of_strays (s : Stmt) {e : Error} (mem : e ∈ s.strays) :
    e.cause = .breakOutsideLoop ∨ e.cause = .continueOutsideLoop := by
  cases s with
  | block body => exact cause_of_straysOf body mem
  | ite test ifTrue ifFalse =>
    exact (List.mem_append.1 mem).elim ifTrue.cause_of_strays ifFalse.cause_of_strays
  | brk => exact .inl (List.mem_singleton.1 mem ▸ rfl)
  | cont => exact .inr (List.mem_singleton.1 mem ▸ rfl)
  | decl | expr | empty | whileDo | doWhile | forLoop | ret => cases mem

theorem cause_of_straysOf (ss : List Stmt) {e : Error} (mem : e ∈ straysOf ss) :
    e.cause = .breakOutsideLoop ∨ e.cause = .continueOutsideLoop := by
  cases ss with
  | nil => cases mem
  | cons s rest => exact (List.mem_append.1 mem).elim s.cause_of_strays (cause_of_straysOf rest)

end

/-- The same for a program. -/
def Program.strays (p : Program) : Log := p.functions.flatMap fun f => straysOf f.body

/-- The nodes of a program that lowering must fail at, as errors, in the order in which they are
lowered. -/
def Program.failures (p : Program) : Log := failuresOf p.needs

theorem mem_lost {refs : List Ref} {e : Error} :
    e ∈ lost refs ↔ ∃ r ∈ refs, r.symbol = none ∧ r.unbound = e := by
  simp [lost, and_assoc]

theorem mem_lost_append {refs refs' : List Ref} {e : Error} :
    e ∈ lost (refs ++ refs') ↔ e ∈ lost refs ∨ e ∈ lost refs' := by
  rw [lost, List.filter_append, List.map_append, List.mem_append, lost, lost]

theorem mem_failuresOf_append {needs needs' : List Need} {e : Error} :
    e ∈ failuresOf (needs ++ needs') ↔ e ∈ failuresOf needs ∨ e ∈ failuresOf needs' := by
  rw [failuresOf_append, List.mem_append]

theorem failuresOf_ref (r : Ref) : failuresOf [.ref r] = lost [r] := by
  cases symbol : r.symbol <;> simp [failuresOf, lost, Need.failure?, symbol]

/-- The failures of an expression are its references that were not resolved. -/
theorem Expr.mem_failuresOf {x : Expr} {e : Error} : e ∈ failuresOf x.needs ↔ e ∈ lost x.refs := by
  induction x with
  | const => exact Iff.rfl
  | var r => rw [needs, refs, failuresOf_ref]
  | unary _ _ _ _ ih => exact ih
  | binary _ _ _ _ _ ih₁ ih₂ =>
    rw [needs, refs, mem_failuresOf_append, mem_lost_append, ih₁, ih₂]
  | assign target value _ _ ih =>
    rw [needs, refs, ← List.singleton_append, mem_failuresOf_append, mem_lost_append,
      failuresOf_ref, ih, or_comm]
  | cond _ _ _ _ _ ih₁ ih₂ ih₃ =>
    rw [needs, refs, mem_failuresOf_append, mem_failuresOf_append, mem_lost_append,
      mem_lost_append, ih₁, ih₂, ih₃]

theorem mem_failuresOf_option {x : Option Expr} {e : Error} :
    e ∈ failuresOf (optionNeeds x) ↔ e ∈ lost (optionRefs x) := by
  cases x with
  | none => exact Iff.rfl
  | some x => exact x.mem_failuresOf

theorem VarDecl.mem_failuresOf {d : VarDecl} {e : Error} :
    e ∈ failuresOf d.needs ↔ e ∈ lost d.refs := mem_failuresOf_option

theorem ForInit.mem_failuresOf {init : Option ForInit} {e : Error} :
    e ∈ failuresOf (ForInit.needs init) ↔ e ∈ lost (ForInit.refs init) := by
  match init with
  | none => exact Iff.rfl
  | some (.decl d) => exact d.mem_failuresOf
  | some (.expr x) => exact x.mem_failuresOf

mutual

/-- The failures of a statement are its references that were not resolved and, outside of a loop,
its jumps that stand in no loop. -/
theorem Stmt.mem_failuresOf (s : Stmt) (inLoop : Bool) {e : Error} :
    e ∈ failuresOf (s.needs inLoop) ↔ e ∈ lost s.refs ∨ inLoop = false ∧ e ∈ s.strays := by
  cases s with
  | decl d => simp [Stmt.needs, Stmt.refs, Stmt.strays, d.mem_failuresOf]
  | expr x | ret x => simp [Stmt.needs, Stmt.refs, Stmt.strays, x.mem_failuresOf]
  | empty => simp [Stmt.needs, Stmt.refs, Stmt.strays, failuresOf, lost]
  | brk | cont =>
    cases inLoop <;> simp [Stmt.needs, Stmt.refs, Stmt.strays, failuresOf, lost, Need.failure?]
  | block body =>
    rw [Stmt.needs, Stmt.refs, Stmt.strays]
    exact mem_failuresOf_stmts body inLoop
  | ite test ifTrue ifFalse =>
    rw [Stmt.needs, Stmt.refs, Stmt.strays, mem_failuresOf_append, mem_failuresOf_append,
      mem_lost_append, mem_lost_append, List.mem_append, test.mem_failuresOf,
      ifTrue.mem_failuresOf, ifFalse.mem_failuresOf]
    tauto
  | whileDo test body =>
    rw [Stmt.needs, Stmt.refs, Stmt.strays, mem_failuresOf_append, mem_lost_append,
      test.mem_failuresOf, body.mem_failuresOf]
    simp
  | doWhile body test =>
    rw [Stmt.needs, Stmt.refs, Stmt.strays, mem_failuresOf_append, mem_lost_append,
      test.mem_failuresOf, body.mem_failuresOf]
    simp [or_comm]
  | forLoop init test step body =>
    rw [Stmt.needs, Stmt.refs, Stmt.strays, mem_failuresOf_append, mem_failuresOf_append,
      mem_failuresOf_append, mem_lost_append, mem_lost_append, mem_lost_append,
      ForInit.mem_failuresOf, mem_failuresOf_option, mem_failuresOf_option, body.mem_failuresOf]
    simp only [Bool.true_eq_false, false_and, or_false, List.not_mem_nil, and_false]
    tauto

theorem mem_failuresOf_stmts (ss : List Stmt) (inLoop : Bool) {e : Error} :
    e ∈ failuresOf (needsOf inLoop ss) ↔
      e ∈ lost (refsOf ss) ∨ inLoop = false ∧ e ∈ straysOf ss := by
  cases ss with
  | nil => simp [needsOf, refsOf, straysOf, failuresOf, lost]
  | cons s rest =>
    rw [needsOf, refsOf, straysOf, mem_failuresOf_append, mem_lost_append, List.mem_append,
      s.mem_failuresOf, mem_failuresOf_stmts rest]
    tauto

end

/-- Nothing but the body of a function fails by itself. -/
theorem Function.failuresOf_needs (f : Function) :
    failuresOf f.needs = failuresOf (needsOf false f.body) := by
  have params : failuresOf (f.params.map fun p => .bind p.symbol p.name p.span) = [] := by
    refine List.filterMap_eq_nil_iff.2 ?_
    intro need mem
    obtain ⟨p, -, rfl⟩ := List.mem_map.1 mem
    rfl
  rw [needs, failuresOf_append, ← List.singleton_append, failuresOf_append, params]
  rfl

/-- The failures of a program are its references that were not resolved and its jumps that stand in
no loop. -/
theorem Program.mem_failures {p : Program} {e : Error} :
    e ∈ p.failures ↔ e ∈ lost p.refs ∨ e ∈ p.strays := by
  have whole : p.failures = p.functions.flatMap fun f => failuresOf f.needs := by
    rw [failures, needs, failuresOf, List.filterMap_flatMap]
    rfl
  have missing : lost p.refs = p.functions.flatMap fun f => lost (refsOf f.body) := by
    rw [refs, lost, List.filter_flatMap, List.map_flatMap]
    rfl
  rw [whole, missing, strays, List.mem_flatMap, List.mem_flatMap, List.mem_flatMap]
  simp only [Function.failuresOf_needs, mem_failuresOf_stmts, true_and, and_or_left, exists_or]

end Typed

/-- Needs fail with the first that fails by itself. If there is none they are met, and the variables
that are bound then satisfy `post`. -/
def Ends (t : SymbolTable) (bound : List SymbolId) (needs : List Need)
    (post : List SymbolId → Prop) : Prop :=
  match failuresOf needs with
  | [] => ∃ bound', Need.meetAll t bound needs = .ok bound' ∧ post bound'
  | e :: _ => Need.meetAll t bound needs = .error e

/-- A survey whose variables are bound. -/
def Covers (w : Survey) (bound : List SymbolId) : Prop :=
  ∀ i name id, i ≠ 0 → firstIn w.entries i name = some id → id ∈ bound

/-- A use that is resolved to a bound variable, if to a variable at all. -/
def Found (t : SymbolTable) (path : ScopePath) (bound : List SymbolId) (r : Source.Ref) : Prop :=
  ∀ (id : SymbolId) (v : VariableInfo), t.lookup r.name r.span.start path = .ok (some id) →
    t.symbols[id]? = some (.var v) → id ∈ bound

/-- At a step after those of a survey the table has the scope that the survey counts next. A
declaration is the first under its name in its scope so far, and a use is resolved to what one of
the open scopes has so far. -/
def Tracks (t : SymbolTable) (w : Survey) : Step → Prop
  | .enter id _ => t.scopeIndex? id = some w.owners.length
  | .leave => True
  | .declare s => ∃ id, t.innermost? w.path s.name = some id ∧ (t.variableAt id).isSome ∧
      firstIn (w.step (.declare s)).entries (w.path.headD 0) s.name = some id
  | .use r => ∀ (id : SymbolId) (v : VariableInfo),
      t.lookup r.name r.span.start w.path = .ok (some id) → t.symbols[id]? = some (.var v) →
      ∃ i ∈ w.path, i ≠ 0 ∧ firstIn w.entries i r.name = some id

namespace Ends

variable {t : SymbolTable} {bound : List SymbolId} {needs needs' : List Need}
  {post post' : List SymbolId → Prop}

theorem nil (h : post bound) : Ends t bound [] post := ⟨bound, rfl, h⟩

theorem mono (h : Ends t bound needs post) (weaker : ∀ bound', post bound' → post' bound') :
    Ends t bound needs post' := by
  unfold Ends at h ⊢
  cases first : failuresOf needs with
  | nil =>
    rw [first] at h
    obtain ⟨bound', met, holds⟩ := h
    exact ⟨bound', met, weaker bound' holds⟩
  | cons e rest =>
    rw [first] at h
    exact h

theorem append (h : Ends t bound needs post)
    (h' : ∀ bound', post bound' → Ends t bound' needs' post') :
    Ends t bound (needs ++ needs') post' := by
  unfold Ends at h ⊢
  rw [failuresOf_append, Need.meetAll_append]
  cases first : failuresOf needs with
  | nil =>
    rw [first] at h
    obtain ⟨bound', met, holds⟩ := h
    rw [met]
    exact h' bound' holds
  | cons e rest =>
    rw [first] at h
    have failed : Need.meetAll t bound needs = .error e := h
    rw [failed]
    rfl

/-- Needs that bind nothing come first. -/
theorem andThen (h : Ends t bound needs (· = bound)) (h' : Ends t bound needs' post) :
    Ends t bound (needs ++ needs') post := by
  refine h.append ?_
  rintro _ rfl
  exact h'

theorem function {id : SymbolId} {name : String} {span : Span} (isFn : (t.functionAt id).isSome)
    (h : post bound) : Ends t bound [.function id name span] post := by
  refine ⟨bound, ?_, h⟩
  rw [Need.meetAll_singleton, Need.meet, if_pos isFn]

theorem bind {id : SymbolId} {name : String} {span : Span} (isVar : (t.variableAt id).isSome)
    (h : post (id :: bound)) : Ends t bound [.bind id name span] post := by
  refine ⟨id :: bound, ?_, h⟩
  rw [Need.meetAll_singleton, Need.meet, if_pos isVar]

theorem never (e : Error) : Ends t bound [.never e] post :=
  Need.meetAll_singleton t bound (.never e)

end Ends

/-! ## Expressions -/

variable {Γ : CheckContext} {w : Survey} {bound : List SymbolId}

theorem RefCheck.ends {t : SymbolTable} {path : ScopePath} {r : Source.Ref} {r' : Typed.Ref}
    {log : Log} (h : RefCheck t path r r' log) (found : Found t path bound r) :
    Ends t bound [.ref r'] (· = bound) := by
  cases h with
  | notFound | notVariable => exact Need.meetAll_singleton t bound _
  | found looked isVar =>
    refine ⟨bound, ?_, rfl⟩
    rw [Need.meetAll_singleton]
    exact if_pos (found _ _ looked isVar)

/-- An expression fails with its first reference that was not resolved. -/
theorem ExprCheck.ends {path : ScopePath} {e : Source.Expr} {e' : Typed.Expr} {log : Log}
    (h : ExprCheck Γ path e e' log) (found : ∀ r ∈ e.uses, Found Γ.symbols path bound r) :
    Ends Γ.symbols bound e'.needs (· = bound) := by
  induction h with
  | const => exact .nil rfl
  | var h => exact h.ends (found _ List.mem_cons_self)
  | unary _ ih => exact ih found
  | binary _ _ ih₁ ih₂ =>
    obtain ⟨found₁, found₂⟩ := List.forall_mem_append.1 found
    exact (ih₁ found₁).andThen (ih₂ found₂)
  | assign h _ ih =>
    obtain ⟨foundValue, foundTarget⟩ := List.forall_mem_append.1 found
    exact (h.ends (foundTarget _ List.mem_cons_self)).andThen (ih foundValue)
  | cond _ _ _ ih₁ ih₂ ih₃ =>
    obtain ⟨found, found₃⟩ := List.forall_mem_append.1 found
    obtain ⟨found₁, found₂⟩ := List.forall_mem_append.1 found
    exact ((ih₁ found₁).andThen (ih₂ found₂)).andThen (ih₃ found₃)

/-- What is bound stays covered. -/
theorem Ends.covers {t : SymbolTable} {needs : List Need} (h : Ends t bound needs (· = bound))
    (covers : Covers w bound) : Ends t bound needs (Covers w) := by
  refine h.mono ?_
  rintro _ rfl
  exact covers

theorem FitsCheck.ends {path : ScopePath} {ty : Ty} {e : Source.Expr} {e' : Typed.Expr} {log : Log}
    (h : FitsCheck Γ path ty e e' log) (found : ∀ r ∈ e.uses, Found Γ.symbols path bound r) :
    Ends Γ.symbols bound e'.needs (· = bound) := by
  cases h with
  | mk h => exact h.ends found

theorem TestCheck.ends {path : ScopePath} {e : Source.Expr} {e' : Typed.Expr} {log : Log}
    (h : TestCheck Γ path e e' log) (found : ∀ r ∈ e.uses, Found Γ.symbols path bound r) :
    Ends Γ.symbols bound e'.needs (· = bound) := by
  cases h with
  | mk h => exact h.ends found

/-! ## Statements -/

/-- What is bound for a survey is bound for an earlier one. -/
theorem Covers.of_run {steps : List Step} (h : Covers (w.run steps) bound) : Covers w bound := by
  obtain ⟨later, grown, -⟩ := entries_run w steps
  intro i name id inner first
  refine h i name id inner ?_
  rw [grown]
  exact firstIn_append_of_eq_some first later

theorem Covers.cons (h : Covers w bound) (id : SymbolId) : Covers w (id :: bound) :=
  fun i name other inner first => List.mem_cons_of_mem id (h i name other inner first)

/-- A declaration covers what it adds. -/
theorem Covers.declare (h : Covers w bound) {s : Symbol} {id : SymbolId}
    (first : firstIn (w.step (.declare s)).entries (w.path.headD 0) s.name = some id) :
    Covers (w.step (.declare s)) (id :: bound) := by
  intro i name other inner found
  have here := found
  rw [step, firstIn_concat] at here
  cases earlier : firstIn w.entries i name with
  | some old =>
    rw [earlier, Option.some_or, Option.some_inj] at here
    exact List.mem_cons_of_mem _ (here ▸ h i name old inner earlier)
  | none =>
    -- it is what the scope has under the name from now on
    rw [earlier, Option.none_or] at here
    split at here
    · next same =>
      obtain ⟨rfl, rfl⟩ := same
      cases first.symm.trans found
      exact List.mem_cons_self
    · cases here

/-- Where the variables of a survey are bound, its uses are resolved to bound ones. -/
theorem found_of_tracks {t : SymbolTable} {e : Source.Expr} (tracks : w.All (Tracks t) e.script)
    (covers : Covers w bound) : ∀ r ∈ e.uses, Found t w.path bound r := by
  intro r mem id v looked isVar
  obtain ⟨i, -, inner, first⟩ := all_uses.1 tracks r mem id v looked isVar
  exact covers i r.name id inner first

/-- A test behind a body that declares nothing around it sees what was declared before. -/
theorem found_behind {t : SymbolTable} (sound : w.Sound) {body : Source.Stmt} {e : Source.Expr}
    (quiet : body.declares = false) (tracks : (w.run body.script).All (Tracks t) e.script)
    (covers : Covers w bound) : ∀ r ∈ e.uses, Found t w.path bound r := by
  intro r mem id v looked isVar
  rw [← path_run_stmt w body] at looked
  obtain ⟨i, opened, inner, first⟩ := all_uses.1 tracks r mem id v looked isVar
  rw [path_run_stmt] at opened
  rw [firstIn_run_of_lt quiet (sound.open_lt i opened)] at first
  exact covers i r.name id inner first

theorem OptionCheck.ends {e : Option Source.Expr} {e' : Option Typed.Expr} {log : Log}
    (h : OptionCheck Γ w.path e e' log) (tracks : w.All (Tracks Γ.symbols) (Source.optionScript e))
    (covers : Covers w bound) : Ends Γ.symbols bound (Typed.optionNeeds e') (· = bound) := by
  cases h with
  | none => exact .nil rfl
  | some h => exact h.ends (found_of_tracks tracks covers)

theorem VarDeclCheck.ends {d : Source.VarDecl} {d' : Typed.VarDecl} {log : Log}
    (h : VarDeclCheck Γ w.path d d' log) (tracks : w.All (Tracks Γ.symbols) d.script)
    (covers : Covers w bound) : Ends Γ.symbols bound d'.needs (Covers (w.run d.script)) := by
  obtain ⟨tracksInit, ⟨id, named, isVar, first⟩, -⟩ := all_append.1 tracks
  rw [run_option] at named first
  have after := covers.declare first
  rw [run_varDecl]
  cases h with
  | plain named' absent =>
    cases named'.symm.trans named
    rw [Typed.VarDecl.needs]
    exact .bind isVar after
  | init named' present h =>
    cases named'.symm.trans named
    rw [present] at tracksInit
    have value := h.ends (found_of_tracks tracksInit (covers.cons id))
    have first : Ends Γ.symbols bound [.bind id d.name d.span] (· = id :: bound) := .bind isVar rfl
    refine first.append ?_
    rintro _ rfl
    exact value.covers after

theorem ForInitCheck.ends {init : Option Source.ForInit} {init' : Option Typed.ForInit}
    {log : Log} (h : ForInitCheck Γ w.path init init' log)
    (tracks : w.All (Tracks Γ.symbols) (Source.ForInit.script init)) (covers : Covers w bound) :
    Ends Γ.symbols bound (Typed.ForInit.needs init')
      (Covers (w.run (Source.ForInit.script init))) := by
  cases h with
  | none => exact .nil covers
  | decl h => exact h.ends tracks covers
  | expr h =>
    unfold Source.ForInit.script
    rw [run_expr]
    exact (h.ends (found_of_tracks tracks covers)).covers covers

mutual

/-- A statement fails with its first reference that was not resolved or jump outside of a loop.
Otherwise all variables are bound afterwards that the survey has then. -/
theorem StmtCheck.ends {Γ : CheckContext} {returnTy : Ty} {w : Survey} {bound : List SymbolId}
    {s : Source.Stmt} {s' : Typed.Stmt} {log : Log} (h : StmtCheck Γ returnTy w.path s s' log)
    (sound : w.Sound) (sheltered : s.sheltered = true)
    (tracks : w.All (Tracks Γ.symbols) s.script) (covers : Covers w bound) (inLoop : Bool) :
    Ends Γ.symbols bound (s'.needs inLoop) (Covers (w.run s.script)) := by
  cases h with
  | decl h => exact h.ends tracks covers
  | expr h =>
    unfold Source.Stmt.script
    rw [run_expr]
    exact (h.ends (found_of_tracks tracks covers)).covers covers
  | ret h =>
    unfold Source.Stmt.script
    rw [run_expr]
    exact (h.ends (found_of_tracks tracks covers)).covers covers
  | empty => exact .nil covers
  | brk | cont =>
    cases inLoop with
    | true => exact .nil covers
    | false => exact .never _
  | @block _ _ _ id _ _ _ owned h =>
    obtain ⟨entered, tracksBody⟩ := all_scope tracks
    cases owned.symm.trans entered
    have inner := StmtsCheck.ends (w := w.step (.enter id .block)) h (sound.step _) sheltered
      tracksBody covers inLoop
    unfold Source.Stmt.script
    rw [List.cons_append, run_cons, run_append]
    exact inner
  | @ite _ _ ifTrue _ _ _ _ _ _ _ _ h₁ h₂ h₃ =>
    obtain ⟨sheltered₂, sheltered₃⟩ := Bool.and_eq_true_iff.1 sheltered
    obtain ⟨tracks, tracks₃⟩ := all_append.1 tracks
    obtain ⟨tracks₁, tracks₂⟩ := all_append.1 tracks
    rw [run_expr] at tracks₂
    rw [run_append, run_expr] at tracks₃
    rw [← path_run_stmt w ifTrue] at h₃
    have test := h₁.ends (found_of_tracks tracks₁ covers)
    have first := h₂.ends sound sheltered₂ tracks₂ covers inLoop
    unfold Source.Stmt.script
    rw [run_append, run_append, run_expr]
    exact (test.andThen first).append fun _ covers' =>
      h₃.ends (sound.run _) sheltered₃ tracks₃ covers' inLoop
  | whileDo h₁ h₂ =>
    obtain ⟨tracks₁, tracks₂⟩ := all_append.1 tracks
    rw [run_expr] at tracks₂
    unfold Source.Stmt.script
    rw [run_append, run_expr]
    exact (h₁.ends (found_of_tracks tracks₁ covers)).andThen
      (h₂.ends sound sheltered tracks₂ covers true)
  | @doWhile _ test body _ b _ _ _ h₁ h₂ =>
    obtain ⟨quiet, sheltered⟩ := Bool.and_eq_true_iff.1 sheltered
    obtain ⟨tracks₂, tracks₁⟩ := all_append.1 tracks
    -- the test is lowered before the body, which has declared nothing that the test could see
    have test := h₁.ends (found_behind sound (by simpa using quiet) tracks₁ covers)
    unfold Source.Stmt.script
    rw [run_append, run_expr]
    exact test.andThen (h₂.ends sound sheltered tracks₂ covers true)
  | @forLoop _ init _ _ body _ _ _ _ id _ _ _ _ _ _ owned h₁ h₂ h₃ h₄ =>
    obtain ⟨entered, tracksRest⟩ := all_scope tracks
    cases owned.symm.trans entered
    obtain ⟨tracksClauses, tracks₄⟩ := all_append.1 tracksRest
    obtain ⟨tracksFirst, tracks₃⟩ := all_append.1 tracksClauses
    obtain ⟨tracks₁, tracks₂⟩ := all_append.1 tracksFirst
    rw [run_append, run_append, run_option, run_option] at tracks₄
    rw [run_append, run_option] at tracks₃
    have inside : ((w.step (.enter id .block)).run (Source.ForInit.script init)).path =
        w.owners.length :: w.path := path_forInit ..
    rw [← inside] at h₂ h₃ h₄
    have first := ForInitCheck.ends (w := w.step (.enter id .block)) h₁ tracks₁ covers
    unfold Source.Stmt.script
    rw [List.cons_append, run_cons, run_append]
    simp only [run_append, run_option]
    have clauses := first.append fun _ covers' => (h₂.ends tracks₂ covers').covers covers'
    have ran := clauses.append fun _ covers' =>
      h₄.ends ((sound.step _).run _) sheltered tracks₄ covers' true
    -- the last clause sees what was declared before the body
    exact ran.append fun _ covers' => (h₃.ends tracks₃ covers'.of_run).covers covers'

theorem StmtsCheck.ends {Γ : CheckContext} {returnTy : Ty} {w : Survey} {bound : List SymbolId}
    {ss : List Source.Stmt} {ss' : List Typed.Stmt} {log : Log}
    (h : StmtsCheck Γ returnTy w.path ss ss' log) (sound : w.Sound)
    (sheltered : Source.shelteredAll ss = true)
    (tracks : w.All (Tracks Γ.symbols) (Source.scriptOf ss)) (covers : Covers w bound)
    (inLoop : Bool) :
    Ends Γ.symbols bound (Typed.needsOf inLoop ss') (Covers (w.run (Source.scriptOf ss))) := by
  cases h with
  | nil => exact .nil covers
  | @cons _ s _ _ _ _ _ h₁ h₂ =>
    obtain ⟨sheltered₁, sheltered₂⟩ := Bool.and_eq_true_iff.1 sheltered
    obtain ⟨tracks₁, tracks₂⟩ := all_append.1 tracks
    rw [← path_run_stmt w s] at h₂
    unfold Source.scriptOf
    rw [run_append]
    exact (h₁.ends sound sheltered₁ tracks₁ covers inLoop).append fun _ covers' =>
      h₂.ends (sound.run _) sheltered₂ tracks₂ covers' inLoop

end

theorem ParamsCheck.ends {ps : List Source.Param} {ps' : List Typed.Param}
    (h : ParamsCheck Γ w.path ps ps')
    (tracks : w.All (Tracks Γ.symbols) (ps.map fun p => .declare p.symbol))
    (covers : Covers w bound) :
    Ends Γ.symbols bound (ps'.map fun p => .bind p.symbol p.name p.span)
      (Covers (w.run (ps.map fun p => .declare p.symbol))) := by
  induction ps generalizing w bound ps' with
  | nil =>
    cases h
    exact .nil covers
  | cons p rest ih =>
    cases h with
    | @cons _ _ _ id named h =>
      obtain ⟨⟨_, named', isVar, first⟩, tracksRest⟩ := tracks
      cases named.symm.trans named'
      have one : Ends Γ.symbols bound [.bind id p.name p.span]
          (Covers (w.step (.declare p.symbol))) := .bind isVar (covers.declare first)
      exact one.append fun _ covers' => ih (w := w.step (.declare p.symbol)) h tracksRest covers'

theorem FunctionCheck.ends {f : Source.Function} {f' : Typed.Function} {log : Log}
    (h : FunctionCheck Γ w.path f f' log) (sound : w.Sound)
    (sheltered : Source.shelteredAll f.body.stmts = true)
    (tracks : w.All (Tracks Γ.symbols) f.script) (covers : Covers w bound) :
    Ends Γ.symbols bound f'.needs (Covers (w.run f.script)) := by
  cases h with
  | mk named isFn owned params body =>
    obtain ⟨entered, tracksRest⟩ := all_scope tracks
    cases owned.symm.trans entered
    obtain ⟨tracksParams, tracksBody⟩ := all_append.1 tracksRest
    have inside : ((w.step (.enter f.body.id .function)).run
        (f.params.map fun p => .declare p.symbol)).path = w.owners.length :: w.path :=
      path_run_declares ..
    rw [← inside] at body
    have isFunction {bound' : List SymbolId} {post : List SymbolId → Prop} (h : post bound') :
        Ends Γ.symbols bound' [.function _ f.name f.span] post := .function isFn h
    have bound := ParamsCheck.ends (w := w.step (.enter f.body.id .function)) params
      tracksParams covers
    have entry := (Ends.andThen (isFunction rfl) bound).append fun _ covers' => isFunction covers'
    have whole := entry.append fun _ covers' =>
      body.ends ((sound.step _).run _) sheltered tracksBody covers' false
    rw [List.append_assoc] at whole
    unfold Source.Function.script
    rw [List.cons_append, run_cons, run_append, run_append]
    exact whole

theorem FunctionsCheck.ends {fs : List Source.Function} {fs' : List Typed.Function} {log : Log}
    (h : FunctionsCheck Γ w.path fs fs' log) (sound : w.Sound)
    (sheltered : ∀ f ∈ fs, Source.shelteredAll f.body.stmts = true)
    (tracks : w.All (Tracks Γ.symbols) (fs.flatMap Source.Function.script))
    (covers : Covers w bound) :
    Ends Γ.symbols bound (fs'.flatMap Typed.Function.needs)
      (Covers (w.run (fs.flatMap Source.Function.script))) := by
  induction fs generalizing w bound fs' log with
  | nil =>
    cases h
    exact .nil covers
  | cons f rest ih =>
    cases h with
    | cons h₁ h₂ =>
      obtain ⟨sheltered₁, sheltered₂⟩ := List.forall_mem_cons.1 sheltered
      obtain ⟨tracks₁, tracks₂⟩ := all_append.1 tracks
      rw [← path_run_function w f] at h₂
      rw [List.flatMap_cons, List.flatMap_cons, run_append]
      exact (h₁.ends sound sheltered₁ tracks₁ covers).append fun _ covers' =>
        ih h₂ (sound.run _) sheltered₂ tracks₂ covers'

/-! ## Programs -/

/-- A local declaration has the number of a variable. -/
theorem le_of_firstIn {p : Source.Program} {i : ScopeIndex} {name : String} {id : SymbolId}
    (inner : i ≠ 0) (first : firstIn (ofProgram p).entries i name = some id) :
    p.functions.length ≤ id ∧ id < (ofProgram p).entries.length := by
  obtain ⟨e, found, rfl, -⟩ := firstIn_eq_some first
  refine ⟨Nat.not_lt.1 fun below => ?_, (List.getElem?_eq_some_iff.1 found).1⟩
  obtain ⟨later, grown, -⟩ := entries_run p.globals p.main
  rw [p.ofProgram_eq, grown, List.getElem?_append_left (by simpa [p.globals_entries] using below),
    p.globals_entries] at found
  obtain ⟨f, -, rfl⟩ := List.mem_map.1 (List.mem_of_getElem? found)
  exact inner rfl

/-- At every step inside the functions the table has what the survey counts. -/
theorem tracks {p : Source.Program} (ordered : p.Ordered) :
    p.globals.All (Tracks (Declarations.ofProgram p).table) p.main := by
  refine all_iff.2 ?_
  intro pre s post split
  cases s with
  | enter id kind => exact all_iff.1 (follows ordered) pre _ post split
  | leave => trivial
  | declare s =>
    have inner := (all_iff.1 p.main_inside pre _ post split).1
    obtain ⟨later, whole⟩ := entries_at_declare split
    cases path : (p.globals.run pre).path with
    | nil => exact absurd (by rw [path]; rfl) inner
    | cons i outer =>
      rw [path] at inner whole
      have innermost := innermost_at p outer (open_lt_at split i (path ▸ List.mem_cons_self)) s.name
      -- the scope has the name by now, so it has it once and for all
      cases first : firstIn ((p.globals.run pre).entries ++ [⟨i, s⟩]) i s.name with
      | none =>
        refine absurd rfl (firstIn_eq_none.1 first ⟨i, s⟩ ?_ rfl)
        exact List.mem_append_right _ List.mem_cons_self
      | some id =>
        have final := firstIn_append_of_eq_some first later
        rw [List.append_assoc] at final
        have final : firstIn (ofProgram p).entries i s.name = some id := whole ▸ final
        obtain ⟨above, below⟩ := le_of_firstIn inner final
        obtain ⟨v, isVar, -⟩ := variable_at p above below
        refine ⟨id, ?_, ?_, ?_⟩
        · rw [path, innermost, final]
        · rw [SymbolTable.variableAt, isVar]
          rfl
        · rw [step, path]
          exact first
  | use r =>
    intro id v looked isVar
    rw [lookup_eq ordered split] at looked
    injection looked with looked
    obtain ⟨i, opened, first⟩ := List.exists_of_findSome?_eq_some looked
    refine ⟨i, opened, ?_, first⟩
    rintro rfl
    obtain ⟨e, found, global, -⟩ := firstIn_eq_some first
    have isVar : ((Declarations.ofProgram p).table.variableAt id).isSome := by
      rw [SymbolTable.variableAt, isVar]
      rfl
    exact local_at split (lt_of_variableAt p isVar).1 found global

theorem ProgramCheck.ends {p : Source.Program} (ordered : p.Ordered)
    (sheltered : p.sheltered = true) {config : Config} {typed : Typed.Program} {log : Log}
    (h : ProgramCheck ⟨(Declarations.ofProgram p).table, config⟩ p typed log) :
    Ends (Declarations.ofProgram p).table [] typed.needs fun _ => True := by
  have start : Covers p.globals [] := by
    intro i name id inner first
    obtain ⟨e, found, rfl, -⟩ := firstIn_eq_some first
    rw [p.globals_entries] at found
    obtain ⟨f, -, rfl⟩ := List.mem_map.1 (List.mem_of_getElem? found)
    exact absurd rfl inner
  cases h with
  | mk owned h =>
    cases owned.symm.trans (scopeIndex_global ordered.owners)
    rw [← p.globals_path] at h
    have whole := h.ends p.globals_sound (List.all_eq_true.1 sheltered) (tracks ordered) start
    exact whole.mono fun _ _ => trivial

/-- A typed program has no failures if every reference was resolved and every jump stands in a
loop. -/
theorem Typed.Program.failures_eq_nil_iff (p : Typed.Program) :
    p.failures = [] ↔ (∀ r ∈ p.refs, r.symbol ≠ none) ∧ p.strays = [] := by
  simp only [List.eq_nil_iff_forall_not_mem, Typed.Program.mem_failures, not_or, forall_and]
  refine and_congr_left fun _ => ⟨?_, ?_⟩
  · intro found r mem missing
    exact found r.unbound (Typed.mem_lost.2 ⟨r, mem, missing, rfl⟩)
  · rintro found e lost
    obtain ⟨r, mem, missing, -⟩ := Typed.mem_lost.1 lost
    exact found r mem missing

/-- A failure is a reference without a symbol or a jump outside a loop, and nothing else. -/
theorem Typed.Program.cause_of_failures (p : Typed.Program) {e : Error} (mem : e ∈ p.failures) :
    (∀ name, e.cause ≠ .unsupportedLvalue name) ∧ e.cause ≠ .noOpenFunction := by
  rcases Typed.Program.mem_failures.1 mem with lost | stray
  · obtain ⟨r, -, -, rfl⟩ := Typed.mem_lost.1 lost
    exact ⟨nofun, nofun⟩
  · obtain ⟨f, -, stray⟩ := List.mem_flatMap.1 stray
    rcases Typed.cause_of_straysOf f.body stray with cause | cause <;> simp [cause]

/-- If positions do not mislead and no body of a `do` declares a variable in the scope around it,
the check comes to its end, and lowering succeeds or fails with the first failure of the typed
tree. -/
theorem stops_at_first_failure_of_ordered {p : Source.Program} (ordered : p.Ordered)
    (config : Config) (sheltered : p.sheltered = true) :
    let table := (Declarations.ofProgram p).table
    ∃ typed issued, checkProgram ⟨table, config⟩ p = .ok (typed, issued) ∧
      ((∃ code, (lowerProgram config table typed).1 = .ok code) ↔
        (∀ r ∈ typed.refs, r.symbol ≠ none) ∧ typed.strays = []) ∧
      (match typed.failures with
        | [] => ∃ code, (lowerProgram config table typed).1 = .ok code
        | e :: _ => (lowerProgram config table typed).1 = .error e) ∧
      ∀ e, (lowerProgram config table typed).1 = .error e →
        (∀ name, e.cause ≠ .unsupportedLvalue name) ∧ e.cause ≠ .noOpenFunction := by
  intro table
  obtain ⟨typed, issued, check, -⟩ := programCheck_of_ordered ordered config
  have ends := check.ends ordered sheltered
  have lowered := lowerProgram_needs config (tempOf_eq_none p) typed
  have outcome : match typed.failures with
      | [] => ∃ code, (lowerProgram config table typed).1 = .ok code
      | e :: _ => (lowerProgram config table typed).1 = .error e := by
    unfold Ends at ends
    rw [Typed.Program.failures]
    cases first : failuresOf typed.needs with
    | nil =>
      rw [first] at ends
      obtain ⟨bound, met, -⟩ := ends
      rw [met] at lowered
      exact lowered
    | cons e rest =>
      rw [first] at ends
      have failed : Need.meetAll table [] typed.needs = .error e := ends
      rw [failed] at lowered
      exact lowered
  refine ⟨typed, issued, check.run, ?_, outcome, ?_⟩
  · rw [← typed.failures_eq_nil_iff]
    cases failures : typed.failures with
    | nil =>
      rw [failures] at outcome
      exact iff_of_true outcome rfl
    | cons e rest =>
      rw [failures] at outcome
      refine iff_of_false ?_ nofun
      rintro ⟨code, ok⟩
      cases ok.symm.trans outcome
  · intro e failed
    refine typed.cause_of_failures ?_
    cases failures : typed.failures with
    | nil =>
      rw [failures] at outcome
      obtain ⟨code, ok⟩ := outcome
      cases ok.symm.trans failed
    | cons e' rest =>
      rw [failures] at outcome
      cases outcome.symm.trans failed
      exact List.mem_cons_self

/-- A program in which no body of a `do` declares a variable in the scope around it is checked to
the end, reported on or not. Lowering what comes out succeeds if every reference was resolved and
every jump stands in a loop, and otherwise fails with the error of the first node that says
otherwise. Lowering never fails for another reason. -/
theorem lowering_stops_at_first_failure (d : Draft.Program) (b : Source.Builder) (config : Config)
    (sheltered : (d.place b).1.sheltered = true) :
    let p := (d.place b).1
    let table := (Declarations.ofProgram p).table
    ∃ typed issued, checkProgram ⟨table, config⟩ p = .ok (typed, issued) ∧
      ((∃ code, (lowerProgram config table typed).1 = .ok code) ↔
        (∀ r ∈ typed.refs, r.symbol ≠ none) ∧ typed.strays = []) ∧
      (match typed.failures with
        | [] => ∃ code, (lowerProgram config table typed).1 = .ok code
        | e :: _ => (lowerProgram config table typed).1 = .error e) ∧
      ∀ e, (lowerProgram config table typed).1 = .error e →
        (∀ name, e.cause ≠ .unsupportedLvalue name) ∧ e.cause ≠ .noOpenFunction :=
  stops_at_first_failure_of_ordered (d.place_ordered b) config sheltered

/-- `int main() { int x; int x; if (y) break; x = z; }` -/
def lostNames : Draft.Program :=
  ⟨[⟨"main", [], .int,
    [.decl ⟨"x", .int, none⟩, .decl ⟨"x", .int, none⟩, .ifThen (.var "y") .brk,
      .expr (.assign "x" (.var "z"))]⟩]⟩

theorem lowering_stops_at_first_failure_of_lostNames :
    let p := (lostNames.place ⟨"t", 0, 0⟩).1
    let table := (Declarations.ofProgram p).table
    p.sheltered = true ∧
      ∃ typed issued, checkProgram ⟨table, {}⟩ p = .ok (typed, issued) ∧ issued.length = 2 ∧
        typed.failures.map Error.cause =
          [.unresolvedSymbol "y", .breakOutsideLoop, .unresolvedSymbol "z"] ∧
        ∃ e, (lowerProgram {} table typed).1 = .error e ∧ e.cause = .unresolvedSymbol "y" := by
  intro p table
  have sheltered : p.sheltered = true := by decide +kernel
  have checked : (checkProgram ⟨table, {}⟩ p).toOption.map
      (fun result => (result.2.length, result.1.failures.map Error.cause)) =
        some (2, [.unresolvedSymbol "y", .breakOutsideLoop, .unresolvedSymbol "z"]) := by
    decide +kernel
  obtain ⟨typed, issued, check, -, outcome, -⟩ :=
    lowering_stops_at_first_failure lostNames ⟨"t", 0, 0⟩ {} sheltered
  rw [show checkProgram ⟨table, {}⟩ p = .ok (typed, issued) from check] at checked
  obtain ⟨two, causes⟩ := Prod.mk.inj (Option.some.inj checked)
  refine ⟨sheltered, typed, issued, check, two, causes, ?_⟩
  cases failures : typed.failures with
  | nil =>
    rw [failures] at causes
    cases causes
  | cons e rest =>
    rw [failures] at outcome causes
    exact ⟨e, outcome, (List.cons.inj causes).1⟩

end MiddleEnd
