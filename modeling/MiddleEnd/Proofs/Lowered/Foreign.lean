import MiddleEnd.Proofs.Checked.Linked
import MiddleEnd.Proofs.Lowered.Accepted
import MiddleEnd.Proofs.Lowered.Needs

/-!
# A program and the table of another

The passes are given a tree and a table. Nothing makes sure that the table was made from the tree,
but a wrong one is only ever answered by an error: no scope and no symbol is taken that the table
does not have.

Results:
1. `ProgramCheck.known`: a checked program names symbols of its table only.
2. `checked_and_lowered`: how the passes end on a program and the table of any other.
-/

namespace MiddleEnd

/-- Whether a cause may end the lowering of a checked program. -/
def Cause.endsLowering : Cause → Bool
  | unresolvedSymbol _ | breakOutsideLoop | continueOutsideLoop => true
  | _ => false

namespace Need

/-- The symbol that lowering looks up for a need. -/
def symbol? : Need → Option SymbolId
  | function id .. | bind id .. => some id
  | ref r => r.symbol
  | never _ => none

/-- A need about one of `n` symbols. A reference to a symbol also says where it is stored, and what
nothing meets is a jump out of no loop. -/
structure Known (n : Nat) (need : Need) : Prop where
  symbol : ∀ id, need.symbol? = some id → id < n
  storage : ∀ r, need = .ref r → r.symbol.isSome → r.storage.isSome
  never : ∀ e, need = .never e → e.cause = .breakOutsideLoop ∨ e.cause = .continueOutsideLoop

variable {t : SymbolTable} {n : Nat} {need : Need} {needs : List Need} {bound : List SymbolId}
  {e : Error}

theorem known_function {id : SymbolId} (below : id < n) (name : String) (span : Span) :
    (function id name span).Known n := ⟨by rintro _ ⟨⟩; exact below, nofun, nofun⟩

theorem known_bind {id : SymbolId} (below : id < n) (name : String) (span : Span) :
    (bind id name span).Known n := ⟨by rintro _ ⟨⟩; exact below, nofun, nofun⟩

/-- The cause for which a need that is known is not met. -/
theorem Known.endsLowering (known : need.Known n) (failed : need.meet t bound = .error e) :
    e.cause.endsLowering = true := by
  cases need with
  | function | bind =>
    rw [meet] at failed
    split at failed <;> cases failed
    rfl
  | ref r =>
    rw [meet] at failed
    split at failed
    · split at failed <;> cases failed
      rfl
    · next symbol storage =>
      have stored := known.storage r rfl (by rw [symbol]; rfl)
      rw [storage] at stored
      cases stored
    · cases failed
      rfl
  | never e' =>
    cases failed
    rcases known.never e rfl with cause | cause <;> rw [cause] <;> rfl

/-- Needs that are not met fail with the error of one of them. -/
theorem exists_of_meetAll_error (failed : meetAll t bound needs = .error e) :
    ∃ need ∈ needs, ∃ bound', need.meet t bound' = .error e := by
  induction needs generalizing bound with
  | nil => cases failed
  | cons need rest ih =>
    rw [← List.singleton_append, meetAll_append, meetAll_singleton] at failed
    cases first : need.meet t bound with
    | error e' =>
      rw [first] at failed
      cases failed
      exact ⟨need, List.mem_cons_self, bound, first⟩
    | ok bound' =>
      rw [first] at failed
      obtain ⟨need', mem, rest⟩ := ih failed
      exact ⟨need', List.mem_cons_of_mem _ mem, rest⟩

end Need

/-! ## Checked trees -/

section Known

variable {Γ : CheckContext} {path : ScopePath} {log : Log} {needs : List Need}

/-- Needs about symbols of a table. -/
abbrev Knows (Γ : CheckContext) (needs : List Need) : Prop :=
  ∀ need ∈ needs, need.Known Γ.symbols.symbols.length

theorem RefCheck.known {r : Source.Ref} {r' : Typed.Ref} (h : RefCheck Γ.symbols path r r' log) :
    (Need.ref r').Known Γ.symbols.symbols.length := by
  cases h with
  | notFound | notVariable => exact ⟨nofun, by rintro _ ⟨⟩; exact nofun, nofun⟩
  | found looked symbol =>
    refine ⟨?_, by rintro _ ⟨⟩ _; rfl, nofun⟩
    rintro _ ⟨⟩
    exact (List.getElem?_eq_some_iff.1 symbol).1

theorem ExprCheck.known {e : Source.Expr} {e' : Typed.Expr} (h : ExprCheck Γ path e e' log) :
    Knows Γ e'.needs := by
  induction h with
  | const => exact nofun
  | var h => exact List.forall_mem_singleton.2 h.known
  | unary _ ih => exact ih
  | binary _ _ ih₁ ih₂ => exact List.forall_mem_append.2 ⟨ih₁, ih₂⟩
  | assign h _ ih => exact List.forall_mem_cons.2 ⟨h.known, ih⟩
  | cond _ _ _ ih₁ ih₂ ih₃ =>
    exact List.forall_mem_append.2 ⟨List.forall_mem_append.2 ⟨ih₁, ih₂⟩, ih₃⟩

theorem OptionCheck.known {e : Option Source.Expr} {e' : Option Typed.Expr}
    (h : OptionCheck Γ path e e' log) : Knows Γ (Typed.optionNeeds e') := by
  cases h with
  | none => exact nofun
  | some h => exact h.known

theorem TestCheck.known {test : Source.Expr} {t : Typed.Expr} (h : TestCheck Γ path test t log) :
    Knows Γ t.needs := by
  cases h with
  | mk h => exact h.known

theorem FitsCheck.known {ty : Ty} {e : Source.Expr} {e' : Typed.Expr}
    (h : FitsCheck Γ path ty e e' log) : Knows Γ e'.needs := by
  cases h with
  | mk h => exact h.known

theorem VarDeclCheck.known (linked : Γ.symbols.Linked) {d : Source.VarDecl} {d' : Typed.VarDecl}
    (h : VarDeclCheck Γ path d d' log) : Knows Γ d'.needs := by
  cases h with
  | plain named =>
    exact List.forall_mem_singleton.2 (Need.known_bind (linked.innermost?_lt named) _ _)
  | init named _ h =>
    exact List.forall_mem_cons.2 ⟨Need.known_bind (linked.innermost?_lt named) _ _, h.known⟩

theorem ForInitCheck.known (linked : Γ.symbols.Linked) {init : Option Source.ForInit}
    {init' : Option Typed.ForInit} (h : ForInitCheck Γ path init init' log) :
    Knows Γ (Typed.ForInit.needs init') := by
  cases h with
  | none => exact nofun
  | decl h => exact h.known linked
  | expr h => exact h.known

theorem known_jump (inLoop : Bool) {cause : Cause}
    (jump : cause = .breakOutsideLoop ∨ cause = .continueOutsideLoop) (pos : Pos) :
    Knows Γ (if inLoop then [] else [.never ⟨cause, pos⟩]) := by
  cases inLoop with
  | true => exact nofun
  | false => exact List.forall_mem_singleton.2 ⟨nofun, nofun, by rintro _ ⟨⟩; exact jump⟩

mutual

/-- A checked statement names symbols of the table only. -/
theorem StmtCheck.known {Γ : CheckContext} (linked : Γ.symbols.Linked) {returnTy : Ty}
    {path : ScopePath} {s : Source.Stmt} {s' : Typed.Stmt} {log : Log} (inLoop : Bool)
    (h : StmtCheck Γ returnTy path s s' log) : Knows Γ (s'.needs inLoop) := by
  cases h with
  | decl h => exact h.known linked
  | expr h | ret h => exact h.known
  | empty => exact nofun
  | block _ h => exact h.known linked inLoop
  | ite h₁ h₂ h₃ =>
    have first := List.forall_mem_append.2 ⟨h₁.known, h₂.known linked inLoop⟩
    exact List.forall_mem_append.2 ⟨first, h₃.known linked inLoop⟩
  | whileDo h₁ h₂ | doWhile h₁ h₂ =>
    exact List.forall_mem_append.2 ⟨h₁.known, h₂.known linked true⟩
  | forLoop _ h₁ h₂ h₃ h₄ =>
    have clauses := List.forall_mem_append.2 ⟨h₁.known linked, h₂.known⟩
    have round := List.forall_mem_append.2 ⟨clauses, h₄.known linked true⟩
    exact List.forall_mem_append.2 ⟨round, h₃.known⟩
  | brk => exact known_jump inLoop (.inl rfl) _
  | cont => exact known_jump inLoop (.inr rfl) _

theorem StmtsCheck.known {Γ : CheckContext} (linked : Γ.symbols.Linked) {returnTy : Ty}
    {path : ScopePath} {ss : List Source.Stmt} {ss' : List Typed.Stmt} {log : Log} (inLoop : Bool)
    (h : StmtsCheck Γ returnTy path ss ss' log) : Knows Γ (Typed.needsOf inLoop ss') := by
  cases h with
  | nil => exact nofun
  | cons h₁ h₂ =>
    exact List.forall_mem_append.2 ⟨h₁.known linked inLoop, h₂.known linked inLoop⟩

end

theorem ParamsCheck.known (linked : Γ.symbols.Linked) {ps : List Source.Param}
    {ps' : List Typed.Param} (h : ParamsCheck Γ path ps ps') :
    Knows Γ (ps'.map fun q => .bind q.symbol q.name q.span) := by
  induction h with
  | nil => exact nofun
  | cons named _ ih =>
    exact List.forall_mem_cons.2 ⟨Need.known_bind (linked.innermost?_lt named) _ _, ih⟩

theorem FunctionCheck.known (linked : Γ.symbols.Linked) {f : Source.Function}
    {f' : Typed.Function} (h : FunctionCheck Γ path f f' log) : Knows Γ f'.needs := by
  cases h with
  | mk named _ _ params body =>
    have own := Need.known_function (linked.innermost?_lt named) f.name f.span
    have entry := List.forall_mem_cons.2 ⟨own, params.known linked⟩
    exact List.forall_mem_append.2
      ⟨entry, List.forall_mem_cons.2 ⟨own, body.known linked false⟩⟩

theorem FunctionsCheck.known (linked : Γ.symbols.Linked) {fs : List Source.Function}
    {fs' : List Typed.Function} (h : FunctionsCheck Γ path fs fs' log) :
    Knows Γ (fs'.flatMap Typed.Function.needs) := by
  induction h with
  | nil => exact nofun
  | cons h _ ih => exact List.forall_mem_append.2 ⟨h.known linked, ih⟩

/-- A checked program names symbols of the table only. -/
theorem ProgramCheck.known (linked : Γ.symbols.Linked) {p : Source.Program}
    {typed : Typed.Program} (h : ProgramCheck Γ p typed log) : Knows Γ typed.needs := by
  cases h with
  | mk _ h => exact h.known linked

end Known

/-! ## The passes -/

/-- A program is checked against the table of another one, and lowered if that went well, without
a look at a scope or a symbol that the table does not have. A check can fail only for a scope or a
declaration that is missing, a lowering only for a symbol that is missing or a jump out of no
loop. -/
theorem checked_and_lowered (p q : Source.Program) (config : Config) :
    (∃ typed issued,
      checkProgram ⟨(Declarations.ofProgram q).table, config⟩ p = .ok (typed, issued) ∧
      (∀ need ∈ typed.needs, ∀ id, need.symbol? = some id →
        id < (Declarations.ofProgram q).table.symbols.length) ∧
      ((∃ code, (lowerProgram config (Declarations.ofProgram q).table typed).1 = .ok code) ∨
        ∃ e, (lowerProgram config (Declarations.ofProgram q).table typed).1 = .error e ∧
          e.cause.endsLowering = true)) ∨
    ∃ e, checkProgram ⟨(Declarations.ofProgram q).table, config⟩ p = .error (.error e) ∧
      e.cause.isMissing = true := by
  have linked := linked_ofProgram q
  rcases checkProgram_settles (Γ := ⟨_, config⟩) linked p with ⟨typed, issued, checked⟩ | failed
  · have known := (checkProgram_shape checked).known linked
    refine .inl ⟨typed, issued, checked, fun need mem => (known need mem).symbol, ?_⟩
    have outcome := lowerProgram_needs config (tempOf_eq_none q) typed
    cases met : Need.meetAll (Declarations.ofProgram q).table [] typed.needs with
    | ok bound =>
      rw [met] at outcome
      exact .inl outcome
    | error e =>
      rw [met] at outcome
      obtain ⟨need, mem, _, unmet⟩ := Need.exists_of_meetAll_error met
      exact .inr ⟨e, outcome, (known need mem).endsLowering unmet⟩
  · exact .inr failed

end MiddleEnd
