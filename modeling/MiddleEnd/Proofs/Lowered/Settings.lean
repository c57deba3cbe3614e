import MiddleEnd.Proofs.Lowered.Alone
import MiddleEnd.Proofs.Lowered.Temporaries

/-!
# What the settings do to code

Lowering reads two settings: whether every function ends by returning zero, and how large a pointer
is. The first takes a temporary at the end of each function, so what is lowered behind is moved; the
second is recorded with the parameters and the frame.

What a tree is lowered to depends on nothing but where its lowering starts: the two counters, and
the temporaries that the variables in it are bound to. A function refers to its own variables only,
and these are bound on the way. So two lowerings of a unit stay beside each other, and drift apart
only by what the settings take at the end of a function.

Results:
1. `ExprCode.moved`, `StmtCode.moved`, `FunctionCode.moved`: two codes of one tree.
2. `FunctionsCode.beside`, `FunctionCode.of_runs`: how far two lowerings have drifted apart.
3. `settings_orthogonal_of_ordered`: the two settings of lowering, where positions do not mislead.
4. `lowering_settings_orthogonal`: programs that were built.
-/

namespace MiddleEnd

/-! ## Two lowerings of one tree -/

/-- Needs that refer to variables of `xs` only. -/
def Cites (xs : List SymbolId) (needs : List Need) : Prop :=
  ∀ r x, .ref r ∈ needs → r.symbol = some x → x ∈ xs

theorem Cites.mono {xs : List SymbolId} {needs needs' : List Need} (h : Cites xs needs')
    (sub : needs ⊆ needs') : Cites xs needs := fun r x mem => h r x (sub mem)

theorem Cites.append {xs : List SymbolId} {needs needs' : List Need}
    (h : Cites xs (needs ++ needs')) : Cites xs needs ∧ Cites xs needs' :=
  ⟨h.mono (List.subset_append_left ..), h.mono (List.subset_append_right ..)⟩

namespace Cursor

/-- The name of a function. -/
def nameOf (c : Cursor) (id : SymbolId) : Option String :=
  (c.symbols.functionAt id).map FunctionInfo.name

theorem nameOf_record (c : Cursor) (x : SymbolId) (f : VariableInfo → VariableInfo) :
    (c.record x f).nameOf = c.nameOf :=
  funext fun _ => congrArg _ (SymbolTable.functionAt_modifyVariable ..)

theorem nameOf_bind (c : Cursor) (x : SymbolId) : (c.bind x).nameOf = c.nameOf :=
  funext fun _ => congrArg _ (SymbolTable.functionAt_modifyVariable ..)

theorem nameOf_recordFunction {f : FunctionInfo → FunctionInfo} (same : ∀ g, (f g).name = g.name)
    (c : Cursor) (id : SymbolId) : (c.recordFunction id f).nameOf = c.nameOf := by
  funext other
  rw [nameOf, recordFunction, SymbolTable.functionAt_modifyFunction, nameOf]
  split
  · cases c.symbols.functionAt other <;> simp [same]
  · rfl

/-- Two points of two lowerings. The counters of the second are those of the first moved by `a` and
`b`, the temporaries of the variables `xs` as well, and both know the same functions. -/
structure Beside (a b : Int) (xs : List SymbolId) (c d : Cursor) : Prop where
  temps : Moved a c.temps d.temps
  labels : Moved b c.labels d.labels
  names : d.nameOf = c.nameOf
  bound : ∀ x ∈ xs, Option.Rel (Moved a) (c.tempOf x) (d.tempOf x)

namespace Beside

variable {a b : Int} {xs : List SymbolId} {c d : Cursor}

theorem takeTemp (h : c.Beside a b xs d) : c.takeTemp.Beside a b xs d.takeTemp :=
  ⟨h.temps.succ, h.labels, h.names, h.bound⟩

theorem takeLabels (h : c.Beside a b xs d) (n : Nat) :
    (c.takeLabels n).Beside a b xs (d.takeLabels n) := by
  refine ⟨h.temps, ?_, h.names, h.bound⟩
  have labels := h.labels
  simp only [Moved, takeLabels_labels] at *
  omega

theorem bind {x : SymbolId} (h : c.Beside a b xs d) (isVar : (c.symbols.variableAt x).isSome)
    (isVar' : (d.symbols.variableAt x).isSome) : (c.bind x).Beside a b xs (d.bind x) := by
  refine ⟨h.temps.succ, h.labels, ?_, fun y mem => ?_⟩
  · rw [nameOf_bind, nameOf_bind, h.names]
  · rw [tempOf_bind isVar, tempOf_bind isVar']
    split
    · exact .some h.temps
    · exact h.bound y mem

theorem record (h : c.Beside a b xs d) (x : SymbolId) {f f' : VariableInfo → VariableInfo}
    (same : ∀ v, (f v).temp = v.temp) (same' : ∀ v, (f' v).temp = v.temp) :
    (c.record x f).Beside a b xs (d.record x f') := by
  refine ⟨h.temps, h.labels, ?_, ?_⟩
  · rw [nameOf_record, nameOf_record, h.names]
  · rw [tempOf_record same, tempOf_record same']
    exact h.bound

theorem recordFunction (h : c.Beside a b xs d) (id : SymbolId) {f f' : FunctionInfo → FunctionInfo}
    (same : ∀ g, (f g).name = g.name) (same' : ∀ g, (f' g).name = g.name) :
    (c.recordFunction id f).Beside a b xs (d.recordFunction id f') := by
  refine ⟨h.temps, h.labels, ?_, ?_⟩
  · rw [nameOf_recordFunction same, nameOf_recordFunction same', h.names]
  · rw [tempOf_recordFunction, tempOf_recordFunction]
    exact h.bound

theorem placeParams (h : c.Beside a b xs d) (size size' offset offset' : Int)
    (ps : List Typed.Param) :
    (c.placeParams size offset ps).Beside a b xs (d.placeParams size' offset' ps) := by
  induction ps generalizing c d offset offset' with
  | nil => exact h
  | cons p rest ih => exact ih (h.record p.symbol (by intro v; rfl) (by intro v; rfl)) _ _

/-- Two lowerings of one program start side by side. -/
theorem refl (c : Cursor) : c.Beside 0 0 [] c :=
  ⟨(Int.add_zero _).symm, (Int.add_zero _).symm, rfl, by simp⟩

theorem forget (h : c.Beside a b xs d) : c.Beside a b [] d :=
  ⟨h.temps, h.labels, h.names, by simp⟩

/-- Variables that neither lowering has bound yet correspond. -/
theorem of_unbound (h : c.Beside a b [] d) (unbound : ∀ x ∈ xs, c.tempOf x = none)
    (unbound' : ∀ x ∈ xs, d.tempOf x = none) : c.Beside a b xs d := by
  refine ⟨h.temps, h.labels, h.names, fun x mem => ?_⟩
  rw [unbound x mem, unbound' x mem]
  exact .none

theorem ref (h : c.Beside a b xs d) {r : Typed.Ref} {t u : Temp} (cites : Cites xs [.ref r])
    (bound : r.BoundTo c.symbols t) (bound' : r.BoundTo d.symbols u) : Moved a t u := by
  obtain ⟨x, symbol, -, bound⟩ := bound
  obtain ⟨y, symbol', -, bound'⟩ := bound'
  cases symbol.symm.trans symbol'
  have moved := h.bound x (cites r x (List.mem_singleton_self _) symbol)
  rw [tempOf, tempOf, bound, bound'] at moved
  cases moved with
  | some moved => exact moved

end Beside
end Cursor

/-! ## The code of a tree -/

variable {a b : Int} {xs : List SymbolId}

/-- An expression has one code and one value, up to where its lowering starts. -/
theorem ExprCode.moved {e : Typed.Expr} {c c' d d' : Cursor} {t u : Temp} {code code' : List Instr}
    (h : ExprCode e c t code c') (h' : ExprCode e d u code' d') (cites : Cites xs e.needs)
    (beside : c.Beside a b xs d) :
    Moved a t u ∧ List.Forall₂ (Instr.Moved a b) code code' ∧ c'.Beside a b xs d' := by
  induction h generalizing d u code' d' with
  | const =>
    cases h' with
    | const => exact ⟨beside.temps, .cons (.load beside.temps) .nil, beside.takeTemp⟩
  | var bound =>
    cases h' with
    | var bound' => exact ⟨beside.ref cites bound bound', .nil, beside⟩
  | unary _ ih =>
    cases h' with
    | unary h' =>
      obtain ⟨src, code, after⟩ := ih h' cites beside
      refine ⟨after.temps, ?_, after.takeTemp⟩
      exact List.rel_append code (.cons (.unary after.temps src) .nil)
  | binary _ _ ih₁ ih₂ =>
    cases h' with
    | binary h₁' h₂' =>
      obtain ⟨cites₁, cites₂⟩ := cites.append
      obtain ⟨left, code₁, mid⟩ := ih₁ h₁' cites₁ beside
      obtain ⟨right, code₂, after⟩ := ih₂ h₂' cites₂ mid
      refine ⟨after.temps, ?_, after.takeTemp⟩
      exact List.rel_append (List.rel_append code₁ code₂)
        (.cons (.binary after.temps left right) .nil)
  | assign bound _ ih =>
    cases h' with
    | assign bound' h' =>
      have dst := beside.ref (cites.mono (by simp [Typed.Expr.needs])) bound bound'
      obtain ⟨src, code, after⟩ := ih h' (cites.mono (List.subset_cons_self _ _)) beside
      exact ⟨dst, List.rel_append code (.cons (.copy dst src) .nil), after⟩
  | cond _ _ _ ih₁ ih₂ ih₃ =>
    cases h' with
    | cond h₁' h₂' h₃' =>
      obtain ⟨cites, cites₃⟩ := cites.append
      obtain ⟨cites₁, cites₂⟩ := cites.append
      obtain ⟨test, code₁, mid₁⟩ := ih₁ h₁' cites₁ (beside.takeTemp.takeLabels 2)
      obtain ⟨ifTrue, code₂, mid₂⟩ := ih₂ h₂' cites₂ mid₁
      obtain ⟨ifFalse, code₃, after⟩ := ih₃ h₃' cites₃ mid₂
      have result := beside.temps
      have otherwise := beside.labels
      have done := otherwise.succ
      refine ⟨result, ?_, after⟩
      exact List.rel_append (List.rel_append
        (List.rel_append code₁ (.cons (.jumpIfZero otherwise test) code₂))
        (.cons (.copy result ifTrue) (.cons (.jump done) (.cons (.mark otherwise) code₃))))
        (.cons (.copy result ifFalse) (.cons (.mark done) .nil))

theorem EffectCode.moved {e : Option Typed.Expr} {c c' d d' : Cursor} {code code' : List Instr}
    (h : EffectCode e c code c') (h' : EffectCode e d code' d')
    (cites : Cites xs (Typed.optionNeeds e)) (beside : c.Beside a b xs d) :
    List.Forall₂ (Instr.Moved a b) code code' ∧ c'.Beside a b xs d' := by
  cases h with
  | none =>
    cases h' with
    | none => exact ⟨.nil, beside⟩
  | some h =>
    cases h' with
    | some h' => exact (h.moved h' cites beside).2

theorem TestCode.moved {exit exit' : Label} {test : Option Typed.Expr} {c c' d d' : Cursor}
    {code code' : List Instr} (h : TestCode exit test c code c')
    (h' : TestCode exit' test d code' d') (label : Moved b exit exit')
    (cites : Cites xs (Typed.optionNeeds test)) (beside : c.Beside a b xs d) :
    List.Forall₂ (Instr.Moved a b) code code' ∧ c'.Beside a b xs d' := by
  cases h with
  | none =>
    cases h' with
    | none => exact ⟨.nil, beside⟩
  | some h =>
    cases h' with
    | some h' =>
      obtain ⟨value, code, after⟩ := h.moved h' cites beside
      exact ⟨List.rel_append code (.cons (.jumpIfZero label value) .nil), after⟩

theorem VarDeclCode.moved {v : Typed.VarDecl} {c c' d d' : Cursor} {code code' : List Instr}
    (h : VarDeclCode v c code c') (h' : VarDeclCode v d code' d') (cites : Cites xs v.needs)
    (beside : c.Beside a b xs d) :
    List.Forall₂ (Instr.Moved a b) code code' ∧ c'.Beside a b xs d' := by
  cases h with
  | plain isVar absent =>
    cases h' with
    | plain isVar' => exact ⟨.nil, beside.bind isVar isVar'⟩
    | init _ present => cases absent.symm.trans present
  | init isVar present h =>
    cases h' with
    | plain _ absent => cases present.symm.trans absent
    | init isVar' present' h' =>
      cases present.symm.trans present'
      rw [Typed.VarDecl.needs, present] at cites
      obtain ⟨value, code, after⟩ :=
        h.moved h' (cites.mono (List.subset_cons_self _ _)) (beside.bind isVar isVar')
      exact ⟨List.rel_append code (.cons (.copy beside.temps value) .nil), after⟩

theorem ForInitCode.moved {init : Option Typed.ForInit} {c c' d d' : Cursor}
    {code code' : List Instr} (h : ForInitCode init c code c') (h' : ForInitCode init d code' d')
    (cites : Cites xs (Typed.ForInit.needs init)) (beside : c.Beside a b xs d) :
    List.Forall₂ (Instr.Moved a b) code code' ∧ c'.Beside a b xs d' := by
  cases h with
  | none =>
    cases h' with
    | none => exact ⟨.nil, beside⟩
  | decl h =>
    cases h' with
    | decl h' => exact h.moved h' cites beside
  | expr h =>
    cases h' with
    | expr h' => exact (h.moved h' cites beside).2

/-- A statement has one code, up to where its lowering starts and where its loop is. -/
theorem StmtCode.moved {targets targets' : Option LoopTargets} {s : Typed.Stmt}
    {c c' d d' : Cursor} {code code' : List Instr} (h : StmtCode targets s c code c')
    (h' : StmtCode targets' s d code' d')
    (within : Option.Rel (LoopTargets.Moved b) targets targets') {inLoop : Bool}
    (cites : Cites xs (s.needs inLoop)) (beside : c.Beside a b xs d) :
    List.Forall₂ (Instr.Moved a b) code code' ∧ c'.Beside a b xs d' := by
  -- the second code follows the same rule as the first: that of loops is for loops only
  induction h generalizing targets' d code' d' inLoop with
  | decl h =>
    cases h' with
    | decl h' => exact h.moved h' cites beside
    | loop isLoop => cases isLoop
  | expr h =>
    cases h' with
    | expr h' => exact (h.moved h' cites beside).2
    | loop isLoop => cases isLoop
  | empty =>
    cases h' with
    | empty => exact ⟨.nil, beside⟩
    | loop isLoop => cases isLoop
  | done =>
    cases h' with
    | done => exact ⟨.nil, beside⟩
    | loop isLoop => cases isLoop
  | next _ _ ih₁ ih₂ =>
    cases h' with
    | next h₁' h₂' =>
      obtain ⟨cites₁, cites₂⟩ := cites.append
      obtain ⟨code₁, mid⟩ := ih₁ h₁' within cites₁ beside
      obtain ⟨code₂, after⟩ := ih₂ h₂' within cites₂ mid
      exact ⟨List.rel_append code₁ code₂, after⟩
    | loop isLoop => cases isLoop
  | ite h₁ _ _ ih₂ ih₃ =>
    cases h' with
    | ite h₁' h₂' h₃' =>
      obtain ⟨cites, cites₃⟩ := cites.append
      obtain ⟨cites₁, cites₂⟩ := cites.append
      have otherwise := beside.labels
      have done := otherwise.succ
      obtain ⟨code₁, mid₁⟩ := h₁.moved h₁' otherwise cites₁ (beside.takeLabels 2)
      obtain ⟨code₂, mid₂⟩ := ih₂ h₂' within cites₂ mid₁
      obtain ⟨code₃, after⟩ := ih₃ h₃' within cites₃ mid₂
      refine ⟨?_, after⟩
      exact List.rel_append (List.rel_append (List.rel_append code₁ code₂)
        (.cons (.jump done) (.cons (.mark otherwise) code₃))) (.cons (.mark done) .nil)
    | loop isLoop => cases isLoop
  | loop isLoop h₁ _ ih =>
    rw [Typed.Stmt.needs_of_loop? isLoop] at cites
    obtain ⟨cites₁, cites₂⟩ := cites.append
    cases h' with
    | loop isLoop' h₁' h₂' =>
      cases isLoop.symm.trans isLoop'
      have top := beside.labels
      have exit := top.succ
      obtain ⟨code₁, mid⟩ := h₁.moved h₁' exit cites₁ (beside.takeLabels 2)
      obtain ⟨code₂, after⟩ := ih h₂' (.some ⟨exit, top⟩) cites₂ mid
      refine ⟨?_, after⟩
      exact List.rel_append (List.rel_append (.cons (.mark top) code₁) code₂)
        (.cons (.jump top) (.cons (.mark exit) .nil))
    | _ => cases isLoop
  | forLoop h₁ h₂ _ h₄ ih =>
    cases h' with
    | forLoop h₁' h₂' h₃' h₄' =>
      obtain ⟨cites, cites₄⟩ := cites.append
      obtain ⟨cites, cites₃⟩ := cites.append
      obtain ⟨cites₁, cites₂⟩ := cites.append
      have top := beside.labels
      have exit := top.succ
      have next := exit.succ
      obtain ⟨code₁, mid₁⟩ := h₁.moved h₁' cites₁ (beside.takeLabels 3)
      obtain ⟨code₂, mid₂⟩ := h₂.moved h₂' exit cites₂ mid₁
      obtain ⟨code₃, mid₃⟩ := ih h₃' (.some ⟨exit, next⟩) cites₃ mid₂
      obtain ⟨code₄, after⟩ := h₄.moved h₄' cites₄ mid₃
      refine ⟨?_, after⟩
      exact List.rel_append (List.rel_append (List.rel_append
        (List.rel_append code₁ (.cons (.mark top) code₂)) code₃) (.cons (.mark next) code₄))
        (.cons (.jump top) (.cons (.mark exit) .nil))
    | loop isLoop => cases isLoop
  | brk =>
    cases within with
    | some within =>
      cases h' with
      | brk => exact ⟨.cons (.jump within.1) .nil, beside⟩
      | loop isLoop => cases isLoop
  | cont =>
    cases within with
    | some within =>
      cases h' with
      | cont => exact ⟨.cons (.jump within.2) .nil, beside⟩
      | loop isLoop => cases isLoop
  | ret h =>
    cases h' with
    | ret h' =>
      obtain ⟨value, code, after⟩ := h.moved h' cites beside
      exact ⟨List.rel_append code (.cons (.ret value) .nil), after⟩
    | loop isLoop => cases isLoop

/-! ## The piece of a function -/

theorem ParamsCode.moved {order : Nat} {ps : List Typed.Param} {c c' d d' : Cursor}
    {temps temps' : List Temp} (h : ParamsCode order ps c temps c')
    (h' : ParamsCode order ps d temps' d') (beside : c.Beside a b xs d) :
    List.Forall₂ (Moved a) temps temps' ∧ c'.Beside a b xs d' := by
  induction h generalizing d temps' d' with
  | nil =>
    cases h' with
    | nil => exact ⟨.nil, beside⟩
  | @cons _ p _ _ _ _ isVar _ ih =>
    cases h' with
    | cons isVar' h' =>
      obtain ⟨temps, after⟩ := ih h'
        ((beside.bind isVar isVar').record p.symbol (by intro v; rfl) (by intro v; rfl))
      exact ⟨.cons beside.temps temps, after⟩

variable {config config' : Config}

theorem FunctionCode.found {f : Typed.Function} {c c' : Cursor} {piece : Piece}
    (h : FunctionCode config f c piece c') : ∃ info, c.symbols.functionAt f.symbol = some info := by
  cases h with
  | mk isFn => exact ⟨_, isFn⟩

/-- The frame of a function begins behind its parameters. -/
theorem FunctionCode.offset_eq {f : Typed.Function} {c c' : Cursor} {piece : Piece}
    (h : FunctionCode config f c piece c') :
    piece.offset = piece.params.length * config.pointerSize := by
  cases h with
  | mk _ _ placed again _ _ =>
    rw [placed, Cursor.recordFunction] at again
    have again := (SymbolTable.functionAt_modifyFunction ..).symm.trans again
    rw [if_pos rfl, Option.map_eq_some_iff] at again
    obtain ⟨_, -, rfl⟩ := again
    rfl

/-- Two pieces of a function that refers to its own variables only are the same up to where its
lowering starts, but for how they end and where their frames begin. -/
theorem FunctionCode.moved {f : Typed.Function} {c c' d d' : Cursor} {piece piece' : Piece}
    (h : FunctionCode config f c piece c') (h' : FunctionCode config' f d piece' d')
    (own : f.Own) (beside : c.Beside a b f.binds d) :
    ∃ c₁ d₁ main main' ending ending', c₁.Beside a b f.binds d₁ ∧
      ImplicitReturnCode config c₁ ending c' ∧ ImplicitReturnCode config' d₁ ending' d' ∧
      piece.body = main ++ ending ∧ piece'.body = main' ++ ending' ∧
      piece'.entry = piece.entry ∧ List.Forall₂ (Moved a) piece.params piece'.params ∧
      List.Forall₂ (Instr.Moved a b) main main' := by
  have entry : piece'.entry = piece.entry := by
    obtain ⟨info, isFn⟩ := h.found
    have named := congrFun beside.names f.symbol
    rw [Cursor.nameOf, Cursor.nameOf, isFn] at named
    obtain ⟨info', isFn', name⟩ := Option.map_eq_some_iff.1 named
    rw [h'.entry isFn', h.entry isFn, name]
  cases h with
  | @mk _ _ _ _ c₂ _ _ _ _ _ _ params placed _ main ends =>
    cases h' with
    | @mk _ _ _ _ d₂ _ _ _ _ _ _ params' placed' _ main' ends' =>
      obtain ⟨temps, bound⟩ := params.moved params'
        (beside.recordFunction f.symbol (by intro g; rfl) (by intro g; rfl))
      have opened : c₂.Beside a b f.binds d₂ := by
        rw [placed, placed']
        exact (bound.placeParams ..).recordFunction f.symbol (by intro g; rfl) (by intro g; rfl)
      have cites : Cites f.binds ((Typed.Stmt.block f.body).needs false) := by
        rw [Typed.Stmt.needs]
        exact Cites.mono own fun need mem =>
          List.mem_append_right _ (List.mem_cons_of_mem _ mem)
      obtain ⟨code, after⟩ := main.moved main' .none cites opened
      exact ⟨_, _, _, _, _, _, after, ends, ends', rfl, rfl, entry, temps, code⟩

theorem ImplicitReturnCode.moved {c c' d d' : Cursor} {ending ending' : List Instr}
    (h : ImplicitReturnCode config c ending c') (h' : ImplicitReturnCode config' d ending' d')
    (same : config'.implicitReturn = config.implicitReturn) (beside : c.Beside a b xs d) :
    List.Forall₂ (Instr.Moved a b) ending ending' ∧ c'.Beside a b xs d' := by
  cases h with
  | on on =>
    cases h' with
    | on => exact ⟨.cons (.load beside.temps) (.cons (.ret beside.temps) .nil), beside.takeTemp⟩
    | off off => cases (same.trans on).symm.trans off
  | off off =>
    cases h' with
    | on on => cases (same.trans off).symm.trans on
    | off => exact ⟨.nil, beside⟩

/-- Where the settings ask for it, the piece of a function ends by returning zero, in a temporary
taken for that. -/
theorem FunctionCode.implicitReturn {f : Typed.Function} {c c' d d' : Cursor}
    {piece piece' : Piece} {k : Nat}
    (h : FunctionCode { config with implicitReturn := false } f c piece c')
    (h' : FunctionCode { config with implicitReturn := true } f d piece' d') (own : f.Own)
    (beside : c.Beside k b f.binds d) :
    d'.temps = c'.temps + k + 1 ∧ ∃ moved, piece.Moved k b moved ∧ piece' = { moved with
      body := moved.body ++ [.load (c'.temps + k) 0, .ret (c'.temps + k)] } := by
  have offset : piece'.offset = piece'.params.length * config.pointerSize := h'.offset_eq
  obtain ⟨_, d₁, main, main', _, _, after, ends, ends', split, split', entry, params, body⟩ :=
    h.moved h' own beside
  rw [← params.length_eq, ← h.offset_eq] at offset
  cases ends with
  | on absurd => cases absurd
  | off =>
    cases ends' with
    | off absurd => cases absurd
    | on =>
      have fresh : d₁.temps = c'.temps + k := Int.ofNat.inj after.temps
      rw [List.append_nil] at split
      refine ⟨congrArg (· + 1) fresh, { piece' with body := main' }, ?_, ?_⟩
      · exact ⟨entry, offset, params, split ▸ body⟩
      · rw [← fresh, ← split']

/-- The size of a pointer changes nothing in the piece of a function but where its frame begins. -/
theorem FunctionCode.pointerSize {f : Typed.Function} {c c' d d' : Cursor} {piece piece' : Piece}
    {size : Int} (h : FunctionCode config f c piece c')
    (h' : FunctionCode { config with pointerSize := size } f d piece' d') (own : f.Own)
    (beside : c.Beside 0 0 f.binds d) : piece' = { piece with offset := piece'.offset } := by
  obtain ⟨_, _, _, _, _, _, after, ends, ends', split, split', entry, params, body⟩ :=
    h.moved h' own beside
  have moved : piece.Moved 0 0 { piece' with offset := piece.offset } := by
    refine ⟨entry, rfl, params, ?_⟩
    rw [split, split']
    exact List.rel_append body (ends.moved ends' rfl after).1
  exact congrArg (fun p : Piece => { p with offset := piece'.offset }) moved.eq

/-! ## Functions in a row -/

/-- At the end of a function the second settings take `drift` temporaries more than the first. -/
def Drifts (config config' : Config) (drift : Int) : Prop :=
  ∀ {a : Int} {c c' d d' : Cursor} {ending ending' : List Instr},
    ImplicitReturnCode config c ending c' → ImplicitReturnCode config' d ending' d' →
      c.Beside a 0 [] d → c'.Beside (a + drift) 0 [] d'

theorem drifts_implicitReturn (config : Config) :
    Drifts { config with implicitReturn := false } { config with implicitReturn := true } 1 := by
  intro a c c' d d' ending ending' off on beside
  cases off with
  | on absurd => cases absurd
  | off =>
    cases on with
    | off absurd => cases absurd
    | on =>
      refine ⟨?_, beside.labels, beside.names, by simp⟩
      have temps := beside.temps
      simp only [Moved, Cursor.takeTemp_temps] at *
      omega

theorem drifts_pointerSize (config : Config) (size : Int) :
    Drifts config { config with pointerSize := size } 0 := by
  intro a c c' d d' ending ending' h h' beside
  rw [Int.add_zero]
  exact (h.moved h' rfl beside).2

/-- After functions that refer to their own variables only, two lowerings have drifted apart once
for each of them. -/
theorem FunctionsCode.beside {drift : Int} (drifts : Drifts config config' drift)
    {home home' : SymbolId → Option Temp} {fs : List Typed.Function} {c c' d d' : Cursor}
    {pieces pieces' : List Piece} (h : FunctionsCode config fs c pieces c')
    (h' : FunctionsCode config' fs d pieces' d')
    (fits : Fits home c (fs.flatMap Typed.Function.binds) c')
    (fits' : Fits home' d (fs.flatMap Typed.Function.binds) d') (own : ∀ f ∈ fs, f.Own)
    (beside : c.Beside a 0 [] d) : c'.Beside (a + fs.length * drift) 0 [] d' := by
  induction h generalizing a d d' pieces' with
  | nil =>
    cases h' with
    | nil => simpa using beside
  | @cons f rest _ _ _ _ _ first others ih =>
    cases h' with
    | cons first' others' =>
      obtain ⟨own₁, own₂⟩ := List.forall_mem_cons.1 own
      -- the variables of a function are bound in neither run before it, so they start side by side
      have unbound := (fits.left first.binds others.binds rfl).unbound
      have unbound' := (fits'.left first'.binds others'.binds rfl).unbound
      obtain ⟨_, _, _, _, _, _, mid, ends, ends', -⟩ :=
        first.moved first' own₁ (beside.of_unbound unbound unbound')
      have after := ih others' (fits.right first.binds others.binds rfl)
        (fits'.right first'.binds others'.binds rfl) own₂ (drifts ends ends' mid.forget)
      have total : a + drift + rest.length * drift = a + (f :: rest).length * drift := by
        rw [List.length_cons, Int.natCast_succ, Int.add_mul, Int.one_mul, Int.add_assoc,
          Int.add_comm drift]
      rwa [total] at after

/-- Two runs at one function of a program whose functions refer to their own variables only. -/
theorem FunctionCode.of_runs {drift : Int} (drifts : Drifts config config' drift)
    {t : SymbolTable} (unbound : ∀ id, t.tempOf id = none)
    {before behind : List Typed.Function} {f : Typed.Function}
    (nodup : ((before ++ f :: behind).flatMap Typed.Function.binds).Nodup)
    (own : ∀ g ∈ before ++ f :: behind, g.Own) {s s' : Lowering}
    (ran : (before ++ f :: behind).forM (lowerFunction config) { symbols := t } = .ok () s)
    (ran' : (before ++ f :: behind).forM (lowerFunction config') { symbols := t } = .ok () s')
    {piece piece' : Piece} (at_f : s.emitter.finished[before.length]? = some piece)
    (at_f' : s'.emitter.finished[before.length]? = some piece') :
    ∃ c d s₁ s₁', c.Beside (before.length * drift) 0 f.binds d ∧
      (before ++ [f]).forM (lowerFunction config) { symbols := t } = .ok () s₁ ∧
      (before ++ [f]).forM (lowerFunction config') { symbols := t } = .ok () s₁' ∧
      FunctionCode config f c piece s₁.cursor ∧ FunctionCode config' f d piece' s₁'.cursor := by
  obtain ⟨_, shapes, -⟩ := forM_lowerFunction_shape ran
  obtain ⟨_, shapes', -⟩ := forM_lowerFunction_shape ran'
  obtain ⟨s₀, s₁, _, _, ran₀, ran₁, here, codes, code, fits₀, fits₁⟩ :=
    forM_lowerFunction_at ran (Fits.final shapes.binds nodup unbound)
  obtain ⟨s₀', s₁', _, _, ran₀', ran₁', here', codes', code', fits₀', fits₁'⟩ :=
    forM_lowerFunction_at ran' (Fits.final shapes'.binds nodup unbound)
  cases at_f.symm.trans here
  cases at_f'.symm.trans here'
  obtain ⟨own₀, own₁⟩ := List.forall_mem_append.1 own
  have beside := codes.beside drifts codes' fits₀ fits₀' own₀ (.refl _)
  rw [Int.zero_add] at beside
  refine ⟨_, _, s₁, s₁', beside.of_unbound fits₁.unbound fits₁'.unbound, ?_, ?_, code, code'⟩
  · exact (congrFun List.forM_append _).trans ((bind_of_ok ran₀).trans (bind_of_ok ran₁))
  · exact (congrFun List.forM_append _).trans ((bind_of_ok ran₀').trans (bind_of_ok ran₁'))

/-! ## Programs -/

/-- Two outcomes of lowering: the same error, or pieces one by one, of which `R` relates those at
the same place. -/
inductive Alike (R : Nat → Piece → Piece → Prop) : Except Error Code → Except Error Code → Prop
  | failed {e : Error} : Alike R (.error e) (.error e)
  | lowered {code code' : Code} :
      code'.pieces.length = code.pieces.length →
      (∀ k piece piece', code.pieces[k]? = some piece → code'.pieces[k]? = some piece' →
        R k piece piece') →
      Alike R (.ok code) (.ok code')

variable {t : SymbolTable} {p : Typed.Program}

/-- Whether a program is lowered, and the error if not, is no matter of the settings. -/
theorem lowerProgram_agrees (config config' : Config) (unbound : ∀ id, t.tempOf id = none)
    (p : Typed.Program) :
    (∃ code code', (lowerProgram config t p).1 = .ok code ∧
      (lowerProgram config' t p).1 = .ok code') ∨
    ∃ e, (lowerProgram config t p).1 = .error e ∧ (lowerProgram config' t p).1 = .error e := by
  have outcome := lowerProgram_needs config unbound p
  have outcome' := lowerProgram_needs config' unbound p
  cases met : Need.meetAll t [] p.needs with
  | ok bound =>
    rw [met] at outcome outcome'
    obtain ⟨code, lowered⟩ := outcome
    obtain ⟨code', lowered'⟩ := outcome'
    exact .inl ⟨code, code', lowered, lowered'⟩
  | error e =>
    rw [met] at outcome outcome'
    exact .inr ⟨e, outcome, outcome'⟩

/-- Two lowerings of a program are alike if the pieces of each function are. -/
theorem lowerProgram_alike {drift : Int} (drifts : Drifts config config' drift)
    (unbound : ∀ id, t.tempOf id = none) (nodup : p.binds.Nodup)
    (own : ∀ code, (lowerProgram config t p).1 = .ok code → ∀ f ∈ p.functions, f.Own)
    {R : Nat → Piece → Piece → Prop}
    (related : ∀ k f c d s s' piece piece', f.Own → c.Beside (k * drift) 0 f.binds d →
      (p.functions.take (k + 1)).forM (lowerFunction config) { symbols := t } = .ok () s →
      (p.functions.take (k + 1)).forM (lowerFunction config') { symbols := t } = .ok () s' →
      FunctionCode config f c piece s.cursor → FunctionCode config' f d piece' s'.cursor →
      R k piece piece') :
    Alike R (lowerProgram config t p).1 (lowerProgram config' t p).1 := by
  rcases lowerProgram_agrees config config' unbound p with
    ⟨code, code', lowered, lowered'⟩ | ⟨e, failed, failed'⟩
  · have own := own code lowered
    rw [lowered, lowered']
    obtain ⟨s, ran, rfl, -, shapes⟩ := lowerProgram_shape (Prod.ext lowered rfl)
    obtain ⟨s', ran', rfl, -, shapes'⟩ := lowerProgram_shape (Prod.ext lowered' rfl)
    refine .lowered (shapes'.length_eq.trans shapes.length_eq.symm) ?_
    intro k piece piece' here here'
    have inside : k < p.functions.length :=
      shapes.length_eq ▸ (List.getElem?_eq_some_iff.1 here).1
    -- both runs are cut at the function whose pieces are compared
    obtain ⟨before, f, behind, split, rfl⟩ :
        ∃ before f behind, p.functions = before ++ f :: behind ∧ before.length = k := by
      refine ⟨p.functions.take k, p.functions[k], p.functions.drop (k + 1), ?_,
        List.length_take_of_le (Nat.le_of_lt inside)⟩
      rw [← List.drop_eq_getElem_cons inside, List.take_append_drop]
    have upTo : p.functions.take (before.length + 1) = before ++ [f] := by
      rw [split, List.take_length_add_append]
      rfl
    have own_f := own f (by simp [split])
    rw [Typed.Program.binds, split] at nodup
    rw [lowerFunctions, split] at ran ran'
    obtain ⟨c, d, s₁, s₁', beside, ran₁, ran₁', code, code'⟩ :=
      FunctionCode.of_runs drifts unbound nodup (split ▸ own) ran ran' here here'
    rw [← upTo] at ran₁ ran₁'
    exact related _ f c d s₁ s₁' piece piece' own_f beside ran₁ ran₁' code code'
  · rw [failed, failed']
    exact .failed

/-- The settings of lowering do not interact in a program that is checked silently, if positions do
not mislead. -/
theorem settings_orthogonal_of_ordered {p : Source.Program} (ordered : p.Ordered)
    {config : Config} {typed : Typed.Program} (declared : (Declarations.ofProgram p).log = [])
    (checked : checkProgram ⟨(Declarations.ofProgram p).table, config⟩ p = .ok (typed, []))
    (settings : Config) :
    let table := (Declarations.ofProgram p).table
    let off := { settings with implicitReturn := false }
    let on := { settings with implicitReturn := true }
    Alike (fun k piece piece' => ∃ s s' moved,
        (typed.functions.take (k + 1)).forM (lowerFunction off) { symbols := table } = .ok () s ∧
        (typed.functions.take (k + 1)).forM (lowerFunction on) { symbols := table } = .ok () s' ∧
        s'.emitter.temps = s.emitter.temps + k + 1 ∧ piece.Moved k 0 moved ∧
        piece' = { moved with
          body := moved.body ++
            [.load (s.emitter.temps + k) 0, .ret (s.emitter.temps + k)] })
      (lowerProgram off table typed).1 (lowerProgram on table typed).1 ∧
    ∀ size, Alike (fun _ piece piece' => piece' = { piece with offset := piece'.offset })
      (lowerProgram settings table typed).1
      (lowerProgram { settings with pointerSize := size } table typed).1 := by
  intro table off on
  have check := checkProgram_shape checked
  have unbound := tempOf_eq_none p
  have nodup := (check.numbers ordered declared).nodup
  have own : ∀ settings code, (lowerProgram settings table typed).1 = .ok code →
      ∀ f ∈ typed.functions, f.Own := by
    intro settings code lowered
    rcases lowerProgram_agrees config settings unbound typed with
      ⟨code', -, lowered', -⟩ | ⟨e, -, failed⟩
    · exact check.own ordered declared (check.free ordered declared lowered')
    · cases lowered.symm.trans failed
  refine ⟨?_, fun size => ?_⟩
  · refine lowerProgram_alike (drifts_implicitReturn settings) unbound nodup (own off) ?_
    intro k f c d s s' piece piece' own beside ran ran' code code'
    rw [Int.mul_one] at beside
    obtain ⟨fresh, moved, same, ends⟩ := code.implicitReturn code' own beside
    exact ⟨s, s', moved, ran, ran', fresh, same, ends⟩
  · refine lowerProgram_alike (drifts_pointerSize settings size) unbound nodup (own settings) ?_
    intro k f c d s s' piece piece' own beside _ _ code code'
    rw [Int.mul_zero] at beside
    exact code.pointerSize code' own beside

/-- The settings of lowering do not interact. Of a program that is checked silently, whatever the
settings,
* that every function ends by returning zero makes no difference to whether it is lowered or to the
  error, moves the temporaries of a piece by one for every function before it, leaves its labels,
  its entry and its offset, and appends a load of zero into the next temporary and a return of it;
* the size of a pointer makes no difference but to where the frames begin. -/
theorem lowering_settings_orthogonal (d : Draft.Program) (b : Source.Builder) {config : Config}
    {typed : Typed.Program} (declared : (Declarations.ofProgram (d.place b).1).log = [])
    (checked : checkProgram ⟨(Declarations.ofProgram (d.place b).1).table, config⟩ (d.place b).1 =
      .ok (typed, [])) (settings : Config) :
    let table := (Declarations.ofProgram (d.place b).1).table
    let off := { settings with implicitReturn := false }
    let on := { settings with implicitReturn := true }
    Alike (fun k piece piece' => ∃ s s' moved,
        (typed.functions.take (k + 1)).forM (lowerFunction off) { symbols := table } = .ok () s ∧
        (typed.functions.take (k + 1)).forM (lowerFunction on) { symbols := table } = .ok () s' ∧
        s'.emitter.temps = s.emitter.temps + k + 1 ∧ piece.Moved k 0 moved ∧
        piece' = { moved with
          body := moved.body ++
            [.load (s.emitter.temps + k) 0, .ret (s.emitter.temps + k)] })
      (lowerProgram off table typed).1 (lowerProgram on table typed).1 ∧
    ∀ size, Alike (fun _ piece piece' => piece' = { piece with offset := piece'.offset })
      (lowerProgram settings table typed).1
      (lowerProgram { settings with pointerSize := size } table typed).1 :=
  settings_orthogonal_of_ordered (d.place_ordered b) declared checked settings

/-- `int one() { return 1; } int main() { int r = 2; while (r) r = r - 1; return r; }` -/
def countdown : Draft.Program :=
  ⟨[⟨"one", [], .int, [.ret (.const 1)]⟩,
    ⟨"main", [], .int,
      [.decl ⟨"r", .int, some (.const 2)⟩,
        .whileDo (.var "r") (.expr (.assign "r" (.binary .sub (.var "r") (.const 1)))),
        .ret (.var "r")]⟩]⟩

theorem lowering_settings_orthogonal_of_countdown :
    let p := (countdown.place ⟨"t", 0, 0⟩).1
    let table := (Declarations.ofProgram p).table
    ∃ typed code code', (Declarations.ofProgram p).log = [] ∧
      checkProgram ⟨table, {}⟩ p = .ok (typed, []) ∧
      (lowerProgram { implicitReturn := false } table typed).1 = .ok code ∧
      (lowerProgram { implicitReturn := true } table typed).1 = .ok code' ∧
      (∃ piece moved t, code.pieces[1]? = some piece ∧ piece.Moved 1 0 moved ∧
        code'.pieces[1]? = some { moved with
          body := moved.body ++ [.load t 0, .ret t] }) ∧
      Alike (fun _ piece piece' => piece' = { piece with offset := piece'.offset })
        (lowerProgram {} table typed).1 (lowerProgram { pointerSize := 8 } table typed).1 := by
  intro p table
  have declared : (Declarations.ofProgram p).log = [] := by decide +kernel
  have ok : (checkProgram ⟨table, {}⟩ p).toOption.map (fun result => (result.2,
      ((lowerProgram { implicitReturn := false } table result.1).1.toOption.bind
        fun code => code.pieces[1]?).isSome)) = some ([], true) := by
    decide +kernel
  match checked : checkProgram ⟨table, {}⟩ p with
  | .error e => simp [checked, Except.toOption] at ok
  | .ok (typed, issued) =>
    rw [checked] at ok
    obtain ⟨rfl, second⟩ := Prod.mk.inj (Option.some.inj ok)
    obtain ⟨returns, sized⟩ :=
      lowering_settings_orthogonal countdown ⟨"t", 0, 0⟩ declared checked {}
    change Alike _ (lowerProgram { implicitReturn := false } table typed).1
      (lowerProgram { implicitReturn := true } table typed).1 at returns
    generalize lowered : (lowerProgram { implicitReturn := false } table typed).1 = off at *
    generalize lowered' : (lowerProgram { implicitReturn := true } table typed).1 = on at returns
    cases returns with
    | failed => cases second
    | @lowered code code' same related =>
      obtain ⟨piece, here⟩ := Option.isSome_iff_exists.1 second
      have inside : 1 < code'.pieces.length := same ▸ (List.getElem?_eq_some_iff.1 here).1
      have here' := List.getElem?_eq_getElem inside
      obtain ⟨s, s', moved, -, -, -, shifted, ends⟩ := related 1 piece _ here here'
      exact ⟨typed, code, code', declared, rfl, lowered, lowered',
        ⟨piece, moved, _, here, shifted, ends ▸ here'⟩, sized 8⟩

end MiddleEnd
