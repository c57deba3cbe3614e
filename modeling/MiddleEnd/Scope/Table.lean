import MiddleEnd.Error
import MiddleEnd.Scope.Symbol

/-!
# Scopes and the symbol table

A scope maps names to symbols, each name at most once. The table of a unit holds every symbol and
every scope in the order in which they were made, and both are named by their place in it. A scope
is also found by the id of the node that owns it; where an id was used twice the later scope
answers.

The lemmas say what each operation does to what the table shows: `find?`, `scopeIndex?`,
`variableAt` and `functionAt`.
-/

namespace MiddleEnd

/-- A scope, by its place in the table. -/
abbrev ScopeIndex := Nat

/-- What kind of node owns a scope. -/
inductive ScopeKind
  | global
  | function
  | block
deriving DecidableEq

/-- A scope. -/
structure Scope where
  /-- The id of the node that owns it. -/
  id : NodeId
  kind : ScopeKind
  /-- The names declared in it, in order. -/
  names : List (String × SymbolId) := []
deriving DecidableEq

namespace Scope

/-- The symbol that a scope has under a name. -/
def find? (s : Scope) (name : String) : Option SymbolId := s.names.lookup name

/-- Declares a name. A name that is taken keeps its symbol, and that is an error. -/
def declare (s : Scope) (name : String) (id : SymbolId) (pos : Pos) : Except Error Scope :=
  match s.find? name with
  | some _ => .error ⟨.variableAlreadyDeclared name, pos⟩
  | none => .ok { s with names := s.names ++ [(name, id)] }

theorem declare_eq_ok_iff {s s' : Scope} {name : String} {id : SymbolId} {pos : Pos} :
    s.declare name id pos = .ok s' ↔
      s.find? name = none ∧ s' = { s with names := s.names ++ [(name, id)] } := by
  unfold declare
  cases s.find? name <;> simp [eq_comm]

/-- A declaration shows up under its name and nowhere else. -/
theorem find?_declare {s s' : Scope} {name other : String} {id : SymbolId} {pos : Pos}
    (h : s.declare name id pos = .ok s') :
    s'.find? other = if other = name then some id else s.find? other := by
  obtain ⟨fresh, rfl⟩ := declare_eq_ok_iff.1 h
  unfold find? at fresh ⊢
  by_cases same : other = name
  · subst same
    simp [List.lookup_append, fresh]
  · have differs : (other == name) = false := by simpa using same
    simp [List.lookup_append, same, differs, List.lookup_cons]

end Scope

/-- The symbols and scopes of a unit. -/
structure SymbolTable where
  symbols : List Symbol := []
  scopes : List Scope := []
deriving DecidableEq

/-- The place of the last element that passes the test. -/
def lastIndex? (p : α → Bool) : List α → Option Nat
  | [] => none
  | a :: rest =>
    match lastIndex? p rest with
    | some i => some (i + 1)
    | none => if p a then some 0 else none

theorem lastIndex?_concat (p : α → Bool) (as : List α) (a : α) :
    lastIndex? p (as ++ [a]) = if p a then some as.length else lastIndex? p as := by
  induction as with
  | nil => rfl
  | cons b rest ih => by_cases h : p a <;> simp [lastIndex?, ih, h]

theorem lastIndex?_eq_none {p : α → Bool} {as : List α} :
    lastIndex? p as = none ↔ ∀ a ∈ as, p a = false := by
  induction as with
  | nil => simp [lastIndex?]
  | cons b rest ih => cases h : lastIndex? p rest <;> simp_all [lastIndex?]

/-- An index that was found is one of an element that passes. -/
theorem lastIndex?_eq_some {p : α → Bool} {as : List α} {i : Nat} (h : lastIndex? p as = some i) :
    ∃ a, as[i]? = some a ∧ p a = true := by
  induction as generalizing i with
  | nil => simp [lastIndex?] at h
  | cons b rest ih =>
    simp only [lastIndex?] at h
    split at h
    · next j found =>
      obtain rfl : j + 1 = i := by simpa using h
      simpa using ih found
    · split at h
      · next passes =>
        obtain rfl : 0 = i := by simpa using h
        exact ⟨b, rfl, passes⟩
      · simp at h

/-- Nothing behind an index that was found passes. -/
theorem le_of_lastIndex? {p : α → Bool} {as : List α} {i j : Nat} {a : α}
    (h : lastIndex? p as = some i) (at_j : as[j]? = some a) (passes : p a = true) : j ≤ i := by
  induction as generalizing i j with
  | nil => cases at_j
  | cons b rest ih =>
    simp only [lastIndex?] at h
    cases j with
    | zero => exact Nat.zero_le i
    | succ j =>
      cases found : lastIndex? p rest with
      | none =>
        have absent := lastIndex?_eq_none.1 found a (List.mem_of_getElem? at_j)
        rw [passes] at absent
        cases absent
      | some k =>
        obtain rfl : k + 1 = i := by simpa [found] using h
        exact Nat.succ_le_succ (ih found at_j)

/-- The index that is found is the last one of an element that passes. -/
theorem lastIndex?_eq_some_iff {p : α → Bool} {as : List α} {i : Nat} :
    lastIndex? p as = some i ↔
      (∃ a, as[i]? = some a ∧ p a = true) ∧ ∀ j a, as[j]? = some a → p a = true → j ≤ i := by
  constructor
  · intro found
    exact ⟨lastIndex?_eq_some found, fun j a => le_of_lastIndex? found⟩
  · rintro ⟨⟨a, at_i, passes⟩, last⟩
    cases found : lastIndex? p as with
    | none =>
      have absent := lastIndex?_eq_none.1 found a (List.mem_of_getElem? at_i)
      rw [passes] at absent
      cases absent
    | some k =>
      obtain ⟨b, at_k, passes'⟩ := lastIndex?_eq_some found
      rw [Nat.le_antisymm (last k b at_k passes') (le_of_lastIndex? found at_i passes)]

namespace SymbolTable

/-- Adds a symbol after all others. -/
def addSymbol (t : SymbolTable) (s : Symbol) : SymbolId × SymbolTable :=
  (t.symbols.length, { t with symbols := t.symbols ++ [s] })

/-- Adds a scope after all others. -/
def addScope (t : SymbolTable) (s : Scope) : ScopeIndex × SymbolTable :=
  (t.scopes.length, { t with scopes := t.scopes ++ [s] })

/-- Replaces a scope. -/
def setScope (t : SymbolTable) (i : ScopeIndex) (s : Scope) : SymbolTable :=
  { t with scopes := t.scopes.set i s }

/-- The scope that a node owns, the last one if there are several. -/
def scopeIndex? (t : SymbolTable) (id : NodeId) : Option ScopeIndex :=
  lastIndex? (fun s => s.id == id) t.scopes

/-- The variable of an id, if the id is one of a variable. -/
def variableAt (t : SymbolTable) (id : SymbolId) : Option VariableInfo :=
  t.symbols[id]?.bind Symbol.asVariable

/-- The function of an id, if the id is one of a function. -/
def functionAt (t : SymbolTable) (id : SymbolId) : Option FunctionInfo :=
  t.symbols[id]?.bind Symbol.asFunction

/-- Changes the variable of an id. Any other id is left as it is. -/
def modifyVariable (t : SymbolTable) (id : SymbolId) (f : VariableInfo → VariableInfo) :
    SymbolTable :=
  { t with
    symbols := t.symbols.modify id fun
      | .var v => .var (f v)
      | .fn g => .fn g }

/-- Changes the function of an id. Any other id is left as it is. -/
def modifyFunction (t : SymbolTable) (id : SymbolId) (f : FunctionInfo → FunctionInfo) :
    SymbolTable :=
  { t with
    symbols := t.symbols.modify id fun
      | .var v => .var v
      | .fn g => .fn (f g) }

/-! ## What the operations show -/

/-- A new scope answers for its id from then on. -/
theorem scopeIndex?_addScope (t : SymbolTable) (s : Scope) (id : NodeId) :
    (t.addScope s).2.scopeIndex? id =
      if s.id = id then some t.scopes.length else t.scopeIndex? id := by
  simp [scopeIndex?, addScope, lastIndex?_concat]

/-- A change to one variable is seen there and nowhere else. -/
theorem variableAt_modifyVariable (t : SymbolTable) (id other : SymbolId)
    (f : VariableInfo → VariableInfo) :
    (t.modifyVariable id f).variableAt other =
      if id = other then (t.variableAt other).map f else t.variableAt other := by
  unfold variableAt modifyVariable
  rw [List.getElem?_modify]
  by_cases same : id = other
  · subst same
    cases t.symbols[id]? with
    | none => simp
    | some s => cases s <;> simp [Symbol.asVariable]
  · simp [same]

/-- A change to one function is seen there and nowhere else. -/
theorem functionAt_modifyFunction (t : SymbolTable) (id other : SymbolId)
    (f : FunctionInfo → FunctionInfo) :
    (t.modifyFunction id f).functionAt other =
      if id = other then (t.functionAt other).map f else t.functionAt other := by
  unfold functionAt modifyFunction
  rw [List.getElem?_modify]
  by_cases same : id = other
  · subst same
    cases t.symbols[id]? with
    | none => simp
    | some s => cases s <;> simp [Symbol.asFunction]
  · simp [same]

/-- No function notices a change to a variable. -/
theorem functionAt_modifyVariable (t : SymbolTable) (id other : SymbolId)
    (f : VariableInfo → VariableInfo) :
    (t.modifyVariable id f).functionAt other = t.functionAt other := by
  unfold functionAt modifyVariable
  rw [List.getElem?_modify]
  cases t.symbols[other]? with
  | none => rfl
  | some s => by_cases same : id = other <;> cases s <;> simp [same, Symbol.asFunction]

/-- No variable notices a change to a function. -/
theorem variableAt_modifyFunction (t : SymbolTable) (id other : SymbolId)
    (f : FunctionInfo → FunctionInfo) :
    (t.modifyFunction id f).variableAt other = t.variableAt other := by
  unfold variableAt modifyFunction
  rw [List.getElem?_modify]
  cases t.symbols[other]? with
  | none => rfl
  | some s => by_cases same : id = other <;> cases s <;> simp [same, Symbol.asVariable]

end SymbolTable
end MiddleEnd
