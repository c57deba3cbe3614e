import MiddleEnd.Scope.Lookup
import Mathlib.Data.List.Basic

/-!
# The innermost visible declaration

What a name stands for, said without walking the path: among the scopes of the path that show a
symbol under the name, the innermost decides. A scope that has the name only later is passed over,
and so it hides nothing. A path may name a scope more than once.

Results:
1. `lookup_of_foundAt`, `lookup_of_hidden`: looking up under a scope that decides, and without one.
2. `foundAt_or_hidden`: there is one, or no scope of the path shows the name.
3. `lookup_finds_innermost`: what looking up answers, and what it answers from further on.
-/

namespace MiddleEnd

/-- What a scope has under a name is among its names. -/
theorem Scope.mem_of_find? {s : Scope} {name : String} {id : SymbolId}
    (named : s.find? name = some id) : (name, id) ∈ s.names := by
  obtain ⟨before, behind, names, -⟩ := List.lookup_eq_some_iff.1 named
  rw [names]
  exact List.mem_append_right before List.mem_cons_self

namespace SymbolTable

/-- The scopes of a path are scopes of the table, and what they name are symbols of it. -/
def Covers (t : SymbolTable) (path : ScopePath) : Prop :=
  ∀ index ∈ path, ∃ scope, t.scopes[index]? = some scope ∧
    ∀ name id, scope.find? name = some id → id < t.symbols.length

/-- A scope has a symbol under a name, and the symbol is visible from `pos`: the scope is the global
one, or the symbol was declared at an earlier position. -/
def Visible (t : SymbolTable) (name : String) (pos : Pos) (index : ScopeIndex) (id : SymbolId) :
    Prop :=
  ∃ scope symbol, t.scopes[index]? = some scope ∧ scope.find? name = some id ∧
    t.symbols[id]? = some symbol ∧ (scope.kind = .global ∨ symbol.pos.offset < pos.offset)

/-- No symbol of a scope is visible under a name. -/
def Hidden (t : SymbolTable) (name : String) (pos : Pos) (index : ScopeIndex) : Prop :=
  ∀ id, ¬t.Visible name pos index id

/-- The scope at `depth` of a path decides: it shows `id` under the name, and none of the scopes
further in shows anything under it. Depth is counted from the innermost scope. -/
structure FoundAt (t : SymbolTable) (name : String) (pos : Pos) (path : ScopePath) (depth : Nat)
    (id : SymbolId) : Prop where
  visible : ∃ index, path[depth]? = some index ∧ t.Visible name pos index id
  hidden : ∀ index ∈ path.take depth, t.Hidden name pos index

variable {t : SymbolTable} {name : String} {pos later : Pos} {index : ScopeIndex}
  {path outer : ScopePath} {id : SymbolId} {depth : Nat}

/-- What is visible stays visible further on. -/
theorem Visible.mono (h : t.Visible name pos index id) (le : pos.offset ≤ later.offset) :
    t.Visible name later index id := by
  obtain ⟨scope, symbol, found, named, isSymbol, shown⟩ := h
  exact ⟨scope, symbol, found, named, isSymbol,
    shown.imp_right fun before => Nat.lt_of_lt_of_le before le⟩

theorem foundAt_zero_iff :
    t.FoundAt name pos (index :: outer) 0 id ↔ t.Visible name pos index id := by
  constructor
  · rintro ⟨⟨index, at_zero, visible⟩, -⟩
    cases at_zero
    exact visible
  · exact fun visible => ⟨⟨index, rfl, visible⟩, nofun⟩

theorem foundAt_succ_iff :
    t.FoundAt name pos (index :: outer) (depth + 1) id ↔
      t.Hidden name pos index ∧ t.FoundAt name pos outer depth id := by
  constructor
  · rintro ⟨visible, hidden⟩
    obtain ⟨here, further⟩ := List.forall_mem_cons.1 hidden
    exact ⟨here, visible, further⟩
  · rintro ⟨here, visible, further⟩
    exact ⟨visible, List.forall_mem_cons.2 ⟨here, further⟩⟩

/-! ## One scope of the path -/

theorem lookup_of_visible (h : t.Visible name pos index id) :
    t.lookup name pos (index :: outer) = .ok (some id) := by
  obtain ⟨scope, symbol, found, named, isSymbol, shown⟩ := h
  have shows : scope.shows symbol pos = true := by simpa [Scope.shows] using shown
  simp only [lookup, found, named, isSymbol, shows, if_true]

theorem Covers.lookup_of_hidden (covered : t.Covers (index :: outer))
    (hidden : t.Hidden name pos index) :
    t.lookup name pos (index :: outer) = t.lookup name pos outer := by
  obtain ⟨scope, found, known⟩ := covered index List.mem_cons_self
  simp only [lookup, found]
  cases named : scope.find? name with
  | none => rfl
  | some id =>
    have inside : id < t.symbols.length := known name id named
    have isSymbol := List.getElem?_eq_getElem inside
    have hides : ¬scope.shows t.symbols[id] pos = true := fun shown =>
      hidden id ⟨scope, _, found, named, isSymbol, by simpa [Scope.shows] using shown⟩
    simp only [isSymbol, if_neg hides]

/-! ## The whole path -/

theorem lookup_of_foundAt (covered : t.Covers path) (h : t.FoundAt name pos path depth id) :
    t.lookup name pos path = .ok (some id) := by
  induction path generalizing depth with
  | nil =>
    obtain ⟨⟨index, outside, -⟩, -⟩ := h
    cases outside
  | cons index outer ih =>
    cases depth with
    | zero => exact lookup_of_visible (foundAt_zero_iff.1 h)
    | succ depth =>
      obtain ⟨hidden, further⟩ := foundAt_succ_iff.1 h
      rw [covered.lookup_of_hidden hidden]
      exact ih (List.forall_mem_cons.1 covered).2 further

theorem lookup_of_hidden (covered : t.Covers path)
    (hidden : ∀ index ∈ path, t.Hidden name pos index) : t.lookup name pos path = .ok none := by
  induction path with
  | nil => rfl
  | cons index outer ih =>
    obtain ⟨here, further⟩ := List.forall_mem_cons.1 hidden
    rw [covered.lookup_of_hidden here]
    exact ih (List.forall_mem_cons.1 covered).2 further

/-- A scope of the path decides, or none shows anything under the name. -/
theorem foundAt_or_hidden (t : SymbolTable) (name : String) (pos : Pos) (path : ScopePath) :
    (∃ depth id, t.FoundAt name pos path depth id) ∨ ∀ index ∈ path, t.Hidden name pos index := by
  induction path with
  | nil => exact .inr nofun
  | cons index outer ih =>
    by_cases here : ∃ id, t.Visible name pos index id
    · obtain ⟨id, visible⟩ := here
      exact .inl ⟨0, id, foundAt_zero_iff.2 visible⟩
    · have here : t.Hidden name pos index := not_exists.1 here
      rcases ih with ⟨depth, id, further⟩ | further
      · exact .inl ⟨depth + 1, id, foundAt_succ_iff.2 ⟨here, further⟩⟩
      · exact .inr (List.forall_mem_cons.2 ⟨here, further⟩)

/-- What decides is a symbol of the table. -/
theorem FoundAt.lt (h : t.FoundAt name pos path depth id) : id < t.symbols.length := by
  obtain ⟨⟨_, _, _, symbol, _, _, isSymbol, _⟩, _⟩ := h
  exact (List.getElem?_eq_some_iff.1 isSymbol).1

/-- From further on the same scope decides or one further in. -/
theorem FoundAt.mono (h : t.FoundAt name pos path depth id) (le : pos.offset ≤ later.offset) :
    ∃ depth' id', depth' ≤ depth ∧ t.FoundAt name later path depth' id' := by
  induction path generalizing depth with
  | nil =>
    obtain ⟨⟨index, outside, -⟩, -⟩ := h
    cases outside
  | cons index outer ih =>
    by_cases here : ∃ id', t.Visible name later index id'
    · obtain ⟨id', visible⟩ := here
      exact ⟨0, id', Nat.zero_le _, foundAt_zero_iff.2 visible⟩
    · -- the scope that decided before still shows its symbol, so it is not this one
      cases depth with
      | zero => exact absurd ⟨id, (foundAt_zero_iff.1 h).mono le⟩ here
      | succ depth =>
        obtain ⟨depth', id', inside, found⟩ := ih (foundAt_succ_iff.1 h).2
        exact ⟨depth' + 1, id', Nat.succ_le_succ inside,
          foundAt_succ_iff.2 ⟨not_exists.1 here, found⟩⟩

/-- Looking up answers a symbol if and only if the innermost scope that shows anything under the
name shows that symbol, and answers nothing if and only if no scope of the path does. What is found
from a position is decided in the same scope or further in from every later one. -/
theorem lookup_finds_innermost (covered : t.Covers path) (name : String) (pos : Pos) :
    (∀ id, t.lookup name pos path = .ok (some id) ↔ ∃ depth, t.FoundAt name pos path depth id) ∧
    (t.lookup name pos path = .ok none ↔
      ∀ index ∈ path, ∀ id, ¬t.Visible name pos index id) ∧
    ∀ later depth id, pos.offset ≤ later.offset → t.FoundAt name pos path depth id →
      ∃ depth' id', depth' ≤ depth ∧ t.FoundAt name later path depth' id' ∧
        t.lookup name later path = .ok (some id') := by
  refine ⟨fun id => ⟨fun looked => ?_, ?_⟩, ⟨fun looked => ?_, lookup_of_hidden covered⟩, ?_⟩
  · rcases foundAt_or_hidden t name pos path with ⟨depth, id', found⟩ | hidden
    · cases looked.symm.trans (lookup_of_foundAt covered found)
      exact ⟨depth, found⟩
    · cases looked.symm.trans (lookup_of_hidden covered hidden)
  · rintro ⟨depth, found⟩
    exact lookup_of_foundAt covered found
  · rcases foundAt_or_hidden t name pos path with ⟨depth, id', found⟩ | hidden
    · cases looked.symm.trans (lookup_of_foundAt covered found)
    · exact hidden
  · intro later depth id le found
    obtain ⟨depth', id', inside, found'⟩ := found.mono le
    exact ⟨depth', id', inside, found', lookup_of_foundAt covered found'⟩

/-- A function `x`, whose own `x` stands at offset 3, and a block with an `x` at offset 9. -/
def shadowing : SymbolTable where
  symbols := [.fn ⟨"x", .int, [], 0, ⟨0, "t"⟩, 0, none⟩,
    .var ⟨"x", .int, ⟨3, "t"⟩, false, none, none, none⟩,
    .var ⟨"x", .int, ⟨9, "t"⟩, false, none, none, none⟩]
  scopes := [⟨0, .global, [("x", 0)]⟩, ⟨1, .function, [("x", 1)]⟩, ⟨2, .block, [("x", 2)]⟩]

/-- On a path that names the block twice, the name still stands for the variable of the function at
offset 9. From offset 10 on it is found no further out than there. -/
theorem lookup_finds_innermost_of_shadowing :
    shadowing.Covers [2, 2, 1, 0] ∧ shadowing.FoundAt "x" ⟨9, "t"⟩ [2, 2, 1, 0] 2 1 ∧
      shadowing.lookup "x" ⟨9, "t"⟩ [2, 2, 1, 0] = .ok (some 1) ∧
      ∃ depth id, depth ≤ 2 ∧ shadowing.FoundAt "x" ⟨10, "t"⟩ [2, 2, 1, 0] depth id ∧
        shadowing.lookup "x" ⟨10, "t"⟩ [2, 2, 1, 0] = .ok (some id) := by
  have covered : shadowing.Covers [2, 2, 1, 0] := by
    have inside : ∀ index ∈ [2, 2, 1, 0], ∃ scope, shadowing.scopes[index]? = some scope ∧
        ∀ entry ∈ scope.names, entry.2 < shadowing.symbols.length := by
      simp [shadowing]
    intro index mem
    obtain ⟨scope, found, known⟩ := inside index mem
    exact ⟨scope, found, fun name id named => known _ (Scope.mem_of_find? named)⟩
  obtain ⟨finds, -, further⟩ := lookup_finds_innermost covered "x" ⟨9, "t"⟩
  have found : shadowing.FoundAt "x" ⟨9, "t"⟩ [2, 2, 1, 0] 2 1 := by
    refine ⟨⟨1, rfl, _, _, rfl, rfl, rfl, .inr (by decide)⟩, ?_⟩
    intro index mem id
    obtain rfl : index = 2 := by simpa using mem
    rintro ⟨scope, symbol, at_two, named, isSymbol, shown⟩
    cases at_two
    cases named
    cases isSymbol
    exact absurd shown (by decide)
  exact ⟨covered, found, (finds 1).2 ⟨2, found⟩, further ⟨10, "t"⟩ 2 1 (by decide) found⟩

end SymbolTable
end MiddleEnd
