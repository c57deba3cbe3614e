import MiddleEnd.Proofs.Checked.Shape
import MiddleEnd.Proofs.Scoping.Declared
import MiddleEnd.Proofs.Scoping.Resolver
import MiddleEnd.Proofs.Scoping.Placed

/-!
# What the table shows at a step

The table of a program is complete before anything is looked up in it, and a name is shown or hidden
by comparing positions. A survey has only what was declared up to a step. In a program whose
positions do not mislead the two agree: at each use of a name, the table shows what the survey finds
in its open scopes.

Positions that follow the script do not mislead, but they need not follow it. A node may be built
before the one that the script has first, such as the body of a `while` before its test, as long as
no use gets to the wrong side of a declaration that it can find.

Results:
1. `Source.Program.Ordered`: positions do not mislead, and no two scopes have one owner.
2. `ordered_of_sorted`: positions that follow the script do not mislead.
3. `declared_before_iff`: what the positions show is what was declared before.
4. `follows`: at every step of a program the table shows what the survey has.
-/

namespace MiddleEnd

open Survey

namespace Survey

/-- A declaration that a use of a name can find where the survey is: it declares that name in an
open scope, and not globally. -/
def Candidate (w : Survey) (r : Source.Ref) (e : Entry) : Prop :=
  e.scope ≠ 0 ∧ e.scope ∈ w.path ∧ e.symbol.name = r.name

instance (w : Survey) (r : Source.Ref) (e : Entry) : Decidable (w.Candidate r e) :=
  inferInstanceAs (Decidable (_ ∧ _ ∧ _))

/-- A step whose position does not mislead. A use stands behind the declarations that were made of
its name, and before those that are still to be made. Of other steps nothing is asked. -/
def InOrder (entries : List Entry) (w : Survey) : Step → Prop
  | .use r =>
    (∀ e ∈ w.entries, w.Candidate r e → e.symbol.pos.offset < r.span.start.offset) ∧
    ∀ e ∈ entries.drop w.entries.length, w.Candidate r e →
      r.span.start.offset ≤ e.symbol.pos.offset
  | .enter .. | .leave | .declare _ => True

instance (entries : List Entry) (w : Survey) : DecidablePred (InOrder entries w)
  | .use _ => inferInstanceAs (Decidable (_ ∧ _))
  | .enter .. | .leave | .declare _ => .isTrue trivial

instance decidableAll (P : Survey → Step → Prop) [∀ w, DecidablePred (P w)] :
    (w : Survey) → (steps : List Step) → Decidable (w.All P steps)
  | _, [] => .isTrue trivial
  | w, s :: rest =>
    have := decidableAll P (w.step s) rest
    inferInstanceAs (Decidable (_ ∧ _))

end Survey

namespace Source.Program

/-- The survey of a program when all functions are declared and none was entered. -/
def globals (p : Program) : Survey := (Survey.start p.id).run p.header

/-- The positions inside the functions do not mislead, and no two scopes have one owner. -/
structure Ordered (p : Program) : Prop where
  uses : p.globals.All (InOrder (Survey.ofProgram p).entries) p.main
  owners : ((Survey.ofProgram p).owners.map Prod.fst).Nodup

instance (p : Program) : Decidable p.Ordered :=
  decidable_of_iff (_ ∧ _) ⟨fun h => ⟨h.1, h.2⟩, fun h => ⟨h.uses, h.owners⟩⟩

theorem globals_path (p : Program) : p.globals.path = [0] := path_run_declares ..

theorem globals_owners (p : Program) : p.globals.owners = [(p.id, .global)] := by
  simp [globals, owners_run, header, Survey.start, Step.entered?]

theorem globals_entries (p : Program) :
    p.globals.entries = p.functions.map fun f => ⟨0, f.symbol⟩ := entries_run_declares ..

theorem globals_sound (p : Program) : p.globals.Sound := (Sound.start p.id).run _

theorem ofProgram_eq (p : Program) : Survey.ofProgram p = p.globals.run p.main := run_append ..

theorem main_inside (p : Program) : p.globals.All Inside p.main :=
  inside_functions p.globals_sound.nonempty p.functions

end Source.Program

/-! ## Before and after -/

theorem offset_mem {steps : List Step} {s : Step} {n : Nat} (mem : s ∈ steps)
    (offset : s.offset? = some n) : n ∈ offsets steps :=
  List.mem_filterMap.2 ⟨s, mem, offset⟩

variable {p : Source.Program} {pre post : List Step} {r : Source.Ref}

/-- Positions that follow the script do not mislead. -/
theorem ordered_of_sorted (sorted : (offsets p.main).Pairwise (· < ·))
    (owners : ((ofProgram p).owners.map Prod.fst).Nodup) : p.Ordered := by
  refine ⟨all_iff.2 ?_, owners⟩
  intro pre s post split
  cases s with
  | enter | leave | declare => trivial
  | use r =>
    rw [split, offsets_append] at sorted
    obtain ⟨-, behind, before⟩ := List.pairwise_append.1 sorted
    obtain ⟨earlier, eqEarlier, declaredEarlier⟩ := entries_run p.globals pre
    obtain ⟨later, eqLater, declaredLater⟩ := entries_run (p.globals.run pre) (.use r :: post)
    refine ⟨fun e mem candidate => ?_, fun e mem _ => ?_⟩
    · rw [eqEarlier, p.globals_entries] at mem
      rcases List.mem_append.1 mem with global | mem
      · obtain ⟨f, -, rfl⟩ := List.mem_map.1 global
        exact absurd rfl candidate.1
      · exact before _ (offset_mem (declaredEarlier e mem) rfl) _ List.mem_cons_self
    · rw [p.ofProgram_eq, split, run_append, eqLater, List.drop_left] at mem
      rcases List.mem_cons.1 (declaredLater e mem) with same | mem
      · cases same
      · exact Nat.le_of_lt ((List.pairwise_cons.1 behind).1 _ (offset_mem mem rfl))

theorem Draft.Program.place_ordered (p : Draft.Program) (b : Source.Builder) :
    (p.place b).1.Ordered :=
  ordered_of_sorted (p.place_sorted b) (p.place_owners_nodup b)

/-- `int main() { int x = 0; while (x < 3) { int x = 1; } }`, built with the body of the loop before
its test. -/
def bodyFirst : Source.Build Source.Program := do
  let zero ← Source.Builder.const 0
  let outer ← Source.Builder.decl "x" .int zero
  let one ← Source.Builder.const 1
  let inner ← Source.Builder.decl "x" .int one
  let body ← Source.Builder.block [inner]
  let x ← Source.Builder.var "x"
  let three ← Source.Builder.const 3
  let test ← Source.Builder.binary .less x three
  let loop ← Source.Builder.whileDo test body
  let main ← Source.Builder.function "main" [] .int [outer, loop]
  Source.Builder.program [main]

/-- The test stands behind a declaration that comes after it in the script, but in a scope that is
not open at the test. -/
example :
    let p := (bodyFirst ⟨"t", 0, 0⟩).1
    p.Ordered ∧ ¬(offsets p.main).Pairwise (· < ·) := by
  decide +kernel

/-- What a use may see by its position is what was declared before it. -/
theorem declared_before_iff (ordered : p.Ordered) (split : p.main = pre ++ .use r :: post)
    {id : SymbolId} {e : Entry} (found : (ofProgram p).entries[id]? = some e)
    (opened : e.scope ∈ (p.globals.run pre).path) (named : e.symbol.name = r.name) :
    e.scope = 0 ∨ e.symbol.pos.offset < r.span.start.offset ↔
      id < (p.globals.run pre).entries.length := by
  obtain ⟨behind, before⟩ := all_iff.1 ordered.uses pre _ post split
  have inside := all_append.1 (split ▸ p.main_inside)
  obtain ⟨later, eqLater, -⟩ := entries_run (p.globals.run pre) (.use r :: post)
  have whole : (ofProgram p).entries = (p.globals.run pre).entries ++ later := by
    rw [p.ofProgram_eq, split, run_append, eqLater]
  rw [whole] at found
  rw [whole, List.drop_left] at before
  constructor
  · intro shown
    by_contra outside
    rw [List.getElem?_append_right (Nat.not_lt.1 outside)] at found
    have mem := List.mem_of_getElem? found
    have inner := (local_of_inside inside.2 eqLater e mem).1
    rcases shown with global | above
    · exact inner global
    · exact Nat.not_lt.2 (before e mem ⟨inner, opened, named⟩) above
  · intro isBefore
    rw [List.getElem?_append_left isBefore] at found
    rw [or_iff_not_imp_left]
    exact fun inner => behind e (List.mem_of_getElem? found) ⟨inner, opened, named⟩

/-! ## What the table has -/

/-- The scope of an index, told by the survey. -/
theorem scope_at (p : Source.Program) {i : ScopeIndex} (inside : i < (ofProgram p).owners.length) :
    ∃ scope, (Declarations.ofProgram p).table.scopes[i]? = some scope ∧
      (scope.kind = .global ↔ i = 0) ∧
      ∀ name, scope.find? name = firstIn (ofProgram p).entries i name := by
  have described := declared_describes p
  obtain ⟨scope, found⟩ : ∃ scope, (Declarations.ofProgram p).table.scopes[i]? = some scope :=
    ⟨_, List.getElem?_eq_getElem (described.scopes_length ▸ inside)⟩
  refine ⟨scope, found, ?_, described.names i scope found⟩
  have owner : (ofProgram p).owners[i]? = some (scope.id, scope.kind) := by
    rw [← described.owners, List.getElem?_map, found]
    rfl
  rw [p.ofProgram_eq, owners_run, p.globals_owners] at owner
  cases i with
  | zero =>
    obtain ⟨-, kind⟩ : _ ∧ _ := by simpa using owner
    exact ⟨fun _ => rfl, fun _ => kind.symm⟩
  | succ i =>
    have mem := List.mem_of_getElem? (show (p.main.filterMap Step.entered?)[i]? = _ from owner)
    have local_ := kind_ne_global p.main_inside _ mem
    exact ⟨fun global => absurd global local_, nofun⟩

/-- The symbol of a number, told by the survey. -/
theorem symbol_at (p : Source.Program) {id : SymbolId} {e : Entry}
    (found : (ofProgram p).entries[id]? = some e) :
    ∃ s, (Declarations.ofProgram p).table.symbols[id]? = some s ∧ s.bare = e.symbol := by
  have same := congrArg (·[id]?) (declared_describes p).symbols
  simp only [List.getElem?_map, found, Option.map_some] at same
  exact Option.map_eq_some_iff.1 same

/-- The numbers behind those of the functions are the ones of variables. -/
theorem variable_at (p : Source.Program) {id : SymbolId} (above : p.functions.length ≤ id)
    (below : id < (ofProgram p).entries.length) :
    ∃ v : VariableInfo,
      (Declarations.ofProgram p).table.symbols[id]? = some (.var v) ∧ v.temp = none := by
  obtain ⟨e, found⟩ : ∃ e, (ofProgram p).entries[id]? = some e :=
    ⟨_, List.getElem?_eq_getElem below⟩
  obtain ⟨s, symbol, bare⟩ := symbol_at p found
  obtain ⟨later, grown, -⟩ := entries_run p.globals p.main
  have behind := found
  rw [p.ofProgram_eq, grown, List.getElem?_append_right (by simpa [p.globals_entries] using above)]
    at behind
  obtain ⟨-, v, isVar, unplaced⟩ :=
    local_of_inside p.main_inside grown e (List.mem_of_getElem? behind)
  rw [isVar] at bare
  cases s with
  | var u =>
    obtain rfl : u = v := by injection bare
    exact ⟨u, symbol, unplaced⟩
  | fn g => cases bare

/-- What is declared behind the functions is declared locally. -/
theorem local_at {p : Source.Program} {steps rest : List Step} (split : p.main = steps ++ rest)
    {id : SymbolId} (above : p.functions.length ≤ id) {e : Entry}
    (found : (p.globals.run steps).entries[id]? = some e) : e.scope ≠ 0 := by
  have inside := p.main_inside
  rw [split] at inside
  obtain ⟨later, grown, -⟩ := entries_run p.globals steps
  rw [grown, List.getElem?_append_right (by simpa [p.globals_entries] using above)] at found
  exact (local_of_inside (all_append.1 inside).1 grown e (List.mem_of_getElem? found)).1

/-- The numbers before are the ones of functions. -/
theorem not_variable_at (p : Source.Program) {id : SymbolId} (below : id < p.functions.length) :
    (Declarations.ofProgram p).table.variableAt id = none := by
  obtain ⟨later, grown, -⟩ := entries_run p.globals p.main
  have found : (ofProgram p).entries[id]? = some ⟨0, p.functions[id].symbol⟩ := by
    rw [p.ofProgram_eq, grown, List.getElem?_append_left (by simpa [p.globals_entries] using below),
      p.globals_entries, List.getElem?_map, List.getElem?_eq_getElem below]
    rfl
  obtain ⟨s, symbol, bare⟩ := symbol_at p found
  rw [SymbolTable.variableAt, symbol]
  cases s with
  | var v => cases bare
  | fn g => rfl

/-- Behind the last symbol there is no variable. -/
theorem lt_of_variableAt (p : Source.Program) {id : SymbolId}
    (isVar : ((Declarations.ofProgram p).table.variableAt id).isSome) :
    p.functions.length ≤ id ∧ id < (ofProgram p).entries.length := by
  constructor
  · by_contra below
    rw [not_variable_at p (Nat.not_le.1 below)] at isVar
    cases isVar
  · by_contra outside
    rw [← (declared_describes p).symbols_length, Nat.not_lt] at outside
    rw [SymbolTable.variableAt, List.getElem?_eq_none outside] at isVar
    cases isVar

/-- The scope of a declaration tells whether it is one of a function. -/
theorem function_iff_of_mem {e : Entry} (mem : e ∈ (ofProgram p).entries) :
    e.symbol.asFunction.isSome ↔ e.scope = 0 := by
  obtain ⟨later, grown, -⟩ := entries_run p.globals p.main
  rw [p.ofProgram_eq, grown, p.globals_entries] at mem
  rcases List.mem_append.1 mem with global | inner
  · obtain ⟨f, -, rfl⟩ := List.mem_map.1 global
    simp [Source.Function.symbol, Symbol.asFunction]
  · obtain ⟨notGlobal, v, isVar, -⟩ := local_of_inside p.main_inside grown e inner
    simp [isVar, Symbol.asFunction, notGlobal]

/-- A name of a scope stands for a symbol with that name, a function globally and a variable
elsewhere. -/
theorem named_symbol {i : ScopeIndex} {scope : Scope} {name : String} {id : SymbolId}
    (found : (Declarations.ofProgram p).table.scopes[i]? = some scope)
    (named : scope.find? name = some id) :
    ∃ s, (Declarations.ofProgram p).table.symbols[id]? = some s ∧ s.name = name ∧
      (s.asFunction.isSome ↔ i = 0) := by
  rw [(declared_describes p).names i scope found name] at named
  obtain ⟨e, at_id, rfl, rfl⟩ := firstIn_eq_some named
  obtain ⟨s, symbol, bare⟩ := symbol_at p at_id
  have kind := function_iff_of_mem (List.mem_of_getElem? at_id)
  refine ⟨s, symbol, ?_, ?_⟩
  · rw [← bare]
    cases s <;> rfl
  · rw [← kind, ← bare]
    cases s <;> rfl

/-- The innermost scope has the first declaration of a name in it. -/
theorem innermost_at (p : Source.Program) {i : ScopeIndex} (outer : ScopePath)
    (inside : i < (ofProgram p).owners.length) (name : String) :
    (Declarations.ofProgram p).table.innermost? (i :: outer) name =
      firstIn (ofProgram p).entries i name := by
  obtain ⟨scope, found, -, names⟩ := scope_at p inside
  rw [SymbolTable.innermost?, found, Option.bind_some, names]

/-- The innermost scope has a symbol with the name of a declaration, which is a function if the
declaration is one. -/
def SymbolTable.Finds (t : SymbolTable) (path : ScopePath) (s : Symbol) : Prop :=
  ∃ id found, t.innermost? path s.name = some id ∧ t.symbols[id]? = some found ∧
    found.name = s.name ∧ (found.asFunction.isSome ↔ s.asFunction.isSome)

/-- A declaration is found in its scope, whether or not it is the first of its name. -/
theorem finds_of_mem {e : Entry} (mem : e ∈ (ofProgram p).entries) (outer : ScopePath) :
    (Declarations.ofProgram p).table.Finds (e.scope :: outer) e.symbol := by
  have inside := ((Sound.start p.id).run p.script).entry_lt e mem
  cases first : firstIn (ofProgram p).entries e.scope e.symbol.name with
  | none => exact absurd rfl (firstIn_eq_none.1 first e mem rfl)
  | some id =>
    obtain ⟨scope, at_scope, -, names⟩ := scope_at p inside
    obtain ⟨found, symbol, name, isFn⟩ := named_symbol at_scope ((names _).trans first)
    refine ⟨id, found, ?_, symbol, name, isFn.trans (function_iff_of_mem mem).symm⟩
    rw [innermost_at p outer inside, first]

/-- A node owns the scope that was entered for it. -/
theorem scopeIndex_at (distinct : ((ofProgram p).owners.map Prod.fst).Nodup) {i : ScopeIndex}
    {id : NodeId}
    (owner : ((ofProgram p).owners.map Prod.fst)[i]? = some id) :
    (Declarations.ofProgram p).table.scopeIndex? id = some i := by
  have ids : (Declarations.ofProgram p).table.scopes.map Scope.id =
      (ofProgram p).owners.map Prod.fst := by
    rw [← (declared_describes p).owners, List.map_map]
    rfl
  rw [← ids] at distinct
  have at_i : ((Declarations.ofProgram p).table.scopes.map Scope.id)[i]? = some id := by
    rw [ids, owner]
  -- the last scope of a node is the only one
  cases found : (Declarations.ofProgram p).table.scopeIndex? id with
  | none =>
    have absent := lastIndex?_eq_none.1 found
    obtain ⟨scope, mem, same⟩ := List.mem_map.1 (List.mem_of_getElem? at_i)
    have differs := absent scope mem
    rw [same, beq_self_eq_true] at differs
    cases differs
  | some j =>
    obtain ⟨scope, at_j, same⟩ := lastIndex?_eq_some found
    have at_j : ((Declarations.ofProgram p).table.scopes.map Scope.id)[j]? = some id := by
      rw [List.getElem?_map, at_j, Option.map_some, eq_of_beq same]
    obtain ⟨jlt, -⟩ := List.getElem?_eq_some_iff.1 at_j
    rw [(List.getElem?_inj jlt distinct).1 (at_j.trans at_i.symm)]

/-! ## Looking up -/

theorem open_lt_at {s : Step} (split : p.main = pre ++ s :: post) :
    ∀ i ∈ (p.globals.run pre).path, i < (ofProgram p).owners.length := by
  intro i mem
  rw [p.ofProgram_eq, split, run_append, owners_run, List.length_append]
  exact Nat.lt_add_right _ ((p.globals_sound.run pre).open_lt i mem)

/-- The table shows at a use what was declared before it, in scopes that are open. -/
theorem lookup_of_opened (ordered : p.Ordered) (split : p.main = pre ++ .use r :: post)
    (path : ScopePath) (opened : ∀ i ∈ path, i ∈ (p.globals.run pre).path) :
    (Declarations.ofProgram p).table.lookup r.name r.span.start path =
      .ok (path.findSome? fun i => firstIn (p.globals.run pre).entries i r.name) := by
  obtain ⟨later, grown, -⟩ := entries_run (p.globals.run pre) (.use r :: post)
  have whole : (ofProgram p).entries = (p.globals.run pre).entries ++ later := by
    rw [p.ofProgram_eq, split, run_append, grown]
  induction path with
  | nil => rfl
  | cons i outer ih =>
    obtain ⟨here, outside⟩ := List.forall_mem_cons.1 opened
    obtain ⟨scope, found, global, names⟩ := scope_at p (open_lt_at split i here)
    have further := ih outside
    have named := names r.name
    rw [SymbolTable.lookup, found, List.findSome?_cons]
    cases first : firstIn (ofProgram p).entries i r.name with
    | none =>
      rw [first] at named
      rw [whole] at first
      simp only [named, firstIn_append_eq_none first]
      exact further
    | some id =>
      obtain ⟨e, at_id, scope_eq, name_eq⟩ := firstIn_eq_some first
      obtain ⟨s, symbol, bare⟩ := symbol_at p at_id
      rw [first] at named
      rw [whole] at first
      have visible : scope.shows s r.span.start = true ↔
          id < (p.globals.run pre).entries.length := by
        rw [← declared_before_iff ordered split at_id (scope_eq ▸ here) name_eq, scope_eq,
          ← global, ← bare, s.bare_pos]
        simp [Scope.shows]
      simp only [named, symbol, firstIn_append_eq_some first]
      -- a scope that has the name only later is passed over, for the survey and for the table
      by_cases shown : id < (p.globals.run pre).entries.length
      · rw [if_pos (visible.2 shown), if_pos shown]
      · rw [if_neg (shown ∘ visible.1), if_neg shown]
        exact further

/-- The table shows at a use what the survey finds. -/
theorem lookup_eq (ordered : p.Ordered) (split : p.main = pre ++ .use r :: post) :
    (Declarations.ofProgram p).table.lookup r.name r.span.start (p.globals.run pre).path =
      .ok ((p.globals.run pre).find? r.name) :=
  lookup_of_opened ordered split _ fun _ mem => mem

/-- What the table shows a name to stand for. -/
inductive Shows (t : SymbolTable) (path : ScopePath) (r : Source.Ref) : Resolution → Prop
  | notFound : t.lookup r.name r.span.start path = .ok none → Shows t path r .notFound
  | notVariable {id : SymbolId} {g : FunctionInfo} :
      t.lookup r.name r.span.start path = .ok (some id) → t.symbols[id]? = some (.fn g) →
      Shows t path r .notVariable
  | var {id : SymbolId} {v : VariableInfo} :
      t.lookup r.name r.span.start path = .ok (some id) → t.symbols[id]? = some (.var v) →
      Shows t path r (.var id)

/-- At a step after those of a survey the table shows what the survey has. -/
def Follows (t : SymbolTable) (w : Survey) : Step → Prop
  | .enter id _ => t.scopeIndex? id = some w.owners.length
  | .leave => True
  | .declare s => ∃ id, t.innermost? w.path s.name = some id
  | .use r => Shows t w.path r (w.resolution r.name)

theorem entries_at_declare {s : Symbol} (split : p.main = pre ++ .declare s :: post) :
    ∃ later, (ofProgram p).entries =
      (p.globals.run pre).entries ++ ⟨(p.globals.run pre).path.headD 0, s⟩ :: later := by
  obtain ⟨later, grown, -⟩ := entries_run ((p.globals.run pre).step (.declare s)) post
  refine ⟨later, ?_⟩
  rw [p.ofProgram_eq, split, run_append, run_cons, grown, step, List.append_assoc]
  rfl

/-- At a step after those of a survey the table has the scope that is entered and the symbol that is
declared. -/
def SymbolTable.Provides (t : SymbolTable) (w : Survey) : Step → Prop
  | .enter id _ => t.scopeIndex? id = some w.owners.length
  | .declare s => t.Finds w.path s
  | .leave | .use _ => True

/-- If no two scopes have one owner, the table has every scope and declaration of its program. -/
theorem provides (distinct : ((ofProgram p).owners.map Prod.fst).Nodup) :
    p.globals.All (Declarations.ofProgram p).table.Provides p.main := by
  refine all_iff.2 ?_
  intro pre s post split
  cases s with
  | enter id kind =>
    refine scopeIndex_at distinct ?_
    rw [p.ofProgram_eq, split, run_append, owners_run, List.filterMap_cons]
    simp [Step.entered?]
  | leave | use => trivial
  | declare s =>
    have inner := (all_iff.1 p.main_inside pre _ post split).1
    obtain ⟨later, whole⟩ := entries_at_declare split
    show (Declarations.ofProgram p).table.Finds (p.globals.run pre).path s
    cases path : (p.globals.run pre).path with
    | nil => exact absurd (by rw [path]; rfl) inner
    | cons i outer =>
      rw [path] at whole
      refine finds_of_mem (e := ⟨i, s⟩) ?_ outer
      rw [whole]
      exact List.mem_append_right _ List.mem_cons_self

/-- At every step inside the functions the table shows what the survey has. -/
theorem follows (ordered : p.Ordered) :
    p.globals.All (Follows (Declarations.ofProgram p).table) p.main := by
  refine all_iff.2 ?_
  intro pre s post split
  have provided := all_iff.1 (provides ordered.owners) pre s post split
  cases s with
  | enter id kind => exact provided
  | leave => trivial
  | declare s =>
    obtain ⟨id, _, named, -⟩ := provided
    exact ⟨id, named⟩
  | use r =>
    have looked := lookup_eq ordered split
    show Shows _ _ r ((p.globals.run pre).resolution r.name)
    unfold resolution
    cases resolved : (p.globals.run pre).find? r.name with
    | none => exact .notFound (resolved ▸ looked)
    | some id =>
      rw [resolved] at looked
      obtain ⟨i, -, first⟩ := List.exists_of_findSome?_eq_some resolved
      obtain ⟨e, at_id, -⟩ := firstIn_eq_some first
      obtain ⟨later, grown, -⟩ := entries_run (p.globals.run pre) (.use r :: post)
      have whole : (ofProgram p).entries[id]? = some e := by
        rw [p.ofProgram_eq, split, run_append, grown]
        rw [List.getElem?_append_left (List.getElem?_eq_some_iff.1 at_id).1, at_id]
      obtain ⟨s, symbol, bare⟩ := symbol_at p whole
      simp only [meaning, at_id, ← bare]
      cases s with
      | var v => exact .var looked symbol
      | fn g => exact .notVariable looked symbol

/-- A declaration is the one that its scope has under its name. -/
def Numbered (t : SymbolTable) (w : Survey) : Step → Prop
  | .enter id _ => t.scopeIndex? id = some w.owners.length
  | .declare s => t.innermost? w.path s.name = some w.entries.length
  | .leave | .use _ => True

/-- In a program that declares no name twice, every declaration has its own number. -/
theorem numbered (ordered : p.Ordered) (clean : (Declarations.ofProgram p).log = []) :
    p.globals.All (Numbered (Declarations.ofProgram p).table) p.main := by
  refine all_iff.2 ?_
  intro pre s post split
  cases s with
  | enter id kind => exact all_iff.1 (follows ordered) pre _ post split
  | leave | use => trivial
  | declare s =>
    have inner := (all_iff.1 p.main_inside pre _ post split).1
    obtain ⟨later, whole⟩ := entries_at_declare split
    cases path : (p.globals.run pre).path with
    | nil => exact absurd (by rw [path]; rfl) inner
    | cons i outer =>
      show (Declarations.ofProgram p).table.innermost? (p.globals.run pre).path s.name = _
      rw [path, innermost_at p outer (open_lt_at split i (path ▸ List.mem_cons_self))]
      rw [(declared_describes p).log, whole] at clean
      rw [path] at whole clean
      rw [whole]
      exact firstIn_of_clashes_eq_nil clean

/-! ## The global scope -/

theorem scopeIndex_global (distinct : ((ofProgram p).owners.map Prod.fst).Nodup) :
    (Declarations.ofProgram p).table.scopeIndex? p.id = some 0 := by
  refine scopeIndex_at distinct ?_
  rw [p.ofProgram_eq, owners_run, p.globals_owners]
  rfl

theorem function_mem_entries {f : Source.Function} (mem : f ∈ p.functions) :
    ⟨0, f.symbol⟩ ∈ (ofProgram p).entries := by
  obtain ⟨later, grown, -⟩ := entries_run p.globals p.main
  rw [p.ofProgram_eq, grown, p.globals_entries]
  exact List.mem_append_left _ (List.mem_map.2 ⟨f, mem, rfl⟩)

/-- The name of a function stands for a function in the global scope. -/
theorem function_at (p : Source.Program) {f : Source.Function} (mem : f ∈ p.functions) :
    ∃ id, (Declarations.ofProgram p).table.innermost? [0] f.name = some id ∧
      ((Declarations.ofProgram p).table.functionAt id).isSome := by
  obtain ⟨id, found, named, symbol, -, isFn⟩ := finds_of_mem (function_mem_entries mem) []
  refine ⟨id, named, ?_⟩
  rw [SymbolTable.functionAt, symbol]
  exact isFn.2 rfl

end MiddleEnd
