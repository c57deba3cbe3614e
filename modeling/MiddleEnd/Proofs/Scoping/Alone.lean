import MiddleEnd.Proofs.Scoping.Recorded

/-!
# One function of a unit

What a function owns and declares does not depend on the functions around it. By itself in a unit it
has the same scopes and symbols, only with other numbers: in the whole unit its scopes stand behind
those of the functions before it, its parameters and variables behind theirs, and its own symbol
among those of the functions.

Results:
1. `Source.Function.declarations_moved`: the declarations of a function, numbered from elsewhere.
2. `firstIn_alone`, `symbols_alone`, `owners_alone`: what the unit has of one function.
3. `clean_iff`: when a unit declares no name twice.
-/

namespace MiddleEnd

/-- An entry whose scope is numbered by `k` more. -/
def Entry.moved (k : Nat) (e : Entry) : Entry := ⟨k + e.scope, e.symbol⟩

/-- What tells whether one entry takes the name of another. -/
def Entry.key (e : Entry) : ScopeIndex × String := (e.scope, e.symbol.name)

/-- The number `i` is among the `count` numbers from `next` on. -/
def Among (next count i : Nat) : Prop := next ≤ i ∧ i < next + count

theorem Among.first (next count : Nat) : Among next (count + 1) next :=
  ⟨Nat.le_refl next, by omega⟩

theorem Among.left {next count i : Nat} (inside : Among next count i) (count' : Nat) :
    Among next (count + count') i :=
  ⟨inside.1, by have := inside.2; omega⟩

theorem Among.right {next count count' i : Nat} (inside : Among (next + count) count' i) :
    Among next (count + count') i :=
  ⟨by have := inside.1; omega, by have := inside.2; omega⟩

theorem Among.behind {next count i : Nat} (inside : Among (next + 1) count i) :
    Among next (count + 1) i :=
  ⟨by have := inside.1; omega, by have := inside.2; omega⟩

theorem Among.not_behind {next count count' i : Nat} (inside : Among next count i) :
    ¬Among (next + count) count' i :=
  fun after => Nat.not_le.2 inside.2 after.1

/-! ## First entries -/

theorem firstIn_append (es es' : List Entry) (i : ScopeIndex) (name : String) :
    firstIn (es ++ es') i name =
      (firstIn es i name).or ((firstIn es' i name).map (· + es.length)) :=
  List.findIdx?_append

theorem firstIn_cons (e : Entry) (es : List Entry) (i : ScopeIndex) (name : String) :
    firstIn (e :: es) i name =
      if e.scope = i ∧ e.symbol.name = name then some 0 else (firstIn es i name).map (· + 1) := by
  unfold firstIn
  rw [List.findIdx?_cons]
  simp

/-- Entries of other scopes have no name in a scope. -/
theorem firstIn_of_scopes {es : List Entry} {i : ScopeIndex} (other : ∀ e ∈ es, e.scope ≠ i)
    (name : String) : firstIn es i name = none :=
  firstIn_eq_none.2 fun e mem same => absurd same (other e mem)

theorem firstIn_moved (k : Nat) (es : List Entry) (i : ScopeIndex) (name : String) :
    firstIn (es.map (Entry.moved k)) (k + i) name = firstIn es i name := by
  induction es with
  | nil => rfl
  | cons e rest ih =>
    rw [List.map_cons, firstIn_cons, firstIn_cons, ih]
    simp only [Entry.moved, Nat.add_left_cancel_iff]

/-- Nothing is reported if no two entries have one name in one scope. -/
theorem clashes_eq_nil_iff {es : List Entry} : clashes es = [] ↔ (es.map Entry.key).Nodup := by
  -- an entry clashes with entries before it only
  induction es using List.reverseRecOn with
  | nil => exact ⟨fun _ => List.nodup_nil, fun _ => rfl⟩
  | append_singleton es e ih =>
    have fresh : (if (firstIn es e.scope e.symbol.name).isSome then [e.clash] else []) = [] ↔
        e.key ∉ es.map Entry.key := by
      rw [ite_eq_right_iff, List.mem_map]
      constructor
      · rintro silent ⟨e', mem, same⟩
        obtain ⟨scope, name⟩ := Prod.mk.inj same
        cases first : firstIn es e.scope e.symbol.name with
        | some id => exact absurd (silent (by rw [first]; rfl)) (List.cons_ne_nil _ _)
        | none => exact firstIn_eq_none.1 first e' mem scope name
      · intro absent taken
        obtain ⟨id, first⟩ := Option.isSome_iff_exists.1 taken
        obtain ⟨e', at_id, scope, name⟩ := firstIn_eq_some first
        exact absurd ⟨e', List.mem_of_getElem? at_id, Prod.ext scope name⟩ absent
    rw [clashes_concat, List.append_eq_nil_iff, ih, fresh, List.map_append, List.map_singleton,
      List.nodup_append_comm, List.singleton_append, List.nodup_cons, and_comm]

namespace Source

/-! ## Declarations from elsewhere -/

theorem ForInit.declarations_moved (k scope : ScopeIndex) (init : Option ForInit) :
    ForInit.declarations (k + scope) init =
      (ForInit.declarations scope init).map (Entry.moved k) := by
  match init with
  | none | some (.expr e) => rfl
  | some (.decl d) => rfl

mutual

theorem Stmt.declarations_moved (k scope next : ScopeIndex) (s : Stmt) :
    s.declarations (k + scope) (k + next) = (s.declarations scope next).map (Entry.moved k) := by
  cases s with
  | decl d => rfl
  | expr | empty | brk | cont | ret => rfl
  | block body id span => exact declarationsOf_moved k next (next + 1) body
  | ite test ifTrue ifFalse span =>
    simp only [Stmt.declarations, List.map_append]
    rw [ifTrue.declarations_moved, Nat.add_assoc, ifFalse.declarations_moved]
  | whileDo test body span | doWhile body test span => exact body.declarations_moved k scope next
  | forLoop init test step body id span =>
    simp only [Stmt.declarations, List.map_append]
    rw [ForInit.declarations_moved, Nat.add_assoc, body.declarations_moved]

/-- Scopes that are numbered from further on hold the same declarations. -/
theorem declarationsOf_moved (k scope next : ScopeIndex) (ss : List Stmt) :
    declarationsOf (k + scope) (k + next) ss =
      (declarationsOf scope next ss).map (Entry.moved k) := by
  cases ss with
  | nil => rfl
  | cons s rest =>
    simp only [declarationsOf, List.map_append]
    rw [s.declarations_moved, Nat.add_assoc, declarationsOf_moved k scope _ rest]

end

theorem Function.declarations_moved (k next : ScopeIndex) (f : Function) :
    f.declarations (k + next) = (f.declarations next).map (Entry.moved k) := by
  unfold Function.declarations
  rw [List.map_append, Nat.add_assoc, declarationsOf_moved, List.map_map]
  rfl

mutual

theorem Stmt.scope_of_mem {scope next : ScopeIndex} {e : Entry} (s : Stmt)
    (mem : e ∈ s.declarations scope next) :
    e.scope = scope ∨ Among next s.owners.length e.scope := by
  cases s with
  | decl d =>
    obtain rfl := List.mem_singleton.1 mem
    exact .inl rfl
  | expr | empty | brk | cont | ret => cases mem
  | block body id span =>
    rw [Stmt.owners_block, List.length_cons]
    rcases scope_of_mem_of body mem with first | inside
    · exact .inr (first ▸ .first next _)
    · exact .inr inside.behind
  | ite test ifTrue ifFalse span =>
    rw [Stmt.owners_ite, List.length_append]
    rcases List.mem_append.1 mem with mem | mem
    · exact (ifTrue.scope_of_mem mem).imp_right (·.left _)
    · exact (ifFalse.scope_of_mem mem).imp_right Among.right
  | whileDo test body span =>
    rw [Stmt.owners_whileDo]
    exact body.scope_of_mem mem
  | doWhile body test span =>
    rw [Stmt.owners_doWhile]
    exact body.scope_of_mem mem
  | forLoop init test step body id span =>
    rw [Stmt.owners_forLoop, List.length_cons]
    rcases List.mem_append.1 mem with mem | mem
    · match init with
      | none | some (.expr e) => cases mem
      | some (.decl d) =>
        obtain rfl := List.mem_singleton.1 mem
        exact .inr (.first next _)
    · rcases body.scope_of_mem mem with first | inside
      · exact .inr (first ▸ .first next _)
      · exact .inr inside.behind

/-- What statements declare belongs to the scope around them or to one that they own. -/
theorem scope_of_mem_of {scope next : ScopeIndex} {e : Entry} (ss : List Stmt)
    (mem : e ∈ declarationsOf scope next ss) :
    e.scope = scope ∨ Among next (ownersOf ss).length e.scope := by
  cases ss with
  | nil => cases mem
  | cons s rest =>
    rw [ownersOf_cons, List.length_append]
    rcases List.mem_append.1 mem with mem | mem
    · exact (s.scope_of_mem mem).imp_right (·.left _)
    · exact (scope_of_mem_of rest mem).imp_right Among.right

end

/-- What a function declares inside belongs to a scope that it owns. -/
theorem Function.scope_of_mem {next : ScopeIndex} {e : Entry} {f : Function}
    (mem : e ∈ f.declarations next) : Among next f.owners.length e.scope := by
  rw [f.owners_eq, List.length_cons]
  rcases List.mem_append.1 mem with mem | mem
  · obtain ⟨q, -, rfl⟩ := List.mem_map.1 mem
    exact .first next _
  · rcases scope_of_mem_of f.body.stmts mem with first | inside
    · exact first ▸ .first next _
    · exact inside.behind

/-! ## Functions in a row -/

/-- How many scopes functions own. -/
def scopeCount (fs : List Function) : Nat := (fs.flatMap Function.owners).length

/-- How many symbols functions declare inside. -/
def localCount (fs : List Function) : Nat := (fs.flatMap Function.locals).length

theorem scopeCount_cons (f : Function) (fs : List Function) :
    scopeCount (f :: fs) = f.owners.length + scopeCount fs := by
  simp [scopeCount]

theorem length_declarationsIn (next : ScopeIndex) (fs : List Function) :
    (declarationsIn next fs).length = localCount fs := by
  rw [localCount, ← map_declarationsIn fs next, List.length_map]

theorem declarationsIn_append (next : ScopeIndex) (fs fs' : List Function) :
    declarationsIn next (fs ++ fs') =
      declarationsIn next fs ++ declarationsIn (next + scopeCount fs) fs' := by
  induction fs generalizing next with
  | nil => rfl
  | cons f rest ih =>
    rw [List.cons_append, declarationsIn, declarationsIn, ih, List.append_assoc, scopeCount_cons,
      Nat.add_assoc]

theorem scope_of_mem_in {next : ScopeIndex} {e : Entry} {fs : List Function}
    (mem : e ∈ declarationsIn next fs) : Among next (scopeCount fs) e.scope := by
  induction fs generalizing next with
  | nil => cases mem
  | cons f rest ih =>
    rw [scopeCount_cons]
    rcases List.mem_append.1 mem with mem | mem
    · exact (Function.scope_of_mem mem).left _
    · exact (ih mem).right

namespace Program

/-- The unit with one function only. -/
def only (p : Program) (f : Function) : Program := ⟨[f], p.id, p.span⟩

/-- The number that a symbol of a function by itself has in the unit, where `before` come first. -/
def symbolIn (p : Program) (before : List Function) (id : SymbolId) : SymbolId :=
  if id = 0 then before.length else p.functions.length + localCount before + (id - 1)

variable {p : Program} {before after : List Function} {f : Function}

theorem symbolIn_succ (id : SymbolId) :
    p.symbolIn before (id + 1) = p.functions.length + localCount before + id := by
  simp [symbolIn]

theorem symbolIn_zero : p.symbolIn before 0 = before.length := rfl

theorem symbolIn_injective (inside : before.length < p.functions.length) :
    Function.Injective (p.symbolIn before) := by
  have local_behind (id : Nat) : before.length < p.symbolIn before (id + 1) := by
    rw [symbolIn_succ]
    exact Nat.lt_of_lt_of_le inside (by rw [Nat.add_assoc]; exact Nat.le_add_right _ _)
  rintro (_ | i) (_ | j) same
  · rfl
  · exact absurd same (Nat.ne_of_lt (local_behind j))
  · exact absurd same.symm (Nat.ne_of_lt (local_behind i))
  · rw [symbolIn_succ, symbolIn_succ] at same
    exact congrArg _ (Nat.add_left_cancel same)

theorem owners_only (p : Program) (f : Function) :
    (p.only f).owners = (p.id, .global) :: f.owners := by
  simp [owners, only]

theorem declarations_only (p : Program) (f : Function) :
    (p.only f).declarations = ⟨0, f.symbol⟩ :: f.declarations 1 := by
  simp [declarations, only, declarationsIn]

/-- The declarations of a unit, with those of one function apart. -/
theorem declarations_split (split : p.functions = before ++ f :: after) :
    p.declarations = p.functions.map (fun f => ⟨0, f.symbol⟩) ++ declarationsIn 1 before ++
      (f.declarations 1).map (Entry.moved (scopeCount before)) ++
      declarationsIn (1 + scopeCount before + f.owners.length) after := by
  have own := f.declarations_moved (scopeCount before) 1
  rw [Nat.add_comm] at own
  simp only [declarations, split, declarationsIn_append, declarationsIn, own, List.append_assoc]

end Program

/-! ## What the unit has of a function -/

open Program

variable {p : Program} {before after : List Function} {f : Function}

/-- A scope of a function has the same names in the unit. -/
theorem firstIn_alone (split : p.functions = before ++ f :: after) {i : Nat}
    (inside : Among 1 f.owners.length i) (name : String) :
    firstIn p.declarations (scopeCount before + i) name =
      (firstIn (p.only f).declarations i name).map (p.symbolIn before) := by
  have above : 1 ≤ i := inside.1
  have below : i < 1 + f.owners.length := inside.2
  have heads : ∀ e ∈ p.functions.map (fun f => (⟨0, f.symbol⟩ : Entry)) ++ declarationsIn 1 before,
      e.scope ≠ scopeCount before + i := by
    intro e mem
    rcases List.mem_append.1 mem with mem | mem
    · obtain ⟨g, -, rfl⟩ := List.mem_map.1 mem
      exact Nat.ne_of_lt (Nat.lt_of_lt_of_le above (Nat.le_add_left _ _))
    · exact Nat.ne_of_lt (Nat.lt_of_lt_of_le (scope_of_mem_in mem).2 (by omega))
  have others : ∀ e ∈ declarationsIn (1 + scopeCount before + f.owners.length) after,
      e.scope ≠ scopeCount before + i :=
    fun e mem => Nat.ne_of_gt (Nat.lt_of_lt_of_le (by omega) (scope_of_mem_in mem).1)
  have global : ¬((0 : Nat) = i ∧ f.symbol.name = name) := fun same => by omega
  rw [declarations_split split, firstIn_append, firstIn_of_scopes others, Option.map_none,
    Option.or_none, firstIn_append, firstIn_of_scopes heads, Option.none_or, firstIn_moved,
    declarations_only, firstIn_cons, if_neg global, Option.map_map]
  refine congrArg (Option.map · _) (funext fun id => ?_)
  rw [Function.comp_apply, symbolIn_succ, List.length_append, List.length_map,
    length_declarationsIn, Nat.add_comm]

/-- Among functions with names of their own each is the first of its name. -/
theorem firstIn_function (names : (p.functions.map Source.Function.name).Nodup)
    (split : p.functions = before ++ f :: after) :
    firstIn p.declarations 0 f.name = some (p.symbolIn before 0) := by
  have fresh : firstIn (before.map fun g => (⟨0, g.symbol⟩ : Entry)) 0 f.name = none := by
    refine firstIn_eq_none.2 ?_
    intro e mem _ same
    obtain ⟨g, earlier, rfl⟩ := List.mem_map.1 mem
    rw [split, List.map_append, List.map_cons] at names
    exact (List.nodup_append.1 names).2.2 _ (List.mem_map_of_mem earlier) _ List.mem_cons_self same
  rw [declarations, split, List.map_append, List.map_cons, List.append_assoc, firstIn_append, fresh,
    Option.none_or, List.cons_append, firstIn_cons, if_pos ⟨rfl, rfl⟩]
  simp [symbolIn_zero]

/-- A symbol of a function is declared alike in the unit. -/
theorem symbols_alone (split : p.functions = before ++ f :: after) {id : SymbolId}
    (inside : id < (p.only f).declarations.length) :
    p.declarations[p.symbolIn before id]?.map Entry.symbol =
      (p.only f).declarations[id]?.map Entry.symbol := by
  rw [declarations_only] at inside ⊢
  cases id with
  | zero =>
    have here : p.declarations[p.symbolIn before 0]? = some ⟨0, f.symbol⟩ := by
      simp [declarations, split, symbolIn]
    rw [here]
    rfl
  | succ id =>
    have heads : (p.functions.map (fun f => (⟨0, f.symbol⟩ : Entry)) ++
        declarationsIn 1 before).length = p.functions.length + localCount before := by
      rw [List.length_append, List.length_map, length_declarationsIn]
    have short : id < ((f.declarations 1).map (Entry.moved (scopeCount before))).length := by
      simpa using inside
    rw [symbolIn_succ, declarations_split split, List.append_assoc, List.getElem?_append_right
      (by rw [heads]; omega), heads, Nat.add_sub_cancel_left, List.getElem?_append_left short,
      List.getElem?_map, List.getElem?_cons_succ, Option.map_map]
    rfl

/-- A scope of a function has the same owner in the unit. -/
theorem owners_alone (split : p.functions = before ++ f :: after) {i : Nat}
    (inside : Among 1 f.owners.length i) :
    p.owners[scopeCount before + i]? = (p.only f).owners[i]? := by
  obtain ⟨i, rfl⟩ := Nat.exists_eq_add_of_le' inside.1
  have below : i < f.owners.length := by have := inside.2; omega
  rw [owners_only, owners, split, List.flatMap_append, List.flatMap_cons, ← Nat.add_assoc,
    List.getElem?_cons_succ, List.getElem?_cons_succ, scopeCount,
    List.getElem?_append_right (Nat.le_add_right _ _), Nat.add_sub_cancel_left,
    List.getElem?_append_left below]

/-! ## Names declared once -/

theorem keys_moved (k : Nat) (es : List Entry) :
    ((es.map (Entry.moved k)).map Entry.key).Nodup ↔ (es.map Entry.key).Nodup := by
  have shifted : (es.map (Entry.moved k)).map Entry.key =
      (es.map Entry.key).map fun (i, name) => (k + i, name) := by
    rw [List.map_map, List.map_map]
    rfl
  rw [shifted]
  refine List.nodup_map_iff ?_
  rintro ⟨i, name⟩ ⟨j, name'⟩ same
  simpa using same

/-- Functions in a row declare nothing twice inside if none of them does. -/
theorem keys_declarationsIn (next : ScopeIndex) (fs : List Function) :
    ((declarationsIn next fs).map Entry.key).Nodup ↔
      ∀ f ∈ fs, ((f.declarations 0).map Entry.key).Nodup := by
  induction fs generalizing next with
  | nil => exact iff_of_true List.nodup_nil (List.forall_mem_nil _)
  | cons f rest ih =>
    have apart : List.Disjoint ((f.declarations next).map Entry.key)
        ((declarationsIn (next + f.owners.length) rest).map Entry.key) := by
      intro key here there
      obtain ⟨e, mem, rfl⟩ := List.mem_map.1 here
      obtain ⟨e', mem', same⟩ := List.mem_map.1 there
      have scope : e'.scope = e.scope := congrArg Prod.fst same
      exact (Function.scope_of_mem mem).not_behind (scope ▸ scope_of_mem_in mem')
    have own := f.declarations_moved next 0
    rw [Nat.add_zero] at own
    rw [declarationsIn, List.map_append, List.nodup_append', ih, own, keys_moved,
      List.forall_mem_cons, ← own]
    exact and_congr_right' (and_iff_left apart)

/-- A unit declares nothing twice if its functions have names of their own and none of them declares
anything twice inside. -/
theorem Program.keys_nodup (p : Program) :
    (p.declarations.map Entry.key).Nodup ↔ (p.functions.map Function.name).Nodup ∧
      ∀ f ∈ p.functions, ((f.declarations 0).map Entry.key).Nodup := by
  have heads : (p.functions.map fun f => (⟨0, f.symbol⟩ : Entry)).map Entry.key =
      (p.functions.map Function.name).map fun name => (0, name) := by
    rw [List.map_map, List.map_map]
    rfl
  have apart : List.Disjoint ((p.functions.map Function.name).map fun name => ((0 : Nat), name))
      ((declarationsIn 1 p.functions).map Entry.key) := by
    intro key here there
    obtain ⟨name, -, rfl⟩ := List.mem_map.1 here
    obtain ⟨e, mem, same⟩ := List.mem_map.1 there
    have scope : e.scope = 0 := congrArg Prod.fst same
    exact absurd (scope_of_mem_in mem).1 (scope ▸ Nat.not_succ_le_zero 0)
  rw [declarations, List.map_append, List.nodup_append', heads, keys_declarationsIn,
    List.nodup_map_iff (fun _ _ same => (Prod.mk.inj same).2)]
  exact and_congr_right' (and_iff_left apart)

end Source

/-- The first pass has nothing to report on a unit if its functions have names of their own and it
has nothing to report on any of them by itself. -/
theorem clean_iff (p : Source.Program) :
    (Declarations.ofProgram p).log = [] ↔ (p.functions.map Source.Function.name).Nodup ∧
      ∀ f ∈ p.functions, (Declarations.ofProgram (p.only f)).log = [] := by
  have clean (q : Source.Program) :
      (Declarations.ofProgram q).log = [] ↔ (q.declarations.map Entry.key).Nodup := by
    rw [(declared_describes q).log, Survey.entries_ofProgram, clashes_eq_nil_iff]
  simp only [clean, Source.Program.keys_nodup]
  refine and_congr_right fun _ => forall₂_congr fun f _ => ?_
  simp [Source.Program.only]

end MiddleEnd
