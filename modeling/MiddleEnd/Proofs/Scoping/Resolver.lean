import MiddleEnd.Proofs.Scoping.Script
import Mathlib.Data.List.Forall2

/-!
# Lexical scoping

The rules of scoping, read off the script of a program in one pass and without any position. A
`Chain` holds the open scopes, the innermost first, and in each the names declared so far. A
declaration extends the innermost scope, a name that it has already keeps its first meaning, and a
use looks through the scopes from the inside as they are at that moment. Declarations are numbered
in the order of the script.

Results:
1. `Source.Program.resolve`: every use of a program in order, with what it stands for.
2. `Survey.Mirrored.step`: a survey follows a chain, with numbers in place of names.
3. `Source.Program.resolve_eq_answers`: so it finds what every use of a program stands for.
-/

namespace MiddleEnd

/-- What a name stands for. -/
inductive Resolution
  | notFound
  | notVariable
  | var (id : SymbolId)
deriving DecidableEq

/-- The symbol that a use is given. -/
def Resolution.symbol? : Resolution → Option SymbolId
  | notFound | notVariable => none
  | var id => some id

/-- What the declaration of a number declares. -/
def Symbol.resolution (id : SymbolId) : Symbol → Resolution
  | .var _ => .var id
  | .fn _ => .notVariable

/-- The open scopes, innermost first, each with its names in order, and how many declarations there
were so far. -/
structure Chain where
  scopes : List (List (String × Resolution))
  count : Nat

namespace Chain

/-- What a name stands for, innermost scope first. -/
def resolve (c : Chain) (name : String) : Resolution :=
  (c.scopes.findSome? fun scope => scope.lookup name).getD .notFound

/-- Adds a name to a scope, unless the scope has it already. -/
def extend (scope : List (String × Resolution)) (name : String) (ρ : Resolution) :
    List (String × Resolution) :=
  match scope.lookup name with
  | some _ => scope
  | none => scope ++ [(name, ρ)]

theorem lookup_extend (scope : List (String × Resolution)) (name other : String) (ρ : Resolution) :
    (extend scope name ρ).lookup other =
      (scope.lookup other).or (if name = other then some ρ else none) := by
  unfold extend
  cases known : scope.lookup name with
  | some old =>
    by_cases same : name = other
    · subst same
      rw [known, Option.some_or]
    · rw [if_neg same, Option.or_none]
  | none =>
    rw [List.lookup_append]
    by_cases same : name = other
    · subst same
      rw [if_pos rfl, List.lookup_cons_self]
    · have differs : (other == name) = false := beq_false_of_ne (Ne.symm same)
      rw [if_neg same, List.lookup_cons, differs]
      rfl

/-- Declares a name in the innermost scope. -/
def declare (c : Chain) (s : Symbol) : Chain :=
  match c.scopes with
  | [] => { c with count := c.count + 1 }
  | inner :: outer => ⟨extend inner s.name (s.resolution c.count) :: outer, c.count + 1⟩

/-- One step more. -/
def step (c : Chain) : Step → Chain
  | .enter .. => { c with scopes := [] :: c.scopes }
  | .leave => { c with scopes := c.scopes.tail }
  | .declare s => c.declare s
  | .use _ => c

/-- Every use among the steps, with what it stands for where it is. -/
def resolveAll (c : Chain) : List Step → List (Source.Ref × Resolution)
  | [] => []
  | .use r :: rest => (r, c.resolve r.name) :: c.resolveAll rest
  | s :: rest => (c.step s).resolveAll rest

end Chain

/-- Every use of a name in a program, with what it stands for. -/
def Source.Program.resolve (p : Program) : List (Ref × Resolution) :=
  Chain.resolveAll ⟨[[]], 0⟩ p.script

/-! ## The same by numbers -/

namespace Survey

/-- The first declaration of a name in the innermost open scope that has one. -/
def find? (w : Survey) (name : String) : Option SymbolId :=
  w.path.findSome? fun i => firstIn w.entries i name

/-- What the declaration of a number declares. -/
def meaning (w : Survey) (id : SymbolId) : Resolution :=
  match w.entries[id]? with
  | none => .notVariable
  | some e => e.symbol.resolution id

/-- What a name stands for after the steps so far. -/
def resolution (w : Survey) (name : String) : Resolution :=
  match w.find? name with
  | none => .notFound
  | some id => w.meaning id

/-- Every use among the steps, with what it stands for where it is. -/
def answers (w : Survey) : List Step → List (Source.Ref × Resolution)
  | [] => []
  | .use r :: rest => (r, w.resolution r.name) :: w.answers rest
  | s :: rest => (w.step s).answers rest

theorem answers_append (w : Survey) (steps steps' : List Step) :
    w.answers (steps ++ steps') = w.answers steps ++ (w.run steps).answers steps' := by
  induction steps generalizing w with
  | nil => rfl
  | cons s rest ih =>
    cases s with
    | use r => exact congrArg _ (ih w)
    | enter | leave | declare => exact ih _

theorem answers_uses (w : Survey) (refs : List Source.Ref) :
    w.answers (refs.map .use) = refs.map fun r => (r, w.resolution r.name) := by
  induction refs with
  | nil => rfl
  | cons r rest ih => exact congrArg _ ih

theorem answers_declares (w : Survey) (symbol : α → Symbol) (as : List α) :
    w.answers (as.map fun a => .declare (symbol a)) = [] := by
  induction as generalizing w with
  | nil => rfl
  | cons a rest ih => exact ih _

theorem answers_varDecl (w : Survey) (d : Source.VarDecl) :
    w.answers d.script = w.answers (Source.optionScript d.init) :=
  (answers_append ..).trans (List.append_nil _)

theorem answers_scope (w : Survey) (id : NodeId) (kind : ScopeKind) (steps : List Step) :
    w.answers (.enter id kind :: steps ++ [.leave]) = (w.step (.enter id kind)).answers steps :=
  (answers_append (w.step (.enter id kind)) steps [.leave]).trans (List.append_nil _)

theorem meaning_declare {w : Survey} {id : SymbolId} (known : id < w.entries.length) (s : Symbol) :
    (w.step (.declare s)).meaning id = w.meaning id := by
  rw [meaning, step, List.getElem?_append_left known]
  rfl

theorem meaning_declared (w : Survey) (s : Symbol) :
    (w.step (.declare s)).meaning w.entries.length = s.resolution w.entries.length := by
  rw [meaning, step, List.getElem?_concat_length]

/-- A scope of a chain shows the names that the survey has for its number. -/
def Shown (w : Survey) (scope : List (String × Resolution)) (i : ScopeIndex) : Prop :=
  ∀ name, scope.lookup name = (firstIn w.entries i name).map w.meaning

/-- A chain and a survey that have seen the same steps. -/
structure Mirrored (w : Survey) (c : Chain) : Prop where
  count : c.count = w.entries.length
  scopes : List.Forall₂ w.Shown c.scopes w.path

variable {w : Survey} {c : Chain}

theorem findSome?_shown {scopes : List (List (String × Resolution))} {path : List ScopeIndex}
    (h : List.Forall₂ w.Shown scopes path) (name : String) :
    (scopes.findSome? fun scope => scope.lookup name) =
      (path.findSome? fun i => firstIn w.entries i name).map w.meaning := by
  induction h with
  | nil => rfl
  | @cons scope i _ _ here _ ih =>
    rw [List.findSome?_cons, List.findSome?_cons, here name]
    cases firstIn w.entries i name with
    | none => exact ih
    | some id => rfl

/-- A chain and its survey give a name the same meaning. -/
theorem Mirrored.resolve_eq (h : w.Mirrored c) (name : String) :
    c.resolve name = w.resolution name := by
  rw [Chain.resolve, findSome?_shown h.scopes, resolution, find?]
  cases w.path.findSome? fun i => firstIn w.entries i name <;> rfl

theorem Mirrored.start (id : NodeId) : (start id).Mirrored ⟨[[]], 0⟩ :=
  ⟨rfl, .cons (fun _ => rfl) .nil⟩

theorem firstIn_declare (w : Survey) (s : Symbol) (i : ScopeIndex) (name : String) :
    firstIn (w.step (.declare s)).entries i name = (firstIn w.entries i name).or
      (if w.path.headD 0 = i ∧ s.name = name then some w.entries.length else none) :=
  firstIn_concat ..

/-- What was declared before keeps its meaning. -/
theorem map_meaning_declare (w : Survey) (s : Symbol) (i : ScopeIndex) (name : String) :
    (firstIn w.entries i name).map (w.step (.declare s)).meaning =
      (firstIn w.entries i name).map w.meaning := by
  cases first : firstIn w.entries i name with
  | none => rfl
  | some id =>
    obtain ⟨e, found, -⟩ := firstIn_eq_some first
    exact congrArg some (meaning_declare (List.getElem?_eq_some_iff.1 found).1 s)

/-- A scope that the declaration does not go to. -/
theorem Shown.declare_other {scope : List (String × Resolution)} {i : ScopeIndex}
    (h : w.Shown scope i) (other : w.path.headD 0 ≠ i) (s : Symbol) :
    (w.step (.declare s)).Shown scope i := by
  intro name
  rw [firstIn_declare, if_neg fun both => other both.1, Option.or_none, map_meaning_declare, h name]

theorem declare_others {scopes : List (List (String × Resolution))} {path : List ScopeIndex}
    (h : List.Forall₂ w.Shown scopes path) (other : ∀ i ∈ path, w.path.headD 0 ≠ i) (s : Symbol) :
    List.Forall₂ (w.step (.declare s)).Shown scopes path := by
  induction h with
  | nil => exact .nil
  | cons here _ ih =>
    obtain ⟨otherHere, otherRest⟩ := List.forall_mem_cons.1 other
    exact .cons (here.declare_other otherHere s) (ih otherRest)

/-- The scope that the declaration goes to. -/
theorem Shown.declare_here {scope : List (String × Resolution)} {i : ScopeIndex}
    (h : w.Shown scope i) (here : w.path.headD 0 = i) (s : Symbol) :
    (w.step (.declare s)).Shown
      (Chain.extend scope s.name (s.resolution w.entries.length)) i := by
  intro name
  rw [Chain.lookup_extend, firstIn_declare, Option.map_or, map_meaning_declare, h name]
  congr 1
  by_cases same : s.name = name
  · rw [if_pos same, if_pos ⟨here, same⟩, Option.map_some, meaning_declared]
  · rw [if_neg same, if_neg fun both => same both.2, Option.map_none]

/-- One step more. -/
theorem Mirrored.step (h : w.Mirrored c) (sound : w.Sound) (s : Step) :
    (w.step s).Mirrored (c.step s) := by
  obtain ⟨count, scopes⟩ := h
  cases s with
  | enter id kind =>
    refine ⟨count, .cons ?_ scopes⟩
    intro name
    -- nothing was declared yet in a scope that was just entered
    have fresh : firstIn w.entries w.owners.length name = none :=
      firstIn_eq_none.2 fun e mem same => absurd same (Nat.ne_of_lt (sound.entry_lt e mem))
    show _ = (firstIn w.entries w.owners.length name).map _
    rw [fresh]
    rfl
  | leave =>
    refine ⟨count, ?_⟩
    show List.Forall₂ w.Shown c.scopes.tail w.path.tail
    rw [← List.drop_one, ← List.drop_one]
    exact List.forall₂_drop 1 scopes
  | use r => exact ⟨count, scopes⟩
  | declare s =>
    obtain ⟨open_, n⟩ := c
    obtain rfl : n = w.entries.length := count
    have nodup := sound.nodup
    have length : (w.step (.declare s)).entries.length = w.entries.length + 1 := List.length_append
    change List.Forall₂ w.Shown open_ w.path at scopes
    cases path : w.path with
    | nil =>
      rw [path] at scopes
      cases scopes
      exact ⟨length.symm, show List.Forall₂ _ [] w.path from path ▸ .nil⟩
    | cons i outer =>
      rw [path] at scopes nodup
      obtain ⟨fresh, -⟩ := List.nodup_cons.1 nodup
      have head : w.path.headD 0 = i := by rw [path]; rfl
      cases scopes with
      | cons here others =>
        refine ⟨length.symm, show List.Forall₂ _ (_ :: _) w.path from ?_⟩
        rw [path]
        refine .cons (here.declare_here head s) (declare_others others (fun j mem same => ?_) s)
        rw [head] at same
        exact fresh (same ▸ mem)

/-- All uses in a row. -/
theorem Mirrored.resolveAll_eq (h : w.Mirrored c) (sound : w.Sound) (steps : List Step) :
    c.resolveAll steps = w.answers steps := by
  induction steps generalizing w c with
  | nil => rfl
  | cons s rest ih =>
    have further := ih (h.step sound s) (sound.step s)
    cases s with
    | use r =>
      rw [Chain.resolveAll, answers, h.resolve_eq]
      exact congrArg _ further
    | enter | leave | declare => exact further

end Survey

/-- A survey finds what every use of a program stands for. -/
theorem Source.Program.resolve_eq_answers (p : Program) :
    p.resolve = ((Survey.start p.id).run p.header).answers p.main := by
  have same := (Survey.Mirrored.start p.id).resolveAll_eq (.start p.id) p.script
  rw [script, Survey.answers_append, header, Survey.answers_declares] at same
  exact same

end MiddleEnd
