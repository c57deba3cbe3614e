import MiddleEnd.Proofs.Lowered.Alone
import MiddleEnd.Proofs.Lowered.Flow

/-!
# Units and their functions

Nothing that is made of a function depends on the other functions of its unit, as long as all have
names of their own. So a unit is translated if each of its functions is by itself, and its pieces
are theirs in the order of the functions, moved behind each other. Units with the same functions in
another order therefore stand and fall together, and their pieces differ by how far they are moved.

Results:
1. `translate_eq_ok_of_only`, `pieces_of_translate_eq_ok`: a unit and its functions by themselves.
2. `translate_eq_ok_of_perm`, `reordered_of_translate_eq_ok`, `reordered_of_distinct`: functions in
   another order, where every node that owns a scope has an id of its own.
3. `placed_functions_reordered`: programs that were built.
-/

namespace MiddleEnd

open Source Source.Program

variable {p : Source.Program} {f : Source.Function} {config : Config}

/-! ## Separate translation -/

/-- A function is translated by itself if nothing is declared twice in it and it is checked silently
and lowered. -/
theorem translate_only_eq_ok_iff (distinct : (p.owners.map Prod.fst).Nodup)
    (mem : f ∈ p.functions) {code : Code} :
    translate config (p.only f) = .ok code ↔
      (Declarations.ofProgram (p.only f)).log = [] ∧ p.Lowers config f code := by
  have global := scopeIndex_global (p := p.only f)
    (Survey.owners_ofProgram (p.only f) ▸ distinct_only distinct mem)
  rw [translate_eq_ok_iff]
  refine and_congr_right fun _ => ⟨?_, ?_⟩
  · rintro ⟨typed, check, lowered⟩
    cases check with
    | mk owned checks =>
      obtain rfl := Option.some.inj (owned.symm.trans global)
      generalize silent : ([] : Log) = log at checks
      cases checks with
      | cons check others =>
        obtain ⟨rfl, -⟩ := List.append_eq_nil_iff.1 silent.symm
        cases others
        exact ⟨_, check, lowered⟩
  · rintro ⟨g, check, lowered⟩
    exact ⟨⟨[g]⟩, .mk global (.cons check .nil), lowered⟩

/-- Functions that are checked silently by themselves are checked silently in their unit. -/
theorem functionsCheck_in_unit {before rest : List Source.Function}
    (names : (p.functions.map Function.name).Nodup) (distinct : (p.owners.map Prod.fst).Nodup)
    (split : p.functions = before ++ rest)
    (each : ∀ f ∈ rest, ∃ code, p.Lowers config f code) :
    ∃ gs, FunctionsCheck ⟨(Declarations.ofProgram p).table, config⟩ [0] rest gs [] := by
  induction rest generalizing before with
  | nil => exact ⟨[], .nil⟩
  | cons f rest ih =>
    obtain ⟨⟨_, g, check, -⟩, others⟩ := List.forall_mem_cons.1 each
    have behind : p.functions = (before ++ [f]) ++ rest := by simp [split]
    obtain ⟨gs, checks⟩ := ih behind others
    exact ⟨_, .cons (check.in_unit names split distinct) checks⟩

/-- A unit is translated if its functions have names of their own and each is translated by
itself. -/
theorem translate_eq_ok_of_only (distinct : (p.owners.map Prod.fst).Nodup)
    (names : (p.functions.map Function.name).Nodup)
    (each : ∀ f ∈ p.functions, ∃ code, translate config (p.only f) = .ok code) :
    ∃ code, translate config p = .ok code := by
  have lowers : ∀ f ∈ p.functions, (Declarations.ofProgram (p.only f)).log = [] ∧
      ∃ code, p.Lowers config f code := by
    intro f mem
    obtain ⟨code, translated⟩ := each f mem
    obtain ⟨silent, lowers⟩ := (translate_only_eq_ok_iff distinct mem).1 translated
    exact ⟨silent, code, lowers⟩
  have silent := (clean_iff p).2 ⟨names, fun f mem => (lowers f mem).1⟩
  have split : p.functions = [] ++ p.functions := rfl
  obtain ⟨gs, checks⟩ := functionsCheck_in_unit names distinct split fun f mem => (lowers f mem).2
  have global := scopeIndex_global (p := p) (Survey.owners_ofProgram p ▸ distinct)
  rcases lowerProgram_alone names distinct checks with
    ⟨pieces, lowered, -⟩ | ⟨_, -, f, mem, fails⟩
  · exact ⟨_, translate_eq_ok_iff.2 ⟨silent, ⟨gs⟩, .mk global checks, lowered⟩⟩
  · obtain ⟨code, lowered⟩ := (lowers f mem).2
    exact absurd lowered (fails code)

/-- The functions of a unit that is translated have names of their own, and each piece of the unit
is the one of its function by itself, moved. -/
theorem pieces_of_translate_eq_ok (distinct : (p.owners.map Prod.fst).Nodup) {code : Code}
    (translated : translate config p = .ok code) :
    (p.functions.map Function.name).Nodup ∧
      List.Forall₂ (fun f piece => ∃ (one : Piece) (a b : Int),
        translate config (p.only f) = .ok ⟨[one]⟩ ∧ one.entry = f.name ∧ one.Moved a b piece)
        p.functions code.pieces := by
  obtain ⟨silent, typed, check, lowered⟩ := translate_eq_ok_iff.1 translated
  obtain ⟨names, clean⟩ := (clean_iff p).1 silent
  refine ⟨names, ?_⟩
  cases check with
  | mk owned checks =>
    have global := scopeIndex_global (p := p) (Survey.owners_ofProgram p ▸ distinct)
    obtain rfl := Option.some.inj (owned.symm.trans global)
    rcases lowerProgram_alone names distinct checks with
      ⟨pieces, lowered', each⟩ | ⟨e, failed, -⟩
    · cases lowered.symm.trans lowered'
      have each := (List.forall₂_and_left _ _).2 ⟨fun _ (mem : _ ∈ p.functions) => mem, each⟩
      refine each.imp ?_
      rintro f piece ⟨mem, one, a, b, lowers, moved⟩
      exact ⟨one, a, b, (translate_only_eq_ok_iff distinct mem).2 ⟨clean f mem, lowers⟩,
        lowers.entry, moved⟩
    · cases lowered.symm.trans failed

/-- The pieces are entered by the names of the functions. -/
theorem entries_of_pieces {fs : List Source.Function} {pieces : List Piece}
    (each : List.Forall₂ (fun f piece => ∃ (one : Piece) (a b : Int),
      translate config (p.only f) = .ok ⟨[one]⟩ ∧ one.entry = f.name ∧ one.Moved a b piece)
      fs pieces) : pieces.map Piece.entry = fs.map Function.name := by
  rw [← List.forall₂_eq_eq_eq, List.forall₂_map_left_iff, List.forall₂_map_right_iff]
  refine (each.imp ?_).flip
  rintro f piece ⟨one, a, b, -, entry, moved⟩
  exact moved.entry.trans entry

/-! ## Moving back and forth -/

theorem Moved.between {a a' : Int} {n m m' : Nat} (h : Moved a n m) (h' : Moved a' n m') :
    Moved (a' - a) m m' := by
  unfold Moved at *
  omega

theorem Instr.Moved.between {a a' b b' : Int} {i j j' : Instr} (h : i.Moved a b j)
    (h' : i.Moved a' b' j') : j.Moved (a' - a) (b' - b) j' := by
  cases h with
  | load dst =>
    cases h' with
    | load dst' => exact .load (dst.between dst')
  | unary dst src =>
    cases h' with
    | unary dst' src' => exact .unary (dst.between dst') (src.between src')
  | binary dst left right =>
    cases h' with
    | binary dst' left' right' =>
      exact .binary (dst.between dst') (left.between left') (right.between right')
  | copy dst src =>
    cases h' with
    | copy dst' src' => exact .copy (dst.between dst') (src.between src')
  | jump target =>
    cases h' with
    | jump target' => exact .jump (target.between target')
  | jumpIfZero target test =>
    cases h' with
    | jumpIfZero target' test' => exact .jumpIfZero (target.between target') (test.between test')
  | mark label =>
    cases h' with
    | mark label' => exact .mark (label.between label')
  | ret value =>
    cases h' with
    | ret value' => exact .ret (value.between value')

theorem forall₂_between {R S : α → β → Prop} {T : β → β → Prop} {as : List α} {bs bs' : List β}
    (h : List.Forall₂ R as bs) (h' : List.Forall₂ S as bs')
    (between : ∀ a b b', R a b → S a b' → T b b') : List.Forall₂ T bs bs' := by
  induction h generalizing bs' with
  | nil =>
    cases h'
    exact .nil
  | cons here _ ih =>
    cases h' with
    | cons here' others => exact .cons (between _ _ _ here here') (ih others)

/-- Two pieces that are one piece moved are each other moved. -/
theorem Piece.Moved.between {a a' b b' : Int} {one p p' : Piece} (h : one.Moved a b p)
    (h' : one.Moved a' b' p') : p.Moved (a' - a) (b' - b) p' where
  entry := h'.entry.trans h.entry.symm
  offset := h'.offset.trans h.offset.symm
  params := forall₂_between h.params h'.params fun _ _ _ => MiddleEnd.Moved.between
  body := forall₂_between h.body h'.body fun _ _ _ => Instr.Moved.between

/-! ## Another order -/

theorem distinct_perm {fs : List Source.Function} (perm : fs.Perm p.functions)
    (distinct : (p.owners.map Prod.fst).Nodup) :
    ((Source.Program.mk fs p.id p.span).owners.map Prod.fst).Nodup :=
  (((perm.flatMap_right Function.owners).cons _).map Prod.fst).nodup_iff.2 distinct

theorem exists_of_forall₂ {R : α → β → Prop} {as : List α} {bs : List β}
    (h : List.Forall₂ R as bs) : ∀ a ∈ as, ∃ b ∈ bs, R a b := by
  induction h with
  | nil => exact nofun
  | cons here _ ih =>
    refine List.forall_mem_cons.2 ⟨⟨_, List.mem_cons_self, here⟩, fun a mem => ?_⟩
    obtain ⟨b, mem', related⟩ := ih a mem
    exact ⟨b, List.mem_cons_of_mem _ mem', related⟩

/-- The code of a unit and of one that has the same functions in another order. The pieces stand in
the order of the functions, and each is the one of its function in the other code with its
temporaries moved by one number and its labels by another. -/
structure Reordered (p p' : Source.Program) (code code' : Code) : Prop where
  entries : code.pieces.map Piece.entry = p.functions.map Function.name
  entries' : code'.pieces.map Piece.entry = p'.functions.map Function.name
  moved : ∀ f piece piece', (f, piece) ∈ p.functions.zip code.pieces →
    (f, piece') ∈ p'.functions.zip code'.pieces → ∃ a b : Int, piece.Moved a b piece'

/-- The functions of a unit, in any order, are translated if they are in one. -/
theorem translate_eq_ok_of_perm (distinct : (p.owners.map Prod.fst).Nodup)
    {fs : List Source.Function} (perm : fs.Perm p.functions) {code : Code}
    (translated : translate config p = .ok code) :
    ∃ code', translate config { p with functions := fs } = .ok code' := by
  obtain ⟨names, each⟩ := pieces_of_translate_eq_ok distinct translated
  refine translate_eq_ok_of_only (distinct_perm perm distinct) ((perm.map _).nodup_iff.2 names) ?_
  intro f mem
  obtain ⟨piece, -, one, a, b, alone, -⟩ := exists_of_forall₂ each f (perm.mem_iff.1 mem)
  exact ⟨_, alone⟩

/-- If a unit is translated in both orders, each function has the same piece in both, moved. -/
theorem reordered_of_translate_eq_ok (distinct : (p.owners.map Prod.fst).Nodup)
    {fs : List Source.Function} (perm : fs.Perm p.functions) {code code' : Code}
    (translated : translate config p = .ok code)
    (translated' : translate config { p with functions := fs } = .ok code') :
    Reordered p { p with functions := fs } code code' := by
  obtain ⟨-, each⟩ := pieces_of_translate_eq_ok distinct translated
  obtain ⟨-, each'⟩ := pieces_of_translate_eq_ok (distinct_perm perm distinct) translated'
  refine ⟨entries_of_pieces each, entries_of_pieces each', ?_⟩
  -- by itself a function is in the same unit of one function in either order
  intro f piece piece' mem mem'
  obtain ⟨one, a, b, alone, -, moved⟩ := List.forall₂_zip each mem
  obtain ⟨one', a', b', alone', -, moved'⟩ := List.forall₂_zip each' mem'
  cases alone.symm.trans alone'
  exact ⟨_, _, moved.between moved'⟩

/-- The order of the functions does not matter, where every node that owns a scope has an id of its
own. -/
theorem reordered_of_distinct (distinct : (p.owners.map Prod.fst).Nodup) (config : Config)
    {fs : List Source.Function} (perm : fs.Perm p.functions) :
    ((∃ code, translate config { p with functions := fs } = .ok code) ↔
        ∃ code, translate config p = .ok code) ∧
      ∀ code code', translate config p = .ok code →
        translate config { p with functions := fs } = .ok code' →
        Reordered p { p with functions := fs } code code' := by
  refine ⟨⟨?_, ?_⟩, fun code code' => reordered_of_translate_eq_ok distinct perm⟩
  · rintro ⟨code, translated⟩
    exact translate_eq_ok_of_perm (distinct_perm perm distinct) perm.symm translated
  · rintro ⟨code, translated⟩
    exact translate_eq_ok_of_perm distinct perm translated

/-- The order of the functions of a program that was built does not matter. In any order it is
translated if it is in the order in which it was built, and then to the same pieces, moved. -/
theorem placed_functions_reordered (d : Draft.Program) (b : Source.Builder) (config : Config)
    {fs : List Source.Function} (perm : fs.Perm (d.place b).1.functions) :
    ((∃ code, translate config { (d.place b).1 with functions := fs } = .ok code) ↔
        ∃ code, translate config (d.place b).1 = .ok code) ∧
      ∀ code code', translate config (d.place b).1 = .ok code →
        translate config { (d.place b).1 with functions := fs } = .ok code' →
        Reordered (d.place b).1 { (d.place b).1 with functions := fs } code code' :=
  reordered_of_distinct (Survey.owners_ofProgram _ ▸ d.place_owners_nodup b) config perm

/-- `int f(int x) { while (x) ; return x; } int g() { while (1) ; return 2; }` -/
def pair : Draft.Program :=
  ⟨[⟨"f", [⟨"x", .int⟩], .int, [.whileDo (.var "x") .empty, .ret (.var "x")]⟩,
    ⟨"g", [], .int, [.whileDo (.const 1) .empty, .ret (.const 2)]⟩]⟩

theorem placed_functions_reordered_of_pair :
    let p := (pair.place ⟨"t", 0, 0⟩).1
    let p' := { p with functions := p.functions.reverse }
    let heads := fun code : Code =>
      code.pieces.map fun piece => (piece.entry, piece.params, markedLabels piece.body)
    p.functions.reverse.Perm p.functions ∧
      ∃ code code', translate {} p = .ok code ∧ translate {} p' = .ok code' ∧
        heads code = [("f", [0], [0, 1]), ("g", [], [2, 3])] ∧
        heads code' = [("g", [], [0, 1]), ("f", [3], [2, 3])] ∧ Reordered p p' code code' := by
  intro p p' heads
  have perm : p.functions.reverse.Perm p.functions := List.reverse_perm _
  have first : (translate {} p).toOption.map heads =
      some [("f", [0], [0, 1]), ("g", [], [2, 3])] := by decide +kernel
  have second : (translate {} p').toOption.map heads =
      some [("g", [], [0, 1]), ("f", [3], [2, 3])] := by decide +kernel
  obtain ⟨possible, reordered⟩ := placed_functions_reordered pair ⟨"t", 0, 0⟩ {} perm
  cases translated : translate {} p with
  | error rejection =>
    rw [translated] at first
    cases first
  | ok code =>
    obtain ⟨code', translated'⟩ := possible.2 ⟨code, translated⟩
    rw [translated] at first
    rw [show translate {} p' = .ok code' from translated'] at second
    exact ⟨perm, code, code', rfl, translated', Option.some.inj first, Option.some.inj second,
      reordered code code' translated translated'⟩

end MiddleEnd
