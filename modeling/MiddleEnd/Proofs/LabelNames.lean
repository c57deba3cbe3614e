import MiddleEnd.Proofs.Listing
import MiddleEnd.Proofs.Lowered.Labels
import MiddleEnd.Proofs.Reordered
import Mathlib.Data.List.Count

/-!
# The names of labels

A listing names two kinds of labels: those that functions are entered by, after the function, and
those that are marked in bodies, by number. Each kind has names of its own. The two kinds share a
leading underscore, and nothing keeps a function from being named like a label: `L0` is entered by
the name that label 0 is marked by.

Results:
1. `ofLabel_eq_ofEntry`, `ofEntry_injective`: the only way in which names meet.
2. `Code.count_labelNames`: how often a name stands in a listing.
3. `labelNames_of_distinct`: when the names of the labels of a unit are distinct, and how often the
   target of a jump is named, where every node that owns a scope has an id of its own.
4. `labelNames_clash_iff`: programs that were built.
-/

namespace MiddleEnd

/-! ## Names -/

namespace Listing

/-- A label is named like the function whose name is an `L` and its number. -/
theorem ofLabel_eq_ofEntry (l : Label) : ofLabel l = ofEntry ("L" ++ toString l) := by
  refine String.toList_inj.1 ?_
  simp [ofEntry]

theorem ofEntry_injective : Function.Injective ofEntry := by
  intro name name' same
  exact String.toList_inj.1 (by simpa [ofEntry] using congrArg String.toList same)

theorem ofLabel_injective : Function.Injective ofLabel := by
  intro l l' same
  have same := congrArg String.toList same
  rw [toList_ofLabel, toList_ofLabel] at same
  exact digits_injective (List.cons.inj (List.cons.inj same).2).2

end Listing

open Listing

/-- The names of labels that the listing of a piece gives away: its entry, and the labels that it
marks. -/
def Piece.labelNames (piece : Piece) : List String :=
  ofEntry piece.entry :: (markedLabels piece.body).map ofLabel

namespace Code

/-- The labels that code marks. -/
def marked (code : Code) : List Label := code.pieces.flatMap fun piece => markedLabels piece.body

/-- The names of labels that the listing of code gives away. -/
def labelNames (code : Code) : List String := code.pieces.flatMap Piece.labelNames

theorem labelNames_perm (code : Code) :
    code.labelNames.Perm
      ((code.pieces.map Piece.entry).map ofEntry ++ code.marked.map ofLabel) := by
  obtain ⟨pieces⟩ := code
  unfold labelNames marked
  induction pieces with
  | nil => rfl
  | cons piece rest ih =>
    simp only [List.flatMap_cons, List.map_cons, List.map_append, List.cons_append,
      Piece.labelNames]
    refine .cons _ ?_
    refine (ih.append_left _).trans ?_
    exact List.perm_append_comm_assoc _ _ _

/-- A label is named where it is marked, and at each function that is named like it. -/
theorem count_labelNames (code : Code) (l : Label) :
    code.labelNames.count (ofLabel l) =
      (code.pieces.map Piece.entry).count ("L" ++ toString l) + code.marked.count l := by
  rw [code.labelNames_perm.count_eq, List.count_append,
    List.count_map_of_injective _ _ ofLabel_injective, ofLabel_eq_ofEntry,
    List.count_map_of_injective _ _ ofEntry_injective]

/-- Where the labels of each kind are distinct, all are if none of one kind is named like one of the
other. -/
theorem nodup_labelNames_iff {code : Code} (entries : (code.pieces.map Piece.entry).Nodup)
    (marks : code.marked.Nodup) :
    code.labelNames.Nodup ↔
      ∀ l ∈ code.marked, "L" ++ toString l ∉ code.pieces.map Piece.entry := by
  rw [code.labelNames_perm.nodup_iff, List.nodup_append',
    and_iff_right (entries.map ofEntry_injective), and_iff_right (marks.map ofLabel_injective)]
  constructor
  · intro disjoint l mem entry
    exact disjoint (List.mem_map_of_mem entry) (ofLabel_eq_ofEntry l ▸ List.mem_map_of_mem mem)
  · intro apart name entered named
    obtain ⟨l, mem, rfl⟩ := List.mem_map.1 named
    obtain ⟨entry, mem', same⟩ := List.mem_map.1 entered
    exact apart l mem (ofEntry_injective (same.trans (ofLabel_eq_ofEntry l)) ▸ mem')

end Code

/-! ## Translated units -/

/-- The names of labels in a unit that was translated, where every node that owns a scope has an id
of its own. -/
theorem labelNames_of_distinct {p : Source.Program} (distinct : (p.owners.map Prod.fst).Nodup)
    {config : Config} {code : Code} (translated : translate config p = .ok code) :
    let names := p.functions.map Source.Function.name
    (code.pieces.map fun piece => ofEntry piece.entry).Nodup ∧
    (code.marked.map ofLabel).Nodup ∧
    (code.labelNames.Nodup ↔ ∀ l ∈ code.marked, "L" ++ toString l ∉ names) ∧
    ∀ piece ∈ code.pieces, ∀ l ∈ targetLabels piece.body,
      ((markedLabels piece.body).map ofLabel).count (ofLabel l) = 1 ∧
        code.labelNames.count (ofLabel l) = names.count ("L" ++ toString l) + 1 := by
  intro names
  obtain ⟨named, each⟩ := pieces_of_translate_eq_ok distinct translated
  have entries : code.pieces.map Piece.entry = names := entries_of_pieces each
  have entered : (code.pieces.map Piece.entry).Nodup := entries.symm ▸ named
  obtain ⟨-, typed, -, lowered⟩ := translate_eq_ok_iff.1 translated
  obtain ⟨s, -, -, -, codes⟩ := lowerProgram_shape (Prod.ext lowered rfl)
  obtain ⟨whole, inside⟩ := codes.closed
  have marked : code.marked = markedLabels (code.pieces.flatMap Piece.body) :=
    (markedLabels_flatMap _).symm
  have marks : code.marked.Nodup := marked ▸ whole.nodup
  refine ⟨?_, marks.map ofLabel_injective, ?_, fun piece mem l target => ⟨?_, ?_⟩⟩
  · have apart := entered.map ofEntry_injective
    rwa [List.map_map] at apart
  · rw [Code.nodup_labelNames_iff entered marks, entries]
  · obtain ⟨a, b, closed⟩ := inside piece mem
    rw [List.count_map_of_injective _ _ ofLabel_injective, closed.count_target target]
  · obtain ⟨i, here, jumps⟩ := List.mem_filterMap.1 target
    have target : l ∈ targetLabels (code.pieces.flatMap Piece.body) :=
      List.mem_filterMap.2 ⟨i, List.mem_flatMap_of_mem mem here, jumps⟩
    rw [code.count_labelNames, entries, marked, whole.count_target target]

/-- In a unit that was translated no two functions are entered by one name, and no two labels are
marked by one. A function and a label share a name if and only if the function is named by an `L`
and the number of the label. So the target of a jump is named where it is marked, once, and at the
entry of such a function if there is one. -/
theorem labelNames_clash_iff (d : Draft.Program) (b : Source.Builder) {config : Config}
    {code : Code} (translated : translate config (d.place b).1 = .ok code) :
    let names := (d.place b).1.functions.map Source.Function.name
    (code.pieces.map fun piece => ofEntry piece.entry).Nodup ∧
    (code.marked.map ofLabel).Nodup ∧
    (code.labelNames.Nodup ↔ ∀ l ∈ code.marked, "L" ++ toString l ∉ names) ∧
    ∀ piece ∈ code.pieces, ∀ l ∈ targetLabels piece.body,
      ((markedLabels piece.body).map ofLabel).count (ofLabel l) = 1 ∧
        code.labelNames.count (ofLabel l) = names.count ("L" ++ toString l) + 1 :=
  labelNames_of_distinct (Survey.owners_ofProgram _ ▸ d.place_owners_nodup b) translated

/-- `int L2() { return 1; } int main() { while (1) ; return 2; }` -/
def pastLabels : Draft.Program :=
  ⟨[⟨"L2", [], .int, [.ret (.const 1)]⟩,
    ⟨"main", [], .int, [.whileDo (.const 1) .empty, .ret (.const 2)]⟩]⟩

/-- The unit marks two labels, so that `L2` is the name of none. -/
theorem labelNames_clash_iff_of_pastLabels :
    let p := (pastLabels.place ⟨"t", 0, 0⟩).1
    ∃ code, translate {} p = .ok code ∧ code.marked = [0, 1] ∧ code.labelNames.Nodup ∧
      ∀ piece ∈ code.pieces, ∀ l ∈ targetLabels piece.body,
        code.labelNames.count (ofLabel l) = ["L2", "main"].count ("L" ++ toString l) + 1 := by
  intro p
  have names : p.functions.map Source.Function.name = ["L2", "main"] := by decide +kernel
  have labels : (translate {} p).toOption.map Code.marked = some [0, 1] := by decide +kernel
  cases translated : translate {} p with
  | error rejection =>
    rw [translated] at labels
    cases labels
  | ok code =>
    rw [translated] at labels
    have marked : code.marked = [0, 1] := Option.some.inj labels
    obtain ⟨-, -, distinct, named⟩ := labelNames_clash_iff pastLabels ⟨"t", 0, 0⟩ translated
    refine ⟨code, rfl, marked, distinct.2 ?_, fun piece mem l target => ?_⟩
    · rw [marked, names]
      decide +kernel
    · rw [(named piece mem l target).2, names]

/-- `int L0() { while (1) ; }` -/
def labelLike : Draft.Program := ⟨[⟨"L0", [], .int, [.whileDo (.const 1) .empty]⟩]⟩

/-- A function that is named like the first label is entered by the name by which the label is
marked. -/
theorem labelNames_clash_of_labelLike :
    ∃ code, translate {} (labelLike.place ⟨"t", 0, 0⟩).1 = .ok code ∧
      code.labelNames = ["_L0", "_L0", "_L1"] ∧ ¬code.labelNames.Nodup := by
  have names : (translate {} (labelLike.place ⟨"t", 0, 0⟩).1).toOption.map Code.labelNames =
      some ["_L0", "_L0", "_L1"] := by
    decide +kernel
  cases translated : translate {} (labelLike.place ⟨"t", 0, 0⟩).1 with
  | error rejection =>
    rw [translated] at names
    cases names
  | ok code =>
    rw [translated] at names
    have names : code.labelNames = ["_L0", "_L0", "_L1"] := Option.some.inj names
    exact ⟨code, rfl, names, by rw [names]; decide⟩

end MiddleEnd
