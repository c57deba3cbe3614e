import MiddleEnd.Code.Instr
import Mathlib.Logic.Relation
import Mathlib.Data.List.Basic

/-!
# Control flow of a body

Which labels a list of instructions marks and jumps to, and where control may go from each of its
places when a conditional jump may go either way. `flow_stays_inside` is the reason why a body that
marks every label it jumps to and ends in a return is only ever left by a return.
-/

namespace MiddleEnd

/-- The label that an instruction marks. -/
def Instr.marked? : Instr → Option Label
  | mark l => some l
  | _ => none

/-- The label that an instruction may jump to. -/
def Instr.target? : Instr → Option Label
  | jump l | jumpIfZero l _ => some l
  | _ => none

/-- Whether control may go on behind an instruction. -/
def Instr.fallsThrough : Instr → Bool
  | jump _ | ret _ => false
  | _ => true

/-- The labels that a list of instructions marks, in order. -/
def markedLabels (code : List Instr) : List Label := code.filterMap Instr.marked?

/-- The labels that a list of instructions may jump to, in order. -/
def targetLabels (code : List Instr) : List Label := code.filterMap Instr.target?

@[simp] theorem markedLabels_nil : markedLabels [] = [] := rfl

@[simp] theorem targetLabels_nil : targetLabels [] = [] := rfl

@[simp] theorem markedLabels_append (code code' : List Instr) :
    markedLabels (code ++ code') = markedLabels code ++ markedLabels code' := List.filterMap_append

@[simp] theorem targetLabels_append (code code' : List Instr) :
    targetLabels (code ++ code') = targetLabels code ++ targetLabels code' := List.filterMap_append

@[simp] theorem markedLabels_cons (i : Instr) (code : List Instr) :
    markedLabels (i :: code) = i.marked?.toList ++ markedLabels code := by
  cases i <;> rfl

@[simp] theorem targetLabels_cons (i : Instr) (code : List Instr) :
    targetLabels (i :: code) = i.target?.toList ++ targetLabels code := by
  cases i <;> rfl

/-- The place where a label is marked. -/
def markPlace? (body : List Instr) (l : Label) : Option Nat := body.idxOf? (.mark l)

theorem mem_markedLabels_iff {body : List Instr} {l : Label} :
    l ∈ markedLabels body ↔ .mark l ∈ body := by
  simp only [markedLabels, List.mem_filterMap]
  constructor
  · rintro ⟨i, mem, marked⟩
    cases i <;> simp_all [Instr.marked?]
  · exact fun mem => ⟨_, mem, rfl⟩

theorem markPlace?_isSome {body : List Instr} {l : Label} :
    (markPlace? body l).isSome ↔ l ∈ markedLabels body := by
  rw [mem_markedLabels_iff, markPlace?, List.isSome_idxOf?]

theorem getElem?_of_markPlace? {body : List Instr} {l : Label} {pc : Nat}
    (h : markPlace? body l = some pc) : body[pc]? = some (.mark l) := by
  obtain ⟨inside, marked, -⟩ := List.findIdx?_eq_some_iff_getElem.1 h
  rw [List.getElem?_eq_getElem inside]
  simpa using marked

/-- A label that is marked once is marked where it is seen to be. -/
theorem markPlace?_eq {before behind : List Instr} {l : Label}
    (once : (markedLabels (before ++ .mark l :: behind)).Nodup) :
    markPlace? (before ++ .mark l :: behind) l = some before.length := by
  have absent : .mark l ∉ before := by
    intro mem
    rw [markedLabels_append, markedLabels_cons] at once
    exact (List.nodup_append.1 once).2.2 l (mem_markedLabels_iff.2 mem) l
      (by simp [Instr.marked?]) rfl
  have skipped : before.findIdx? (· == .mark l) = none := by
    rw [List.findIdx?_eq_none_iff]
    intro i mem
    have differs : i ≠ .mark l := by
      rintro rfl
      exact absent mem
    simpa using differs
  rw [markPlace?, List.idxOf?, List.findIdx?_append, skipped]
  simp [List.findIdx?_cons]

/-- Control may go from `pc` to `pc'`. A conditional jump may go either way. -/
inductive Flow (body : List Instr) : Nat → Nat → Prop
  | next {pc : Nat} {i : Instr} : body[pc]? = some i → i.fallsThrough = true → Flow body pc (pc + 1)
  | jump {pc pc' : Nat} {i : Instr} {l : Label} :
      body[pc]? = some i → i.target? = some l → markPlace? body l = some pc' → Flow body pc pc'

/-- Control at `pc` stays in the body: an instruction stands there, which returns or can go on, and
every label that it may jump to has a place. -/
def Stays (body : List Instr) (pc : Nat) : Prop :=
  ∃ i, body[pc]? = some i ∧ (∀ l, i.target? = some l → ∃ pc', markPlace? body l = some pc') ∧
    ((∃ t, i = .ret t) ∨ ∃ pc', Flow body pc pc')

/-- A body that marks its targets and ends in a return is left by returns only. -/
theorem flow_stays_inside {body : List Instr} {t : Temp}
    (marked : ∀ l ∈ targetLabels body, l ∈ markedLabels body)
    (ends : body.getLast? = some (.ret t)) {pc : Nat}
    (reached : Relation.ReflTransGen (Flow body) 0 pc) : Stays body pc := by
  have placed : ∀ {pc : Nat} {i : Instr} {l : Label}, body[pc]? = some i → i.target? = some l →
      ∃ pc', markPlace? body l = some pc' := by
    intro pc i l here target
    have mem : l ∈ targetLabels body :=
      List.mem_filterMap.2 ⟨i, List.mem_of_getElem? here, target⟩
    exact Option.isSome_iff_exists.1 (markPlace?_isSome.2 (marked l mem))
  have nonempty : body ≠ [] := by
    rintro rfl
    simp at ends
  have inside : pc < body.length := by
    induction reached with
    | refl => exact List.length_pos_iff.2 nonempty
    | @tail last _ _ step _ =>
      cases step with
      | @next i here falls =>
        -- the last instruction returns, so an instruction that falls through is not the last
        by_contra outside
        have before := (List.getElem?_eq_some_iff.1 here).1
        rw [List.getLast?_eq_getElem?, show body.length - 1 = last by omega, here] at ends
        cases ends
        simp [Instr.fallsThrough] at falls
      | jump _ _ place =>
        exact (List.getElem?_eq_some_iff.1 (getElem?_of_markPlace? place)).1
  have here := List.getElem?_eq_getElem inside
  refine ⟨body[pc], here, fun l target => placed here target, ?_⟩
  cases hi : body[pc] with
  | ret t => exact .inl ⟨t, rfl⟩
  | jump l =>
    rw [hi] at here
    obtain ⟨pc', place⟩ := placed here rfl
    exact .inr ⟨pc', .jump here rfl place⟩
  | _ => exact .inr ⟨pc + 1, .next here (by rw [hi]; rfl)⟩

end MiddleEnd
