import MiddleEnd.Text.Hidden
import MiddleEnd.Text.Combining
import MiddleEnd.Text.Unassigned

/-!
# Characters that are shown as they are

A character is shown as it is if it has a picture of its own: it is neither hidden nor a combining
mark, and it is assigned. Main statement: of the ASCII characters these are the printable ones.
-/

namespace MiddleEnd.Text

/-- Whether a code point can be shown as it is. -/
def isShownCode (n : Nat) : Bool :=
  !inRanges hidden n && !inRanges combining n && !inRanges unassigned n

/-- Whether a character can be shown as it is. -/
def isShown (c : Char) : Bool := isShownCode c.toNat

/-- What is not shown lies in a range of one of the tables. -/
theorem isShownCode_eq_false_iff {n : Nat} :
    isShownCode n = false ↔ ∃ r ∈ hidden ++ combining ++ unassigned, r.1 ≤ n ∧ n ≤ r.2 := by
  simp only [List.mem_append, or_and_right, exists_or, ← inRanges_iff]
  cases h : inRanges hidden n <;> simp [isShownCode, h]
  cases h : inRanges combining n <;> simp

/-- The printable characters of ASCII are shown, its controls are not. -/
theorem isShown_iff_of_ascii {c : Char} (ascii : c.toNat < 0x80) :
    isShown c = true ↔ 0x20 ≤ c.toNat ∧ c.toNat < 0x7F := by
  have gap : ∀ r ∈ hidden ++ combining ++ unassigned, r.2 < 0x20 ∨ 0x7F ≤ r.1 := by
    decide +kernel
  have controls : ((0, 0x1F) : Range) ∈ hidden ∧ ((0x7F, 0xA0) : Range) ∈ hidden := by
    decide +kernel
  constructor
  · intro shown
    have outside : ∀ r ∈ hidden, ¬(r.1 ≤ c.toNat ∧ c.toNat ≤ r.2) := by
      intro r mem inside
      have : isShownCode c.toNat = false :=
        isShownCode_eq_false_iff.2 ⟨r, by simp [mem], inside⟩
      simp_all [isShown]
    have low := outside _ controls.1
    have high := outside _ controls.2
    simp only at low high
    omega
  · intro ⟨low, high⟩
    unfold isShown
    cases shown : isShownCode c.toNat with
    | true => rfl
    | false =>
      obtain ⟨r, mem, inside⟩ := isShownCode_eq_false_iff.1 shown
      have := gap r mem
      omega

end MiddleEnd.Text
