/-!
# Machine words

Positions, ids, temporaries, labels and offsets are counted in words of 32 bits. A result that no
word holds is one of two things, which is settled when the program is built and the same in all of
it: the run stops there, or the result wraps around and the run goes on.
-/

namespace MiddleEnd.Fixed

/-- What becomes of a result that no word holds. -/
inductive Overflow
  /-- The run stops. -/
  | stops
  /-- The result is taken modulo `2 ^ 32`. -/
  | wraps
deriving DecidableEq

/-- A word without sign holds the number. -/
def Unsigned (n : Nat) : Prop := n < UInt32.size

/-- A word with a sign holds the number. -/
def Signed (i : Int) : Prop := -2147483648 ≤ i ∧ i < 2147483648

instance (n : Nat) : Decidable (Unsigned n) := inferInstanceAs (Decidable (n < UInt32.size))

instance (i : Int) : Decidable (Signed i) :=
  inferInstanceAs (Decidable (-2147483648 ≤ i ∧ i < 2147483648))

theorem signed_toInt (w : Int32) : Signed w.toInt := by
  have low := w.le_toInt
  have high := w.toInt_lt
  exact ⟨by omega, by omega⟩

/-- A number that a word holds is not wrapped. -/
theorem Signed.bmod_eq {i : Int} (h : Signed i) : i.bmod UInt32.size = i := by
  obtain ⟨low, high⟩ := h
  show i.bmod 4294967296 = i
  exact Int.bmod_eq_of_le (by omega) (by omega)

/-- What fits `n` times fits fewer times. -/
theorem signed_mul_of_le {m n : Nat} {i : Int} (le : m ≤ n) (fits : Signed (n * i)) :
    Signed (m * i) := by
  obtain ⟨low, high⟩ := fits
  have le : (m : Int) ≤ n := Int.ofNat_le.2 le
  rcases Int.le_total 0 i with positive | negative
  · have below := Int.mul_le_mul_of_nonneg_right le positive
    have above := Int.mul_nonneg (Int.natCast_nonneg m) positive
    exact ⟨by omega, by omega⟩
  · have above := Int.mul_le_mul_of_nonpos_right le negative
    have below := Int.mul_nonpos_of_nonneg_of_nonpos (Int.natCast_nonneg m) negative
    exact ⟨by omega, by omega⟩

namespace Overflow

/-- The word behind `w`. -/
def succ (o : Overflow) (w : UInt32) : Option UInt32 :=
  if Unsigned (w.toNat + 1) ∨ o = wraps then some (w + 1) else none

/-- The sum of two words. -/
def add (o : Overflow) (a b : Int32) : Option Int32 :=
  if Signed (a.toInt + b.toInt) ∨ o = wraps then some (a + b) else none

/-- The product of two words. -/
def mul (o : Overflow) (a b : Int32) : Option Int32 :=
  if Signed (a.toInt * b.toInt) ∨ o = wraps then some (a * b) else none

variable {o : Overflow}

/-- Counting stops at the last word, if it stops. -/
theorem succ_eq_none_iff {w : UInt32} :
    o.succ w = none ↔ o = stops ∧ ¬Unsigned (w.toNat + 1) := by
  cases o <;> simp [succ]

theorem add_eq_none_iff {a b : Int32} :
    o.add a b = none ↔ o = stops ∧ ¬Signed (a.toInt + b.toInt) := by
  cases o <;> simp [add]

theorem mul_eq_none_iff {a b : Int32} :
    o.mul a b = none ↔ o = stops ∧ ¬Signed (a.toInt * b.toInt) := by
  cases o <;> simp [mul]

/-- The word behind another is the next number, modulo `2 ^ 32`. -/
theorem toNat_of_succ {w next : UInt32} (h : o.succ w = some next) :
    next.toNat = (w.toNat + 1) % UInt32.size := by
  obtain ⟨-, ⟨⟩⟩ := Option.ite_none_right_eq_some.1 h
  exact UInt32.toNat_add w 1

/-- A sum of words is the sum of their numbers, modulo `2 ^ 32`. -/
theorem toInt_of_add {a b sum : Int32} (h : o.add a b = some sum) :
    sum.toInt = (a.toInt + b.toInt).bmod UInt32.size := by
  obtain ⟨-, ⟨⟩⟩ := Option.ite_none_right_eq_some.1 h
  exact Int32.toInt_add a b

/-- A product of words is the product of their numbers, modulo `2 ^ 32`. -/
theorem toInt_of_mul {a b product : Int32} (h : o.mul a b = some product) :
    product.toInt = (a.toInt * b.toInt).bmod UInt32.size := by
  obtain ⟨-, ⟨⟩⟩ := Option.ite_none_right_eq_some.1 h
  exact Int32.toInt_mul a b

end Overflow
end MiddleEnd.Fixed
