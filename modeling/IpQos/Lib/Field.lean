import Mathlib.Data.Nat.Bitwise

/-! # Fields of a word

A mask with `n` bits from bit `k` on, read bit by bit. -/

namespace IpQos.Lib

/-- The mask of the `n` bits from bit `k` on. -/
def field (k n : Nat) : Nat := (2 ^ n - 1) <<< k

theorem testBit_field (k n i : Nat) :
    (field k n).testBit i = decide (k ≤ i ∧ i < k + n) := by
  unfold field
  rw [Nat.testBit_shiftLeft, Nat.testBit_two_pow_sub_one, ← Bool.decide_and]
  apply decide_eq_decide.mpr
  omega

/-- A word has no bit in a field. -/
theorem and_field_eq_zero_iff {x k n : Nat} :
    x &&& field k n = 0 ↔ ∀ i, k ≤ i → i < k + n → x.testBit i = false := by
  constructor
  · intro zero i from_k below
    have bit : (x &&& field k n).testBit i = false := by rw [zero, Nat.zero_testBit]
    rw [Nat.testBit_and, testBit_field, decide_eq_true ⟨from_k, below⟩, Bool.and_true] at bit
    exact bit
  · intro clear
    apply Nat.eq_of_testBit_eq
    intro i
    rw [Nat.testBit_and, testBit_field, Nat.zero_testBit]
    by_cases inside : k ≤ i ∧ i < k + n
    · rw [clear i inside.1 inside.2, Bool.false_and]
    · rw [decide_eq_false inside, Bool.and_false]

/-- A word that has all its bits in a field. -/
theorem and_field_eq_self_iff {x k n : Nat} :
    x &&& field k n = x ↔ ∀ i, x.testBit i = true → k ≤ i ∧ i < k + n := by
  constructor
  · intro same i set
    rw [← same, Nat.testBit_and, testBit_field, Bool.and_eq_true, decide_eq_true_eq] at set
    exact set.2
  · intro inside
    apply Nat.eq_of_testBit_eq
    intro i
    rw [Nat.testBit_and, testBit_field]
    cases set : x.testBit i with
    | false => rfl
    | true => rw [decide_eq_true (inside i set), Bool.true_and]

theorem testBit_shiftLeft_lt {x k i : Nat} (below : i < k) : (x <<< k).testBit i = false := by
  rw [Nat.testBit_shiftLeft, decide_eq_false (Nat.not_le_of_lt below), Bool.false_and]

end IpQos.Lib
