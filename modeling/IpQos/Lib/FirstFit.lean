import Mathlib.Data.Finset.Card
import IpQos.Lib.Run

/-! # First fit

Numbers handed out from the bottom and given back in any order.  However long that goes on, no
number in use reaches the most that were ever in use at a time. -/

namespace IpQos.Lib

/-- One step on the numbers in use. -/
inductive FitStep (used : Finset ℕ) : Finset ℕ → Prop where
  | givenBack {left : Finset ℕ} (fewer : left ⊆ used) : FitStep used left
  | handedOut {k : ℕ} (least : ∀ i < k, i ∈ used) : FitStep used (insert k used)

variable {used used' : Finset ℕ} {k n : ℕ}

/-- All numbers up to the one handed out are in use. -/
theorem lt_card_insert (least : ∀ i < k, i ∈ used) : k < (insert k used).card := by
  have below : Finset.range (k + 1) ⊆ insert k used := by
    intro i member
    have upTo : i ≤ k := Nat.le_of_lt_succ (Finset.mem_range.mp member)
    cases Nat.lt_or_eq_of_le upTo with
    | inl lt => exact Finset.mem_insert_of_mem (least i lt)
    | inr same => exact same ▸ Finset.mem_insert_self k used
  have counted := Finset.card_le_card below
  rwa [Finset.card_range] at counted

theorem FitStep.below (step : FitStep used used') (below : ∀ i ∈ used, i < n)
    (within : used'.card ≤ n) : ∀ i ∈ used', i < n := by
  cases step with
  | givenBack fewer => exact fun i member => below i (fewer member)
  | handedOut least =>
    intro i member
    cases Finset.mem_insert.mp member with
    | inl same => exact same ▸ Nat.lt_of_lt_of_le (lt_card_insert least) within
    | inr old => exact below i old

/-- In a run that never has more than `n` numbers in use, all of them are below `n`. -/
theorem Run.below_peak {σ ℓ ε : Type*} {step : ℓ → σ → Except ε σ} {guard : ℓ → σ → Prop}
    {x y : σ} (run : Run step guard x y) (inUse : σ → Finset ℕ) (Inv : σ → Prop) (start : Inv x)
    (empty : inUse x = ∅) (crowd : ∀ l y, guard l y → (inUse y).card ≤ n)
    (fits : ∀ l y z, Inv y → guard l y → step l y = .ok z → Inv z ∧ FitStep (inUse y) (inUse z))
    (within : (inUse y).card ≤ n) : Inv y ∧ ∀ i ∈ inUse y, i < n := by
  induction run with
  | refl => exact ⟨start, by simp [empty]⟩
  | tail _ allowed stepped ih =>
    obtain ⟨inv, below⟩ := ih (crowd _ _ allowed)
    obtain ⟨inv', fitted⟩ := fits _ _ _ inv allowed stepped
    exact ⟨inv', fitted.below below within⟩

end IpQos.Lib
