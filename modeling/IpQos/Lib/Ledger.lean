import Mathlib.Data.Multiset.AddSub

/-! # Ledgers

What a program holds, as a multiset of resources.  Acquiring adds one; releasing what is
not held is a fault. -/

namespace IpQos.Lib

variable {ρ : Type*} [DecidableEq ρ]

def release (r : ρ) (held : Multiset ρ) : Option (Multiset ρ) :=
  if r ∈ held then some (held.erase r) else none

/-- One after the other. -/
def releaseAll : List ρ → Multiset ρ → Option (Multiset ρ)
  | [], held => some held
  | r :: rs, held => (release r held).bind (releaseAll rs)

theorem release_cons (r : ρ) (held : Multiset ρ) : release r (r ::ₘ held) = some held := by
  rw [release, if_pos (Multiset.mem_cons_self r held), Multiset.erase_cons_head]

/-- Released in the order of the list, whatever else is held. -/
theorem releaseAll_add (rs : List ρ) (held : Multiset ρ) : releaseAll rs (rs + held) = some held := by
  induction rs with
  | nil => rw [releaseAll, Multiset.coe_nil, Multiset.zero_add]
  | cons r rs ih =>
    rw [releaseAll, ← Multiset.cons_coe, Multiset.cons_add, release_cons, Option.bind_some, ih]

end IpQos.Lib
