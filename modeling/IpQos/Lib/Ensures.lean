import Mathlib.Tactic.TypeStar

/-! # Computations that fail in harmless ways only

`Ensures bad post x`: if `x` fails then not in a way that `bad` names, and what it
returns has `post`.  With `bad` empty this is partial correctness; with a guard inside
`bad` one proof gives the invariant of every step and the safety of the guarded ones. -/

namespace IpQos.Lib

universe u

variable {ε : Type*} {α β : Type u}

inductive Ensures (bad : ε → Prop) (post : α → Prop) : Except ε α → Prop where
  | error {e : ε} (harmless : ¬ bad e) : Ensures bad post (.error e)
  | ok {a : α} (holds : post a) : Ensures bad post (.ok a)

namespace Ensures

variable {bad : ε → Prop} {post weaker : α → Prop} {x y : Except ε α}

theorem mono (ensures : Ensures bad post x) (imp : ∀ a, post a → weaker a) :
    Ensures bad weaker x := by
  cases ensures with
  | error harmless => exact .error harmless
  | ok holds => exact .ok (imp _ holds)

/-- The rule of sequencing. -/
theorem bind {post' : β → Prop} {f : α → Except ε β} (first : Ensures bad post x)
    (next : ∀ a, post a → Ensures bad post' (f a)) : Ensures bad post' (x >>= f) := by
  cases first with
  | error harmless => exact .error harmless
  | ok holds => exact next _ holds

/-- What the computation returned is known. -/
theorem known (ensures : Ensures bad post x) : Ensures bad (fun a => post a ∧ x = .ok a) x := by
  cases ensures with
  | error harmless => exact .error harmless
  | ok holds => exact .ok ⟨holds, rfl⟩

theorem ite {c : Prop} [Decidable c] (yes : c → Ensures bad post x)
    (no : ¬ c → Ensures bad post y) : Ensures bad post (if c then x else y) := by
  split
  · exact yes ‹_›
  · exact no ‹_›

theorem returned {a : α} (ensures : Ensures bad post (.ok a : Except ε α)) : post a := by
  cases ensures with
  | ok holds => exact holds

theorem failed {e : ε} (ensures : Ensures bad post (.error e : Except ε α)) : ¬ bad e := by
  cases ensures with
  | error harmless => exact harmless

end Ensures

end IpQos.Lib
