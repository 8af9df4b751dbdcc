import IpQos.Lib.Run

/-! # Coupled computations

Two computations that may fail, run side by side.  They are coupled by a relation when
they fail alike or succeed with related results; the rules follow the program text, so
a simulation between two states is proved along the code both of them run. -/

namespace IpQos.Lib

universe u v

variable {ε : Type*} {α α' : Type u} {β β' : Type v} {γ : Type*}

inductive Coupled (R : α → β → Prop) : Except ε α → Except ε β → Prop where
  | error (e : ε) : Coupled R (.error e) (.error e)
  | ok {a : α} {b : β} (related : R a b) : Coupled R (.ok a) (.ok b)

namespace Coupled

variable {R Q : α → β → Prop} {x : Except ε α} {y : Except ε β}

theorem mono (coupled : Coupled R x y) (weaker : ∀ a b, R a b → Q a b) : Coupled Q x y := by
  cases coupled with
  | error e => exact .error e
  | ok related => exact .ok (weaker _ _ related)

/-- The rule of sequencing. -/
theorem bind {P : α' → β' → Prop} {f : α → Except ε α'} {g : β → Except ε β'}
    (first : Coupled R x y) (next : ∀ a b, R a b → Coupled P (f a) (g b)) :
    Coupled P (x >>= f) (y >>= g) := by
  cases first with
  | error e => exact .error e
  | ok related => exact next _ _ related

/-- A computation is coupled to itself, and what it returned is known. -/
theorem self (x : Except ε α) : Coupled (fun a b => a = b ∧ x = .ok a) x x := by
  cases x with
  | error e => exact .error e
  | ok a => exact .ok ⟨rfl, rfl⟩

/-- What the first computation returned is known. -/
theorem known (coupled : Coupled R x y) : Coupled (fun a b => R a b ∧ x = .ok a) x y := by
  cases coupled with
  | error e => exact .error e
  | ok related => exact .ok ⟨related, rfl⟩

/-- Both computations take the same branch. -/
theorem ite {c : Prop} [Decidable c] {x' : Except ε α} {y' : Except ε β}
    (yes : c → Coupled R x y) (no : ¬ c → Coupled R x' y') :
    Coupled R (if c then x else x') (if c then y else y') := by
  split
  · exact yes ‹_›
  · exact no ‹_›

/-- What the relation makes equal cannot be told apart. -/
theorem map_eq {f : α → γ} {g : β → γ} (coupled : Coupled R x y)
    (same : ∀ a b, R a b → f a = g b) : x.map f = y.map g := by
  cases coupled with
  | error e => rfl
  | ok related => exact congrArg Except.ok (same _ _ related)

/-- Where every step is coupled, so is a list of steps. -/
theorem runAll {σ : Type u} {τ : Type v} {ℓ : Type*} {S : σ → τ → Prop}
    {step : ℓ → σ → Except ε σ} {step' : ℓ → τ → Except ε τ} (labels : List ℓ)
    (steps : ∀ l ∈ labels, ∀ x y, S x y → Coupled S (step l x) (step' l y)) {x : σ} {y : τ}
    (related : S x y) : Coupled S (Lib.runAll step labels x) (Lib.runAll step' labels y) := by
  induction labels generalizing x y with
  | nil => exact .ok related
  | cons l labels ih =>
    have first := steps l List.mem_cons_self x y related
    unfold Lib.runAll
    generalize step l x = next at *
    generalize step' l y = next' at *
    cases first with
    | error e => exact .error e
    | ok kept => exact ih (fun l' member => steps l' (List.mem_cons_of_mem l member)) kept

end Coupled

end IpQos.Lib
