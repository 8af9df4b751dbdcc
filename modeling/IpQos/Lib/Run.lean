import Mathlib.Tactic.TypeStar

/-! # Guarded runs

Runs of a step function that may fail.  A guard says which labels are allowed in
which state; a run takes allowed steps only, and ends where a step fails. -/

namespace IpQos.Lib

variable {σ ℓ ε : Type*}

/-- `Run step guard x y`: allowed steps lead from `x` to `y`. -/
inductive Run (step : ℓ → σ → Except ε σ) (guard : ℓ → σ → Prop) (x : σ) : σ → Prop where
  | refl : Run step guard x x
  | tail {y z : σ} {l : ℓ} (run : Run step guard x y) (allowed : guard l y)
      (stepped : step l y = .ok z) : Run step guard x z

/-- The labels of a list one after the other. -/
def runAll (step : ℓ → σ → Except ε σ) : List ℓ → σ → Except ε σ
  | [], x => .ok x
  | l :: labels, x =>
    match step l x with
    | .ok y => runAll step labels y
    | .error e => .error e

theorem runAll_append {step : ℓ → σ → Except ε σ} {labels : List ℓ} {x y : σ}
    (ran : runAll step labels x = .ok y) (more : List ℓ) :
    runAll step (labels ++ more) x = runAll step more y := by
  induction labels generalizing x with
  | nil =>
    cases ran
    rfl
  | cons l labels ih =>
    unfold runAll at ran
    rw [List.cons_append, runAll]
    cases stepped : step l x with
    | error e =>
      rw [stepped] at ran
      cases ran
    | ok z =>
      rw [stepped] at ran
      exact ih ran

/-- Every label of the list is allowed where it is taken. -/
def Allowed (step : ℓ → σ → Except ε σ) (guard : ℓ → σ → Prop) : List ℓ → σ → Prop
  | [], _ => True
  | l :: labels, x => guard l x ∧
    match step l x with
    | .ok y => Allowed step guard labels y
    | .error _ => True

/-- Labels that are allowed everywhere. -/
theorem Allowed.of_forall {step : ℓ → σ → Except ε σ} {guard : ℓ → σ → Prop} {labels : List ℓ}
    (always : ∀ l ∈ labels, ∀ x, guard l x) (x : σ) : Allowed step guard labels x := by
  induction labels generalizing x with
  | nil => trivial
  | cons l labels ih =>
    refine ⟨always l List.mem_cons_self x, ?_⟩
    cases step l x with
    | error e => trivial
    | ok y => exact ih (fun l' member => always l' (List.mem_cons_of_mem l member)) y

/-- The first part of an allowed list. -/
theorem Allowed.front {step : ℓ → σ → Except ε σ} {guard : ℓ → σ → Prop} {labels more : List ℓ}
    {x : σ} (allowed : Allowed step guard (labels ++ more) x) : Allowed step guard labels x := by
  induction labels generalizing x with
  | nil => trivial
  | cons l labels ih =>
    obtain ⟨here, rest⟩ := allowed
    refine ⟨here, ?_⟩
    cases stepped : step l x with
    | error e => trivial
    | ok y =>
      simp only [stepped] at rest
      exact ih rest

/-- The second part, where the first one leads. -/
theorem Allowed.back {step : ℓ → σ → Except ε σ} {guard : ℓ → σ → Prop} {labels more : List ℓ}
    {x y : σ} (allowed : Allowed step guard (labels ++ more) x)
    (ran : runAll step labels x = .ok y) : Allowed step guard more y := by
  induction labels generalizing x with
  | nil =>
    cases ran
    exact allowed
  | cons l labels ih =>
    obtain ⟨_, rest⟩ := allowed
    unfold runAll at ran
    cases stepped : step l x with
    | error e =>
      rw [stepped] at ran
      cases ran
    | ok z =>
      simp only [stepped] at ran rest
      exact ih rest ran

/-- The guard of the last label, where the labels before it lead. -/
theorem Allowed.at_end {step : ℓ → σ → Except ε σ} {guard : ℓ → σ → Prop} {labels : List ℓ}
    {l : ℓ} {x y : σ} (allowed : Allowed step guard (labels ++ [l]) x)
    (ran : runAll step labels x = .ok y) : Allowed step guard labels x ∧ guard l y :=
  ⟨allowed.front, (allowed.back ran).1⟩

instance Allowed.decidable {step : ℓ → σ → Except ε σ} {guard : ℓ → σ → Prop}
    [∀ l x, Decidable (guard l x)] :
    (labels : List ℓ) → (x : σ) → Decidable (Allowed step guard labels x)
  | [], _ => .isTrue trivial
  | l :: labels, x =>
    have : Decidable (match step l x with
        | .ok y => Allowed step guard labels y
        | .error _ => True) :=
      match step l x with
      | .ok y => Allowed.decidable labels y
      | .error _ => .isTrue trivial
    inferInstanceAs (Decidable (guard l x ∧ _))

/-- `P` holds after every step of the list; a step that fails leaves nothing to ask. -/
def Throughout (step : ℓ → σ → Except ε σ) (P : σ → Prop) : List ℓ → σ → Prop
  | [], _ => True
  | l :: labels, x =>
    match step l x with
    | .ok y => P y ∧ Throughout step P labels y
    | .error _ => True

/-- Where `P` holds after a step exactly if the step was allowed, it holds throughout a list
    exactly if all of the list is allowed. -/
theorem throughout_iff_allowed {step : ℓ → σ → Except ε σ} {guard : ℓ → σ → Prop}
    {P : σ → Prop} (Inv : σ → Prop)
    (exact : ∀ l x y, Inv x → step l x = .ok y → (P y ↔ guard l x) ∧ (guard l x → Inv y))
    (total : ∀ l x, Inv x → ∃ y, step l x = .ok y) {labels : List ℓ} {x : σ} (inv : Inv x) :
    Throughout step P labels x ↔ Allowed step guard labels x := by
  induction labels generalizing x with
  | nil => exact Iff.rfl
  | cons l labels ih =>
    obtain ⟨y, stepped⟩ := total l x inv
    obtain ⟨holds, keeps⟩ := exact l x y inv stepped
    simp only [Throughout, Allowed, stepped]
    constructor
    · rintro ⟨holdsHere, rest⟩
      have allowed := holds.mp holdsHere
      exact ⟨allowed, (ih (keeps allowed)).mp rest⟩
    · rintro ⟨allowed, rest⟩
      exact ⟨holds.mpr allowed, (ih (keeps allowed)).mpr rest⟩

/-- Every step of the list succeeds, and `P` relates its label to the state after it. -/
def AfterEach (step : ℓ → σ → Except ε σ) (P : ℓ → σ → Prop) : List ℓ → σ → Prop
  | [], _ => True
  | l :: labels, x => ∃ y, step l x = .ok y ∧ P l y ∧ AfterEach step P labels y

theorem AfterEach.append {step : ℓ → σ → Except ε σ} {P : ℓ → σ → Prop} {labels more : List ℓ}
    {x y : σ} (first : AfterEach step P labels x) (ran : runAll step labels x = .ok y)
    (later : AfterEach step P more y) : AfterEach step P (labels ++ more) x := by
  induction labels generalizing x with
  | nil =>
    cases ran
    exact later
  | cons l labels ih =>
    obtain ⟨z, stepped, holds, rest⟩ := first
    simp only [runAll, stepped] at ran
    exact ⟨z, stepped, holds, ih rest ran⟩

namespace Run

variable {step : ℓ → σ → Except ε σ} {guard guard' : ℓ → σ → Prop} {x y z : σ}

/-- What the start has and every allowed step keeps holds wherever a run leads. -/
theorem invariant (run : Run step guard x y) (Inv : σ → Prop) (start : Inv x)
    (keep : ∀ l y z, Inv y → guard l y → step l y = .ok z → Inv z) : Inv y := by
  induction run with
  | refl => exact start
  | tail _ allowed stepped ih => exact keep _ _ _ ih allowed stepped

theorem trans (first : Run step guard x y) (second : Run step guard y z) :
    Run step guard x z := by
  induction second with
  | refl => exact first
  | tail _ allowed stepped ih => exact .tail ih allowed stepped

theorem single {l : ℓ} (allowed : guard l x) (stepped : step l x = .ok y) :
    Run step guard x y := .tail .refl allowed stepped

theorem mono (run : Run step guard x y) (weaker : ∀ l y, guard l y → guard' l y) :
    Run step guard' x y := by
  induction run with
  | refl => exact .refl
  | tail _ allowed stepped ih => exact .tail ih (weaker _ _ allowed) stepped

/-- An executed list of labels is a run if each of them was allowed. -/
theorem of_runAll {labels : List ℓ} (allowed : Allowed step guard labels x)
    (ran : runAll step labels x = .ok y) : Run step guard x y := by
  induction labels generalizing x with
  | nil =>
    cases ran
    exact .refl
  | cons l labels ih =>
    obtain ⟨first, rest⟩ := allowed
    unfold runAll at ran
    cases stepped : step l x with
    | error e =>
      rw [stepped] at ran
      cases ran
    | ok m =>
      rw [stepped] at ran rest
      exact (single first stepped).trans (ih rest ran)

end Run

end IpQos.Lib
