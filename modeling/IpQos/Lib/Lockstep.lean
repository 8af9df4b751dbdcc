import IpQos.Lib.Run

/-! # Refinement in lockstep

A machine that may fail beside a total one that says what it should do.  Both take the
same labels; every step of the machine has to succeed with the reply of the
specification and to leave states that are related. -/

namespace IpQos.Lib

variable {σ τ ℓ ρ ε : Type*}

/-- Every step succeeds, gives the reply of `spec`, and `P` relates the label, the state
    before the step, the reply, and the states of the machine and of `spec` after it. -/
def Lockstep (step : ℓ → σ → Except ε (ρ × σ)) (spec : ℓ → τ → ρ × τ)
    (P : ℓ → σ → ρ → σ → τ → Prop) : List ℓ → σ → τ → Prop
  | [], _, _ => True
  | l :: labels, x, t =>
    match step l x with
    | .ok (reply, y) =>
      reply = (spec l t).1 ∧ P l x reply y (spec l t).2 ∧
        Lockstep step spec P labels y (spec l t).2
    | .error _ => False

/-- The specification as a machine that never fails. -/
def specStep (spec : ℓ → τ → ρ × τ) (l : ℓ) (t : τ) : Except Empty τ := .ok (spec l t).2

/-- Every label of the list meets the guard where the specification takes it. -/
abbrev AllowedBy (spec : ℓ → τ → ρ × τ) : (ℓ → τ → Prop) → List ℓ → τ → Prop :=
  Allowed (specStep spec)

/-- Steps that keep an invariant, and are right wherever it holds, keep in lockstep. -/
theorem Lockstep.of_steps {step : ℓ → σ → Except ε (ρ × σ)} {spec : ℓ → τ → ρ × τ}
    {P : ℓ → σ → ρ → σ → τ → Prop} {pre : ℓ → τ → Prop} (Inv : σ → τ → Prop)
    (right : ∀ l x t, Inv x t → pre l t → ∃ y, step l x = .ok ((spec l t).1, y) ∧
      P l x (spec l t).1 y (spec l t).2 ∧ Inv y (spec l t).2)
    {labels : List ℓ} {x : σ} {t : τ} (inv : Inv x t) (meets : AllowedBy spec pre labels t) :
    Lockstep step spec P labels x t := by
  induction labels generalizing x t with
  | nil => trivial
  | cons l labels ih =>
    obtain ⟨here, later⟩ := meets
    obtain ⟨y, stepped, related, kept⟩ := right l x t inv here
    unfold Lockstep
    rw [stepped]
    exact ⟨rfl, related, ih kept later⟩

end IpQos.Lib
