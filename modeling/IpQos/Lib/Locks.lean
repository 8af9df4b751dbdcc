import Mathlib.Tactic.TypeStar

/-! # Lock discipline

Computations that may stop with an error and that record which locks they take and
release.  The discipline is a relation between locks: which one may be taken while
another is held.  A lock that may not be taken inside itself is not recursive. -/

namespace IpQos.Lib

variable {ι ε : Type*} {α β : Type}

inductive LockEvent (ι : Type*) where
  | acquire (l : ι)
  | release (l : ι)
  deriving DecidableEq, Repr

/-- The events up to the end or the error, and the result. -/
structure Locking (ι ε : Type*) (α : Type) where
  events : List (LockEvent ι)
  result : Except ε α

namespace Locking

def lift (x : Except ε α) : Locking ι ε α := { events := [], result := x }

def acquire (l : ι) : Locking ι ε Unit := { events := [.acquire l], result := .ok () }

def release (l : ι) : Locking ι ε Unit := { events := [.release l], result := .ok () }

/-- An error ends the computation with the events made so far. -/
def bind (m : Locking ι ε α) (f : α → Locking ι ε β) : Locking ι ε β :=
  match m.result with
  | .ok a => { events := m.events ++ (f a).events, result := (f a).result }
  | .error e => { events := m.events, result := .error e }

instance : Monad (Locking ι ε) where
  pure a := lift (.ok a)
  bind := bind

@[simp] theorem result_pure (a : α) : (pure a : Locking ι ε α).result = .ok a := rfl

@[simp] theorem result_lift (x : Except ε α) : (lift x : Locking ι ε α).result = x := rfl

@[simp] theorem result_acquire (l : ι) : (acquire l : Locking ι ε Unit).result = .ok () := rfl

@[simp] theorem result_release (l : ι) : (release l : Locking ι ε Unit).result = .ok () := rfl

/-- Without its locks a sequence is the sequence of the results. -/
@[simp] theorem result_bind (m : Locking ι ε α) (f : α → Locking ι ε β) :
    (m >>= f).result = m.result >>= fun a => (f a).result := by
  show (bind m f).result = _
  unfold bind
  cases m.result with
  | ok a => rfl
  | error e => rfl

@[simp] theorem result_ite (c : Prop) [Decidable c] (m m' : Locking ι ε α) :
    (if c then m else m').result = if c then m.result else m'.result := by
  split <;> rfl

/-- Part by part. -/
theorem result_congr {m : Locking ι ε α} {x : Except ε α} {f : α → Locking ι ε β}
    {g : α → Except ε β} (first : m.result = x) (rest : ∀ a, (f a).result = g a) :
    (m >>= f).result = x >>= g := by
  rw [result_bind, first]
  exact congrArg (x >>= ·) (funext rest)

end Locking

/-! ## The discipline -/

/-- The locks held after the events, latest first; `none` if one of them was not allowed. -/
def follow [DecidableEq ι] (inside : ι → ι → Bool) : List ι → List (LockEvent ι) → Option (List ι)
  | held, [] => some held
  | held, .acquire l :: events =>
    if held.all (inside l ·) then follow inside (l :: held) events else none
  | held, .release l :: events =>
    if l ∈ held then follow inside (held.erase l) events else none

variable [DecidableEq ι] {inside : ι → ι → Bool}

theorem follow_append (held : List ι) (events events' : List (LockEvent ι)) :
    follow inside held (events ++ events') =
      (follow inside held events).bind fun held' => follow inside held' events' := by
  induction events generalizing held with
  | nil => rfl
  | cons event events ih =>
    cases event with
    | acquire l =>
      simp only [List.cons_append, follow]
      split
      · exact ih (l :: held)
      · rfl
    | release l =>
      simp only [List.cons_append, follow]
      split
      · exact ih (held.erase l)
      · rfl

/-- All events of `m` are allowed where `held` are held, and if it returns `held'` are. -/
structure Moves (inside : ι → ι → Bool) (held held' : List ι) (m : Locking ι ε α) : Prop where
  legal : (follow inside held m.events).isSome
  ends : ∀ a, m.result = .ok a → follow inside held m.events = some held'

namespace Moves

variable {held held' held'' : List ι} {l : ι} {m : Locking ι ε α} {f : α → Locking ι ε β}

theorem known (a : α) : Moves inside held held (pure a : Locking ι ε α) :=
  ⟨rfl, fun _ _ => rfl⟩

theorem lift (x : Except ε α) : Moves inside held held (.lift x : Locking ι ε α) :=
  ⟨rfl, fun _ _ => rfl⟩

theorem bind (first : Moves inside held held' m)
    (rest : ∀ a, m.result = .ok a → Moves inside held' held'' (f a)) :
    Moves inside held held'' (m >>= f) := by
  show Moves inside held held'' (m.bind f)
  unfold Locking.bind
  cases returned : m.result with
  | error e =>
    refine ⟨first.legal, fun b stopped => ?_⟩
    cases stopped
  | ok a =>
    -- the events of the rest follow those of the first part
    have after := first.ends a returned
    have rest := rest a returned
    constructor
    · show (follow inside held (m.events ++ (f a).events)).isSome
      rw [follow_append, after]
      exact rest.legal
    · intro b returned'
      show follow inside held (m.events ++ (f a).events) = _
      rw [follow_append, after]
      exact rest.ends b returned'

/-- A part without locks. -/
theorem compute {x : Except ε α} (rest : ∀ a, x = .ok a → Moves inside held held' (f a)) :
    Moves inside held held' (.lift x >>= f) :=
  (lift x).bind rest

theorem acquire (allowed : held.all (inside l ·)) :
    Moves inside held (l :: held) (.acquire l : Locking ι ε Unit) := by
  have taken : follow inside held [.acquire l] = some (l :: held) := if_pos allowed
  constructor
  · show (follow inside held [.acquire l]).isSome
    rw [taken]
    rfl
  · exact fun _ _ => taken

theorem release : Moves inside (l :: held) held (.release l : Locking ι ε Unit) := by
  have freed : follow inside (l :: held) [.release l] = some held := by
    simp [follow]
  constructor
  · show (follow inside (l :: held) [.release l]).isSome
    rw [freed]
    rfl
  · exact fun _ _ => freed

theorem enter {f : Unit → Locking ι ε β} (allowed : held.all (inside l ·))
    (rest : Moves inside (l :: held) held' (f ())) :
    Moves inside held held' (.acquire l >>= f) :=
  (acquire allowed).bind fun _ _ => rest

theorem leave {f : Unit → Locking ι ε β} (rest : Moves inside held held' (f ())) :
    Moves inside (l :: held) held' (.release l >>= f) :=
  release.bind fun _ _ => rest

end Moves

/-! Where an event is not allowed nothing that follows makes up for it. -/

theorem follow_enter (held : List ι) (l : ι) (f : Unit → Locking ι ε β) :
    follow inside held (.acquire l >>= f : Locking ι ε β).events =
      if held.all (inside l ·) then follow inside (l :: held) (f ()).events else none := rfl

theorem follow_bind_none {held : List ι} {m : Locking ι ε α} {f : α → Locking ι ε β}
    (stuck : follow inside held m.events = none) : follow inside held (m >>= f).events = none := by
  show follow inside held (m.bind f).events = none
  unfold Locking.bind
  cases m.result with
  | error e => exact stuck
  | ok a =>
    show follow inside held (m.events ++ (f a).events) = none
    rw [follow_append, stuck]
    rfl

end IpQos.Lib
