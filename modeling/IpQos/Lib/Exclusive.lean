import IpQos.Lib.Run
import Mathlib.Logic.Function.Basic

/-! # Exclusive jobs that can be cut short

Jobs wait for one lock, work on a shared state while they hold it, and let it go.  A
canceller raises a flag before it waits and lowers it as the last thing under the lock;
the other jobs look at the flag where they check it, and take a shorter way if it is up.
Whatever the order of the moves, the jobs have run one after the other as they took the
lock, and behind every job that was cut short there is a canceller. -/

namespace IpQos.Lib

variable {σ ι : Type*}

/-! ## Bodies -/

/-- What a job does with the lock. -/
inductive Body (σ : Type*) where
  | done
  | act (f : σ → σ) (next : σ → Body σ)
  | check (go cut : Body σ)

namespace Body

/-- The state after a body that nobody cuts short. -/
def alone : Body σ → σ → σ
  | .done, x => x
  | .act f next, x => alone (next x) (f x)
  | .check go _, x => alone go x

/-- The flag is never looked at. -/
def Unchecked : Body σ → Prop
  | .done => True
  | .act _ next => ∀ x, Unchecked (next x)
  | .check _ _ => False

/-- `Ran b x cut y`: the body `b` has led from `x` to `y`; `cut` tells if it was cut short. -/
inductive Ran : Body σ → σ → Bool → σ → Prop where
  | done (x : σ) : Ran .done x false x
  | act {f : σ → σ} {next : σ → Body σ} {x y : σ} {cut : Bool} (rest : Ran (next x) (f x) cut y) :
      Ran (.act f next) x cut y
  | go {go other : Body σ} {x y : σ} {cut : Bool} (rest : Ran go x cut y) :
      Ran (.check go other) x cut y
  | cut {go other : Body σ} {x y : σ} {cut : Bool} (rest : Ran other x cut y) :
      Ran (.check go other) x true y

theorem Ran.eq_alone {b : Body σ} {x y : σ} (ran : Ran b x false y) : y = b.alone x := by
  generalize uncut : false = cut at ran
  induction ran with
  | done x => rfl
  | act _ ih => exact ih uncut
  | go _ ih => exact ih uncut
  | cut _ _ => cases uncut

end Body

structure Job (σ : Type*) where
  cancels : Bool
  body : Body σ
  unchecked : cancels = true → body.Unchecked

/-! ## The system -/

inductive Phase (σ : Type*) where
  | idle
  | waiting
  | running (rest : Body σ)
  | closing
  | finished

/-- Come, and not yet finished. -/
def Phase.present : Phase σ → Prop
  | .waiting | .running _ | .closing => True
  | .idle | .finished => False

/-- The shared state, the flag, the lock and the jobs.  `taken` lists who took the lock,
    latest first; no move depends on it. -/
structure Sys (σ ι : Type*) where
  shared : σ
  flag : Bool
  holder : Option ι
  phase : ι → Phase σ
  taken : List ι

namespace Sys

/-- Nobody has come yet. -/
def start (x : σ) : Sys σ ι :=
  { shared := x, flag := false, holder := none, phase := fun _ => .idle, taken := [] }

/-- Whoever has come is finished. -/
def Quiet (s : Sys σ ι) : Prop := ∀ i, ¬ (s.phase i).present

variable [DecidableEq ι]

def setPhase (i : ι) (p : Phase σ) (s : Sys σ ι) : Sys σ ι :=
  { s with phase := Function.update s.phase i p }

/-- The next move of a job; it has none while somebody else has the lock it waits for, and
    when it is finished. -/
def move (jobs : ι → Job σ) (i : ι) (s : Sys σ ι) : Except Unit (Sys σ ι) :=
  match s.phase i with
  | .idle => .ok (setPhase i .waiting { s with flag := s.flag || (jobs i).cancels })
  | .waiting =>
    match s.holder with
    | none => .ok (setPhase i (.running (jobs i).body)
        { s with holder := some i, taken := i :: s.taken })
    | some _ => .error ()
  | .running .done =>
    if (jobs i).cancels then .ok (setPhase i .closing { s with flag := false })
    else .ok (setPhase i .finished { s with holder := none })
  | .running (.act f next) =>
    .ok (setPhase i (.running (next s.shared)) { s with shared := f s.shared })
  | .running (.check go cut) => .ok (setPhase i (.running (if s.flag then cut else go)) s)
  | .closing => .ok (setPhase i .finished { s with holder := none })
  | .finished => .error ()

end Sys

/-! ## What the jobs have done -/

/-- Jobs run one after the other, latest first, with whether they were cut short. -/
inductive Replay (jobs : ι → Job σ) (x : σ) : List (ι × Bool) → σ → Prop where
  | nil : Replay jobs x [] x
  | cons {log : List (ι × Bool)} {y z : σ} {i : ι} {cut : Bool} (earlier : Replay jobs x log y)
      (ran : (jobs i).body.Ran y cut z) : Replay jobs x ((i, cut) :: log) z

/-- Some job was cut short and no canceller has run since. -/
def Open (jobs : ι → Job σ) : List (ι × Bool) → Prop
  | [] => False
  | (i, cut) :: log => cut = true ∨ ((jobs i).cancels = false ∧ Open jobs log)

def Phase.holding : Phase σ → Prop
  | .running _ | .closing => True
  | .idle | .waiting | .finished => False

/-- The flag, once raised, has not been lowered. -/
def Phase.raised : Phase σ → Prop
  | .waiting | .running _ => True
  | .idle | .closing | .finished => False

/-- A canceller has come that has not let the lock go. -/
def Coming (jobs : ι → Job σ) (s : Sys σ ι) : Prop :=
  ∃ k, (jobs k).cancels = true ∧ (s.phase k).present

/-! ## The invariant -/

/-- How the holder of the lock, who took it where the state was `y`, will have run. -/
def Underway (jobs : ι → Job σ) (i : ι) (y : σ) (s : Sys σ ι) : Prop :=
  match s.phase i with
  | .running rest =>
    ∃ cut, (∀ z c, rest.Ran s.shared c z → (jobs i).body.Ran y (cut || c) z) ∧
      (cut = true → (jobs i).cancels = false ∧ Coming jobs s) ∧
      ((jobs i).cancels = true → rest.Unchecked)
  | .closing => (jobs i).cancels = true ∧ (jobs i).body.Ran y false s.shared
  | _ => False

structure Inv (jobs : ι → Job σ) (x : σ) (s : Sys σ ι) : Prop where
  excl : ∀ i, (s.phase i).holding ↔ s.holder = some i
  flag : s.flag = true → ∃ k, (jobs k).cancels = true ∧ (s.phase k).raised
  work : ∃ log y, Replay jobs x log y ∧ (Open jobs log → Coming jobs s) ∧
    match s.holder with
    | none => s.shared = y ∧ s.taken = log.map Prod.fst
    | some i => Underway jobs i y s ∧ s.taken = i :: log.map Prod.fst

section

variable {jobs : ι → Job σ} {s : Sys σ ι} {x : σ} {i : ι}

theorem Inv.start (jobs : ι → Job σ) (x : σ) : Inv jobs x (.start x) where
  excl := fun _ => ⟨nofun, nofun⟩
  flag := nofun
  work := ⟨[], x, .nil, nofun, rfl, rfl⟩

/-- The lock is with whoever runs. -/
theorem Inv.holder_of_running (inv : Inv jobs x s) {rest : Body σ}
    (running : s.phase i = .running rest) : s.holder = some i := by
  have holding := inv.excl i
  rw [running] at holding
  exact holding.mp trivial

theorem Inv.holder_of_closing (inv : Inv jobs x s) (closing : s.phase i = .closing) :
    s.holder = some i := by
  have holding := inv.excl i
  rw [closing] at holding
  exact holding.mp trivial

/-- What `work` says of the holder. -/
theorem Inv.underway (inv : Inv jobs x s) (held : s.holder = some i) :
    ∃ log y, Replay jobs x log y ∧ (Open jobs log → Coming jobs s) ∧ Underway jobs i y s ∧
      s.taken = i :: log.map Prod.fst := by
  obtain ⟨log, y, replay, covered, holder⟩ := inv.work
  rw [held] at holder
  exact ⟨log, y, replay, covered, holder⟩

end

section

variable [DecidableEq ι] {jobs : ι → Job σ} {s s' : Sys σ ι} {x : σ} {i k : ι}

/-! ## One move -/

inductive Moved (jobs : ι → Job σ) (i : ι) (s : Sys σ ι) : Sys σ ι → Prop where
  | arrive (idle : s.phase i = .idle) :
      Moved jobs i s (.setPhase i .waiting { s with flag := s.flag || (jobs i).cancels })
  | take (waiting : s.phase i = .waiting) (free : s.holder = none) :
      Moved jobs i s (.setPhase i (.running (jobs i).body)
        { s with holder := some i, taken := i :: s.taken })
  | act {f : σ → σ} {next : σ → Body σ} (running : s.phase i = .running (.act f next)) :
      Moved jobs i s (.setPhase i (.running (next s.shared)) { s with shared := f s.shared })
  | check {go cut : Body σ} (running : s.phase i = .running (.check go cut)) :
      Moved jobs i s (.setPhase i (.running (if s.flag then cut else go)) s)
  | leave (running : s.phase i = .running .done) (ordinary : (jobs i).cancels = false) :
      Moved jobs i s (.setPhase i .finished { s with holder := none })
  | lower (running : s.phase i = .running .done) (cancels : (jobs i).cancels = true) :
      Moved jobs i s (.setPhase i .closing { s with flag := false })
  | close (closing : s.phase i = .closing) :
      Moved jobs i s (.setPhase i .finished { s with holder := none })

theorem Moved.of_move (ran : s.move jobs i = .ok s') : Moved jobs i s s' := by
  unfold Sys.move at ran
  split at ran
  · cases ran
    exact .arrive ‹_›
  · split at ran
    · cases ran
      exact .take ‹_› ‹_›
    · cases ran
  · split at ran
    · cases ran
      exact .lower ‹_› ‹_›
    · cases ran
      exact .leave ‹_› (Bool.not_eq_true _ ▸ ‹_›)
  · cases ran
    exact .act ‹_›
  · cases ran
    exact .check ‹_›
  · cases ran
    exact .close ‹_›
  · cases ran

@[simp] theorem setPhase_self (i : ι) (p : Phase σ) (s : Sys σ ι) :
    (s.setPhase i p).phase i = p := Function.update_self ..

theorem setPhase_other (other : k ≠ i) (p : Phase σ) (s : Sys σ ι) :
    (s.setPhase i p).phase k = s.phase k := Function.update_of_ne other ..

/-- Only a canceller that lets the lock go is no longer coming. -/
theorem Coming.moved (coming : Coming jobs s) (moved : Moved jobs i s s')
    (stays : s.phase i = .closing → ∃ k, k ≠ i ∧ (jobs k).cancels = true ∧ (s.phase k).present) :
    Coming jobs s' := by
  obtain ⟨k, cancels, present⟩ := coming
  by_cases same : k = i
  · subst same
    cases moved with
    | arrive idle => exact ⟨k, cancels, by simp [Phase.present]⟩
    | take waiting free => exact ⟨k, cancels, by simp [Phase.present]⟩
    | act running => exact ⟨k, cancels, by simp [Phase.present]⟩
    | check running => exact ⟨k, cancels, by simp [Phase.present]⟩
    | leave running ordinary => exact absurd (cancels.symm.trans ordinary) nofun
    | lower running _ => exact ⟨k, cancels, by simp [Phase.present]⟩
    | close closing =>
      obtain ⟨k', other, cancels', present'⟩ := stays closing
      refine ⟨k', cancels', ?_⟩
      rw [setPhase_other other]
      exact present'
  · refine ⟨k, cancels, ?_⟩
    cases moved <;> rw [setPhase_other same] <;> exact present

/-! ## What a move keeps -/

theorem Inv.excl_moved (inv : Inv jobs x s) (moved : Moved jobs i s s') (j : ι) :
    (s'.phase j).holding ↔ s'.holder = some j := by
  have before := inv.excl j
  by_cases same : j = i
  · subst same
    cases moved with
    | arrive idle =>
      rw [idle] at before
      rw [setPhase_self]
      exact before
    | take waiting free =>
      rw [setPhase_self]
      exact ⟨fun _ => rfl, fun _ => trivial⟩
    | act running | check running | lower running _ =>
      have held := inv.holder_of_running running
      rw [setPhase_self]
      exact ⟨fun _ => held, fun _ => trivial⟩
    | leave | close =>
      rw [setPhase_self]
      exact ⟨nofun, nofun⟩
  -- who moves inside the lock is its holder, so nobody else is inside
  · have elsewhere : s.holder = some i → ¬ (s.phase j).holding := by
      intro held holding
      exact same (Option.some.inj ((before.mp holding).symm.trans held))
    cases moved with
    | arrive | act | check | lower =>
      rw [setPhase_other same]
      exact before
    | take waiting free =>
      rw [setPhase_other same]
      refine ⟨fun holding => ?_, fun held => absurd (Option.some.inj held).symm same⟩
      exact absurd (free.symm.trans (before.mp holding)) nofun
    | leave running ordinary =>
      have held := inv.holder_of_running running
      rw [setPhase_other same]
      exact ⟨fun holding => absurd holding (elsewhere held), nofun⟩
    | close closing =>
      have held := inv.holder_of_closing closing
      rw [setPhase_other same]
      exact ⟨fun holding => absurd holding (elsewhere held), nofun⟩

/-- A flag that is up belongs to a canceller that has still to lower it. -/
theorem Inv.flag_moved (inv : Inv jobs x s) (moved : Moved jobs i s s') (up : s'.flag = true) :
    ∃ k, (jobs k).cancels = true ∧ (s'.phase k).raised := by
  by_cases mine : (jobs i).cancels = true ∧ (s'.phase i).raised
  · exact ⟨i, mine⟩
  -- so the flag was up before, and whoever raised it has not moved
  have before : s.flag = true := by
    cases moved with
    | arrive idle =>
      cases raised : s.flag with
      | true => rfl
      | false =>
        rw [setPhase_self] at mine
        have cancels : (jobs i).cancels = true := by simpa [Sys.setPhase, raised] using up
        exact absurd ⟨cancels, trivial⟩ mine
    | lower => cases up
    | _ => exact up
  obtain ⟨k, cancels, raised⟩ := inv.flag before
  have other : k ≠ i := by
    rintro rfl
    cases moved with
    | arrive | take | act | check =>
      rw [setPhase_self] at mine
      exact mine ⟨cancels, trivial⟩
    | leave running ordinary => exact absurd (cancels.symm.trans ordinary) nofun
    | lower => cases up
    | close closing =>
      rw [closing] at raised
      exact raised
  refine ⟨k, cancels, ?_⟩
  cases moved <;> rw [setPhase_other other] <;> exact raised

/-- A job that does not move goes on as it would have gone on. -/
theorem Underway.other {j : ι} {y : σ} (underway : Underway jobs j y s) (other : j ≠ i)
    (moved : Moved jobs i s s') (shared : s'.shared = s.shared)
    (coming : Coming jobs s → Coming jobs s') : Underway jobs j y s' := by
  have phase : s'.phase j = s.phase j := by
    cases moved <;> exact setPhase_other other ..
  unfold Underway at underway ⊢
  rw [phase, shared]
  generalize s.phase j = p at *
  cases p with
  | running rest =>
    obtain ⟨cut, ran, short, steady⟩ := underway
    exact ⟨cut, ran, fun isCut => ⟨(short isCut).1, coming (short isCut).2⟩, steady⟩
  | closing => exact underway
  | idle | waiting | finished => exact underway

theorem Inv.work_moved (inv : Inv jobs x s) (moved : Moved jobs i s s') :
    ∃ log y, Replay jobs x log y ∧ (Open jobs log → Coming jobs s') ∧
      match s'.holder with
      | none => s'.shared = y ∧ s'.taken = log.map Prod.fst
      | some i => Underway jobs i y s' ∧ s'.taken = i :: log.map Prod.fst := by
  have unlessClosing : s.phase i ≠ .closing → Coming jobs s → Coming jobs s' := by
    intro stays coming
    exact coming.moved moved fun closing => absurd closing stays
  have moved' := moved
  cases moved with
  | arrive idle =>
    have keep := unlessClosing (by rw [idle]; nofun)
    obtain ⟨log, y, replay, covered, holder⟩ := inv.work
    refine ⟨log, y, replay, fun isOpen => keep (covered isOpen), ?_⟩
    show match s.holder with | none => _ | some j => _
    cases held : s.holder with
    | none =>
      rw [held] at holder
      exact holder
    | some j =>
      rw [held] at holder
      have other : j ≠ i := by
        rintro rfl
        have holding := (inv.excl j).mpr held
        rw [idle] at holding
        exact holding
      have underway := holder.1.other other moved' rfl keep
      rw [held] at underway
      exact ⟨underway, holder.2⟩
  | take waiting free =>
    have keep := unlessClosing (by rw [waiting]; nofun)
    obtain ⟨log, y, replay, covered, holder⟩ := inv.work
    rw [free] at holder
    refine ⟨log, y, replay, fun isOpen => keep (covered isOpen), ?_, congrArg _ holder.2⟩
    unfold Underway
    rw [setPhase_self]
    refine ⟨false, ?_, nofun, (jobs i).unchecked⟩
    intro z c ran
    exact holder.1 ▸ ran
  | act running =>
    have keep := unlessClosing (by rw [running]; nofun)
    have held := inv.holder_of_running running
    obtain ⟨log, y, replay, covered, underway, taken⟩ := inv.underway held
    refine ⟨log, y, replay, fun isOpen => keep (covered isOpen), ?_⟩
    show match s.holder with | none => _ | some j => _
    rw [held]
    refine ⟨?_, taken⟩
    unfold Underway at underway ⊢
    rw [running] at underway
    rw [setPhase_self]
    obtain ⟨cut, ran, short, steady⟩ := underway
    exact ⟨cut, fun z c rest => ran z c (.act rest),
      fun isCut => ⟨(short isCut).1, keep (short isCut).2⟩, fun cancels => steady cancels s.shared⟩
  | check running =>
    have keep := unlessClosing (by rw [running]; nofun)
    have held := inv.holder_of_running running
    obtain ⟨log, y, replay, covered, underway, taken⟩ := inv.underway held
    refine ⟨log, y, replay, fun isOpen => keep (covered isOpen), ?_⟩
    show match s.holder with | none => _ | some j => _
    rw [held]
    refine ⟨?_, taken⟩
    unfold Underway at underway ⊢
    rw [running] at underway
    rw [setPhase_self]
    obtain ⟨cut, ran, short, steady⟩ := underway
    have ordinary : (jobs i).cancels = false := by
      cases cancels : (jobs i).cancels with
      | false => rfl
      | true => exact (steady cancels).elim
    cases up : s.flag with
    | true =>
      -- whoever has raised the flag is waiting for the lock
      obtain ⟨k, cancels, raised⟩ := inv.flag up
      have coming : Coming jobs s := by
        refine ⟨k, cancels, ?_⟩
        generalize s.phase k = p at *
        cases p with
        | waiting | running => trivial
        | idle | closing | finished => exact False.elim raised
      rw [up] at keep
      refine ⟨true, ?_, fun _ => ⟨ordinary, keep coming⟩, fun cancels => ?_⟩
      · intro z c rest
        have whole := ran z true (.cut rest)
        rwa [Bool.or_true] at whole
      · exact (steady cancels).elim
    | false =>
      rw [up] at keep
      exact ⟨cut, fun z c rest => ran z c (.go rest),
        fun isCut => ⟨ordinary, keep (short isCut).2⟩, fun cancels => (steady cancels).elim⟩
  | leave running ordinary =>
    have keep := unlessClosing (by rw [running]; nofun)
    have held := inv.holder_of_running running
    obtain ⟨log, y, replay, covered, underway, taken⟩ := inv.underway held
    unfold Underway at underway
    rw [running] at underway
    obtain ⟨cut, ran, short, _⟩ := underway
    have whole := ran s.shared false (.done s.shared)
    rw [Bool.or_false] at whole
    refine ⟨(i, cut) :: log, s.shared, replay.cons whole, ?_, rfl, taken⟩
    rintro (isCut | ⟨_, isOpen⟩)
    · exact keep (short isCut).2
    · exact keep (covered isOpen)
  | lower running cancels =>
    have keep := unlessClosing (by rw [running]; nofun)
    have held := inv.holder_of_running running
    obtain ⟨log, y, replay, covered, underway, taken⟩ := inv.underway held
    refine ⟨log, y, replay, fun isOpen => keep (covered isOpen), ?_⟩
    show match s.holder with | none => _ | some j => _
    rw [held]
    refine ⟨?_, taken⟩
    unfold Underway at underway ⊢
    rw [running] at underway
    rw [setPhase_self]
    obtain ⟨cut, ran, short, _⟩ := underway
    have whole := ran s.shared false (.done s.shared)
    cases cut with
    | false => exact ⟨cancels, whole⟩
    | true => exact absurd (cancels.symm.trans (short rfl).1) nofun
  | close closing =>
    have held := inv.holder_of_closing closing
    obtain ⟨log, y, replay, covered, underway, taken⟩ := inv.underway held
    unfold Underway at underway
    rw [closing] at underway
    refine ⟨(i, false) :: log, s.shared, replay.cons underway.2, ?_, rfl, taken⟩
    rintro (isCut | ⟨ordinary, _⟩)
    · cases isCut
    · exact absurd (underway.1.symm.trans ordinary) nofun

theorem Inv.move (inv : Inv jobs x s) (ran : s.move jobs i = .ok s') : Inv jobs x s' :=
  have moved := Moved.of_move ran
  ⟨inv.excl_moved moved, inv.flag_moved moved, inv.work_moved moved⟩

/-! ## Whole runs -/

theorem Inv.of_run {moves : List ι} (ran : runAll (Sys.move jobs) moves (.start x) = .ok s) :
    Inv jobs x s := by
  have allowed : Allowed (Sys.move jobs) (fun _ _ => True) moves (.start x) :=
    .of_forall (fun _ _ _ => trivial) _
  apply (Run.of_runAll allowed ran).invariant (Inv jobs x) (.start jobs x)
  intro i y z inv _ stepped
  exact inv.move stepped

/-- The jobs of the list, latest first, none of them cut short. -/
def replayAlone (jobs : ι → Job σ) (taken : List ι) (x : σ) : σ :=
  taken.foldr (fun i y => (jobs i).body.alone y) x

/-- The jobs since the last canceller. -/
def sinceCancel (jobs : ι → Job σ) (taken : List ι) : List ι :=
  taken.takeWhile fun i => !(jobs i).cancels

end

section

variable {jobs : ι → Job σ} {s : Sys σ ι} {x y : σ}

/-- Where no job is left cut short, those since the last canceller have run alone. -/
theorem Replay.since {log : List (ι × Bool)} (replay : Replay jobs x log y)
    (covered : ¬ Open jobs log) :
    (∀ i ∈ log.map Prod.fst, (jobs i).cancels = false) ∧
        y = replayAlone jobs (log.map Prod.fst) x ∨
      ∃ k ∈ log.map Prod.fst, ∃ z, (jobs k).cancels = true ∧
        y = replayAlone jobs (sinceCancel jobs (log.map Prod.fst)) ((jobs k).body.alone z) := by
  induction replay with
  | nil => exact .inl ⟨nofun, rfl⟩
  | @cons log y z i cut earlier ran ih =>
    -- the newest job was not cut, so it has run alone
    obtain ⟨uncut, before⟩ := not_or.mp covered
    rw [Bool.not_eq_true] at uncut
    subst uncut
    have whole := ran.eq_alone
    rw [List.map_cons]
    cases cancels : (jobs i).cancels with
    | true =>
      have none : sinceCancel jobs (i :: log.map Prod.fst) = [] := by
        simp [sinceCancel, cancels]
      refine .inr ⟨i, List.mem_cons_self, y, cancels, ?_⟩
      rw [none]
      exact whole
    | false =>
      have more : sinceCancel jobs (i :: log.map Prod.fst) =
          i :: sinceCancel jobs (log.map Prod.fst) := by
        simp [sinceCancel, cancels]
      rcases ih fun isOpen => before ⟨cancels, isOpen⟩ with
        ⟨ordinary, same⟩ | ⟨k, member, z, isCanceller, same⟩
      · refine .inl ⟨List.forall_mem_cons.mpr ⟨cancels, ordinary⟩, ?_⟩
        rw [whole, same]
        rfl
      · refine .inr ⟨k, List.mem_cons_of_mem i member, z, isCanceller, ?_⟩
        rw [whole, more, same]
        rfl

theorem Inv.not_coming (quiet : s.Quiet) : ¬ Coming jobs s := by
  rintro ⟨k, _, present⟩
  exact quiet k present

theorem Phase.present_of_raised {p : Phase σ} (raised : p.raised) : p.present := by
  cases p with
  | waiting | running => trivial
  | idle | closing | finished => exact False.elim raised

theorem Phase.present_of_holding {p : Phase σ} (holding : p.holding) : p.present := by
  cases p with
  | closing | running => trivial
  | idle | waiting | finished => exact False.elim holding

/-- When everybody is finished the flag is down, and the jobs since the last canceller have
    run one after the other, to their ends. -/
theorem Inv.quiet (inv : Inv jobs x s) (quiet : s.Quiet) :
    s.flag = false ∧
      ((∀ i ∈ s.taken, (jobs i).cancels = false) ∧ s.shared = replayAlone jobs s.taken x ∨
        ∃ k ∈ s.taken, ∃ z, (jobs k).cancels = true ∧
          s.shared = replayAlone jobs (sinceCancel jobs s.taken) ((jobs k).body.alone z)) := by
  constructor
  · cases up : s.flag with
    | false => rfl
    | true =>
      obtain ⟨k, _, raised⟩ := inv.flag up
      exact absurd (Phase.present_of_raised raised) (quiet k)
  · obtain ⟨log, y, replay, covered, holder⟩ := inv.work
    cases held : s.holder with
    | some i =>
      have holding := (inv.excl i).mpr held
      exact absurd (Phase.present_of_holding holding) (quiet i)
    | none =>
      rw [held] at holder
      obtain ⟨rfl, taken⟩ := holder
      rw [taken]
      exact replay.since fun isOpen => Inv.not_coming quiet (covered isOpen)

/-- Somebody who has come can always move, until everybody is finished. -/
theorem Inv.can_move [DecidableEq ι] (inv : Inv jobs x s) (busy : ¬ s.Quiet) :
    ∃ i s', (s.phase i).present ∧ s.move jobs i = .ok s' := by
  obtain ⟨i, present⟩ : ∃ i, (s.phase i).present := by
    simpa [Sys.Quiet] using busy
  -- the holder can always go on, and a free lock lets anybody in
  cases held : s.holder with
  | some k =>
    have holding := (inv.excl k).mpr held
    have present := Phase.present_of_holding holding
    refine ⟨k, ?_⟩
    unfold Sys.move
    generalize s.phase k = p at *
    cases p with
    | running rest =>
      cases rest with
      | done =>
        dsimp only
        split <;> exact ⟨_, present, rfl⟩
      | act f next => exact ⟨_, present, rfl⟩
      | check go cut => exact ⟨_, present, rfl⟩
    | closing => exact ⟨_, present, rfl⟩
    | idle | waiting | finished => exact False.elim holding
  | none =>
    refine ⟨i, ?_⟩
    have free := inv.excl i
    rw [held] at free
    unfold Sys.move
    rw [held]
    generalize s.phase i = p at *
    cases p with
    | waiting => exact ⟨_, present, rfl⟩
    | running | closing => exact absurd (free.mp trivial) nofun
    | idle | finished => exact False.elim present

end

end IpQos.Lib
