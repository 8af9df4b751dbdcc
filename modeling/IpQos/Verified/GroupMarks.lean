import IpQos.Verified.Flight
import Mathlib.Data.Fintype.Basic

/-! # Marks of share groups under interleaved calls

What the invariant of the calls in flight gives for whole runs: a share group has
one mark whenever no call is in flight, and a mark that is freed belongs to nobody
else.  Both need that no call allocates a second mark for a share rule, and the
latter that no DESTROY event frees a mark that a call in flight relies on. -/

namespace IpQos.Verified

open IpQos.Kmod
open IpQos.Lib (Run Allowed runAll)
open Registry

variable {ι : Type}

/-! ## Steps allowed -/

/-- Calls for different new addresses, and conntrack events. -/
def Launching (l : Label ι) (x : Sys ι) : Prop :=
  match l with
  | .call i _ => Launch x.st.registry x.call i
  | .event _ _ _ => True
  | _ => False

/-- Calls only. -/
def CallsOnly (l : Label ι) : Prop :=
  match l with
  | .call _ _ => True
  | _ => False

def UnrivalledStep (l : Label ι) (x : Sys ι) : Prop :=
  match l with
  | .call i _ => Unrivalled x.st.registry x.call i
  | _ => True

def UnneededStep (l : Label ι) (x : Sys ι) : Prop :=
  match l with
  | .event _ events (some ct) =>
    Destroys events (some ct) ct.ipAddr → Unneeded x.st.registry x.call ct.ipAddr
  | _ => True

section Decide

variable [Fintype ι]

instance (t : Registry) (call : ι → Call) (i : ι) : Decidable (Launch t call i) :=
  inferInstanceAs (Decidable (_ → (_ ∧ _) ∧ _))

instance (t : Registry) (call : ι → Call) (i : ι) : Decidable (Unrivalled t call i) :=
  inferInstanceAs (Decidable (_ → _ ∨ _ ∧ _))

instance (t : Registry) (call : ι → Call) (ip : Be32) : Decidable (Unneeded t call ip) :=
  inferInstanceAs (Decidable (∀ e ∈ t.entries, _ → _))

instance (l : Label ι) : Decidable (CallsOnly l) :=
  match l with
  | .call _ _ => .isTrue trivial
  | .event _ _ _ | .resetOn | .resetFlush _ | .resetOff => .isFalse id

instance (l : Label ι) (x : Sys ι) : Decidable (Launching l x) :=
  match l with
  | .call i _ => inferInstanceAs (Decidable (Launch x.st.registry x.call i))
  | .event _ _ _ => .isTrue trivial
  | .resetOn | .resetFlush _ | .resetOff => .isFalse id

instance (l : Label ι) (x : Sys ι) : Decidable (UnrivalledStep l x) :=
  match l with
  | .call i _ => inferInstanceAs (Decidable (Unrivalled x.st.registry x.call i))
  | .event _ _ _ | .resetOn | .resetFlush _ | .resetOff => .isTrue trivial

instance (l : Label ι) (x : Sys ι) : Decidable (UnneededStep l x) :=
  match l with
  | .event _ events (some ct) =>
    inferInstanceAs (Decidable (Destroys events (some ct) ct.ipAddr →
      Unneeded x.st.registry x.call ct.ipAddr))
  | .event _ _ none | .call _ _ | .resetOn | .resetFlush _ | .resetOff => .isTrue trivial

end Decide

theorem UnneededStep.unneeded {env : Env} {events : Nat} {ct : Option NfConn} {x : Sys ι}
    (unneeded : UnneededStep (.event env events ct) x) (ip : Be32)
    (destroys : Destroys events ct ip) : Unneeded x.st.registry x.call ip := by
  cases ct with
  | none => exact destroys.elim
  | some ct =>
    obtain ⟨tracked, destroy, rfl⟩ := destroys
    exact unneeded ⟨tracked, destroy, rfl⟩

theorem unneededStep_of_callsOnly {l : Label ι} {x : Sys ι} (calls : CallsOnly l) :
    UnneededStep l x := by
  cases l with
  | call i env => trivial
  | event | resetOn | resetFlush | resetOff => exact calls.elim

/-! ## Runs -/

/-- Calls of `qmark_alloc_mark_auto` that have not begun. -/
def Waiting (call : ι → Call) : Prop := ∀ i, ∃ ip id mark, call i = .alloc ip id mark

/-- The state of the calls in the system. -/
def Flying (x : Sys ι) : Prop := WellFormed x.st ∧ Flight x.st.registry x.call

theorem flying_start {s : St} (good : Good s) {call : ι → Call} (waiting : Waiting call) :
    Flying (Sys.start s call) := by
  refine ⟨good.1, ?_, ?_, ?_⟩
  · have none : heldBits call = ∅ := by
      ext b
      refine iff_of_false ?_ id
      rintro ⟨i, holding, _⟩
      -- a call that has not begun knows nothing and holds nothing
      obtain ⟨ip, id, mark, begins⟩ := waiting i
      simp [begins, Holding, Call.alloc] at holding
    show Consistent (heldBits call) s.registry
    rw [none]
    exact good.2
  · intro i
    obtain ⟨ip, id, mark, begins⟩ := waiting i
    show Sound s.registry (call i)
    rw [begins]
    rfl
  · intro i j _
    obtain ⟨ip, id, mark, begins⟩ := waiting i
    show Apart (call i) (call j)
    rw [begins]
    constructor
    · simp [Pending, Call.alloc]
    · simp [Holding, Call.alloc]
    · simp [Founding, Call.alloc]

/-! ## What is freed -/

/-- A step of a call frees nothing but its own mark. -/
theorem Stepped.frees {env : Env} {t t' : Registry} {c c' : Call} (stepped : Stepped env t c c' t') :
    t'.freed = t.freed ∨ c.pc = .freeMark ∧ t'.entries = t.entries ∧
      ∃ b, c.mark = markOf b ∧ t'.freed = markOf b :: t.freed := by
  cases stepped with
  | freed pc mark inRange => exact .inr ⟨pc, rfl, _, mark, rfl⟩
  | _ => exact .inl rfl

/-- Whoever obtained a mark and is in flight holds it or has put it in the table. -/
theorem Flight.obtained {t : Registry} {call : ι → Call} (flight : Flight t call) {j : ι} {m : Nat}
    (obtained : Obtained (call j) m) :
    Holding (call j) ∨ ∃ e ∈ t.entries, e.mark = m := by
  obtain ⟨inFlight, origin, rfl⟩ := obtained
  have sound := flight.calls j
  unfold Sound at sound
  unfold InFlight at inFlight
  cases pc : (call j).pc with
  | find | testReset | ret => simp [pc] at inFlight
  | testMode | allocPriv | testCount | allocFirst | loadMark =>
    simp only [pc] at sound
    simp [sound.1] at origin
  | storeMark => simp [Holding, pc]
  | tcAdd =>
    simp only [pc] at sound
    exact .inr (sound.2 origin)
  | addHash | retestMode | retestCount | clearMark | freeMark =>
    left
    simpa [Holding, pc] using origin

theorem Notified.frees {held : Set Nat} {env : Env} {events : Nat} {ct : Option NfConn}
    {t t' : Registry} (inv : Consistent held t) (notified : Notified env events ct t t') :
    t'.freed = t.freed ∨ ∃ ip, Destroys events ct ip ∧ ∃ e ∈ t.entries, LastUse t ip e ∧
      ∃ b < t.ipCnt, e.mark = markOf b ∧ t'.freed = markOf b :: t.freed ∧
        ∀ e' ∈ t'.entries, e'.mark ≠ markOf b := by
  cases notified with
  | ignored => exact .inl rfl
  | destroyed ip destroys dropped =>
    exact (dropped.frees inv).imp_right fun freed => ⟨ip, destroys, freed⟩
  | marked ip counted =>
    cases counted with
    | unknown fresh => exact .inl rfl
    | raised split here => exact .inl rfl

section Step

variable [DecidableEq ι]

/-- What a step in flight does, on the registries. -/
theorem Flying.step {x : Sys ι} (flying : Flying x) {l : Label ι} (launching : Launching l x)
    (unrivalled : UnrivalledStep l x) (unneeded : UnneededStep l x) :
    ∃ y, Flying y ∧
      (sysStep l x = .ok y ∨ ¬ PacedStep l x ∧ sysStep l x = .error .divideByZero) := by
  obtain ⟨wf, flight⟩ := flying
  cases l with
  | call i env =>
    obtain ⟨c', s', wf', stepped, known⟩ :=
      sysStep_call env wf flight.consistent.sized (flight.ready (i := i))
    exact ⟨x.setCall i c' s', ⟨wf', flight.step launching unrivalled stepped⟩, known⟩
  | event env events ct =>
    obtain ⟨t', s', run, rep, notified⟩ :=
      qmarkConntrackEvent_spec env wf.represents flight.consistent events ct
    obtain rfl : s'.registry = t' := rep.2
    refine ⟨{ x with st := s' }, ⟨rep.1, flight.notified unneeded.unneeded notified⟩, .inl ?_⟩
    simp [sysStep, run]
  | resetOn | resetFlush | resetOff => exact launching.elim

theorem Flying.run {guard : Label ι → Sys ι → Prop} {x y : Sys ι} (flying : Flying x)
    (run : Run sysStep guard x y)
    (guarded : ∀ l z, guard l z → Launching l z ∧ UnrivalledStep l z ∧ UnneededStep l z) :
    Flying y := by
  refine run.invariant Flying flying ?_
  intro l z z' flyingZ allowed stepped
  obtain ⟨launching, unrivalled, unneeded⟩ := guarded l z allowed
  obtain ⟨z'', flyingZ', known⟩ := flyingZ.step launching unrivalled unneeded
  exact ok_of_known known stepped ▸ flyingZ'

/-! ## One mark per share rule -/

/-- The entries of every share rule carry the mark of the rule, and no bit is set for
    nothing. -/
structure OneMark (t : Registry) : Prop where
  group : ∀ e ∈ t.entries, ¬ t.Private e.id → e.mark = (t.rule e.id).mark
  one : ∀ e ∈ t.entries, ∀ e' ∈ t.entries, e.id = e'.id → ¬ t.Private e.id → e.mark = e'.mark
  used : ∀ b < t.ipCnt, t.bit b = true → ∃ e ∈ t.entries, e.mark = markOf b

/-- Calls that found no group twice leave every group with one mark, whenever none of them
    is in flight. -/
theorem one_mark_of_unrivalled {s₀ : St} (good : Good s₀) {call : ι → Call}
    (waiting : Waiting call) {x : Sys ι}
    (run : Run sysStep (fun l y => (CallsOnly l ∧ Launching l y) ∧ UnrivalledStep l y)
      (Sys.start s₀ call) x)
    (quiet : ∀ i, ¬ InFlight (x.call i)) : OneMark x.st.registry := by
  have flying : Flying x := by
    apply (flying_start good waiting).run run
    rintro l z ⟨⟨calls, launching⟩, unrivalled⟩
    exact ⟨launching, unrivalled, unneededStep_of_callsOnly calls⟩
  obtain ⟨_, flight⟩ := flying
  have group : ∀ e ∈ x.st.registry.entries, ¬ x.st.registry.Private e.id →
      e.mark = (x.st.registry.rule e.id).mark :=
    fun e member isShare => (flight.consistent.shared e member isShare).symm
  refine ⟨group, ?_, ?_⟩
  · intro e member e' member' sameId isShare
    rw [group e member isShare, sameId, group e' member' (sameId ▸ isShare)]
  · intro b inRange isSet
    rcases (flight.consistent.bit_iff b inRange).mp isSet with ⟨i, holding, _⟩ | used
    · exact absurd holding.inFlight (quiet i)
    · exact used

/-- Two hosts of one group, none of whose calls has begun. -/
def twoMembers : Bool → Call := fun second => .alloc (if second then 8 else 7) 1 0

theorem twoMembers_waiting : Waiting twoMembers := fun _ => ⟨_, _, _, rfl⟩

/-- Both calls read the count before either has inserted. -/
def bothFirst : List (Label Bool) := steps [(false, 4), (true, 4), (false, 3), (true, 3)]

theorem one_mark_fails :
    ¬ ∀ (s₀ : St) (call : Bool → Call) (x : Sys Bool), Good s₀ → Waiting call →
      Run sysStep (fun l y => CallsOnly l ∧ Launching l y) (Sys.start s₀ call) x →
      (∀ i, ¬ InFlight (x.call i)) → OneMark x.st.registry := by
  intro always
  have allowed : Allowed sysStep (fun l y => CallsOnly l ∧ Launching l y) bothFirst
      (Sys.start sharedSt twoMembers) := by decide
  have ends : (runAll sysStep bothFirst (Sys.start sharedSt twoMembers)).map (fun x =>
      (decide (∀ i, ¬ InFlight (x.call i)), decide (∀ e ∈ x.st.registry.entries,
        ¬ x.st.registry.Private e.id → e.mark = (x.st.registry.rule e.id).mark))) =
      .ok (true, false) := by decide
  obtain ⟨x, ran, facts⟩ := map_eq_ok ends
  obtain ⟨quiet, twoMarks⟩ := Prod.mk.inj facts
  apply of_decide_eq_false twoMarks
  exact (always _ _ x sharedSt_started.good twoMembers_waiting (Run.of_runAll allowed ran)
    (of_decide_eq_true quiet)).group

/-- The second host finds the group. -/
def oneFirst : List (Label Bool) := steps [(true, 2), (false, 7), (true, 4)]

theorem oneFirst_one_mark :
    ∃ x, runAll sysStep oneFirst (Sys.start sharedSt twoMembers) = .ok x ∧
      OneMark x.st.registry := by
  have allowed : Allowed sysStep (fun l y => (CallsOnly l ∧ Launching l y) ∧ UnrivalledStep l y)
      oneFirst (Sys.start sharedSt twoMembers) := by decide
  have ends : (runAll sysStep oneFirst (Sys.start sharedSt twoMembers)).map (fun x =>
      decide (∀ i, ¬ InFlight (x.call i))) = .ok true := by decide
  obtain ⟨x, ran, quiet⟩ := map_eq_ok ends
  exact ⟨x, ran, one_mark_of_unrivalled sharedSt_started.good twoMembers_waiting
    (Run.of_runAll allowed ran) (of_decide_eq_true quiet)⟩

/-! ## Releases -/

/-- The step frees no mark, or one that is set, of no entry, and not obtained by another
    call in flight. -/
def ReleasesOwn (l : Label ι) (x y : Sys ι) : Prop :=
  y.st.freed = x.st.freed ∨
    ∃ b < x.st.maxIpCnt, y.st.freed = markOf b :: x.st.freed ∧ x.st.registry.bit b = true ∧
      (∀ e ∈ y.st.registry.entries, e.mark ≠ markOf b) ∧
      ∀ j, (∀ env, l ≠ .call j env) → ¬ Obtained (x.call j) (markOf b)

theorem Flying.releases {x y : Sys ι} (flying : Flying x) {l : Label ι}
    (launching : Launching l x) (unneeded : UnneededStep l x) (stepped : sysStep l x = .ok y) :
    ReleasesOwn l x y := by
  obtain ⟨wf, flight⟩ := flying
  cases l with
  | call i env =>
    obtain ⟨c', s', _, steppedCall, known⟩ :=
      sysStep_call env wf flight.consistent.sized (flight.ready (i := i))
    obtain rfl := ok_of_known known stepped
    rcases steppedCall.frees with nothing | ⟨pc, entries, b, mark, freed⟩
    · exact .inl nothing
    · have here := flight.calls i
      simp only [Sound, pc] at here
      have holding : Holding (x.call i) := by simpa [Holding, pc] using here.2.2
      obtain ⟨inRange, isSet⟩ := flight.holding_bit holding mark
      -- a call frees a mark it holds, and a held mark is in no entry
      have unmarked := flight.consistent.unmarked ⟨i, holding, mark⟩
      refine .inr ⟨b, inRange, freed, isSet, ?_, ?_⟩
      · intro e member
        exact unmarked e (entries ▸ member)
      · intro j other obtained
        have ne : i ≠ j := by
          rintro rfl
          exact other env rfl
        rcases flight.obtained obtained with holdingJ | ⟨e, member, markE⟩
        · exact (flight.apart i j ne).marks holding holdingJ (mark.trans obtained.2.2.symm)
        · exact unmarked e member markE
  | event env events ct =>
    obtain ⟨t', s', run, rep, notified⟩ :=
      qmarkConntrackEvent_spec env wf.represents flight.consistent events ct
    have ran : sysStep (.event env events ct) x = .ok { x with st := s' } := by
      simp [sysStep, run]
    cases stepped.symm.trans ran
    have sameFreed : s'.freed = t'.freed := congrArg Registry.freed rep.2
    have sameEntries : s'.registry.entries = t'.entries := congrArg Registry.entries rep.2
    rcases notified.frees flight.consistent with
      nothing | ⟨ip, destroys, e, member, last, b, inRange, mark, freed, others⟩
    · exact .inl (sameFreed.trans nothing)
    · refine .inr ⟨b, inRange, sameFreed.trans freed, ?_, ?_, ?_⟩
      · exact (flight.consistent.bit_iff b inRange).mpr (.inr ⟨e, member, mark⟩)
      · show ∀ e' ∈ s'.registry.entries, e'.mark ≠ markOf b
        rw [sameEntries]
        exact others
      · intro j _
        rw [← mark]
        -- an event frees the mark of a last use, which no call may need
        exact (unneeded.unneeded ip destroys e member last j).2
  | resetOn | resetFlush | resetOff => exact launching.elim

/-- No step faults, unless it builds a class that divides by zero, and every mark freed belongs
    to nobody else. -/
theorem releases_own {s₀ : St} (good : Good s₀) {call : ι → Call} (waiting : Waiting call)
    {x : Sys ι}
    (run : Run sysStep (fun l y => Launching l y ∧ UnrivalledStep l y ∧ UnneededStep l y)
      (Sys.start s₀ call) x) :
    ∀ l, Launching l x ∧ UnrivalledStep l x ∧ UnneededStep l x →
      (PacedStep l x → ∃ y, sysStep l x = .ok y) ∧
        ∀ y, sysStep l x = .ok y → ReleasesOwn l x y := by
  have flying := (flying_start good waiting).run run fun _ _ guarded => guarded
  rintro l ⟨launching, unrivalled, unneeded⟩
  obtain ⟨y, _, known⟩ := flying.step launching unrivalled unneeded
  refine ⟨fun paced => ?_, fun y' => flying.releases launching unneeded⟩
  exact ⟨y, known.resolve_right fun unpaced => unpaced.1 paced⟩

/-- The last connection of the first host is destroyed. -/
def destroyFirst : Label Bool :=
  .event plainEnv ipctDestroy (some ⟨afInet, false, 0x800, ⟨7, 9⟩, ⟨9, 7⟩⟩)

/-- The second host borrows the mark of the group, and the group is gone before it inserts. -/
def borrowedTooLong : List (Label Bool) :=
  steps [(false, 7), (true, 4)] ++ destroyFirst :: steps [(true, 4)]

/-- The rollback frees a mark that is free. -/
theorem releases_own_fails :
    ¬ ∀ (s₀ : St) (call : Bool → Call) (x y : Sys Bool) (l : Label Bool), Good s₀ →
      Waiting call → Run sysStep Launching (Sys.start s₀ call) x → Launching l x →
      sysStep l x = .ok y → ReleasesOwn l x y := by
  intro always
  have allowed : Allowed sysStep Launching (borrowedTooLong ++ [.call true plainEnv])
      (Sys.start sharedSt twoMembers) := by decide
  have ends : (runAll sysStep borrowedTooLong (Sys.start sharedSt twoMembers)).map (fun x =>
      (x.st.freed, x.st.registry.bit 0,
        (sysStep (.call true plainEnv) x).map fun y => y.st.freed)) =
      .ok ([markOf 0], false, .ok [markOf 0, markOf 0]) := by decide
  obtain ⟨x, ran, facts⟩ := map_eq_ok ends
  obtain ⟨freed, facts⟩ := Prod.mk.inj facts
  obtain ⟨isClear, stepped⟩ := Prod.mk.inj facts
  obtain ⟨y, ranLast, freedLast⟩ := map_eq_ok stepped
  obtain ⟨allowedRun, launching⟩ := allowed.at_end ran
  have releases := always _ _ x y _ sharedSt_started.good twoMembers_waiting
    (Run.of_runAll allowedRun ran) launching ranLast
  rw [ReleasesOwn, freed, freedLast] at releases
  rcases releases with nothing | ⟨b, _, same, isSet, _⟩
  · cases nothing
  · obtain rfl : 0 = b := markOf_inj.mp (List.cons.inj same).1
    rw [isClear] at isSet
    cases isSet

/-- The event finds nobody in need of the mark. -/
theorem destroyFirst_releases :
    ∃ x, runAll sysStep (steps [(true, 2), (false, 7)]) (Sys.start sharedSt twoMembers) = .ok x ∧
      ∃ y, sysStep destroyFirst x = .ok y ∧ ReleasesOwn destroyFirst x y := by
  have allowed : Allowed sysStep
      (fun l y => Launching l y ∧ UnrivalledStep l y ∧ UnneededStep l y)
      (steps [(true, 2), (false, 7)] ++ [destroyFirst]) (Sys.start sharedSt twoMembers) := by
    decide
  have ends : (runAll sysStep (steps [(true, 2), (false, 7)])
      (Sys.start sharedSt twoMembers)).map (fun _ => ()) = .ok () := by decide
  obtain ⟨x, ran, _⟩ := map_eq_ok ends
  obtain ⟨allowedRun, guarded⟩ := allowed.at_end ran
  obtain ⟨succeeds, releases⟩ := releases_own sharedSt_started.good twoMembers_waiting
    (Run.of_runAll allowedRun ran) destroyFirst guarded
  obtain ⟨y, ranLast⟩ := succeeds trivial
  exact ⟨x, ran, y, ranLast, releases y ranLast⟩

end Step

end IpQos.Verified
