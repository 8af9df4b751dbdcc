import IpQos.Lib.Run
import IpQos.Verified.EntryPoints

/-! # One operation on a consistent state

`Good` is what all sequential results rest on: live tables that represent a
consistent registry, with no operation under way.  A `Harmless` operation leaves a
good state, and faults only where the class of a new mark divides by zero; the guards
of the individual results only have to imply `Harmless`. -/

namespace IpQos.Verified

open IpQos.Kmod
open IpQos.Lib (Run)
open Registry

def Good (s : St) : Prop := WellFormed s ∧ Consistent ∅ s.registry

/-- Operations that cannot damage the tables: administration of a rule suits the
    entries the rule has. -/
def Harmless (l : Env × Op) (s : St) : Prop :=
  match l.2 with
  | .packet _ info => s.registry.ValidId info.id
  | .conntrack _ _ => True
  | .ioctl (.ruleAdd qr) =>
    s.registry.ValidId qr.id ∧ s.registry.Fits qr.id (addedRule qr (s.registry.rule qr.id))
  | .ioctl (.ruleDel qr) =>
    s.registry.ValidId qr.id ∧ ∀ e ∈ s.registry.entries, e.id ≠ qr.id
  | .ioctl .ruleFlush => AllocatesTables l.1 ∧ s.registry.entries = 0
  | .ioctl (.hashDel _) => True
  | .ioctl (.reset _) => AllocatesTables l.1
  | .ioctl (.specSet maxIpCnt maxRuleCnt) =>
    AllocatesTables l.1 ∧ 1 ≤ maxIpCnt ∧ maxIpCnt < 2 ^ 21 ∧ Unwrapped maxIpCnt maxRuleCnt
  | _ => False

/-- The class that a packet may need can be built. -/
def Paced (l : Env × Op) (s : St) : Prop :=
  match l.2 with
  | .packet _ info => s.registry.Builds l.1 info.id
  | _ => True

/-- An environment in which everything succeeds, for runs on fixed inputs. -/
def plainEnv : Env where
  kmalloc _ := true
  rtnlIsLocked _ := false
  devGetByName name :=
    if name = "eth0" then some { ifindex := 2, mtu := 1500 }
    else if name = "agl0" then some { ifindex := 3, mtu := 1500 }
    else none
  htons n := n % 256 * 256 + n / 256 % 256
  copyFromUser := 0
  copyToUser := 0

theorem plainEnv_alloc : AllocatesTables plainEnv := ⟨rfl, rfl, rfl, rfl⟩

variable {env : Env} {s : St}

theorem Good.of_represents {t : Registry} (rep : Represents s t) (inv : Consistent ∅ t) :
    Good s := ⟨rep.1, rep.2 ▸ inv⟩

theorem good_init (alloc : AllocatesTables env) : Good (qosMarktblInit env).2 :=
  .of_represents (qosMarktblInit_represents alloc) (Consistent.respec (by decide) (by decide))

theorem opStep_ioctl (env : Env) (cmd : QmarkIoc) (s : St) :
    opStep (env, .ioctl cmd) s = (qmarkCdevIoctl env cmd s).map Prod.snd := by
  cases run : qmarkCdevIoctl env cmd s with
  | error e =>
    simp only [opStep, exec, run]
    rfl
  | ok result =>
    simp only [opStep, exec, run]
    rfl

theorem opStep_packet {skb : SkBuff} {info : TgInfo} {s' : St}
    (ran : opStep (env, .packet skb info) s = .ok s') :
    ∃ skb', qmarkHandle env skb info s = .ok (skb', s') := by
  obtain ⟨⟨out, s₁⟩, ran, same⟩ := bind_eq_ok ran
  obtain ⟨⟨skb', s₂⟩, handled, same'⟩ := bind_eq_ok ran
  cases same'
  cases same
  exact ⟨skb', handled⟩

theorem opStep_conntrack {events : Nat} {ct : Option NfConn} {s' : St}
    (ran : opStep (env, .conntrack events ct) s = .ok s') :
    qmarkConntrackEvent env events ct s = .ok s' := by
  obtain ⟨⟨out, s₁⟩, run, ran⟩ := bind_eq_ok ran
  cases ran
  obtain ⟨s₂, event, run⟩ := bind_eq_ok run
  cases run
  exact event

theorem opStep_cdev {cmd : QmarkIoc} {s' : St} (ran : opStep (env, .ioctl cmd) s = .ok s') :
    ∃ r, qmarkCdevIoctl env cmd s = .ok (r, s') := by
  obtain ⟨⟨out, s₁⟩, run, ran⟩ := bind_eq_ok ran
  cases ran
  obtain ⟨⟨r, s₂⟩, cdev, run⟩ := bind_eq_ok run
  cases run
  exact ⟨r, cdev⟩

theorem afterCopy_cases {body : Except Oops (Reply × St)} {s' : St}
    (ran : (afterCopy env s body).map Prod.snd = .ok s') :
    s' = s ∨ body.map Prod.snd = .ok s' := by
  unfold afterCopy at ran
  split at ran
  · cases ran
    exact .inl rfl
  · exact .inr ran

/-- An ioctl fails with the state unchanged when its argument cannot be copied. -/
theorem Good.afterCopy (good : Good s) {body : Except Oops (Reply × St)}
    (ran : ∃ s', body.map Prod.snd = .ok s' ∧ Good s') :
    ∃ s', (Kmod.afterCopy env s body).map Prod.snd = .ok s' ∧ Good s' := by
  unfold Kmod.afterCopy
  split
  · exact ⟨s, rfl, good⟩
  · exact ran

theorem Good.ioctl (good : Good s) {cmd : QmarkIoc} (harmless : Harmless (env, .ioctl cmd) s) :
    ∃ s', opStep (env, .ioctl cmd) s = .ok s' ∧ Good s' := by
  obtain ⟨wf, inv⟩ := good
  rw [opStep_ioctl]
  cases cmd with
  | ruleAdd qr =>
    obtain ⟨s', run, rep⟩ := qmarkAddRule_spec wf.represents qr harmless.1
    refine Good.afterCopy ⟨wf, inv⟩ ⟨s', ?_, .of_represents rep (inv.setRule rfl harmless.2)⟩
    rw [run]
    rfl
  | ruleDel qr =>
    obtain ⟨s', run, rep⟩ := qmarkDelRule_spec wf.represents harmless.1
    -- the rule has no entry, so its count is the 0 that the deletion writes
    have count := (inv.count_eq_zero_iff harmless.1).mpr harmless.2
    refine Good.afterCopy ⟨wf, inv⟩ ⟨s', ?_, .of_represents rep
      (inv.setRule count.symm (Consistent.fits_of_empty _ harmless.2))⟩
    rw [run]
    rfl
  | ruleFlush =>
    have rep := qmarkFlushRule_spec harmless.1 wf.represents
    refine ⟨_, rfl, .of_represents rep ?_⟩
    have bits : ∀ b < s.registry.ipCnt, s.registry.bit b = false := by
      intro b bound
      simpa [harmless.2] using (inv.bit_iff b bound).not
    exact Consistent.ofEmpty harmless.2 bits (fun _ _ => rfl) inv.ipCnt_pos inv.ipCnt_lt
  | hashDel qh =>
    refine Good.afterCopy ⟨wf, inv⟩ ?_
    split
    · exact ⟨s, rfl, wf, inv⟩
    · obtain ⟨ret, mark, t', s', run, rep, dropped⟩ := qmarkDelHash_spec wf.represents inv qh.ip 0
      rw [run, ok_bind]
      refine ⟨s', ?_, .of_represents rep (dropped.consistent inv)⟩
      dsimp only
      split <;> rfl
  | reset mark =>
    obtain ⟨s', run, rep⟩ := qmarkReset_spec harmless wf.represents mark
    refine Good.afterCopy ⟨wf, inv⟩ ⟨s', ?_, .of_represents rep ?_⟩
    · rw [run]
      rfl
    · split
      · exact inv.congr rfl rfl rfl rfl rfl
      · exact inv.clear.congr rfl rfl rfl rfl rfl
  | specSet maxIpCnt maxRuleCnt =>
    obtain ⟨alloc, pos, small, unwrapped⟩ := harmless
    obtain ⟨s', run, rep⟩ := qmarkSetSpec_spec alloc wf.represents unwrapped
    refine Good.afterCopy ⟨wf, inv⟩ ⟨s', ?_, .of_represents rep (Consistent.respec pos small)⟩
    rw [run]
    rfl
  -- the other commands are not harmless
  | ruleLst | hashAdd | hashChk | hashLst | hashFlush | markAlo | markFree | markFlush | dump
  | netdevSet | tcAdd | tcDel => exact harmless.elim

/-- What is left where only a fault is possible besides. -/
theorem ok_of_known {α : Type} {x : Except Oops α} {a b : α} {P : Prop} {e : Oops}
    (known : x = .ok a ∨ P ∧ x = .error e) (ran : x = .ok b) : a = b := by
  rcases known with same | ⟨_, fault⟩
  · exact Except.ok.inj (same.symm.trans ran)
  · cases fault.symm.trans ran

/-- A harmless operation leaves a good state, or divides by zero. -/
theorem Good.step (good : Good s) {l : Env × Op} (harmless : Harmless l s) :
    ∃ s', Good s' ∧ (opStep l s = .ok s' ∨ ¬ Paced l s ∧ opStep l s = .error .divideByZero) := by
  obtain ⟨env, op⟩ := l
  cases op with
  | ioctl cmd =>
    obtain ⟨s', ran, good'⟩ := good.ioctl harmless
    exact ⟨s', good', .inl ran⟩
  | packet skb info =>
    obtain ⟨wf, inv⟩ := good
    rcases qmarkHandle_spec env wf.represents inv skb harmless with
      ⟨e, _, _, run⟩ | ⟨fresh, ret, mark, t', s', run, rep, allocated⟩
    · refine ⟨s, ⟨wf, inv⟩, .inl ?_⟩
      simp only [opStep, exec, run]
      rfl
    · refine ⟨s', .of_represents rep (allocated.consistent inv harmless fresh), ?_⟩
      simp only [opStep, exec, run, unlessStalled_bind]
      -- the entry is in the table before its class is worked out
      by_cases builds : ret = .ok → s.registry.Builds env info.id
      · exact .inl (unlessStalled_pos builds _)
      · exact .inr ⟨fun paced => builds fun _ => paced, unlessStalled_neg builds _⟩
  | conntrack events ct =>
    obtain ⟨wf, inv⟩ := good
    obtain ⟨t', s', run, rep, notified⟩ :=
      qmarkConntrackEvent_spec env wf.represents inv events ct
    refine ⟨s', .of_represents rep (notified.consistent inv), .inl ?_⟩
    simp only [opStep, exec, run]
    rfl

/-- What a harmless operation leaves is good. -/
theorem Good.stepped (good : Good s) {l : Env × Op} {s' : St} (harmless : Harmless l s)
    (ran : opStep l s = .ok s') : Good s' := by
  obtain ⟨z, goodZ, known⟩ := good.step harmless
  exact ok_of_known known ran ▸ goodZ

theorem Good.succeeds (good : Good s) {l : Env × Op} (harmless : Harmless l s)
    (paced : Paced l s) : ∃ s', opStep l s = .ok s' ∧ Good s' := by
  obtain ⟨s', good', ran | ⟨unpaced, _⟩⟩ := good.step harmless
  · exact ⟨s', ran, good'⟩
  · exact absurd paced unpaced

/-- A guard that allows harmless operations only keeps the tables good. -/
theorem Good.run {guard : Env × Op → St → Prop} {s' : St} (good : Good s)
    (harmless : ∀ l y, Good y → guard l y → Harmless l y) (run : Run opStep guard s s') :
    Good s' := by
  refine run.invariant Good good ?_
  intro l y z goodY allowed ran
  exact goodY.stepped (harmless l y goodY allowed) ran

/-! ## Starting states -/

/-- Any sizes and any rules, but nothing registered yet. -/
structure Started (s : St) : Prop where
  good : Good s
  empty : s.registry.entries = 0

theorem started_init (alloc : AllocatesTables env) : Started (qosMarktblInit env).2 where
  good := good_init alloc
  empty := congrArg Registry.entries (qosMarktblInit_represents alloc).2

/-- Sizes of two, as the smallest configuration in which two addresses can meet. -/
def smallSt : St :=
  { gMarktblHead := .to { elemNum := 0, size := 2, ht := [[], []] }
    gRuletbl := .to [.zero, .zero]
    markBitmap := .to [false, false]
    resetFlag := false
    maxIpCnt := 2
    maxRuleCnt := 2
    qmarkLanDev := "eth0"
    qmarkWanDev := "agl0"
    sent := []
    freed := [] }

theorem smallSt_started : Started smallSt where
  good := .of_represents (newTables_represents smallSt (by decide))
    (Consistent.respec (by decide) (by decide))
  empty := rfl

/-- A share rule under the second interface class. -/
def sharedSt : St :=
  smallSt.setRules
    [{ RuletblNode.zero with mode := shareMode, on := true, devid := 2, rate := 100 }, .zero]

theorem sharedSt_started : Started sharedSt where
  good := smallSt_started.good.stepped
    (l := (plainEnv, .ioctl (.ruleAdd ⟨1, shareMode, 2, 100, 0, 0, 0⟩)))
    ⟨by decide, Consistent.fits_of_empty _ (by decide)⟩ rfl
  empty := rfl

end IpQos.Verified
