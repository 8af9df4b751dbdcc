import IpQos.Verified.Operations

/-! # Rules administered under traffic

`RULE_DEL` and `RULE_FLUSH` clear the count, the mark and the mode of a rule that
entries still refer to, and `RULE_ADD` rewrites its mode.  The tables survive
administration exactly as long as it suits the entries. -/

namespace IpQos.Verified

open IpQos.Kmod
open IpQos.Lib (Run Allowed runAll)
open Registry

/-- Administration of rules with valid ids, packets and conntrack events. -/
def Administered (l : Env × Op) (s : St) : Prop :=
  match l.2 with
  | .packet _ info => s.registry.ValidId info.id
  | .conntrack _ _ => True
  | .ioctl (.ruleAdd qr) => s.registry.ValidId qr.id
  | .ioctl (.ruleDel qr) => s.registry.ValidId qr.id
  | .ioctl .ruleFlush => AllocatesTables l.1
  | _ => False

/-- A rule is rewritten to suit the entries it has, and deleted only without entries; a
    packet of an address without entry is not admitted under a rule that is off. -/
def Suits (l : Env × Op) (s : St) : Prop :=
  match l.2 with
  | .packet skb info =>
    (s.registry.rule info.id).on = true ∨ ¬ s.registry.Fresh (info.ipAddr skb) ∨
      s.resetFlag = true ∨ s.maxIpCnt ≤ s.registry.entries.card ∨
      l.1.kmalloc .marktblNode = false
  | .ioctl (.ruleAdd qr) => s.registry.Fits qr.id (addedRule qr (s.registry.rule qr.id))
  | .ioctl (.ruleDel qr) => ∀ e ∈ s.registry.entries, e.id ≠ qr.id
  | .ioctl .ruleFlush => s.registry.entries = 0
  | _ => True

/-- Every entry is backed by a set bit and a rule that is on, and every count is right. -/
structure Served (t : Registry) : Prop where
  bits : ∀ e ∈ t.entries, ∃ b, e.mark = (b + 1) <<< markBase ∧ t.bit b = true
  rulesOn : ∀ e ∈ t.entries, (t.rule e.id).on = true
  counts : ∀ i < t.ruleCnt, (t.rule (i + 1)).count = t.entries.countP (·.id = i + 1)

theorem harmless_of_suits {l : Env × Op} {s : St} (administered : Administered l s)
    (suits : Suits l s) : Harmless l s := by
  obtain ⟨env, op⟩ := l
  cases op with
  | packet skb info => exact administered
  | conntrack events ct => trivial
  | ioctl cmd =>
    cases cmd with
    | ruleAdd qr => exact ⟨administered, suits⟩
    | ruleDel qr => exact ⟨administered, suits⟩
    | ruleFlush => exact ⟨administered, suits⟩
    | _ => exact administered.elim

/-- The rule of every entry is on. -/
def RulesOn (t : Registry) : Prop := ∀ e ∈ t.entries, (t.rule e.id).on = true

theorem SameConfig.on {t t' : Registry} (same : SameConfig t t') (id : Nat) :
    (t'.rule id).on = (t.rule id).on := by
  have config := congrFun same.config id
  exact congrArg (·.on) config

theorem RulesOn.of_sub {t t' : Registry} (rulesOn : RulesOn t) (same : SameConfig t t')
    (sub : ∀ e' ∈ t'.entries, ∃ e ∈ t.entries, e'.srcIp = e.srcIp ∧ e'.id = e.id ∧
      e'.mark = e.mark) : RulesOn t' := by
  intro e' member
  obtain ⟨e, old, _, sameId, _⟩ := sub e' member
  rw [same.on, sameId]
  exact rulesOn e old

theorem RulesOn.packet {env : Env} {skb : SkBuff} {info : TgInfo} {s : St} {t' : Registry}
    {ret : RetCode} {mark : Nat} (rulesOn : RulesOn s.registry)
    (suits : Suits (env, .packet skb info) s) (fresh : s.registry.Fresh (info.ipAddr skb))
    (allocated : Allocated env (info.ipAddr skb) info.id s.registry ret mark t') :
    RulesOn t' := by
  intro e' member
  rw [allocated.sameConfig.on]
  rcases allocated.entries_sub e' member with old | ⟨rfl, rfl⟩
  · exact rulesOn e' old
  · rcases suits with isOn | known | rest
    · exact isOn
    · exact absurd fresh known
    · obtain ⟨flag, below, kmalloc⟩ := allocated.room_of_ok
      rcases rest with resetting | full | failing
      · exact absurd (flag.symm.trans resetting) (by decide)
      · exact absurd below (Nat.not_lt.mpr full)
      · exact absurd (kmalloc.symm.trans failing) (by decide)

theorem rulesOn_step {l : Env × Op} {s s' : St} (good : Good s) (rulesOn : RulesOn s.registry)
    (administered : Administered l s) (suits : Suits l s) (stepped : opStep l s = .ok s') :
    RulesOn s'.registry := by
  obtain ⟨wf, inv⟩ := good
  obtain ⟨env, op⟩ := l
  cases op with
  | packet skb info =>
    obtain ⟨skb', handled⟩ := opStep_packet stepped
    rcases qmarkHandle_done wf.represents inv administered handled with
      ⟨e, _, _, _, rfl⟩ | ⟨fresh, ret, mark, t', _, rep, allocated⟩
    · exact rulesOn
    · rw [rep.2]
      exact rulesOn.packet suits fresh allocated
  | conntrack events ct =>
    obtain ⟨t', s'', run, rep, notified⟩ :=
      qmarkConntrackEvent_spec env wf.represents inv events ct
    simp only [opStep, exec, run] at stepped
    cases stepped
    rw [rep.2]
    exact rulesOn.of_sub notified.sameConfig notified.entries_sub
  | ioctl cmd =>
    rw [opStep_ioctl] at stepped
    cases cmd with
    | ruleAdd qr =>
      rcases afterCopy_cases stepped with rfl | ran
      · exact rulesOn
      · obtain ⟨s'', run, rep⟩ := qmarkAddRule_spec wf.represents qr administered
        rw [run] at ran
        cases ran
        rw [rep.2]
        intro e member
        by_cases here : e.id = qr.id
        · rw [here, setRule_rule_self]
          rfl
        · rw [setRule_rule_of_ne _ _ _ here]
          exact rulesOn e member
    | ruleDel qr =>
      rcases afterCopy_cases stepped with rfl | ran
      · exact rulesOn
      · obtain ⟨s'', run, rep⟩ := qmarkDelRule_spec wf.represents administered
        rw [run] at ran
        cases ran
        rw [rep.2]
        intro e member
        -- a suitable `RULE_DEL` is of a rule without entries
        rw [setRule_rule_of_ne _ _ _ (suits e member)]
        exact rulesOn e member
    | ruleFlush =>
      have rep := qmarkFlushRule_spec administered wf.represents
      cases stepped
      rw [rep.2]
      intro e member
      have empty : s.registry.entries = 0 := suits
      change e ∈ s.registry.entries at member
      rw [empty] at member
      cases member
    | _ => exact administered.elim

theorem Good.served {s : St} (good : Good s) (rulesOn : RulesOn s.registry) :
    Served s.registry where
  bits := by
    intro e member
    obtain ⟨b, bound, mark, _⟩ := good.2.marked e member
    exact ⟨b, mark, (good.2.bit_iff b bound).mpr (.inr ⟨e, member, mark⟩)⟩
  rulesOn := rulesOn
  counts := fun i bound => good.2.counted (i + 1) ⟨by omega, bound⟩

/-- As long as administration suits the entries, every entry stays served. -/
theorem served_of_suits {s₀ s : St} (start : Started s₀)
    (run : Run opStep (fun l y => Administered l y ∧ Suits l y) s₀ s) : Served s.registry := by
  have startOn : RulesOn s₀.registry := by
    intro e member
    rw [start.empty] at member
    cases member
  have both : Good s ∧ RulesOn s.registry := by
    refine run.invariant (fun y => Good y ∧ RulesOn y.registry) ⟨start.good, startOn⟩ ?_
    rintro l y z ⟨good, rulesOn⟩ ⟨administered, suits⟩ stepped
    exact ⟨good.stepped (harmless_of_suits administered suits) stepped,
      rulesOn_step good rulesOn administered suits stepped⟩
  exact both.1.served both.2

/-! ## A rule deleted while an address uses it -/

def deletedRuleTrace : List (Env × Op) :=
  [(plainEnv, .ioctl (.ruleAdd ⟨1, shareMode, 0, 100, 100, 10, 10⟩)),
   (plainEnv, .packet ⟨0, 7, 9⟩ ⟨0xfff800, 1, 0⟩),
   (plainEnv, .ioctl (.ruleDel ⟨1, 0, 0, 0, 0, 0, 0⟩)),
   (plainEnv, .conntrack ipctDestroy (some ⟨afInet, false, 0x800, ⟨7, 9⟩, ⟨9, 7⟩⟩))]

theorem deletedRuleTrace_administered : Allowed opStep Administered deletedRuleTrace smallSt :=
  ⟨⟨by decide, by decide⟩, ⟨by decide, by decide⟩, ⟨by decide, by decide⟩, trivial, trivial⟩

/-- The count of the deleted rule ends at -1. -/
theorem served_fails :
    ¬ ∀ s₀ s, Started s₀ → Run opStep Administered s₀ s → Served s.registry := by
  intro always
  have served := always smallSt _ smallSt_started
    (Run.of_runAll deletedRuleTrace_administered rfl)
  exact absurd (served.counts 0 (by decide)) (by decide)

/-- Administration that suits the entries: a second rule, and the first deleted when its
    address is gone. -/
def suitedTrace : List (Env × Op) :=
  [(plainEnv, .ioctl (.ruleAdd ⟨1, shareMode, 0, 100, 100, 10, 10⟩)),
   (plainEnv, .packet ⟨0, 7, 9⟩ ⟨0xfff800, 1, 0⟩),
   (plainEnv, .ioctl (.ruleDel ⟨2, 0, 0, 0, 0, 0, 0⟩))]

theorem suitedTrace_allowed :
    Allowed opStep (fun l y => Administered l y ∧ Suits l y) suitedTrace smallSt := by
  refine ⟨⟨⟨by decide, by decide⟩, Consistent.fits_of_empty _ (by decide)⟩, ?_⟩
  refine ⟨⟨⟨by decide, by decide⟩, .inl (by decide)⟩, ?_⟩
  refine ⟨⟨⟨by decide, by decide⟩, ?_⟩, trivial⟩
  change ∀ e ∈ (St.registry _).entries, e.id ≠ 2
  decide

theorem suitedTrace_served :
    ∃ s, runAll opStep suitedTrace smallSt = .ok s ∧ Served s.registry :=
  ⟨_, rfl, served_of_suits smallSt_started (Run.of_runAll suitedTrace_allowed rfl)⟩

end IpQos.Verified
