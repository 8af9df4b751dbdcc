import IpQos.Verified.ClassTree
import IpQos.Verified.TrafficControl

/-! # Class ids of addresses and of interfaces

The classes of single addresses share 16 bits with the classes of the scripts.  Under
an interface class they start at `2*4096+1`, above everything the scripts number for
the first interfaces; under the root class they start at 2, where the interfaces are. -/

namespace IpQos.Verified

open IpQos.Kmod
open IpQos.Script (Host IfName TcState Dir rootClass tcClassid buildIfaceClasses qosTcDevInit)
open IpQos.Lib (Run)
open Registry

/-! ## Classes of new marks -/

/-- The default class of the script's qdiscs, `1:ffff`. -/
def defaultClass : Nat := (1 <<< 16) ||| 0xffff

/-- The mark was not in use before the step. -/
def JustAllocated (s : St) (mark : Nat) : Prop := ∃ b, mark = markOf b ∧ s.registry.bit b = false

/-- Every NEWTCLASS that a step sends for a mark it has just allocated names a class that is
    not among `S`, not the default class and not the class of another live mark. -/
def NewClassesApart (S : Set Nat) (s s' : St) : Prop :=
  ∀ new, s'.sent = new ++ s.sent → ∀ n ∈ new, n.nlmsgType = .newTclass →
    ∀ e ∈ s'.registry.entries, JustAllocated s e.mark →
      n.tcmHandle ∉ S ∧ n.tcmHandle ≠ defaultClass ∧
        ∀ e' ∈ s'.registry.entries, e'.mark ≠ e.mark →
          n.tcmHandle ≠ classid (s'.registry.rule e'.id) e'.mark

/-- The lowest number of a class under a rule: the marks' offsets and one under the root class,
    from `(devid+1)*4096` on under an interface class. -/
def firstMinor (devid : Nat) : Nat := if devid = 0 then 2 else (devid + 1) * 4096 + 1

/-- A listed interface whose class has this number. -/
def Numbers (h : Host) (dir : Dir) (minor : Nat) : Prop :=
  ∃ iface ∈ h.ifaceList, Rated h dir iface ∧ tcClassid (iface.digits + 1) = some (2 ^ 16 + minor)

/-- No listed interface is numbered like one of `ipCnt` addresses under the device id. -/
def Spared (h : Host) (dir : Dir) (devid ipCnt : Nat) : Prop :=
  ∀ minor, firstMinor devid ≤ minor → minor < firstMinor devid + ipCnt → ¬ Numbers h dir minor

/-- Conntrack events, and packets under rules whose numbers are spared, whatever fails on
    the way. -/
def SparedTraffic (h : Host) (dir : Dir) (l : Env × Op) (s : St) : Prop :=
  match l.2 with
  | .packet _ info =>
    s.registry.ValidId info.id ∧ Spared h dir (s.registry.rule info.id).devid s.maxIpCnt
  | .conntrack _ _ => True
  | .ioctl _ => False

section Numbers

variable {h : Host} {dir : Dir} {t t' : Registry} {env : Env} {s : St}

theorem classid_of_sited {rn : RuletblNode} {b : Nat} (devid : rn.devid ≤ 13) (small : b < 4096) :
    classid rn (markOf b) = 2 ^ 16 + (firstMinor rn.devid + b) := by
  rw [classid_eq (classMinor_lt devid small), classMinor_markOf devid small, firstMinor]
  split <;> omega

theorem firstMinor_bounds {devid b : Nat} (small : devid ≤ 13) (inRange : b < 4096) :
    2 ≤ firstMinor devid + b ∧ firstMinor devid + b < 0xffff := by
  unfold firstMinor
  split <;> omega

/-- Under an interface class the numbers are above those of the first interfaces. -/
theorem spared_of_near {devid : Nat} (single : devid ≠ 0)
    (near : ∀ minor, Numbers h dir minor → minor ≤ 2 * 4096) (ipCnt : Nat) :
    Spared h dir devid ipCnt := by
  intro minor from_first _ numbers
  have le := near minor numbers
  rw [firstMinor, if_neg single] at from_first
  omega

theorem mem_scriptClasses {minor : Nat} (lo : 2 ≤ minor) :
    2 ^ 16 + minor ∈ scriptClasses h dir ↔ Numbers h dir minor := by
  have notRoot : 2 ^ 16 + minor ≠ rootClass := by
    show 2 ^ 16 + minor ≠ 65537
    omega
  constructor
  · intro member
    exact member.resolve_left notRoot
  · exact .inr

/-- Of the requests of an addition those of the first builder create a class. -/
theorem newTclass_iff {lanDev wanDev : String} {rn : RuletblNode} {mark : Nat} {n : RtnlReq} :
    n ∈ addRequests env lanDev wanDev rn mark ∧ n.nlmsgType = .newTclass ↔
      n ∈ walked env lanDev wanDev (htbClassReq .newTclass true rn mark) := by
  constructor
  · rintro ⟨sent, type⟩
    rcases List.mem_append.mp sent with filter | sent
    · obtain ⟨i, dev, rfl⟩ := mem_walked filter
      cases type
    · rcases List.mem_append.mp sent with qdisc | cls
      · obtain ⟨i, dev, rfl⟩ := mem_walked qdisc
        cases type
      · exact cls
  · intro sent
    refine ⟨List.mem_append_right _ (List.mem_append_right _ sent), ?_⟩
    obtain ⟨i, dev, rfl⟩ := mem_walked sent
    rfl

theorem newTclass_handle {lanDev wanDev : String} {rn : RuletblNode} {mark : Nat} {n : RtnlReq}
    (sent : n ∈ walked env lanDev wanDev (htbClassReq .newTclass true rn mark)) :
    n.tcmHandle = classid rn mark := by
  obtain ⟨i, dev, rfl⟩ := mem_walked sent
  rfl

/-- No new request, no new class. -/
theorem NewClassesApart.of_silent {S : Set Nat} {s s' : St} (silent : s'.sent = s.sent) :
    NewClassesApart S s s' := by
  intro new added n member
  have empty : new = [] := by
    rw [silent] at added
    exact List.append_left_eq_self.mp added.symm
  rw [empty] at member
  exact absurd member List.not_mem_nil

/-- A set bit was not just allocated. -/
theorem JustAllocated.bit {s : St} {b : Nat} (just : JustAllocated s (markOf b)) :
    s.registry.bit b = false := by
  obtain ⟨c, same, isClear⟩ := just
  rwa [markOf_inj.mp same]

theorem not_justAllocated {s : St} (inv : Consistent ∅ s.registry) {e : MarktblNode}
    (member : e ∈ s.registry.entries) : ¬ JustAllocated s e.mark := by
  obtain ⟨b, inRange, mark, _⟩ := inv.marked e member
  rw [mark]
  intro just
  have isSet := (inv.bit_iff b inRange).mpr (.inr ⟨e, member, mark⟩)
  rw [just.bit] at isSet
  cases isSet

end Numbers

section Steps

variable {h : Host} {dir : Dir} {S : Set Nat} {env : Env} {s s' : St}

/-- The class of a packet that gets the bit `b` for its own. -/
theorem apart_of_added (scripts : S = scriptClasses h dir) (inv : Consistent ∅ s.registry)
    (inv' : Consistent ∅ s'.registry) (conf : Configured s.registry) {id : Nat} {ip : Be32} {b : Nat}
    (inRange : b < s.registry.ipCnt) (same : SameConfig s.registry s'.registry)
    (spared : Spared h dir (s.registry.rule id).devid s.maxIpCnt)
    (entries : s'.registry.entries = { srcIp := ip, id, mark := markOf b, count := 0 } ::ₘ
      s.registry.entries)
    (sent : s'.sent = addRequests env s.qmarkLanDev s.qmarkWanDev (s'.registry.rule id) (markOf b) ++
      s.sent) :
    NewClassesApart S s s' := by
  have member : { srcIp := ip, id, mark := markOf b, count := 0 } ∈ s'.registry.entries :=
    entries ▸ Multiset.mem_cons_self _ _
  have valid : s.registry.ValidId id := by
    obtain ⟨pos, le⟩ := inv'.validIds _ member
    exact ⟨pos, same.ruleCnt ▸ le⟩
  have small : b < 4096 := Nat.lt_of_lt_of_le inRange conf.ipCnt
  have bounds := firstMinor_bounds (conf.devid id valid) small
  intro new added n inNew type e member' just
  obtain rfl := List.append_cancel_right (added.symm.trans sent)
  have inWalk := newTclass_iff.mp ⟨inNew, type⟩
  -- only the new entry has a mark that was just allocated
  have isNew : e = { srcIp := ip, id, mark := markOf b, count := 0 } := by
    rw [entries] at member'
    exact (Multiset.mem_cons.mp member').resolve_right fun old => not_justAllocated inv old just
  subst isNew
  have handle : n.tcmHandle = 2 ^ 16 + (firstMinor (s.registry.rule id).devid + b) := by
    rw [newTclass_handle inWalk, classid_congr (same.devid id)]
    exact classid_of_sited (conf.devid id valid) small
  refine ⟨?_, ?_, fun e' live other => ?_⟩
  · rw [handle, scripts, mem_scriptClasses bounds.1]
    exact spared _ (Nat.le_add_right _ _) (Nat.add_lt_add_left inRange _)
  · rw [handle]
    show _ ≠ 2 ^ 16 + 0xffff
    omega
  · rw [newTclass_handle inWalk]
    exact (classMinor_of_entries inv' (conf.of_same same) member).2 e' live (Ne.symm other)

/-- An event sends deletions only. -/
theorem notified_sent {events : Nat} {ct : Option NfConn} {t t' : Registry}
    (notified : Notified env events ct t t') :
    ∃ new, t'.sent = new ++ t.sent ∧ ∀ n ∈ new, n.nlmsgType ≠ .newTclass := by
  have nothing {u : Registry} (same : u.sent = t.sent) :
      ∃ new, u.sent = new ++ t.sent ∧ ∀ n ∈ new, n.nlmsgType ≠ .newTclass :=
    ⟨[], same, fun n member => absurd member List.not_mem_nil⟩
  cases notified with
  | ignored => exact nothing rfl
  | marked ip counted =>
    cases counted with
    | unknown fresh => exact nothing rfl
    | raised split here => exact nothing rfl
  | destroyed ip destroys dropped =>
    cases dropped with
    | unknown fresh => exact nothing rfl
    | kept split here used => exact nothing rfl
    | left split here idle isShare others => exact nothing rfl
    | freed split here idle last inRange mark =>
      refine ⟨_, rfl, fun n member => ?_⟩
      rcases List.mem_append.mp member with cls | filter
      · obtain ⟨i, dev, rfl⟩ := mem_walked cls
        exact fun same => by cases same
      · obtain ⟨i, dev, rfl⟩ := mem_walked filter
        exact fun same => by cases same

theorem apart_of_notified {events : Nat} {ct : Option NfConn}
    (notified : Notified env events ct s.registry s'.registry) : NewClassesApart S s s' := by
  obtain ⟨sent, added, deletions⟩ := notified_sent notified
  intro new added' n member type
  obtain rfl := List.append_cancel_right (added'.symm.trans added)
  exact absurd type (deletions n member)

theorem reserved_of_alone {ip : Be32} {id mark : Nat} {t t' : Registry} (alone : t.Alone id)
    (allocated : Allocated env ip id t .ok mark t') : ∃ b < t.ipCnt, mark = markOf b := by
  cases allocated with
  | @added b flag _ inRange isClear below kmalloc => exact ⟨b, inRange, rfl⟩
  | joined flag group below kmalloc => exact absurd alone group

/-- A new member of a group has the mark of the others. -/
theorem apart_of_joined (con : Consistent ∅ s.registry) {ip : Be32} {id mark : Nat}
    (group : ¬ s.registry.Alone id)
    (allocated : Allocated env ip id s.registry .ok mark s'.registry) : NewClassesApart S s s' := by
  obtain ⟨isShare, first, member, rfl⟩ : ¬ s.registry.Private id ∧
      ∃ e ∈ s.registry.entries, e.id = id := by
    simpa [Alone, not_or] using group
  have borrowed : mark = first.mark := by
    rw [← con.shared first member isShare]
    generalize s'.registry = t' at allocated
    cases allocated with
    | added flag alone => exact absurd alone group
    | joined => rfl
  intro new _ n _ _ e live just
  rw [allocated.entries_of_ok] at live
  rcases Multiset.mem_cons.mp live with rfl | old
  · rw [borrowed] at just
    exact (not_justAllocated con member just).elim
  · exact (not_justAllocated con old just).elim

theorem SparedTraffic.harmless {l : Env × Op} (traffic : SparedTraffic h dir l s) : Harmless l s := by
  obtain ⟨env, op⟩ := l
  cases op with
  | ioctl cmd => exact traffic.elim
  | packet skb info => exact traffic.1
  | conntrack events ct => trivial

/-- A step of traffic keeps the configuration, and its new classes are apart. -/
theorem step_apart (scripts : S = scriptClasses h dir) (good : Good s) (conf : Configured s.registry)
    {l : Env × Op} (traffic : SparedTraffic h dir l s) (ran : opStep l s = .ok s') :
    SameConfig s.registry s'.registry ∧ NewClassesApart S s s' := by
  obtain ⟨wf, con⟩ := good
  obtain ⟨env, op⟩ := l
  cases op with
  | ioctl cmd => exact traffic.elim
  | conntrack events ct =>
    obtain ⟨t', s'', run, rep, notified⟩ :=
      qmarkConntrackEvent_spec env wf.represents con events ct
    simp only [opStep, exec, run] at ran
    cases ran
    obtain rfl : s''.registry = t' := rep.2
    exact ⟨notified.sameConfig, apart_of_notified notified⟩
  | packet skb info =>
    obtain ⟨valid, spared⟩ := traffic
    obtain ⟨skb', handled⟩ := opStep_packet ran
    rcases qmarkHandle_done wf.represents con valid handled with
      ⟨e, _, _, _, rfl⟩ | ⟨fresh, ret, mark, t', _, rep, allocated⟩
    · exact ⟨.refl _, .of_silent rfl⟩
    · obtain rfl : s'.registry = t' := rep.2
      refine ⟨allocated.sameConfig, ?_⟩
      by_cases ok : ret = .ok
      · subst ok
        -- a mark of its own is new; that of a group was in use before
        by_cases alone : s.registry.Alone info.id
        · obtain ⟨b, inRange, rfl⟩ := reserved_of_alone alone allocated
          exact apart_of_added scripts con (allocated.consistent con valid fresh) conf inRange
            allocated.sameConfig spared allocated.entries_of_ok allocated.sent_of_ok
        · exact apart_of_joined con alone allocated
      · exact .of_silent (allocated.sent_of_fail ok)

/-- The scripts' side: what the branch for single interfaces builds. -/
theorem script_tree {dev : String} {tree : TcState} (present : h.present dev)
    (bare : tree dev = none) (dir : Dir) :
    classesOn (buildIfaceClasses h dev dir (qosTcDevInit h dev false tree)) dev =
      scriptClasses h dir := by
  have init := qosTcDevInit_adds present bare
  have empty : classesOn tree dev = ∅ := by simp [classesOn, bare]
  rw [(buildIfaceClasses_adds init.rooted dir).classes, init.classes, empty]
  simp

/-- In every state that traffic reaches, the new classes of the next step are apart from those of
    the scripts and of all other live marks, and the step goes on unless a class divides by zero. -/
theorem classes_apart {s₀ : St} (start : Started s₀) (conf : Configured s₀.registry)
    (run : Run opStep (SparedTraffic h dir) s₀ s) {dev : String} {tree : TcState}
    (present : h.present dev) (bare : tree dev = none) {l : Env × Op}
    (traffic : SparedTraffic h dir l s) :
    (∀ s', opStep l s = .ok s' → NewClassesApart
        (classesOn (buildIfaceClasses h dev dir (qosTcDevInit h dev false tree)) dev) s s') ∧
      (Paced l s → ∃ s', opStep l s = .ok s') := by
  have scripts := script_tree present bare dir
  -- traffic keeps the tables consistent and the configuration
  have inv : Good s ∧ Configured s.registry := by
    apply run.invariant (fun s => Good s ∧ Configured s.registry)
    · exact ⟨start.good, conf⟩
    · rintro l y z ⟨good, conf⟩ traffic stepped
      have same := (step_apart scripts good conf traffic stepped).1
      exact ⟨good.stepped traffic.harmless stepped, conf.of_same same⟩
  obtain ⟨good, conf⟩ := inv
  constructor
  · intro s' ran
    exact (step_apart scripts good conf traffic ran).2
  · intro paced
    obtain ⟨s', ran, _⟩ := good.succeeds traffic.harmless paced
    exact ⟨s', ran⟩

end Steps

/-! ## Rules under single interfaces and under `WAN_ALL` -/

/-- The first packet of `ip` under a rule. -/
def packetOf (ip : Be32) (id : Nat) : Env × Op :=
  (plainEnv, .packet ⟨0, ip, 9⟩ ⟨0xfff800, id, 0⟩)

/-- A router whose only WAN interface has a number above those of two addresses. -/
def fifthWan : Host := { twoWans with ifaceList := [.lan, .wan 5] }

/-- A group under `WAN5`, and a private rule under `WAN_ALL`. -/
def fifthSt : St :=
  smallSt.setRules
    [{ RuletblNode.zero with mode := shareMode, on := true, devid := 5, rate := 100 }, .zero]

theorem fifthSt_started : Started fifthSt where
  good := smallSt_started.good.stepped
    (l := (plainEnv, .ioctl (.ruleAdd ⟨1, shareMode, 5, 100, 0, 0, 0⟩)))
    ⟨by decide, Consistent.fits_of_empty _ (by decide)⟩ rfl
  empty := rfl

theorem fifthSt_configured : Configured fifthSt.registry := by
  refine ⟨by decide, ?_⟩
  rintro id ⟨pos, le⟩
  change id ≤ 2 at le
  interval_cases id <;> decide

theorem fifthWan_numbers {minor : Nat} (numbers : Numbers fifthWan .uplink minor) : minor = 6 := by
  obtain ⟨iface, listed, ⟨wan, _⟩, number⟩ := numbers
  have only : iface = .lan ∨ iface = .wan 5 := by simpa [fifthWan] using listed
  rcases only with rfl | rfl
  · exact absurd rfl wan
  · have six : tcClassid (IfName.digits (.wan 5) + 1) = some (2 ^ 16 + 6) := by decide
    have same := Option.some.inj (six.symm.trans number)
    omega

/-- The tree of `ifb0`. -/
def ifbTree (h : Host) : TcState :=
  buildIfaceClasses h Script.ifbDev .uplink (qosTcDevInit h Script.ifbDev false bare)

/-- The first packet under `WAN_ALL`, after that of the group. -/
theorem group_class_apart :
    ∃ s s', opStep (packetOf 7 1) fifthSt = .ok s ∧ opStep (packetOf 8 2) s = .ok s' ∧
      NewClassesApart (classesOn (ifbTree fifthWan) Script.ifbDev) s s' := by
  have group : SparedTraffic fifthWan .uplink (packetOf 7 1) fifthSt := by
    refine ⟨by decide, spared_of_near (by decide) ?_ _⟩
    intro minor numbers
    rw [fifthWan_numbers numbers]
    decide
  obtain ⟨s, ran⟩ : ∃ s, opStep (packetOf 7 1) fifthSt = .ok s := ⟨_, rfl⟩
  obtain ⟨same, _⟩ := step_apart rfl fifthSt_started.good fifthSt_configured group ran
  -- two addresses under `WAN_ALL` are numbered 2 and 3
  have alone : SparedTraffic fifthWan .uplink (packetOf 8 2) s := by
    refine ⟨⟨by decide, same.ruleCnt ▸ (by decide : 2 ≤ fifthSt.registry.ruleCnt)⟩, ?_⟩
    intro minor _ below numbers
    have devid : (s.registry.rule 2).devid = 0 := same.devid 2
    have ipCnt : s.maxIpCnt = 2 := same.ipCnt
    rw [fifthWan_numbers numbers, devid, ipCnt] at below
    exact absurd below (by decide)
  have present : fifthWan.present Script.ifbDev := rfl
  have untouched : bare Script.ifbDev = none := rfl
  obtain ⟨apart, succeeds⟩ := classes_apart fifthSt_started fifthSt_configured (.single group ran)
    present untouched alone
  have builds : fifthSt.registry.Builds plainEnv 2 := by decide
  obtain ⟨s', ran'⟩ := succeeds (same.builds.mpr builds)
  exact ⟨s, s', ran, ran', apart s' ran'⟩

/-- The first packet under `WAN_ALL` gets the class of `WAN1`. -/
theorem wanAll_class_clashes :
    ∃ s', opStep (packetOf 7 2) sharedSt = .ok s' ∧
      ¬ NewClassesApart (classesOn (ifbTree twoWans) Script.ifbDev) sharedSt s' := by
  refine ⟨_, rfl, fun apart => ?_⟩
  have new := (apart _ (List.append_nil _).symm
    (htbClassReq .newTclass true (sharedSt.registry.rule 2) (markOf 0) 1 ⟨3, 1500⟩) (by decide) rfl
    { srcIp := 7, id := 2, mark := markOf 0, count := 0 } (by decide) ⟨0, rfl, rfl⟩).1
  apply new
  have scripts : classesOn (ifbTree twoWans) Script.ifbDev = scriptClasses twoWans .uplink :=
    script_tree rfl rfl .uplink
  rw [scripts]
  exact .inr ⟨.wan 1, by decide, ⟨by decide, by decide⟩, by decide⟩

end IpQos.Verified
