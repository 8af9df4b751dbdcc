import IpQos.Verified.Operations
import Mathlib.Data.Set.Insert
import Mathlib.Tactic.IntervalCases

/-! # The kernel's classes and filters mirror the hash table

The kernel's traffic control is not part of the module: `TcKernel` is any
implementation of what the module relies on.  Replaying the requests sent so far
then yields, on either device, one class per live mark and one filter leading to
it. -/

namespace IpQos.Verified

open IpQos.Kmod
open IpQos.Lib (Run Allowed runAll)
open Registry

/-! ## Class ids -/

/-- The classes of one device id do not overlap with those of another. -/
theorem classMinor_markOf {rn : RuletblNode} {b : Nat} (devid : rn.devid ≤ 13) (small : b < 4096) :
    classMinor rn (markOf b) =
      if rn.devid = 0 then b + 2 else (rn.devid + 1) * 4096 + (b + 1) := by
  unfold classMinor
  rw [markOf_shiftRight]
  by_cases root : rn.devid = 0
  · rw [if_pos root.symm, if_pos root]
    apply u32_of_lt
    omega
  · rw [if_neg (Ne.symm root), if_neg root, tcMaxIpCnt]
    apply u32_of_lt
    omega

theorem classMinor_lt {rn : RuletblNode} {b : Nat} (devid : rn.devid ≤ 13) (small : b < 4096) :
    classMinor rn (markOf b) < 2 ^ 16 := by
  rw [classMinor_markOf devid small]
  split <;> omega

theorem classMinor_ne {rn rn' : RuletblNode} {b c : Nat} (devid : rn.devid ≤ 13)
    (devid' : rn'.devid ≤ 13) (small : b < 4096) (small' : c < 4096) (ne : b ≠ c) :
    classMinor rn (markOf b) ≠ classMinor rn' (markOf c) := by
  rw [classMinor_markOf devid small, classMinor_markOf devid' small']
  split <;> split <;> omega

theorem classid_eq {rn : RuletblNode} {mark : Nat} (small : classMinor rn mark < 2 ^ 16) :
    classid rn mark = 2 ^ 16 + classMinor rn mark := by
  have disjoint := Nat.two_pow_add_eq_or_of_lt small 1
  simpa [classid] using disjoint.symm

theorem classid_congr {rn rn' : RuletblNode} (same : rn.devid = rn'.devid) (mark : Nat) :
    classid rn mark = classid rn' mark := by
  unfold classid classMinor
  rw [same]

/-! ## The kernel -/

/-- The filters `F` after a filter was added on the interface if its handle was free. -/
def added (F : Set (Nat × Nat)) (here : Prop) (m c : Nat) : Set (Nat × Nat) :=
  {p | p ∈ F ∨ here ∧ p = (m, c) ∧ ∀ f, (m, f) ∉ F}

/-- The classes and filters of the module as the kernel keeps them, per interface.
    Adding what exists and deleting what does not changes nothing. -/
structure TcKernel (κ : Type) where
  send : RtnlReq → κ → κ
  /-- The handles of the htb classes. -/
  classes : κ → Nat → Set Nat
  /-- The handles of the fw filters with their flowids. -/
  filters : κ → Nat → Set (Nat × Nat)
  newTclass : ∀ n k dev, n.nlmsgType = .newTclass → n.exclCreate = true →
    classes (send n k) dev =
        (if dev = n.tcmIfindex then insert n.tcmHandle (classes k dev) else classes k dev) ∧
      filters (send n k) dev = filters k dev
  /-- A class is deleted unless a filter still leads to it. -/
  delTclass : ∀ n k dev, n.nlmsgType = .delTclass →
    (∀ mark, (mark, n.tcmHandle) ∉ filters k n.tcmIfindex) →
    classes (send n k) dev =
        (if dev = n.tcmIfindex then classes k dev \ {n.tcmHandle} else classes k dev) ∧
      filters (send n k) dev = filters k dev
  newQdisc : ∀ n k dev, n.nlmsgType = .newQdisc →
    classes (send n k) dev = classes k dev ∧ filters (send n k) dev = filters k dev
  newTfilter : ∀ n k dev mask flowid, n.nlmsgType = .newTfilter → n.exclCreate = true →
    n.options = .fw mask flowid →
    classes (send n k) dev = classes k dev ∧
      filters (send n k) dev = added (filters k dev) (dev = n.tcmIfindex) n.tcmHandle flowid
  delTfilter : ∀ n k dev, n.nlmsgType = .delTfilter →
    classes (send n k) dev = classes k dev ∧
      filters (send n k) dev = {p ∈ filters k dev | dev = n.tcmIfindex → p.1 ≠ n.tcmHandle}

namespace TcKernel

variable {κ : Type} (tc : TcKernel κ)

/-- The kernel after a history of requests, latest first. -/
def replay (sent : List RtnlReq) (k : κ) : κ := sent.foldr tc.send k

theorem replay_append (later earlier : List RtnlReq) (k : κ) :
    tc.replay (later ++ earlier) k = tc.replay later (tc.replay earlier k) :=
  List.foldr_append

end TcKernel

/-! ## Environment -/

/-- Both devices are present and rtnetlink is never found locked. -/
structure Wired (lan wan : NetDevice) (env : Env) (lanDev wanDev : String) : Prop where
  lan : env.devGetByName lanDev = some lan
  wan : env.devGetByName wanDev = some wan
  free : ∀ n, env.rtnlIsLocked n = false

theorem Wired.walked {lan wan : NetDevice} {env : Env} {lanDev wanDev : String}
    (wired : Wired lan wan env lanDev wanDev) (req : Nat → NetDevice → RtnlReq) :
    walked env lanDev wanDev req = [req 1 wan, req 0 lan] := by
  simp [Kmod.walked, delivered, wired.lan, wired.wan, wired.free]

/-- The interfaces of the two devices. -/
def Interface (lan wan : NetDevice) (dev : Nat) : Prop := dev = lan.ifindex ∨ dev = wan.ifindex

theorem mem_walked {env : Env} {lanDev wanDev : String} {req : Nat → NetDevice → RtnlReq} {n : RtnlReq}
    (sent : n ∈ walked env lanDev wanDev req) : ∃ i dev, n = req i dev := by
  have mem_delivered : ∀ m, n ∈ delivered env m → n = m := by
    intro m member
    unfold delivered at member
    split at member
    · exact absurd member List.not_mem_nil
    · exact List.mem_singleton.mp member
  unfold walked at sent
  split at sent
  · exact absurd sent List.not_mem_nil
  · split at sent
    · exact ⟨_, _, mem_delivered _ sent⟩
    · rcases List.mem_append.mp sent with onWan | onLan
      · exact ⟨_, _, mem_delivered _ onWan⟩
      · exact ⟨_, _, mem_delivered _ onLan⟩

/-! ### The same request on both devices

The second one finds the object when both names stand for one interface. -/

section Twice

variable {dev l w h m c : Nat}

theorem insert_twice (on : dev = l ∨ dev = w) (A : Set Nat) :
    (if dev = w then insert h (if dev = l then insert h A else A)
      else if dev = l then insert h A else A) = insert h A := by
  cases on with
  | inl onLan =>
    rw [if_pos onLan]
    split
    · exact Set.insert_idem h A
    · rfl
  | inr onWan =>
    rw [if_pos onWan]
    split
    · exact Set.insert_idem h A
    · rfl

theorem remove_twice (on : dev = l ∨ dev = w) (A : Set Nat) :
    (if dev = w then (if dev = l then A \ {h} else A) \ {h}
      else if dev = l then A \ {h} else A) = A \ {h} := by
  have idem : (A \ {h}) \ {h} = A \ {h} := by
    ext n
    simp
  cases on with
  | inl onLan =>
    rw [if_pos onLan, idem, ite_self]
  | inr onWan =>
    rw [if_pos onWan]
    split
    · exact idem
    · rfl

theorem added_twice (on : dev = l ∨ dev = w) (F : Set (Nat × Nat)) :
    added (added F (dev = l) m c) (dev = w) m c = added F True m c := by
  ext p
  simp only [added, Set.mem_ofPred_eq, true_and]
  constructor
  · rintro ((old | ⟨_, here, free⟩) | ⟨_, here, free⟩)
    · exact .inl old
    · exact .inr ⟨here, free⟩
    · exact .inr ⟨here, fun f taken => free f (.inl taken)⟩
  · rintro (old | ⟨here, free⟩)
    · exact .inl (.inl old)
    · by_cases onLan : dev = l
      · exact .inl (.inr ⟨onLan, here, free⟩)
      · refine .inr ⟨on.resolve_left onLan, here, ?_⟩
        rintro f (taken | ⟨onLan', _⟩)
        · exact free f taken
        · exact onLan onLan'

end Twice

section Requests

variable {κ : Type} {tc : TcKernel κ} {lan wan : NetDevice} {env : Env} {lanDev wanDev : String}
  {rn : RuletblNode} {mark dev : Nat} {k : κ}

theorem replay_newClass (wired : Wired lan wan env lanDev wanDev) (on : Interface lan wan dev) :
    tc.classes (tc.replay (walked env lanDev wanDev (htbClassReq .newTclass true rn mark)) k) dev =
        insert (classid rn mark) (tc.classes k dev) ∧
      tc.filters (tc.replay (walked env lanDev wanDev (htbClassReq .newTclass true rn mark)) k) dev =
        tc.filters k dev := by
  rw [wired.walked]
  obtain ⟨classes, filters⟩ := tc.newTclass (htbClassReq .newTclass true rn mark 0 lan) k dev rfl rfl
  obtain ⟨classes', filters'⟩ := tc.newTclass (htbClassReq .newTclass true rn mark 1 wan)
    (tc.send (htbClassReq .newTclass true rn mark 0 lan) k) dev rfl rfl
  rw [classes] at classes'
  exact ⟨classes'.trans (insert_twice on _), filters'.trans filters⟩

theorem replay_newQdisc (wired : Wired lan wan env lanDev wanDev) :
    tc.classes (tc.replay (walked env lanDev wanDev (pfifoQdiscReq .newQdisc true rn mark)) k) dev =
        tc.classes k dev ∧
      tc.filters (tc.replay (walked env lanDev wanDev (pfifoQdiscReq .newQdisc true rn mark)) k) dev =
        tc.filters k dev := by
  rw [wired.walked]
  obtain ⟨classes, filters⟩ := tc.newQdisc (pfifoQdiscReq .newQdisc true rn mark 0 lan) k dev rfl
  obtain ⟨classes', filters'⟩ := tc.newQdisc (pfifoQdiscReq .newQdisc true rn mark 1 wan)
    (tc.send (pfifoQdiscReq .newQdisc true rn mark 0 lan) k) dev rfl
  exact ⟨classes'.trans classes, filters'.trans filters⟩

theorem replay_newFilter (wired : Wired lan wan env lanDev wanDev) (on : Interface lan wan dev) :
    tc.classes (tc.replay (walked env lanDev wanDev (fwFilterReq env .newTfilter true rn mark)) k)
        dev = tc.classes k dev ∧
      tc.filters (tc.replay (walked env lanDev wanDev (fwFilterReq env .newTfilter true rn mark)) k)
        dev = added (tc.filters k dev) True mark (classid rn mark) := by
  rw [wired.walked]
  obtain ⟨classes, filters⟩ := tc.newTfilter (fwFilterReq env .newTfilter true rn mark 0 lan) k dev
    fwMask (classid rn mark) rfl rfl rfl
  obtain ⟨classes', filters'⟩ := tc.newTfilter (fwFilterReq env .newTfilter true rn mark 1 wan)
    (tc.send (fwFilterReq env .newTfilter true rn mark 0 lan) k) dev
    fwMask (classid rn mark) rfl rfl rfl
  rw [filters] at filters'
  exact ⟨classes'.trans classes, filters'.trans (added_twice on _)⟩

theorem replay_delFilter (wired : Wired lan wan env lanDev wanDev) (on : Interface lan wan dev) :
    tc.classes (tc.replay (walked env lanDev wanDev (fwFilterReq env .delTfilter false rn mark)) k)
        dev = tc.classes k dev ∧
      tc.filters (tc.replay (walked env lanDev wanDev (fwFilterReq env .delTfilter false rn mark)) k)
        dev = {p ∈ tc.filters k dev | p.1 ≠ mark} := by
  rw [wired.walked]
  obtain ⟨classes, filters⟩ :=
    tc.delTfilter (fwFilterReq env .delTfilter false rn mark 0 lan) k dev rfl
  obtain ⟨classes', filters'⟩ := tc.delTfilter (fwFilterReq env .delTfilter false rn mark 1 wan)
    (tc.send (fwFilterReq env .delTfilter false rn mark 0 lan) k) dev rfl
  refine ⟨classes'.trans classes, ?_⟩
  apply filters'.trans
  rw [filters]
  ext p
  constructor
  · rintro ⟨⟨old, onLan⟩, onWan⟩
    cases on with
    | inl here => exact ⟨old, onLan here⟩
    | inr here => exact ⟨old, onWan here⟩
  · rintro ⟨old, other⟩
    exact ⟨⟨old, fun _ => other⟩, fun _ => other⟩

theorem replay_delClass (wired : Wired lan wan env lanDev wanDev) (on : Interface lan wan dev)
    (unused : ∀ dev, Interface lan wan dev → ∀ m, (m, classid rn mark) ∉ tc.filters k dev) :
    tc.classes (tc.replay (walked env lanDev wanDev (htbClassReq .delTclass false rn mark)) k) dev =
        tc.classes k dev \ {classid rn mark} ∧
      tc.filters (tc.replay (walked env lanDev wanDev (htbClassReq .delTclass false rn mark)) k) dev =
        tc.filters k dev := by
  rw [wired.walked]
  have first := fun dev => tc.delTclass (htbClassReq .delTclass false rn mark 0 lan) k dev rfl
    (unused lan.ifindex (.inl rfl))
  have unused' : ∀ m, (m, classid rn mark) ∉
      tc.filters (tc.send (htbClassReq .delTclass false rn mark 0 lan) k) wan.ifindex := by
    rw [(first wan.ifindex).2]
    exact unused wan.ifindex (.inr rfl)
  obtain ⟨classes', filters'⟩ := tc.delTclass (htbClassReq .delTclass false rn mark 1 wan)
    (tc.send (htbClassReq .delTclass false rn mark 0 lan) k) dev rfl unused'
  rw [(first dev).1] at classes'
  exact ⟨classes'.trans (remove_twice on _), filters'.trans (first dev).2⟩

/-- What the requests for an entry do on either interface. -/
theorem replay_addRequests (wired : Wired lan wan env lanDev wanDev)
    (on : Interface lan wan dev) :
    tc.classes (tc.replay (addRequests env lanDev wanDev rn mark) k) dev =
        insert (classid rn mark) (tc.classes k dev) ∧
      tc.filters (tc.replay (addRequests env lanDev wanDev rn mark) k) dev =
        added (tc.filters k dev) True mark (classid rn mark) := by
  rw [addRequests, tc.replay_append, tc.replay_append, (replay_newFilter wired on).1,
    (replay_newFilter wired on).2, (replay_newQdisc wired).1, (replay_newQdisc wired).2,
    (replay_newClass wired on).1, (replay_newClass wired on).2]
  exact ⟨rfl, rfl⟩

/-- What the requests for a freed mark do on either interface. -/
theorem replay_delRequests (wired : Wired lan wan env lanDev wanDev)
    (on : Interface lan wan dev)
    (unused : ∀ dev, Interface lan wan dev → ∀ m, m ≠ mark →
      (m, classid rn mark) ∉ tc.filters k dev) :
    tc.classes (tc.replay (delRequests env lanDev wanDev rn mark) k) dev =
        tc.classes k dev \ {classid rn mark} ∧
      tc.filters (tc.replay (delRequests env lanDev wanDev rn mark) k) dev =
        {p ∈ tc.filters k dev | p.1 ≠ mark} := by
  rw [delRequests, tc.replay_append]
  -- with its own filter gone no filter leads to the class any more
  have unused' : ∀ dev, Interface lan wan dev → ∀ m, (m, classid rn mark) ∉ tc.filters
      (tc.replay (walked env lanDev wanDev (fwFilterReq env .delTfilter false rn mark)) k) dev := by
    intro dev on m
    rw [(replay_delFilter wired on).2]
    rintro ⟨leads, other⟩
    exact unused dev on m other leads
  rw [(replay_delClass wired on unused').1, (replay_delClass wired on unused').2,
    (replay_delFilter wired on).1, (replay_delFilter wired on).2]
  exact ⟨rfl, rfl⟩

end Requests

/-! ### Filters, whatever gets through -/

/-- Requests sent so far have left a filter for the mark on the interface. -/
def Filtered {κ : Type} (tc : TcKernel κ) (k : κ) (dev mark : Nat) : Prop :=
  ∃ flowid, (mark, flowid) ∈ tc.filters k dev

section Filters

variable {κ : Type} {tc : TcKernel κ} {env : Env} {lanDev wanDev : String} {rn : RuletblNode}
  {mark dev m : Nat}

theorem replay_filters_of_others {reqs : List RtnlReq}
    (others : ∀ n ∈ reqs, n.nlmsgType = .newTclass ∧ n.exclCreate = true ∨ n.nlmsgType = .newQdisc)
    (k : κ) : tc.filters (tc.replay reqs k) dev = tc.filters k dev := by
  induction reqs with
  | nil => rfl
  | cons n reqs ih =>
    have rest := ih fun n' member => others n' (List.mem_cons_of_mem n member)
    rcases others n List.mem_cons_self with ⟨type, excl⟩ | type
    · exact (tc.newTclass n _ dev type excl).2.trans rest
    · exact (tc.newQdisc n _ dev type).2.trans rest

/-- A filter that is added stays, and one is there for its handle afterwards in any case. -/
theorem filtered_added {F : Set (Nat × Nat)} {here : Prop} {c : Nat} :
    (∃ f, (m, f) ∈ added F here mark c) ↔ (∃ f, (m, f) ∈ F) ∨ here ∧ m = mark := by
  constructor
  · rintro ⟨f, old | ⟨here, new, _⟩⟩
    · exact .inl ⟨f, old⟩
    · exact .inr ⟨here, congrArg Prod.fst new⟩
  · rintro (⟨f, old⟩ | ⟨here, rfl⟩)
    · exact ⟨f, .inl old⟩
    · by_cases taken : ∃ f, (m, f) ∈ F
      · obtain ⟨f, old⟩ := taken
        exact ⟨f, .inl old⟩
      · exact ⟨c, .inr ⟨here, rfl, not_exists.mp taken⟩⟩

theorem replay_newFilters {reqs : List RtnlReq}
    (filters : ∀ n ∈ reqs, n.nlmsgType = .newTfilter ∧ n.exclCreate = true ∧
      ∃ mask flowid, n.options = .fw mask flowid) (k : κ) :
    Filtered tc (tc.replay reqs k) dev m ↔
      Filtered tc k dev m ∨ ∃ n ∈ reqs, dev = n.tcmIfindex ∧ m = n.tcmHandle := by
  induction reqs with
  | nil => simp [TcKernel.replay]
  | cons n reqs ih =>
    obtain ⟨type, excl, mask, flowid, options⟩ := filters n List.mem_cons_self
    have rest := ih fun n' member => filters n' (List.mem_cons_of_mem n member)
    have sent := (tc.newTfilter n (tc.replay reqs k) dev mask flowid type excl options).2
    show (∃ f, (m, f) ∈ tc.filters (tc.send n (tc.replay reqs k)) dev) ↔ _
    rw [sent, filtered_added]
    show Filtered tc (tc.replay reqs k) dev m ∨ _ ↔ _
    rw [rest, or_assoc, List.exists_mem_cons_iff, or_comm (a := dev = _ ∧ _)]

/-- Of the requests for an entry those of the last builder leave a filter. -/
theorem filtered_addRequests (k : κ) :
    Filtered tc (tc.replay (addRequests env lanDev wanDev rn mark) k) dev m ↔
      Filtered tc k dev m ∨
        (∃ n ∈ walked env lanDev wanDev (fwFilterReq env .newTfilter true rn mark),
          dev = n.tcmIfindex) ∧ m = mark := by
  -- classes and qdiscs leave the filters as they are
  have others : ∀ n ∈ walked env lanDev wanDev (pfifoQdiscReq .newQdisc true rn mark) ++
      walked env lanDev wanDev (htbClassReq .newTclass true rn mark),
      n.nlmsgType = .newTclass ∧ n.exclCreate = true ∨ n.nlmsgType = .newQdisc := by
    intro n member
    rcases List.mem_append.mp member with qdisc | cls
    · obtain ⟨i, dev, rfl⟩ := mem_walked qdisc
      exact .inr rfl
    · obtain ⟨i, dev, rfl⟩ := mem_walked cls
      exact .inl ⟨rfl, rfl⟩
  have filters : ∀ n ∈ walked env lanDev wanDev (fwFilterReq env .newTfilter true rn mark),
      n.nlmsgType = .newTfilter ∧ n.exclCreate = true ∧ ∃ mask flowid, n.options = .fw mask flowid := by
    intro n member
    obtain ⟨i, dev, rfl⟩ := mem_walked member
    exact ⟨rfl, rfl, _, _, rfl⟩
  have same : Filtered tc (tc.replay (walked env lanDev wanDev
      (pfifoQdiscReq .newQdisc true rn mark) ++ walked env lanDev wanDev
      (htbClassReq .newTclass true rn mark)) k) dev m ↔ Filtered tc k dev m := by
    unfold Filtered
    rw [replay_filters_of_others others]
  rw [addRequests, tc.replay_append, replay_newFilters filters, same]
  apply or_congr_right
  constructor
  · rintro ⟨n, member, here, rfl⟩
    refine ⟨⟨n, member, here⟩, ?_⟩
    obtain ⟨i, dev, rfl⟩ := mem_walked member
    rfl
  · rintro ⟨⟨n, member, here⟩, rfl⟩
    refine ⟨n, member, here, ?_⟩
    obtain ⟨i, dev, rfl⟩ := mem_walked member
    rfl

end Filters

/-! ## The mirror -/

/-- The mark of every entry with the class its filter leads to, under the rules of `t`. -/
def tagged (t : Registry) (entries : Multiset MarktblNode) : Set (Nat × Nat) :=
  {p | ∃ e ∈ entries, p = (e.mark, classid (t.rule e.id) e.mark)}

def liveFilters (t : Registry) : Set (Nat × Nat) := tagged t t.entries

def liveClasses (t : Registry) : Set Nat :=
  {c | ∃ e ∈ t.entries, c = classid (t.rule e.id) e.mark}

structure Mirrors {κ : Type} (tc : TcKernel κ) (lan wan : NetDevice) (t : Registry) (k : κ) :
    Prop where
  classes : ∀ dev, Interface lan wan dev → tc.classes k dev = liveClasses t
  filters : ∀ dev, Interface lan wan dev → tc.filters k dev = liveFilters t

/-- Sizes and device ids for which the class ids are 16 bits wide. -/
structure Configured (t : Registry) : Prop where
  ipCnt : t.ipCnt ≤ tcMaxIpCnt
  devid : ∀ id, t.ValidId id → (t.rule id).devid ≤ 13

theorem SameConfig.devid {t t' : Registry} (same : SameConfig t t') (id : Nat) :
    (t'.rule id).devid = (t.rule id).devid := by
  have config := congrFun same.config id
  exact congrArg (·.devid) config

theorem Configured.of_same {t t' : Registry} (conf : Configured t) (same : SameConfig t t') :
    Configured t' where
  ipCnt := same.ipCnt ▸ conf.ipCnt
  devid := by
    rintro id ⟨pos, le⟩
    rw [same.devid]
    exact conf.devid id ⟨pos, same.ruleCnt ▸ le⟩

section Mirror

variable {t t' : Registry} {env : Env} {ip : Be32} {id : Nat}

theorem tagged_cons (t : Registry) (e : MarktblNode) (entries : Multiset MarktblNode) :
    tagged t (e ::ₘ entries) =
      insert (e.mark, classid (t.rule e.id) e.mark) (tagged t entries) := by
  ext p
  simp [tagged]

theorem mem_tagged {e : MarktblNode} {entries : Multiset MarktblNode} (member : e ∈ entries) :
    (e.mark, classid (t.rule e.id) e.mark) ∈ tagged t entries :=
  ⟨e, member, rfl⟩

theorem SameConfig.liveFilters (same : SameConfig t t') :
    Verified.liveFilters t' = tagged t t'.entries := by
  have classes : ∀ id mark, classid (t'.rule id) mark = classid (t.rule id) mark :=
    fun id mark => classid_congr (same.devid id) mark
  simp only [Verified.liveFilters, tagged, classes]

theorem liveClasses_eq (t : Registry) : liveClasses t = Prod.snd '' liveFilters t := by
  ext c
  constructor
  · rintro ⟨e, member, rfl⟩
    exact ⟨_, mem_tagged member, rfl⟩
  · rintro ⟨p, ⟨e, member, rfl⟩, rfl⟩
    exact ⟨e, member, rfl⟩

/-- Entries with different marks have different classes of 16 bits. -/
theorem classMinor_of_entries (inv : Consistent ∅ t) (conf : Configured t) {e : MarktblNode}
    (member : e ∈ t.entries) : classMinor (t.rule e.id) e.mark < 2 ^ 16 ∧
      ∀ e' ∈ t.entries, e.mark ≠ e'.mark →
        classid (t.rule e.id) e.mark ≠ classid (t.rule e'.id) e'.mark := by
  have limit : t.ipCnt ≤ 4096 := conf.ipCnt
  have devid := conf.devid e.id (inv.validIds e member)
  obtain ⟨b, inRange, mark, _⟩ := inv.marked e member
  have minor : classMinor (t.rule e.id) e.mark < 2 ^ 16 := by
    rw [mark]
    exact classMinor_lt devid (by omega)
  refine ⟨minor, ?_⟩
  intro e' member' ne
  have devid' := conf.devid e'.id (inv.validIds e' member')
  obtain ⟨c, inRange', mark', _⟩ := inv.marked e' member'
  have minor' : classMinor (t.rule e'.id) e'.mark < 2 ^ 16 := by
    rw [mark']
    exact classMinor_lt devid' (by omega)
  rw [classid_eq minor, classid_eq minor', mark, mark']
  have offsets : b ≠ c := by
    rintro rfl
    exact ne (mark.trans mark'.symm)
  have minors := classMinor_ne devid devid' (by omega : b < 4096) (by omega : c < 4096) offsets
  omega

variable {κ : Type} {tc : TcKernel κ} {lan wan : NetDevice} {k : κ}

theorem Mirrors.congr (mirrors : Mirrors tc lan wan t k)
    (filters : Verified.liveFilters t' = Verified.liveFilters t) : Mirrors tc lan wan t' k where
  classes := by
    intro dev on
    rw [liveClasses_eq, filters, ← liveClasses_eq]
    exact mirrors.classes dev on
  filters := by
    intro dev on
    rw [filters]
    exact mirrors.filters dev on

/-- The requests for an entry show it. -/
theorem Mirrors.add (mirrors : Mirrors tc lan wan t k) {lanDev wanDev : String} {rn : RuletblNode}
    {mark : Nat} (wired : Wired lan wan env lanDev wanDev)
    (alike : ∀ c, (mark, c) ∈ Verified.liveFilters t → c = classid rn mark)
    (shown : Verified.liveFilters t' = insert (mark, classid rn mark) (Verified.liveFilters t)) :
    Mirrors tc lan wan t' (tc.replay (addRequests env lanDev wanDev rn mark) k) where
  classes := by
    intro dev on
    rw [(replay_addRequests wired on).1, mirrors.classes dev on, liveClasses_eq, liveClasses_eq,
      shown, Set.image_insert_eq]
  filters := by
    intro dev on
    rw [(replay_addRequests wired on).2, mirrors.filters dev on, shown]
    ext p
    constructor
    · rintro (old | ⟨_, rfl, _⟩)
      · exact .inr old
      · exact .inl rfl
    · rintro (rfl | old)
      · by_cases taken : ∃ f, (mark, f) ∈ Verified.liveFilters t
        · obtain ⟨f, inUse⟩ := taken
          exact .inl (alike f inUse ▸ inUse)
        · exact .inr ⟨trivial, rfl, fun f inUse => taken ⟨f, inUse⟩⟩
      · exact .inl old

/-- The requests for a freed mark remove what was shown of it. -/
theorem Mirrors.del (mirrors : Mirrors tc lan wan t k) {lanDev wanDev : String} {rn : RuletblNode}
    {mark : Nat} (wired : Wired lan wan env lanDev wanDev)
    (shown : Verified.liveFilters t = insert (mark, classid rn mark) (Verified.liveFilters t'))
    (others : ∀ p ∈ Verified.liveFilters t', p.1 ≠ mark ∧ p.2 ≠ classid rn mark) :
    Mirrors tc lan wan t' (tc.replay (delRequests env lanDev wanDev rn mark) k) := by
  -- the kernel keeps a class that another filter leads to
  have unused : ∀ dev, Interface lan wan dev → ∀ m, m ≠ mark →
      (m, classid rn mark) ∉ tc.filters k dev := by
    intro dev on m ne leads
    rw [mirrors.filters dev on, shown] at leads
    cases leads with
    | inl here => exact ne (congrArg Prod.fst here)
    | inr old => exact (others _ old).2 rfl
  constructor
  · intro dev on
    rw [(replay_delRequests wired on unused).1, mirrors.classes dev on, liveClasses_eq,
      liveClasses_eq, shown, Set.image_insert_eq]
    ext c
    constructor
    · rintro ⟨rfl | old, ne⟩
      · exact absurd rfl ne
      · exact old
    · rintro ⟨p, old, rfl⟩
      exact ⟨.inr ⟨p, old, rfl⟩, (others p old).2⟩
  · intro dev on
    rw [(replay_delRequests wired on unused).2, mirrors.filters dev on, shown]
    ext p
    constructor
    · rintro ⟨rfl | old, ne⟩
      · exact absurd rfl ne
      · exact old
    · intro old
      exact ⟨.inr old, (others p old).1⟩

/-- A connection taken off an entry: the mark is removed with its last entry. -/
theorem Mirrors.dropped (inv : Consistent ∅ t) (conf : Configured t) {k₀ : κ}
    (mirrors : Mirrors tc lan wan t (tc.replay t.sent k₀))
    (wired : Wired lan wan env t.lanDev t.wanDev)
    (dropped : Dropped (delRequests env t.lanDev t.wanDev) ip t t') :
    Mirrors tc lan wan t' (tc.replay t'.sent k₀) := by
  have shown := dropped.sameConfig.liveFilters
  cases dropped with
  | unknown fresh => exact mirrors
  | @kept e rest split here used =>
    apply mirrors.congr
    rw [shown]
    show tagged t (_ ::ₘ rest) = tagged t t.entries
    rw [split, tagged_cons, tagged_cons]
  | @left e rest split here idle isShare others =>
    apply mirrors.congr
    rw [shown]
    show tagged t rest = tagged t t.entries
    obtain ⟨e', inRest, sameId⟩ := others
    have sameMark : e'.mark = e.mark := inv.group_mark (split ▸ Multiset.mem_cons_self e rest)
      (split ▸ Multiset.mem_cons_of_mem inRest) isShare sameId
    have still := mem_tagged (t := t) inRest
    rw [sameMark, sameId] at still
    rw [split, tagged_cons, Set.insert_eq_of_mem still]
  | @freed e rest b split here idle last inRange mark =>
    have member : e ∈ t.entries := split ▸ Multiset.mem_cons_self e rest
    have alone := inv.unshared split last
    -- the request is built from the rule after its mark was cleared
    have sameClass : ∀ m, classid (((t.detach e rest).setMark e.id 0).rule e.id) m =
        classid (t.rule e.id) m := by
      intro m
      apply classid_congr
      simp [Registry.setMark]
    rw [show (((((t.detach e rest).setMark e.id 0).send _).freeBit b).sent) = _ ++ t.sent from rfl,
      tc.replay_append]
    apply mirrors.del wired
    · rw [shown, sameClass, liveFilters, split, tagged_cons]
      rfl
    · rw [shown, sameClass]
      rintro p ⟨e', inRest, rfl⟩
      have inTable : e' ∈ t.entries := split ▸ Multiset.mem_cons_of_mem inRest
      refine ⟨alone e' inRest, ?_⟩
      exact ((classMinor_of_entries inv conf member).2 e' inTable (alone e' inRest).symm).symm

theorem Mirrors.notified (inv : Consistent ∅ t) (conf : Configured t) {k₀ : κ}
    (mirrors : Mirrors tc lan wan t (tc.replay t.sent k₀))
    (wired : Wired lan wan env t.lanDev t.wanDev) {events : Nat} {ct : Option NfConn}
    (notified : Notified env events ct t t') :
    Mirrors tc lan wan t' (tc.replay t'.sent k₀) := by
  cases notified with
  | ignored => exact mirrors
  | destroyed ip destroys dropped => exact mirrors.dropped inv conf wired dropped
  | marked ip counted =>
    cases counted with
    | unknown fresh => exact mirrors
    | @raised e rest split here =>
      apply mirrors.congr
      show tagged t (_ ::ₘ rest) = tagged t t.entries
      rw [split, tagged_cons, tagged_cons]

/-- A first packet: the mark of a registered address is shown. -/
theorem Mirrors.allocated (inv : Consistent ∅ t) {k₀ : κ} {ret : RetCode} {mark : Nat}
    (mirrors : Mirrors tc lan wan t (tc.replay t.sent k₀))
    (wired : Wired lan wan env t.lanDev t.wanDev)
    (allocated : Allocated env ip id t ret mark t') :
    Mirrors tc lan wan t' (tc.replay t'.sent k₀) := by
  have same := allocated.sameConfig
  have shown := same.liveFilters
  by_cases accepted : ret = .ok
  · subst ret
    have sameClass : classid (t'.rule id) mark = classid (t.rule id) mark :=
      classid_congr (same.devid id) mark
    rw [allocated.sent_of_ok, tc.replay_append]
    apply mirrors.add wired
    · rintro c ⟨e, member, here⟩
      obtain ⟨rfl, rfl⟩ := Prod.mk.inj here
      rw [sameClass, allocated.own_of_ok inv e member rfl]
    · rw [shown, allocated.entries_of_ok, tagged_cons, sameClass]
      rfl
  · have entries := allocated.entries_of_fail accepted
    rw [allocated.sent_of_fail accepted]
    apply mirrors.congr
    rw [shown, entries]
    rfl

end Mirror

/-! ## Runs -/

/-- Packets under valid rule ids and conntrack events, in wired environments. -/
def Traffic (lan wan : NetDevice) (l : Env × Op) (s : St) : Prop :=
  Wired lan wan l.1 s.qmarkLanDev s.qmarkWanDev ∧
    match l.2 with
    | .packet _ info => s.registry.ValidId info.id
    | .conntrack _ _ => True
    | .ioctl _ => False

/-- Live classes, live filters, and that classes of different marks are different and
    16 bits wide. -/
structure TcInStep {κ : Type} (tc : TcKernel κ) (lan wan : NetDevice) (t : Registry) (k : κ) :
    Prop where
  mirrors : Mirrors tc lan wan t k
  minors : ∀ e ∈ t.entries, classMinor (t.rule e.id) e.mark < 2 ^ 16
  apart : ∀ e ∈ t.entries, ∀ e' ∈ t.entries, e.mark ≠ e'.mark →
    classid (t.rule e.id) e.mark ≠ classid (t.rule e'.id) e'.mark

section Runs

variable {κ : Type} {tc : TcKernel κ} {lan wan : NetDevice} {k₀ : κ}

structure TcInv (tc : TcKernel κ) (lan wan : NetDevice) (k₀ : κ) (s : St) : Prop where
  good : Good s
  conf : Configured s.registry
  mirrors : Mirrors tc lan wan s.registry (tc.replay s.sent k₀)

theorem Traffic.harmless {l : Env × Op} {s : St} (traffic : Traffic lan wan l s) :
    Harmless l s := by
  obtain ⟨env, op⟩ := l
  obtain ⟨_, allowed⟩ := traffic
  cases op with
  | ioctl cmd => exact allowed.elim
  | packet skb info => exact allowed
  | conntrack events ct => trivial

theorem TcInv.step {s s' : St} (inv : TcInv tc lan wan k₀ s) {l : Env × Op}
    (traffic : Traffic lan wan l s) (ran : opStep l s = .ok s') : TcInv tc lan wan k₀ s' := by
  have good := inv.good.stepped traffic.harmless ran
  obtain ⟨⟨wf, con⟩, conf, mirrors⟩ := inv
  obtain ⟨env, op⟩ := l
  obtain ⟨wired, allowed⟩ := traffic
  cases op with
  | ioctl cmd => exact allowed.elim
  | packet skb info =>
    obtain ⟨skb', handled⟩ := opStep_packet ran
    rcases qmarkHandle_done wf.represents con allowed handled with
      ⟨e, _, _, _, rfl⟩ | ⟨fresh, ret, mark, t', _, rep, allocated⟩
    · exact ⟨good, conf, mirrors⟩
    · obtain rfl : s'.registry = t' := rep.2
      exact ⟨good, conf.of_same allocated.sameConfig, mirrors.allocated con wired allocated⟩
  | conntrack events ct =>
    obtain ⟨t', s'', run, rep, notified⟩ :=
      qmarkConntrackEvent_spec env wf.represents con events ct
    simp only [opStep, exec, run] at ran
    cases ran
    obtain rfl : s''.registry = t' := rep.2
    exact ⟨good, conf.of_same notified.sameConfig, mirrors.notified con conf wired notified⟩

/-- In every state reached by traffic from empty tables the kernel mirrors the table, and
    the traffic goes on without a fault, unless the class of a packet divides by zero. -/
theorem tc_in_step {s₀ s : St} (start : Started s₀) (conf : Configured s₀.registry)
    (clean : ∀ dev, Interface lan wan dev →
      tc.classes (tc.replay s₀.sent k₀) dev = ∅ ∧ tc.filters (tc.replay s₀.sent k₀) dev = ∅)
    (run : Run opStep (Traffic lan wan) s₀ s) :
    TcInStep tc lan wan s.registry (tc.replay s.sent k₀) ∧
      ∀ l, Traffic lan wan l s → Paced l s → ∃ s', opStep l s = .ok s' := by
  -- with no entry and no class or filter the mirror is exact
  have startInv : TcInv tc lan wan k₀ s₀ := by
    refine ⟨start.good, conf, ?_, ?_⟩
    · intro dev on
      rw [(clean dev on).1, liveClasses, start.empty]
      simp
    · intro dev on
      rw [(clean dev on).2, liveFilters, tagged, start.empty]
      simp
  have inv : TcInv tc lan wan k₀ s := by
    apply run.invariant _ startInv
    intro l y z invY traffic ran
    exact invY.step traffic ran
  refine ⟨⟨inv.mirrors, ?_, ?_⟩, ?_⟩
  · intro e member
    exact (classMinor_of_entries inv.good.2 inv.conf member).1
  · intro e member e' member' ne
    exact (classMinor_of_entries inv.good.2 inv.conf member).2 e' member' ne
  · intro l traffic paced
    obtain ⟨s', ran, _⟩ := inv.good.succeeds traffic.harmless paced
    exact ⟨s', ran⟩

end Runs

/-! ## A kernel that keeps lists -/

/-- The classes as (interface, handle), the filters as (interface, handle, flowid). -/
structure TcLists where
  classes : List (Nat × Nat)
  filters : List (Nat × Nat × Nat)

def TcLists.send (n : RtnlReq) (k : TcLists) : TcLists :=
  match n.nlmsgType with
  | .newTclass =>
    if (n.tcmIfindex, n.tcmHandle) ∈ k.classes then k
    else { k with classes := (n.tcmIfindex, n.tcmHandle) :: k.classes }
  | .delTclass =>
    -- EBUSY while a filter leads to the class
    if k.filters.any fun f => f.1 = n.tcmIfindex ∧ f.2.2 = n.tcmHandle then k
    else { k with classes := k.classes.filter (· ≠ (n.tcmIfindex, n.tcmHandle)) }
  | .newQdisc => k
  | .newTfilter =>
    match n.options with
    | .fw _ flowid =>
      -- EEXIST for a handle in use
      if k.filters.any fun f => f.1 = n.tcmIfindex ∧ f.2.1 = n.tcmHandle then k
      else { k with filters := (n.tcmIfindex, n.tcmHandle, flowid) :: k.filters }
    | _ => k
  | .delTfilter =>
    { k with filters := k.filters.filter fun f => ¬ (f.1 = n.tcmIfindex ∧ f.2.1 = n.tcmHandle) }

def TcLists.kernel : TcKernel TcLists where
  send := TcLists.send
  classes k dev := {c | (dev, c) ∈ k.classes}
  filters k dev := {p | (dev, p) ∈ k.filters}
  newTclass := by
    intro n k dev type _
    simp only [TcLists.send, type]
    constructor
    · ext c
      split <;> split <;> simp_all
    · split <;> rfl
  delTclass := by
    intro n k dev type unused
    have free : k.filters.any (fun f => f.1 = n.tcmIfindex ∧ f.2.2 = n.tcmHandle) = false := by
      rw [List.any_eq_false]
      rintro ⟨dev', mark, c⟩ member leads
      simp only [decide_eq_true_eq] at leads
      obtain ⟨rfl, rfl⟩ := leads
      exact unused mark member
    simp only [TcLists.send, type, free]
    constructor
    · ext c
      by_cases here : dev = n.tcmIfindex
      · subst dev
        simp
      · simp [here]
    · rfl
  newQdisc := by
    intro n k dev type
    simp only [TcLists.send, type]
    exact ⟨trivial, trivial⟩
  newTfilter := by
    intro n k dev mask flowid type _ options
    simp only [TcLists.send, type, options]
    constructor
    · split <;> rfl
    · ext p
      by_cases inUse : ∃ f, (n.tcmIfindex, n.tcmHandle, f) ∈ k.filters
      · obtain ⟨f, taken⟩ := inUse
        have busy : k.filters.any (fun f => f.1 = n.tcmIfindex ∧ f.2.1 = n.tcmHandle) = true :=
          List.any_eq_true.mpr ⟨_, taken, by simp⟩
        rw [if_pos busy]
        constructor
        · exact .inl
        · rintro (old | ⟨rfl, rfl, free⟩)
          · exact old
          · exact absurd taken (free f)
      · have free : ∀ f, (n.tcmIfindex, n.tcmHandle, f) ∉ k.filters :=
          fun f taken => inUse ⟨f, taken⟩
        have idle : k.filters.any (fun f => f.1 = n.tcmIfindex ∧ f.2.1 = n.tcmHandle) = false := by
          rw [List.any_eq_false]
          rintro ⟨dev', mark, f⟩ member same
          simp only [decide_eq_true_eq] at same
          obtain ⟨rfl, rfl⟩ := same
          exact free f member
        simp only [idle, Bool.false_eq_true, if_false, added, Set.mem_ofPred_eq, List.mem_cons]
        constructor
        · rintro (new | old)
          · obtain ⟨rfl, rfl⟩ := Prod.mk.inj new
            exact .inr ⟨rfl, rfl, free⟩
          · exact .inl old
        · rintro (old | ⟨rfl, rfl, _⟩)
          · exact .inr old
          · exact .inl rfl
  delTfilter := by
    intro n k dev type
    simp only [TcLists.send, type]
    refine ⟨trivial, ?_⟩
    ext p
    by_cases here : dev = n.tcmIfindex
    · simp [here]
    · simp [here]

/-- A share group of two whose first member goes again. -/
def comingAndGoing : List (Env × Op) :=
  [(plainEnv, .packet ⟨0, 7, 9⟩ ⟨0xfff800, 1, 0⟩),
   (plainEnv, .packet ⟨0, 8, 9⟩ ⟨0xfff800, 1, 0⟩),
   (plainEnv, .conntrack ipctDestroy (some ⟨afInet, false, 0x800, ⟨7, 9⟩, ⟨9, 7⟩⟩))]

theorem comingAndGoing_allowed :
    Allowed opStep (Traffic ⟨2, 1500⟩ ⟨3, 1500⟩) comingAndGoing sharedSt := by
  have wired : Wired ⟨2, 1500⟩ ⟨3, 1500⟩ plainEnv "eth0" "agl0" := ⟨rfl, rfl, fun _ => rfl⟩
  exact ⟨⟨wired, by decide⟩, ⟨wired, by decide⟩, ⟨wired, trivial⟩, trivial⟩

theorem comingAndGoing_in_step :
    ∃ s, runAll opStep comingAndGoing sharedSt = .ok s ∧
      TcInStep TcLists.kernel ⟨2, 1500⟩ ⟨3, 1500⟩ s.registry
        (TcLists.kernel.replay s.sent ⟨[], []⟩) := by
  refine ⟨_, rfl, ?_⟩
  have clean : ∀ dev, Interface ⟨2, 1500⟩ ⟨3, 1500⟩ dev →
      TcLists.kernel.classes (TcLists.kernel.replay sharedSt.sent ⟨[], []⟩) dev = ∅ ∧
        TcLists.kernel.filters (TcLists.kernel.replay sharedSt.sent ⟨[], []⟩) dev = ∅ := by
    intro dev _
    constructor <;> (ext x; exact iff_of_false List.not_mem_nil id)
  have conf : Configured sharedSt.registry := by
    refine ⟨by decide, ?_⟩
    rintro id ⟨pos, le⟩
    change id ≤ 2 at le
    interval_cases id <;> decide
  exact (tc_in_step sharedSt_started conf clean (Run.of_runAll comingAndGoing_allowed rfl)).1

end IpQos.Verified
