import IpQos.Lib.Field
import IpQos.Verified.Connections
import IpQos.Verified.Ranges
import IpQos.Verified.Shape
import IpQos.Verified.TrafficControl

/-! # The qmark target

Which address of a connection its packets and its events are booked under, and what the
mark of a packet becomes between the masks that the scripts, the target and the filters
hard-code. -/

namespace IpQos.Verified

open IpQos.Kmod
open IpQos.Lib (Ensures Run Allowed runAll field testBit_field)

variable {env : Env} {s s' : St}

/-! ## Addresses of a connection -/

/-- A forwarded connection between a LAN host and an outside host, with any translation. -/
structure Forwarded where
  lan : Be32
  outside : Be32
  distinct : lan ≠ outside
  /-- The LAN host opened it. -/
  fromLan : Bool
  /-- The destination address the initiator used. -/
  dialled : Be32
  /-- The source address of the initiator after translation. -/
  translated : Be32

namespace Forwarded

variable (c : Forwarded)

def initiator : Be32 := if c.fromLan then c.lan else c.outside

def responder : Be32 := if c.fromLan then c.outside else c.lan

def original : Tuple := { srcIp := c.initiator, dstIp := c.dialled }

def reply : Tuple := { srcIp := c.responder, dstIp := c.translated }

/-- A packet of the connection as FORWARD sees it. -/
def packet (toWan : Bool) (mark : Nat) : SkBuff :=
  if toWan then { mark, saddr := c.lan, daddr := c.outside }
  else { mark, saddr := c.outside, daddr := c.lan }

/-- The rules of the scripts: dir 0 towards the WAN, dir 1 towards the LAN. -/
def target (toWan : Bool) (mask id : Nat) : TgInfo :=
  { mask, id, dir := if toWan then 0 else 1 }

theorem packet_key (toWan : Bool) (mark mask id : Nat) :
    (target toWan mask id).ipAddr (c.packet toWan mark) = c.lan := by
  cases toWan with
  | true => rfl
  | false => rfl

/-- The LAN host dialled the responder itself, or the initiator dialled another address than
    that of the LAN host. -/
def Recognised : Prop :=
  (c.fromLan = true ∧ c.dialled = c.outside) ∨ (c.fromLan = false ∧ c.dialled ≠ c.lan)

theorem event_key {ct : NfConn} (original : ct.original = c.original)
    (reply : ct.reply = c.reply) : ct.ipAddr = c.lan ↔ c.Recognised := by
  have key : ct.ipAddr = if c.dialled = c.responder then c.initiator else c.responder := by
    unfold NfConn.ipAddr
    rw [original, reply]
    rfl
  rw [key]
  unfold Recognised initiator responder
  cases opener : c.fromLan with
  | true =>
    -- the responder is the outside host
    by_cases direct : c.dialled = c.outside
    · simp [direct]
    · simp [direct, c.distinct.symm]
  | false =>
    -- the responder is the LAN host
    by_cases direct : c.dialled = c.lan
    · simp [direct, c.distinct.symm]
    · simp [direct]

end Forwarded

/-- The events of a connection are booked under the address of its packets if and only if the
    handler recognises its LAN side. -/
theorem same_key_iff (c : Forwarded) {ct : NfConn} (original : ct.original = c.original)
    (reply : ct.reply = c.reply) (toWan : Bool) (mark mask id : Nat) :
    (Forwarded.target toWan mask id).ipAddr (c.packet toWan mark) = c.lan ∧
      (ct.ipAddr = (Forwarded.target toWan mask id).ipAddr (c.packet toWan mark) ↔
        c.Recognised) := by
  have packet := c.packet_key toWan mark mask id
  rw [packet]
  exact ⟨rfl, c.event_key original reply⟩

/-- A LAN host behind source NAT. -/
def webConn : Forwarded := ⟨7, 9, by decide, true, 9, 1⟩

theorem webConn_same_key :
    (⟨afInet, false, 0x800, webConn.original, webConn.reply⟩ : NfConn).ipAddr =
      (Forwarded.target false 0x7f800 1).ipAddr (webConn.packet false 0) :=
  (same_key_iff webConn rfl rfl false 0 0x7f800 1).2.mpr (.inl ⟨rfl, rfl⟩)

/-- An outside host that reaches the LAN host under its own address. -/
def routedConn : Forwarded := ⟨7, 9, by decide, false, 7, 9⟩

theorem routedConn_other_key :
    ¬ ∀ (c : Forwarded) (ct : NfConn) (toWan : Bool) (mark mask id : Nat),
      ct.original = c.original → ct.reply = c.reply →
      ct.ipAddr = (Forwarded.target toWan mask id).ipAddr (c.packet toWan mark) := by
  intro same
  have differ := same routedConn
    ⟨afInet, false, 0x800, routedConn.original, routedConn.reply⟩ false 0 0x7f800 1 rfl rfl
  revert differ
  decide

/-! ## The entry behind a marked packet -/

section Entry

variable {key : Be32} {id mark mark' : Nat} {ret : RetCode}

theorem marktblHashGet_congr {a b : St} (same : a.gMarktblHead = b.gMarktblHead) (key : Be32) :
    marktblHashGet key a = marktblHashGet key b := by
  unfold marktblHashGet
  rw [same]

theorem modifyRule_head {f : RuletblNode → RuletblNode} (ran : modifyRule id f s = .ok s') :
    s'.gMarktblHead = s.gMarktblHead := by
  obtain ⟨tbl, _, ran⟩ := bind_eq_ok ran
  split at ran
  · cases ran
    rfl
  · cases ran

theorem freeMark_head (ran : freeMark mark s = .ok s') : s'.gMarktblHead = s.gMarktblHead := by
  obtain ⟨bm, _, ran⟩ := bind_eq_ok ran
  obtain ⟨bm', _, ran⟩ := bind_eq_ok ran
  cases ran
  rfl

theorem qmarkAllocMark_head (ran : qmarkAllocMark s = .ok (ret, mark, s')) :
    s'.gMarktblHead = s.gMarktblHead := by
  obtain ⟨⟨mark', s₁⟩, alloc, ran⟩ := bind_eq_ok ran
  have kept : s₁.gMarktblHead = s.gMarktblHead := by
    obtain ⟨bm, _, alloc⟩ := bind_eq_ok alloc
    dsimp only at alloc
    split at alloc
    · cases alloc
      rfl
    · obtain ⟨bm', _, alloc⟩ := bind_eq_ok alloc
      obtain ⟨_, rfl⟩ := Prod.mk.inj (Except.ok.inj alloc)
      rfl
  dsimp only at ran
  split at ran <;> cases ran <;> exact kept

/-- An address without entry gets one, at the head of its chain, or stays without. -/
theorem qmarkAddHash_cases (ran : qmarkAddHash env key id mark s = .ok (ret, s')) :
    (ret ≠ .ok ∧ s' = s) ∨
      (ret = .ok ∧ marktblHashGet key s' = .ok (some { srcIp := key, id, mark, count := 0 })) := by
  obtain ⟨allocated, _, ran⟩ := bind_eq_ok ran
  split at ran
  · cases ran
    exact .inl ⟨by decide, rfl⟩
  · obtain ⟨limited, _, ran⟩ := bind_eq_ok ran
    split at ran
    · cases ran
      exact .inl ⟨by decide, rfl⟩
    · obtain ⟨head, deref, ran⟩ := bind_eq_ok ran
      obtain ⟨i, index, ran⟩ := bind_eq_ok ran
      obtain ⟨chain, here, ran⟩ := bind_eq_ok ran
      split at ran
      -- the duplicate branch dereferences NULL
      · obtain ⟨_, null, _⟩ := bind_eq_ok ran
        cases null
      · split at ran
        · obtain ⟨s₁, _, ran⟩ := bind_eq_ok ran
          cases ran
          -- a lookup finds the entry at once: it stands first in its chain
          have at_i : head.ht[i]? = some chain := by
            unfold bucket at here
            split at here
            · cases here
              assumption
            · cases here
          have first : marktblHashCmp key { srcIp := key, id, mark, count := 0 } = true := by
            simp [marktblHashCmp]
          refine .inr ⟨rfl, ?_⟩
          unfold marktblHashGet
          show (Except.ok _ >>= _) = _
          rw [ok_bind]
          show (hashIndex head key >>= _) = _
          rw [index, ok_bind, bucket]
          dsimp only
          rw [List.getElem?_modify_eq, at_i]
          show Except.ok (List.find? _ _) = _
          rw [List.find?_cons_of_pos first]
        · cases ran
          exact .inl ⟨by decide, rfl⟩

theorem allocMarkAutoAdd_cases (fresh : marktblHashGet key s = .ok none)
    (ran : allocMarkAutoAdd env key id mark s = .ok (ret, mark', s')) :
    (ret ≠ .ok ∧ marktblHashGet key s' = .ok none) ∨
      (ret = .ok ∧ mark' = mark ∧
        marktblHashGet key s' = .ok (some { srcIp := key, id, mark, count := 0 })) := by
  obtain ⟨⟨ret', s₁⟩, add, rest⟩ := bind_eq_ok ran
  clear ran
  dsimp only at rest
  cases qmarkAddHash_cases add with
  | inl failed =>
    obtain ⟨notOk, rfl⟩ := failed
    -- giving the mark back does not touch the hash table
    rw [if_pos notOk] at rest
    obtain ⟨rn, _, rest⟩ := bind_eq_ok rest
    split at rest
    · obtain ⟨s₂, clear, rest⟩ := bind_eq_ok rest
      obtain ⟨s₃, free, rest⟩ := bind_eq_ok rest
      cases rest
      refine .inl ⟨by decide, ?_⟩
      rw [← fresh]
      exact marktblHashGet_congr ((freeMark_head free).trans (modifyRule_head clear)) key
    · cases rest
      exact .inl ⟨by decide, fresh⟩
  | inr added =>
    obtain ⟨rfl, found⟩ := added
    rw [if_neg (not_not.mpr rfl)] at rest
    obtain ⟨rn, _, rest⟩ := bind_eq_ok rest
    obtain ⟨s₂, shown, rest⟩ := bind_eq_ok rest
    cases rest
    refine .inr ⟨rfl, rfl, ?_⟩
    rw [← found, qmarkTcAddRule_done shown]
    rfl

/-- The mark of a new entry was handed out by `alloc_mark`, now or to an earlier member. -/
theorem qmarkAllocMarkAuto_cases (indexed : Indexed s) (word : id < 2 ^ 32)
    (fresh : marktblHashGet key s = .ok none)
    (ran : qmarkAllocMarkAuto env key id mark s = .ok (ret, mark', s')) :
    (ret ≠ .ok ∧ marktblHashGet key s' = .ok none) ∨
      (ret = .ok ∧ (∃ b < s.maxIpCnt, mark' = bitMark b) ∧
        marktblHashGet key s' = .ok (some { srcIp := key, id, mark := mark', count := 0 })) := by
  unfold qmarkAllocMarkAuto at ran
  split at ran
  · cases ran
    exact .inl ⟨by decide, fresh⟩
  · obtain ⟨rn, found, ran⟩ := bind_eq_ok ran
    have rule := indexed.ruleAt (G := False) word False.elim
    rw [found] at rule
    have kept := rule.returned.2
    -- a mark of its own, for a private rule or the first member of a share rule
    have own : ∀ {s₁ s₂ : St} {code : RetCode} {m : Nat},
        qmarkAllocMark s = .ok (code, m, s₁) → code = .ok → s₂.gMarktblHead = s₁.gMarktblHead →
        allocMarkAutoAdd env key id m s₂ = .ok (ret, mark', s') →
        (ret ≠ .ok ∧ marktblHashGet key s' = .ok none) ∨
          (ret = .ok ∧ (∃ b < s.maxIpCnt, mark' = bitMark b) ∧
            marktblHashGet key s' =
              .ok (some { srcIp := key, id, mark := mark', count := 0 })) := by
      intro s₁ s₂ code m alloc ok sameHead add
      have handed := indexed.qmarkAllocMark (G := False)
      rw [alloc] at handed
      have fresh₂ : marktblHashGet key s₂ = .ok none := by
        rw [← fresh]
        exact marktblHashGet_congr (sameHead.trans (qmarkAllocMark_head alloc)) key
      cases allocMarkAutoAdd_cases fresh₂ add with
      | inl failed => exact .inl failed
      | inr added =>
        obtain ⟨isOk, rfl, entry⟩ := added
        exact .inr ⟨isOk, (handed.returned.2 ok).2, entry⟩
    split at ran
    · obtain ⟨⟨code, m, s₁⟩, alloc, ran⟩ := bind_eq_ok ran
      dsimp only at ran
      split at ran
      · cases ran
        refine .inl ⟨by decide, ?_⟩
        rw [← fresh]
        exact marktblHashGet_congr (qmarkAllocMark_head alloc) key
      · exact own alloc (not_not.mp ‹_›) rfl ran
    · split at ran
      · obtain ⟨⟨code, m, s₁⟩, alloc, ran⟩ := bind_eq_ok ran
        dsimp only at ran
        split at ran
        · cases ran
          refine .inl ⟨by decide, ?_⟩
          rw [← fresh]
          exact marktblHashGet_congr (qmarkAllocMark_head alloc) key
        · obtain ⟨s₂, store, ran⟩ := bind_eq_ok ran
          exact own alloc (not_not.mp ‹_›) (modifyRule_head store) ran
      · cases allocMarkAutoAdd_cases fresh ran with
        | inl failed => exact .inl failed
        | inr added =>
          obtain ⟨isOk, rfl, entry⟩ := added
          -- mark 0 would not have passed the test
          have tested := indexed.allocMarkAutoAdd_inTable word (Indexed.kept_word kept) ran
          cases kept with
          | inl zero =>
            rw [zero] at tested
            exact absurd tested.1 (by decide)
          | inr bit => exact .inr ⟨isOk, bit, entry⟩

/-- Nothing is sent, and the devices are those of before. -/
structure Unsent (s s' : St) : Prop where
  sent : s'.sent = s.sent
  lanDev : s'.qmarkLanDev = s.qmarkLanDev
  wanDev : s'.qmarkWanDev = s.qmarkWanDev

theorem Unsent.refl (s : St) : Unsent s s := ⟨rfl, rfl, rfl⟩

theorem Unsent.trans {s s' s'' : St} (first : Unsent s s') (second : Unsent s' s'') :
    Unsent s s'' where
  sent := second.sent.trans first.sent
  lanDev := second.lanDev.trans first.lanDev
  wanDev := second.wanDev.trans first.wanDev

theorem Unsent.modifyRule {f : RuletblNode → RuletblNode}
    (ran : Kmod.modifyRule id f s = .ok s') : Unsent s s' := by
  obtain ⟨tbl, _, ran⟩ := bind_eq_ok ran
  split at ran
  · cases ran
    exact ⟨rfl, rfl, rfl⟩
  · cases ran

theorem Unsent.qmarkAllocMark (ran : Kmod.qmarkAllocMark s = .ok (ret, mark, s')) :
    Unsent s s' := by
  obtain ⟨⟨mark', s₁⟩, alloc, ran⟩ := bind_eq_ok ran
  have kept : Unsent s s₁ := by
    obtain ⟨bm, _, alloc⟩ := bind_eq_ok alloc
    dsimp only at alloc
    split at alloc
    · cases alloc
      exact .refl s
    · obtain ⟨bm', _, alloc⟩ := bind_eq_ok alloc
      obtain ⟨_, rfl⟩ := Prod.mk.inj (Except.ok.inj alloc)
      exact ⟨rfl, rfl, rfl⟩
  dsimp only at ran
  split at ran <;> cases ran <;> exact kept

theorem Unsent.qmarkAddHash (ran : Kmod.qmarkAddHash env key id mark s = .ok (ret, s')) :
    Unsent s s' := by
  obtain ⟨allocated, _, ran⟩ := bind_eq_ok ran
  split at ran
  · cases ran
    exact .refl s
  · obtain ⟨limited, _, ran⟩ := bind_eq_ok ran
    split at ran
    · cases ran
      exact .refl s
    · obtain ⟨head, _, ran⟩ := bind_eq_ok ran
      obtain ⟨i, _, ran⟩ := bind_eq_ok ran
      obtain ⟨chain, _, ran⟩ := bind_eq_ok ran
      split at ran
      · obtain ⟨_, null, _⟩ := bind_eq_ok ran
        cases null
      · split at ran
        · obtain ⟨s₁, count, ran⟩ := bind_eq_ok ran
          cases ran
          have counted := Unsent.modifyRule count
          exact ⟨counted.sent, counted.lanDev, counted.wanDev⟩
        · cases ran
          exact .refl s

/-- The request for the filter of a mark under the rule reaches the interface `dev`. -/
def FilterSent (env : Env) (s : St) (id dev mark : Nat) : Prop :=
  ∃ rn, ruleAt id s = .ok rn ∧
    ∃ n ∈ walked env s.qmarkLanDev s.qmarkWanDev (fwFilterReq env .newTfilter true rn mark),
      dev = n.tcmIfindex

/-- The parameters of a rule are those it had before an entry was made. -/
theorem ruleAt_framed {s₁ : St} (framed : Framed s s₁) {rn : RuletblNode}
    (found : ruleAt id s₁ = .ok rn) : ∃ rn₀, ruleAt id s = .ok rn₀ ∧ rn.params = rn₀.params := by
  obtain ⟨tbl₁, deref, found⟩ := bind_eq_ok found
  have mapped := framed.rules
  rw [Ptr.deref_eq_ok deref] at mapped
  obtain ⟨tbl, live, params⟩ := Ptr.map_eq_to mapped.symm
  have here := congrArg (·[subU32 id 1]?) params
  simp only [List.getElem?_map] at here
  split at found
  · next rn₁ at_id =>
    cases found
    rw [at_id] at here
    obtain ⟨rn₀, at_id₀, same⟩ := Option.map_eq_some_iff.mp here
    refine ⟨rn₀, ?_, same.symm⟩
    rw [ruleAt, live, Ptr.deref_to, ok_bind, at_id₀]
  · cases found

theorem fwFilterReq_congr {rn rn' : RuletblNode} (same : rn.params = rn'.params) (cmd : RtmCmd)
    (exclCreate : Bool) (mark : Nat) :
    fwFilterReq env cmd exclCreate rn mark = fwFilterReq env cmd exclCreate rn' mark := by
  have devid : rn.devid = rn'.devid := congrArg (·.devid) same
  funext i dev
  rw [fwFilterReq, fwFilterReq, classid_congr devid]

section Filtered

variable {κ : Type} {tc : TcKernel κ} {k₀ : κ} {dev m : Nat}

theorem allocMarkAutoAdd_filtered {s₀ : St} (unsent : Unsent s₀ s) (framed : Framed s₀ s)
    (ran : allocMarkAutoAdd env key id mark s = .ok (.ok, mark', s')) :
    Filtered tc (tc.replay s'.sent k₀) dev m ↔
      Filtered tc (tc.replay s₀.sent k₀) dev m ∨ FilterSent env s₀ id dev mark' ∧ m = mark' := by
  obtain ⟨⟨ret', s₁⟩, add, ran⟩ := bind_eq_ok ran
  have unsent₁ := unsent.trans (.qmarkAddHash add)
  have framed₁ := framed.trans (.qmarkAddHash add)
  dsimp only at ran
  split at ran
  · obtain ⟨rn, _, ran⟩ := bind_eq_ok ran
    split at ran
    · obtain ⟨s₂, _, ran⟩ := bind_eq_ok ran
      obtain ⟨s₃, _, ran⟩ := bind_eq_ok ran
      cases ran
    · cases ran
  · obtain ⟨rn, found, ran⟩ := bind_eq_ok ran
    obtain ⟨s₂, shown, ran⟩ := bind_eq_ok ran
    cases ran
    -- the insertion has changed the count of the rule, which no request reads
    obtain ⟨rn₀, found₀, params⟩ := ruleAt_framed framed₁ found
    rw [qmarkTcAddRule_done shown, unsent₁.sent, unsent₁.lanDev, unsent₁.wanDev, tc.replay_append,
      filtered_addRequests, fwFilterReq_congr params]
    apply or_congr_right
    apply and_congr_left'
    constructor
    · intro sent
      exact ⟨rn₀, found₀, sent⟩
    · rintro ⟨rn', found', sent⟩
      cases found₀.symm.trans found'
      exact sent

/-- The filters after an address was given a mark. -/
theorem qmarkAllocMarkAuto_filtered
    (ran : qmarkAllocMarkAuto env key id mark s = .ok (.ok, mark', s')) :
    Filtered tc (tc.replay s'.sent k₀) dev m ↔
      Filtered tc (tc.replay s.sent k₀) dev m ∨ FilterSent env s id dev mark' ∧ m = mark' := by
  unfold qmarkAllocMarkAuto at ran
  split at ran
  · cases ran
  · obtain ⟨rn, _, ran⟩ := bind_eq_ok ran
    split at ran
    · obtain ⟨⟨code, own, s₁⟩, alloc, ran⟩ := bind_eq_ok ran
      dsimp only at ran
      split at ran
      · cases ran
      · exact allocMarkAutoAdd_filtered (.qmarkAllocMark alloc) (.qmarkAllocMark alloc) ran
    · split at ran
      · obtain ⟨⟨code, own, s₁⟩, alloc, ran⟩ := bind_eq_ok ran
        dsimp only at ran
        split at ran
        · cases ran
        · obtain ⟨s₂, store, ran⟩ := bind_eq_ok ran
          exact allocMarkAutoAdd_filtered ((Unsent.qmarkAllocMark alloc).trans (.modifyRule store))
            ((Framed.qmarkAllocMark alloc).trans (.modifyRule store fun _ => rfl)) ran
      · exact allocMarkAutoAdd_filtered (.refl s) (.refl s) ran

end Filtered

/-- The mark that is waiting for an address under a rule: that of its entry, that of the rule's
    members, or the lowest one not in use. -/
def markAhead (key : Be32) (id : Nat) (s : St) : Except Oops Nat := do
  match ← marktblHashGet key s with
  | some e => return e.mark
  | none =>
    let rn ← ruleAt id s
    if privMode = rn.mode ∨ 0 = rn.count then
      let bm ← s.markBitmap.deref
      return bitMark (findFirstZeroBit bm s.maxIpCnt)
    else return rn.mark

theorem markAhead_fresh (fresh : marktblHashGet key s = .ok none) {rn : RuletblNode}
    (rule : ruleAt id s = .ok rn) :
    markAhead key id s =
      if privMode = rn.mode ∨ 0 = rn.count then
        s.markBitmap.deref.map fun bm => bitMark (findFirstZeroBit bm s.maxIpCnt)
      else .ok rn.mark := by
  rw [markAhead, fresh, ok_bind]
  dsimp only
  rw [rule, ok_bind]
  rfl

/-- `alloc_mark` hands out the lowest mark. -/
theorem qmarkAllocMark_lowest (ran : qmarkAllocMark s = .ok (.ok, mark, s')) :
    s.markBitmap.deref.map (fun bm => bitMark (findFirstZeroBit bm s.maxIpCnt)) = .ok mark := by
  obtain ⟨⟨mark', s₁⟩, alloc, ran⟩ := bind_eq_ok ran
  obtain ⟨bm, live, alloc⟩ := bind_eq_ok alloc
  dsimp only at alloc ran
  split at ran
  · cases ran
  · next nonzero =>
    cases ran
    split at alloc
    · cases alloc
      exact absurd rfl nonzero
    · obtain ⟨bm', _, alloc⟩ := bind_eq_ok alloc
      obtain ⟨handed, _⟩ := Prod.mk.inj (Except.ok.inj alloc)
      rw [live, ← handed]
      rfl

theorem allocMarkAutoAdd_mark (ran : allocMarkAutoAdd env key id mark s = .ok (ret, mark', s')) :
    mark' = mark := by
  obtain ⟨⟨ret', s₁⟩, _, ran⟩ := bind_eq_ok ran
  dsimp only at ran
  split at ran
  · obtain ⟨rn, _, ran⟩ := bind_eq_ok ran
    split at ran
    · obtain ⟨s₂, _, ran⟩ := bind_eq_ok ran
      obtain ⟨s₃, _, ran⟩ := bind_eq_ok ran
      cases ran
      rfl
    · cases ran
      rfl
  · obtain ⟨rn, _, ran⟩ := bind_eq_ok ran
    obtain ⟨s₂, _, ran⟩ := bind_eq_ok ran
    cases ran
    rfl

/-- A new entry gets the mark that was waiting for it. -/
theorem markAhead_of_auto (fresh : marktblHashGet key s = .ok none)
    (ran : qmarkAllocMarkAuto env key id mark s = .ok (.ok, mark', s')) :
    markAhead key id s = .ok mark' := by
  unfold qmarkAllocMarkAuto at ran
  split at ran
  · cases ran
  · obtain ⟨rn, rule, ran⟩ := bind_eq_ok ran
    rw [markAhead_fresh fresh rule]
    split at ran
    -- a mark of its own is the lowest one, a borrowed one that of the rule
    · next isPriv =>
      obtain ⟨⟨code, own, s₁⟩, alloc, ran⟩ := bind_eq_ok ran
      dsimp only at ran
      split at ran
      · cases ran
      · next ok =>
        obtain rfl := not_not.mp ok
        rw [if_pos (.inl isPriv), qmarkAllocMark_lowest alloc, allocMarkAutoAdd_mark ran]
    · next isShare =>
      split at ran
      · next empty =>
        obtain ⟨⟨code, own, s₁⟩, alloc, ran⟩ := bind_eq_ok ran
        dsimp only at ran
        split at ran
        · cases ran
        · next ok =>
          obtain rfl := not_not.mp ok
          obtain ⟨s₂, _, ran⟩ := bind_eq_ok ran
          rw [if_pos (.inr empty), qmarkAllocMark_lowest alloc, allocMarkAutoAdd_mark ran]
      · next members =>
        rw [if_neg (not_or.mpr ⟨isShare, members⟩), allocMarkAutoAdd_mark ran]

/-- A packet whose address has an entry afterwards carries the mark of that entry. -/
theorem qmarkHandle_marked (indexed : Indexed s) {skb skb' : SkBuff} {info : TgInfo}
    {e : MarktblNode} (word : info.id < 2 ^ 32)
    (ran : qmarkHandle env skb info s = .ok (skb', s'))
    (entry : marktblHashGet (info.ipAddr skb) s' = .ok (some e)) :
    skb' = { skb with mark := setMark skb.mark info.mask e.mark } ∧
      (marktblHashGet (info.ipAddr skb) s = .ok (some e) ∧ s' = s ∨
        marktblHashGet (info.ipAddr skb) s = .ok none ∧ (∃ b < s.maxIpCnt, e.mark = bitMark b) ∧
          ∃ mark, qmarkAllocMarkAuto env (info.ipAddr skb) info.id mark s = .ok (.ok, e.mark, s')) := by
  obtain ⟨⟨code, mark⟩, find, ran⟩ := bind_eq_ok ran
  obtain ⟨found, get, find⟩ := bind_eq_ok find
  have sound := indexed.marktblHashGet (G := False) (info.ipAddr skb) False.elim
  rw [get] at sound
  cases found with
  | some e₀ =>
    cases find
    -- the target takes mark 0 for a missing entry, so no entry may have it
    have marked : e₀.mark ≠ 0 := by
      intro zero
      have := (sound.returned e₀ rfl).mark.1
      rw [zero] at this
      exact absurd this (by decide)
    dsimp only at ran
    rw [if_neg marked] at ran
    cases ran
    rw [entry] at get
    cases get
    exact ⟨rfl, .inl ⟨entry, rfl⟩⟩
  | none =>
    cases find
    dsimp only at ran
    rw [if_pos rfl] at ran
    obtain ⟨⟨ret, mark', s₁⟩, auto, ran⟩ := bind_eq_ok ran
    dsimp only at ran
    cases qmarkAllocMarkAuto_cases indexed word get auto with
    | inl failed =>
      rw [if_pos failed.1] at ran
      cases ran
      rw [failed.2] at entry
      cases entry
    | inr added =>
      obtain ⟨rfl, bit, found⟩ := added
      rw [if_neg (not_not.mpr rfl)] at ran
      cases ran
      rw [found] at entry
      cases entry
      exact ⟨rfl, .inr ⟨get, bit, _, auto⟩⟩

end Entry

/-! ## Masks -/

/-- `QOS_MARK_RULE_MASK`: bits 11 to 18. -/
def targetMask : Nat := 0x7f800

theorem targetMask_eq : targetMask = field 11 8 := rfl

/-- The filters compare bits 11 to 23. -/
theorem fwMask_eq : fwMask = field 11 13 := rfl

/-- The rule of the fw classifier: the mark of the packet under the mask that every filter of
    `tc_fw_filter_modify` has is the handle of the filter. -/
def FwMatches (handle : Nat) (skb : SkBuff) : Prop := skb.mark &&& fwMask = handle

/-- The target has sent a packet to the filter of the entry `e`, and to no other of those
    installed on the interface. -/
structure OwnClass {κ : Type} (tc : TcKernel κ) (k₀ : κ) (dev : Nat) (skb skb' : SkBuff)
    (info : TgInfo) (e : MarktblNode) (s' : St) : Prop where
  outside : ∀ i, targetMask.testBit i = false → skb'.mark.testBit i = skb.mark.testBit i
  inside : ∀ i, targetMask.testBit i = true → skb'.mark.testBit i = e.mark.testBit i
  installed : Filtered tc (tc.replay s'.sent k₀) dev e.mark
  filter : ∀ p ∈ tc.filters (tc.replay s'.sent k₀) dev, FwMatches p.1 skb' ↔ p.1 = e.mark
  again : ∀ env : Env, qmarkHandle env skb' info s' = .ok (skb', s')

theorem testBit_targetMask (i : Nat) : targetMask.testBit i = decide (11 ≤ i ∧ i < 19) := by
  rw [targetMask_eq, testBit_field]

/-- The number of a mark fits the mask of the target. -/
theorem mark_small {mark : Nat} (number : mark >>> markBase < 2 ^ 8) : mark < 2 ^ 19 := by
  unfold markBase at number
  rw [Nat.shiftRight_eq_div_pow] at number
  omega

theorem testBit_high {mark : Nat} (number : mark >>> markBase < 2 ^ 8) {i : Nat}
    (from_19 : 19 ≤ i) : mark.testBit i = false :=
  Nat.testBit_lt_two_pow
    (Nat.lt_of_lt_of_le (mark_small number) (Nat.pow_le_pow_right (by decide) from_19))

theorem bitMark_aligned (b : Nat) : bitMark b &&& field 0 11 = 0 := by
  rw [IpQos.Lib.and_field_eq_zero_iff]
  intro i _ below
  have value : bitMark b = ((b + 1) % 2 ^ 21) <<< 11 := by
    unfold bitMark u32 markBase
    rw [Nat.shiftLeft_eq, Nat.shiftLeft_eq]
    omega
  rw [value]
  exact IpQos.Lib.testBit_shiftLeft_lt (by omega)

section Merge

variable {κ : Type} {tc : TcKernel κ} {k₀ : κ} {dev : Nat} {skb skb' : SkBuff} {info : TgInfo}
  {e : MarktblNode}

/-- The entry found, the target merges its mark in. -/
theorem qmarkHandle_found (env : Env) (found : marktblHashGet (info.ipAddr skb) s = .ok (some e))
    (marked : e.mark ≠ 0) :
    qmarkHandle env skb info s =
      .ok ({ skb with mark := setMark skb.mark info.mask e.mark }, s) := by
  unfold qmarkHandle qmarkFindHash qosMarktblHashtblGet
  rw [found]
  show (if e.mark = 0 then _ else _) = _
  rw [if_neg marked]
  rfl

theorem ownClass_of_clear (word : skb.mark < 2 ^ 32)
    (merged : skb' = { skb with mark := setMark skb.mark targetMask e.mark })
    (mask : info.mask = targetMask)
    (entry : marktblHashGet (info.ipAddr skb) s' = .ok (some e))
    (marked : e.mark ≠ 0) (number : e.mark >>> markBase < 2 ^ 8) (high : skb.mark &&& field 19 5 = 0)
    (aligned : e.mark &&& field 0 11 = 0)
    (installed : Filtered tc (tc.replay s'.sent k₀) dev e.mark) :
    OwnClass tc k₀ dev skb skb' info e s' := by
  rw [IpQos.Lib.and_field_eq_zero_iff] at high aligned
  have bits : ∀ i, skb'.mark.testBit i =
      ((skb.mark.testBit i && !targetMask.testBit i) ^^ e.mark.testBit i) := by
    rw [merged]
    exact testBit_setMark word targetMask e.mark
  -- bit by bit: the mark of the entry lies inside the mask
  have only : ∀ i, targetMask.testBit i = false → e.mark.testBit i = false := by
    intro i outside
    rw [testBit_targetMask, decide_eq_false_iff_not] at outside
    by_cases low : i < 11
    · exact aligned i (Nat.zero_le i) (by omega)
    · exact testBit_high number (by omega)
  have inside : ∀ i, targetMask.testBit i = true → skb'.mark.testBit i = e.mark.testBit i := by
    intro i set
    rw [bits, set, Bool.not_true, Bool.and_false, Bool.false_xor]
  have outside : ∀ i, targetMask.testBit i = false →
      skb'.mark.testBit i = skb.mark.testBit i := by
    intro i unset
    rw [bits, only i unset, unset, Bool.not_false, Bool.and_true, Bool.xor_false]
  have underFw : skb'.mark &&& fwMask = e.mark := by
    apply Nat.eq_of_testBit_eq
    intro i
    rw [Nat.testBit_and, fwMask_eq, testBit_field]
    -- the filter compares more bits than the target writes, those from 19 to 23
    cases target : targetMask.testBit i with
    | true =>
      have range := target
      rw [testBit_targetMask, decide_eq_true_eq] at range
      rw [inside i target, decide_eq_true (by omega), Bool.and_true]
    | false =>
      rw [only i target, outside i target]
      by_cases compared : 11 ≤ i ∧ i < 11 + 13
      · rw [testBit_targetMask, decide_eq_false_iff_not] at target
        rw [high i (by omega) (by omega), Bool.false_and]
      · rw [decide_eq_false compared, Bool.and_false]
  refine ⟨outside, inside, installed, ?_, ?_⟩
  · intro p _
    rw [FwMatches, underFw, eq_comm]
  · intro env
    have sameAddress : info.ipAddr skb' = info.ipAddr skb := by rw [merged]; rfl
    rw [qmarkHandle_found env (sameAddress ▸ entry) marked, mask]
    have word' : skb'.mark < 2 ^ 32 := by
      rw [merged]
      exact Nat.xor_lt_two_pow (Nat.and_lt_two_pow _ (by decide))
        (Nat.lt_trans (mark_small number) (by decide))
    -- XOR of the same mark into cleared bits: a second time is no different
    have same : setMark skb'.mark targetMask e.mark = skb'.mark := by
      apply Nat.eq_of_testBit_eq
      intro i
      rw [testBit_setMark word']
      cases target : targetMask.testBit i with
      | true => rw [inside i target, Bool.not_true, Bool.and_false, Bool.false_xor]
      | false => rw [only i target, Bool.not_false, Bool.and_true, Bool.xor_false]
    rw [same]

theorem clear_of_ownClass (number : e.mark >>> markBase < 2 ^ 8) (own : OwnClass tc k₀ dev skb skb' info e s') :
    skb.mark &&& field 19 5 = 0 ∧ e.mark &&& field 0 11 = 0 := by
  obtain ⟨flowid, member⟩ := own.installed
  have underFw : skb'.mark &&& fwMask = e.mark := (own.filter _ member).mpr rfl
  -- the filter of the entry matches, so its mark is the packet's under the filter's mask
  have bit : ∀ i, e.mark.testBit i = (skb'.mark.testBit i && decide (11 ≤ i ∧ i < 11 + 13)) := by
    intro i
    rw [← testBit_field, ← fwMask_eq, ← Nat.testBit_and, underFw]
  rw [IpQos.Lib.and_field_eq_zero_iff, IpQos.Lib.and_field_eq_zero_iff]
  constructor
  · intro i from_19 below
    have unset : targetMask.testBit i = false := by
      rw [testBit_targetMask, decide_eq_false_iff_not]
      omega
    have compared := bit i
    rw [testBit_high number from_19, own.outside i unset, decide_eq_true (by omega),
      Bool.and_true] at compared
    exact compared.symm
  · intro i _ below
    rw [bit i, decide_eq_false (by omega), Bool.and_false]

end Merge

/-- With the layout of the scripts a marked packet reaches the filter of its entry if and only
    if no other module has set one of bits 19 to 23, the entry, when `HASH_ADD` has made it, has
    a mark without low bits, and a filter for the mark that waits for the address was installed
    before or the packet, the first of its address, gets one through. -/
theorem own_class_iff {κ : Type} (tc : TcKernel κ) (k₀ : κ) (dev : Nat) (reached : Reached s)
    (layout : s.maxIpCnt = 254) {skb skb' : SkBuff} {info : TgInfo} {e : MarktblNode}
    (words : (Op.packet skb info).Words) (mask : info.mask = targetMask)
    (ran : qmarkHandle env skb info s = .ok (skb', s'))
    (entry : marktblHashGet (info.ipAddr skb) s' = .ok (some e)) :
    OwnClass tc k₀ dev skb skb' info e s' ↔ skb.mark &&& 0xf80000 = 0 ∧
      (∀ e', marktblHashGet (info.ipAddr skb) s = .ok (some e') → e'.mark &&& 0x7ff = 0) ∧
      ∃ mark, markAhead (info.ipAddr skb) info.id s = .ok mark ∧
        (Filtered tc (tc.replay s.sent k₀) dev mark ∨
          marktblHashGet (info.ipAddr skb) s = .ok none ∧ FilterSent env s info.id dev mark) := by
  have indexed := reached.indexed
  obtain ⟨merged, before⟩ := qmarkHandle_marked indexed words.2 ran entry
  rw [mask] at merged
  -- the bitmap has 254 bits, so the number of a mark fits in eight
  have inTable : InTable (e.mark >>> markBase) 254 := by
    have kept := indexed.qmarkHandle (G := False) env skb info words.2 False.elim
      False.elim
    rw [ran] at kept
    have sound := kept.returned.marktblHashGet (G := False) (info.ipAddr skb) False.elim
    rw [entry] at sound
    rw [← layout, ← (Framed.qmarkHandle ran).maxIpCnt]
    exact (sound.returned e rfl).mark
  have aligned : e.mark &&& 0x7ff = 0 ↔
      ∀ e', marktblHashGet (info.ipAddr skb) s = .ok (some e') → e'.mark &&& 0x7ff = 0 := by
    rcases before with ⟨old, _⟩ | ⟨fresh, ⟨b, _, handed⟩, _⟩
    · rw [old]
      constructor
      · intro low e' same
        cases same
        exact low
      · intro low
        exact low e rfl
    · rw [fresh, handed]
      constructor
      · intro _ e' same
        cases same
      · intro _
        exact bitMark_aligned b
  have installed : Filtered tc (tc.replay s'.sent k₀) dev e.mark ↔
      Filtered tc (tc.replay s.sent k₀) dev e.mark ∨
        marktblHashGet (info.ipAddr skb) s = .ok none ∧ FilterSent env s info.id dev e.mark := by
    rcases before with ⟨old, rfl⟩ | ⟨fresh, _, mark, auto⟩
    · simp [old]
    · simp [qmarkAllocMarkAuto_filtered auto, fresh]
  -- and `e.mark` is the mark that was waiting
  have ahead : markAhead (info.ipAddr skb) info.id s = .ok e.mark := by
    rcases before with ⟨old, _⟩ | ⟨fresh, _, mark, auto⟩
    · rw [markAhead, old]
      rfl
    · exact markAhead_of_auto fresh auto
  simp only [ahead, Except.ok.injEq, exists_eq_left']
  rw [← aligned, ← installed]
  have number : e.mark >>> markBase < 2 ^ 8 := Nat.lt_of_le_of_lt inTable.2 (by decide)
  constructor
  · intro own
    obtain ⟨high, low⟩ := clear_of_ownClass number own
    exact ⟨high, low, own.installed⟩
  · rintro ⟨high, low, filtered⟩
    have marked : e.mark ≠ 0 := by
      intro zero
      rw [zero] at inTable
      exact absurd inTable.1 (by decide)
    exact ownClass_of_clear words.1 merged mask entry marked number high low filtered

/-- The sizes of the scripts and a private rule. -/
def layoutTrace : List (Env × Op) :=
  [(plainEnv, .ioctl (.specSet 254 20)),
    (plainEnv, .ioctl (.ruleAdd ⟨1, privMode, 2, 100, 0, 0, 0⟩))]

theorem layoutTrace_words : ∀ l ∈ layoutTrace, l.2.Words := by
  intro l member
  simp only [layoutTrace, List.mem_cons, List.not_mem_nil, or_false] at member
  rcases member with rfl | rfl
  · exact ⟨by decide, by decide⟩
  · show 1 < 2 ^ 32
    decide

def layoutInfo : TgInfo := ⟨targetMask, 1, 0⟩

/-- The rule of the trace. -/
def layoutRule : RuletblNode :=
  { RuletblNode.zero with mode := privMode, on := true, devid := 2, rate := 100 }

/-- The request for the filter of the first mark reaches the WAN device. -/
theorem layoutTrace_sends (ran : runAll opStep layoutTrace (qosMarktblInit plainEnv).2 = .ok s) :
    FilterSent plainEnv s 1 3 0x800 := by
  have facts : (runAll opStep layoutTrace (qosMarktblInit plainEnv).2).map
      (fun s => (ruleAt 1 s, s.qmarkLanDev, s.qmarkWanDev)) =
        .ok (.ok layoutRule, "eth0", "agl0") := by decide +kernel
  rw [ran] at facts
  obtain ⟨rule, devices⟩ := Prod.mk.inj (Except.ok.inj facts)
  obtain ⟨lanDev, wanDev⟩ := Prod.mk.inj devices
  refine ⟨layoutRule, rule, fwFilterReq plainEnv .newTfilter true layoutRule 0x800 1 ⟨3, 1500⟩,
    ?_, rfl⟩
  rw [lanDev, wanDev]
  decide

/-- The first packet of an address, with the mark it comes with and the one it leaves with. -/
theorem layout_packet (before after : Nat)
    (ends : (runAll opStep layoutTrace (qosMarktblInit plainEnv).2 >>= fun s =>
        (qmarkHandle plainEnv ⟨before, 7, 9⟩ layoutInfo s).map fun r =>
          ((s.maxIpCnt, marktblHashGet 7 s, markAhead 7 1 s), r.1.mark, marktblHashGet 7 r.2)) =
      .ok ((254, .ok none, .ok 0x800), after,
        .ok (some { srcIp := 7, id := 1, mark := 0x800, count := 0 }))) :
    ∃ s skb' s', Reached s ∧ s.maxIpCnt = 254 ∧ marktblHashGet 7 s = .ok none ∧
      markAhead 7 1 s = .ok 0x800 ∧ FilterSent plainEnv s 1 3 0x800 ∧
      qmarkHandle plainEnv ⟨before, 7, 9⟩ layoutInfo s = .ok (skb', s') ∧ skb'.mark = after ∧
      marktblHashGet 7 s' = .ok (some { srcIp := 7, id := 1, mark := 0x800, count := 0 }) := by
  obtain ⟨s, start, rest⟩ := bind_eq_ok ends
  obtain ⟨⟨skb', s'⟩, handle, same⟩ := map_eq_ok rest
  simp only [Prod.mk.injEq] at same
  obtain ⟨⟨layout, fresh, ahead⟩, left, entry⟩ := same
  exact ⟨s, skb', s', reached_of_trace layoutTrace layoutTrace_words start, layout, fresh, ahead,
    layoutTrace_sends start, handle, left, entry⟩

/-- A packet that nobody has marked before, on the WAN device. -/
theorem cleanPacket_own_class :
    ∃ s skb' s' e, Reached s ∧ qmarkHandle plainEnv ⟨0, 7, 9⟩ layoutInfo s = .ok (skb', s') ∧
      OwnClass TcLists.kernel ⟨[], []⟩ 3 ⟨0, 7, 9⟩ skb' layoutInfo e s' := by
  obtain ⟨s, skb', s', reached, layout, fresh, ahead, sent, ran, _, entry⟩ :=
    layout_packet 0 0x800 (by decide +kernel)
  refine ⟨s, skb', s', _, reached, ran, (own_class_iff TcLists.kernel ⟨[], []⟩ 3 reached layout
    ⟨by decide, by decide⟩ rfl ran entry).mpr ⟨by decide, ?_, 0x800, ahead, .inr ⟨fresh, sent⟩⟩⟩
  intro e found
  rw [show layoutInfo.ipAddr ⟨0, 7, 9⟩ = 7 from rfl, fresh] at found
  cases found

/-- A packet of the device manager, which sets bit 19, is put under no filter of its entry. -/
theorem managedPacket_no_class :
    ¬ ∀ (env : Env) (s s' : St) (skb skb' : SkBuff) (info : TgInfo) (e : MarktblNode),
      Reached s → s.maxIpCnt = 254 → (Op.packet skb info).Words → info.mask = targetMask →
      qmarkHandle env skb info s = .ok (skb', s') →
      marktblHashGet (info.ipAddr skb) s' = .ok (some e) →
      OwnClass TcLists.kernel ⟨[], []⟩ 3 skb skb' info e s' := by
  intro own
  obtain ⟨s, skb', s', reached, layout, _, _, _, ran, left, entry⟩ :=
    layout_packet 0x80000 0x80800 (by decide +kernel)
  have class' := own plainEnv s s' _ skb' layoutInfo _ reached layout ⟨by decide, by decide⟩ rfl
    ran entry
  obtain ⟨flowid, installed⟩ := class'.installed
  have underFw : skb'.mark &&& fwMask = 0x800 := (class'.filter _ installed).mpr rfl
  rw [left] at underFw
  exact absurd underFw (by decide)

/-! ## Sizes -/

/-- `ip_spec=$((QOS_CELL_SPEC-2))`, read into a `uint32_t`. -/
def ipSpecOf (cellSpec : Nat) : Nat := subU32 cellSpec 2

/-- The next mark has a bit in the bitmap and suits both masks, and no bit is lost when there
    is none. -/
def FitsMasks (s : St) : Prop :=
  qmarkAllocMark s ≠ .error .overrun ∧
    ∀ ret mark s', qmarkAllocMark s = .ok (ret, mark, s') →
      (ret = .ok → mark ≠ 0 ∧ mark &&& targetMask = mark ∧ mark &&& fwMask = mark) ∧
      (ret ≠ .ok → s' = s)

theorem bitMark_fits {b : Nat} (small : b + 1 < 2 ^ 8) :
    bitMark b ≠ 0 ∧ bitMark b &&& targetMask = bitMark b ∧ bitMark b &&& fwMask = bitMark b := by
  have number : bitMark b >>> markBase < 2 ^ 8 := by
    rw [bitMark_shiftRight]
    omega
  have aligned := IpQos.Lib.and_field_eq_zero_iff.mp (bitMark_aligned b)
  have inside : ∀ i, (bitMark b).testBit i = true → 11 ≤ i ∧ i < 11 + 8 := by
    intro i set
    by_contra outside
    have unset : (bitMark b).testBit i = false := by
      by_cases low : i < 11
      · exact aligned i (Nat.zero_le i) (by omega)
      · exact testBit_high number (by omega)
    rw [unset] at set
    cases set
  rw [fwMask_eq, targetMask_eq]
  refine ⟨?_, IpQos.Lib.and_field_eq_self_iff.mpr inside, IpQos.Lib.and_field_eq_self_iff.mpr ?_⟩
  · intro zero
    have shifted := bitMark_shiftRight b
    rw [zero, Nat.zero_shiftRight] at shifted
    omega
  · intro i set
    have range := inside i set
    omega

theorem qmarkAllocMark_in_bitmap (indexed : Indexed s) (small : s.maxIpCnt ≤ 255) :
    qmarkAllocMark s ≠ .error .overrun := by
  intro ran
  -- up to 255 bits the number of longs does not wrap
  have within : Ensures (· = .overrun) (fun _ => True) (allocMark s) := by
    have deref : Ensures (· = .overrun) (fun bm => s.markBitmap = .to bm) s.markBitmap.deref := by
      match s.markBitmap with
      | .null | .dangling => exact .error nofun
      | .to _ => exact .ok rfl
    apply deref.bind
    intro bm live
    have length : bm.length = s.maxIpCnt :=
      (indexed.bits bm live).trans (allottedBits_of_small (by omega))
    apply Ensures.ite
    · intro _
      exact .ok trivial
    · intro below
      rw [writeBit, if_pos (by omega), ok_bind]
      exact .ok trivial
  have ensures : Ensures (· = .overrun) (fun _ => True) (qmarkAllocMark s) := by
    apply within.bind
    intro r _
    apply Ensures.ite
    · intro _
      exact .ok trivial
    · intro _
      exact .ok trivial
  rw [ran] at ensures
  exact ensures.failed rfl

theorem fitsMasks_of_small (indexed : Indexed s) (small : s.maxIpCnt ≤ 255) : FitsMasks s := by
  refine ⟨qmarkAllocMark_in_bitmap indexed small, ?_⟩
  intro ret mark s' ran
  obtain ⟨⟨mark', s₁⟩, alloc, ran⟩ := bind_eq_ok ran
  obtain ⟨bm, _, alloc⟩ := bind_eq_ok alloc
  dsimp only at alloc
  split at alloc
  · obtain ⟨rfl, rfl⟩ := Prod.mk.inj (Except.ok.inj alloc)
    cases ran
    exact ⟨fun ok => (by cases ok), fun _ => rfl⟩
  · rename_i below
    obtain ⟨bm', _, alloc⟩ := bind_eq_ok alloc
    obtain ⟨handed, rfl⟩ := Prod.mk.inj (Except.ok.inj alloc)
    have fits := bitMark_fits (b := findFirstZeroBit bm s.maxIpCnt) (by omega)
    have same : mark' = bitMark (findFirstZeroBit bm s.maxIpCnt) := handed.symm
    rw [← same] at fits
    have nonzero : ¬ 0 = mark' := fun zero => fits.1 zero.symm
    dsimp only at ran
    rw [if_neg nonzero] at ran
    cases ran
    exact ⟨fun _ => fits, fun notOk => absurd rfl notOk⟩

/-! ## A bitmap filled from below -/

/-- A bitmap of `n` bits with the first `k` set. -/
def filled (n k : Nat) : List Bool := List.replicate k true ++ List.replicate (n - k) false

theorem findIdx_filled (k : Nat) (rest : List Bool) :
    (List.replicate k true ++ false :: rest).findIdx (!·) = k := by
  induction k with
  | zero => rfl
  | succ k ih =>
    rw [List.replicate_succ, List.cons_append, List.findIdx_cons, ih]
    rfl

theorem set_filled (k : Nat) (rest : List Bool) :
    (List.replicate k true ++ false :: rest).set k true = List.replicate (k + 1) true ++ rest := by
  induction k with
  | zero => rfl
  | succ k ih =>
    rw [List.replicate_succ, List.cons_append, List.set_cons_succ, ih]
    rfl

theorem filled_succ {n k : Nat} (lt : k < n) :
    filled n k = List.replicate k true ++ false :: List.replicate (n - (k + 1)) false := by
  unfold filled
  rw [show n - k = n - (k + 1) + 1 by omega, List.replicate_succ]

theorem length_filled {n k : Nat} (le : k ≤ n) : (filled n k).length = n := by
  unfold filled
  rw [List.length_append, List.length_replicate, List.length_replicate]
  omega

theorem allocMark_filled (x : St) {n k : Nat} (size : x.maxIpCnt = n) (lt : k < n) :
    allocMark (x.setBits (filled n k)) = .ok (bitMark k, x.setBits (filled n (k + 1))) := by
  have length : (filled n k).length = n := length_filled (Nat.le_of_lt lt)
  have first : findFirstZeroBit (filled n k) n = k := by
    unfold findFirstZeroBit
    rw [List.take_of_length_le (Nat.le_of_eq length), filled_succ lt, findIdx_filled]
  have set : (filled n k).set k true = filled n (k + 1) := by
    rw [filled_succ lt, set_filled]
    rfl
  have notFull : ¬ k ≥ n := Nat.not_le_of_lt lt
  have inRange : k < (filled n k).length := Nat.lt_of_lt_of_eq lt length.symm
  have sameSize : (x.setBits (filled n k)).maxIpCnt = n := size
  unfold allocMark
  rw [show (x.setBits (filled n k)).markBitmap.deref = .ok (filled n k) from rfl, ok_bind, sameSize,
    first]
  dsimp only
  rw [if_neg notFull, writeBit, if_pos inRange, ok_bind, set]
  rfl

/-- Memory for everything but the head of the hash table. -/
def headlessEnv : Env := { plainEnv with kmalloc := fun site => site ≠ .marktblHead }

/-- Every size can be set: where the buckets would overrun their memory, the head is missing. -/
theorem spec_reached {n : Nat} (word : n < 2 ^ 32) :
    ∃ x, Reached x ∧ x.maxIpCnt = n ∧
      x.markBitmap = .to (List.replicate (allottedBits n) false) := by
  have reach {env : Env} {x : St}
      (ran : qmarkSetSpec env n 1 (qosMarktblInit plainEnv).2 = .ok x) (copied : env.copyFromUser = 0) :
      Reached x := by
    have words : (Op.ioctl (.specSet n 1)).Words := ⟨word, by decide⟩
    have step : opStep (env, .ioctl (.specSet n 1)) (qosMarktblInit plainEnv).2 = .ok x := by
      rw [opStep_ioctl, qmarkCdevIoctl, afterCopy, if_neg (by omega), ran]
      rfl
    exact ⟨plainEnv, rfl, .single words step⟩
  by_cases unwrapped : Unwrapped n 1
  · have ran := (Shaped.init plainEnv_alloc).qmarkSetSpec_eq plainEnv_alloc unwrapped
    exact ⟨_, reach ran rfl, rfl, congrArg (fun bits => Ptr.to (List.replicate bits false))
      unwrapped.bits.symm⟩
  · have ran : qmarkSetSpec headlessEnv n 1 (qosMarktblInit plainEnv).2 = .ok _ := rfl
    exact ⟨_, reach ran rfl, rfl, rfl⟩

/-- Any number of marks below the size can be in use. -/
theorem filled_reached {x : St} {n k : Nat} (reached : Reached (x.setBits (filled n 0)))
    (size : x.maxIpCnt = n) (le : k ≤ n) : Reached (x.setBits (filled n k)) := by
  induction k with
  | zero => exact reached
  | succ k ih =>
    have alloc : opStep (plainEnv, .ioctl .markAlo) (x.setBits (filled n k)) =
        .ok (x.setBits (filled n (k + 1))) := by
      rw [opStep_ioctl]
      show ((qmarkAllocMark _ >>= _) : Except Oops (Reply × St)).map _ = _
      unfold qmarkAllocMark
      rw [allocMark_filled x size le, ok_bind]
      dsimp only
      split <;> rfl
    have words : (Op.ioctl .markAlo).Words := trivial
    obtain ⟨env, started, run⟩ := ih (Nat.le_of_succ_le le)
    exact ⟨env, started, .tail run words alloc⟩

/-- The 256th mark is 0x80000. -/
theorem outgrown {n : Nat} (word : n < 2 ^ 32) (many : 255 < n) :
    ∃ s, Reached s ∧ s.maxIpCnt = n ∧ ¬ FitsMasks s := by
  obtain ⟨x, reached, size, bits⟩ := spec_reached word
  by_cases whole : n + 31 < 2 ^ 32
  -- 255 marks are taken, and the next one is the 256th
  · have same : x.setBits (filled n 0) = x := by
      rw [allottedBits_of_small whole] at bits
      cases x
      cases bits
      rfl
    have ran : qmarkAllocMark (x.setBits (filled n 255)) =
        .ok (.ok, bitMark 255, x.setBits (filled n 256)) := by
      unfold qmarkAllocMark
      rw [allocMark_filled x size many]
      rfl
    refine ⟨x.setBits (filled n 255),
      filled_reached (same.symm ▸ reached) size (Nat.le_of_lt many), size, ?_⟩
    intro fits
    have mark := (fits.2 _ _ _ ran).1 rfl
    exact absurd mark.2.1 (by decide)
  · -- the number of longs wraps to 0, and the first bit is past them
    have none : allottedBits n = 0 := by
      unfold allottedBits u32 bitsPerLong
      omega
    refine ⟨x, reached, size, fun fits => fits.1 ?_⟩
    have positive : 0 < n := by omega
    simp [qmarkAllocMark, allocMark, bits, none, size, findFirstZeroBit, writeBit, Oops.beyond,
      positive, Nat.not_le.mpr positive]

/-- The marks of every run fit the masks if and only if there are at most 255 of them. -/
theorem marks_fit_iff {cellSpec : Nat} (word : cellSpec < 2 ^ 32) :
    (∀ s, Reached s → s.maxIpCnt = ipSpecOf cellSpec → FitsMasks s) ↔
      2 ≤ cellSpec ∧ cellSpec ≤ 257 := by
  constructor
  · intro fits
    by_contra outside
    have many : 255 < ipSpecOf cellSpec := by
      unfold ipSpecOf subU32 u32
      omega
    obtain ⟨s, reached, size, unfit⟩ := outgrown (Nat.mod_lt _ (by decide)) many
    exact unfit (fits s reached size)
  · rintro ⟨low, high⟩ s reached size
    apply fitsMasks_of_small reached.indexed
    rw [size]
    unfold ipSpecOf subU32 u32
    omega

/-- The default of the scripts, after their `SPEC_SET`. -/
theorem default_marks_fit :
    ∃ s, Reached s ∧ s.maxIpCnt = 254 ∧ FitsMasks s := by
  obtain ⟨s, reached, size, _⟩ := spec_reached (n := 254) (by decide)
  exact ⟨s, reached, size,
    (marks_fit_iff (by decide : 256 < 2 ^ 32)).mpr ⟨by decide, by decide⟩ s reached size⟩

/-- One size more than the mask of the target has numbers. -/
theorem marks_outgrow_mask :
    ¬ ∀ cellSpec : Nat, cellSpec < 2 ^ 32 →
      ∀ s, Reached s → s.maxIpCnt = ipSpecOf cellSpec → FitsMasks s := by
  intro fits
  obtain ⟨s, reached, size, unfit⟩ := outgrown (n := ipSpecOf 258) (by decide) (by decide)
  exact unfit (fits 258 (by decide) s reached size)

end IpQos.Verified
