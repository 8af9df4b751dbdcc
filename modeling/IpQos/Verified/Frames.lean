import IpQos.Kmod.Interleaved
import IpQos.Verified.Rates

/-! # What the datapath leaves alone

No packet, event or single command on a mark or an entry touches `reset_flag`, the
sizes, the parameters of a rule or the liveness of a table.  Unlike the results on
registries, those here hold from any state, however inconsistent its tables are. -/

namespace IpQos.Kmod

def Ptr.map {α β : Type} (f : α → β) : Ptr α → Ptr β
  | .null => .null
  | .dangling => .dangling
  | .to a => .to (f a)

theorem Ptr.deref_eq_ok {α : Type} {p : Ptr α} {a : α} (ran : p.deref = .ok a) : p = .to a := by
  match p with
  | .null => cases ran
  | .dangling => cases ran
  | .to _ =>
    cases ran
    rfl

/-- A rule without its mark and its count. -/
def RuletblNode.params (rn : RuletblNode) : RuletblNode := { rn with mark := 0, count := 0 }

end IpQos.Kmod

namespace IpQos.Verified

open IpQos.Kmod

/-- From `s` to `s'` only the contents of the tables change. -/
structure Framed (s s' : St) : Prop where
  resetFlag : s'.resetFlag = s.resetFlag
  maxIpCnt : s'.maxIpCnt = s.maxIpCnt
  maxRuleCnt : s'.maxRuleCnt = s.maxRuleCnt
  bits : s'.markBitmap.map List.length = s.markBitmap.map List.length
  rules : s'.gRuletbl.map (List.map RuletblNode.params) =
    s.gRuletbl.map (List.map RuletblNode.params)
  head : s'.gMarktblHead.map (fun _ => ()) = s.gMarktblHead.map (fun _ => ())

namespace Framed

variable {env : Env} {s s' s'' : St}

theorem refl (s : St) : Framed s s := ⟨rfl, rfl, rfl, rfl, rfl, rfl⟩

theorem trans (first : Framed s s') (second : Framed s' s'') : Framed s s'' where
  resetFlag := second.resetFlag.trans first.resetFlag
  maxIpCnt := second.maxIpCnt.trans first.maxIpCnt
  maxRuleCnt := second.maxRuleCnt.trans first.maxRuleCnt
  bits := second.bits.trans first.bits
  rules := second.rules.trans first.rules
  head := second.head.trans first.head

/-! ## One table written -/

theorem setHead {head : MarktblHead} (live : s.gMarktblHead = .to head) (head' : MarktblHead) :
    Framed s (s.setHead head') := by
  refine ⟨rfl, rfl, rfl, rfl, rfl, ?_⟩
  rw [live]
  rfl

theorem setBits {bm bm' : List Bool} (live : s.markBitmap = .to bm)
    (length : bm'.length = bm.length) : Framed s (s.setBits bm') := by
  refine ⟨rfl, rfl, rfl, ?_, rfl, rfl⟩
  rw [live]
  exact congrArg Ptr.to length

theorem setRules {tbl tbl' : List RuletblNode} (live : s.gRuletbl = .to tbl)
    (params : tbl'.map RuletblNode.params = tbl.map RuletblNode.params) :
    Framed s (s.setRules tbl') := by
  refine ⟨rfl, rfl, rfl, rfl, ?_, rfl⟩
  rw [live]
  exact congrArg Ptr.to params

theorem modifyRule {id : Nat} {f : RuletblNode → RuletblNode}
    (ran : Kmod.modifyRule id f s = .ok s') (keeps : ∀ rn, (f rn).params = rn.params) :
    Framed s s' := by
  obtain ⟨tbl, deref, ran⟩ := bind_eq_ok ran
  split at ran
  · cases ran
    apply setRules (Ptr.deref_eq_ok deref)
    apply List.ext_getElem?
    intro i
    rw [List.getElem?_map, List.getElem?_map, List.getElem?_modify]
    cases tbl[i]? with
    | none => rfl
    | some rn =>
      by_cases here : subU32 id 1 = i
      · simp [here, keeps]
      · simp [here]
  · cases ran

theorem modifyNode {key : Be32} {f : MarktblNode → MarktblNode}
    (ran : Kmod.modifyNode key f s = .ok s') : Framed s s' := by
  obtain ⟨head, deref, ran⟩ := bind_eq_ok ran
  obtain ⟨i, _, ran⟩ := bind_eq_ok ran
  obtain ⟨chain, _, ran⟩ := bind_eq_ok ran
  cases ran
  exact setHead (Ptr.deref_eq_ok deref) _

theorem writeBit_length {size : Nat} {bm bm' : List Bool} {i : Nat} {b : Bool}
    (ran : writeBit size bm i b = .ok bm') : bm'.length = bm.length := by
  unfold writeBit at ran
  split at ran
  · cases ran
    exact List.length_set
  · cases ran

theorem allocMark {mark : Nat} (ran : Kmod.allocMark s = .ok (mark, s')) : Framed s s' := by
  obtain ⟨bm, deref, ran⟩ := bind_eq_ok ran
  dsimp only at ran
  split at ran
  · cases ran
    exact refl s
  · obtain ⟨bm', write, ran⟩ := bind_eq_ok ran
    obtain ⟨_, rfl⟩ := Prod.mk.inj (Except.ok.inj ran)
    exact setBits (Ptr.deref_eq_ok deref) (writeBit_length write)

theorem freeMark {mark : Nat} (ran : Kmod.freeMark mark s = .ok s') : Framed s s' := by
  obtain ⟨bm, deref, ran⟩ := bind_eq_ok ran
  obtain ⟨bm', write, ran⟩ := bind_eq_ok ran
  cases ran
  have written := setBits (Ptr.deref_eq_ok deref) (writeBit_length write)
  exact ⟨rfl, rfl, rfl, written.bits, rfl, rfl⟩

theorem flushMark (ran : Kmod.flushMark s = .ok s') : Framed s s' := by
  obtain ⟨bm, deref, ran⟩ := bind_eq_ok ran
  cases ran
  exact setBits (Ptr.deref_eq_ok deref) (List.length_map _)

theorem qmarkTcAddRule {rn : RuletblNode} {mark : Nat}
    (ran : Kmod.qmarkTcAddRule env rn mark s = .ok s') : Framed s s' := by
  rw [qmarkTcAddRule_done ran]
  exact ⟨rfl, rfl, rfl, rfl, rfl, rfl⟩

theorem qmarkTcDelRule {rn : RuletblNode} {mark : Nat}
    (ran : Kmod.qmarkTcDelRule env rn mark s = .ok s') : Framed s s' := by
  rw [qmarkTcDelRule_done ran]
  exact ⟨rfl, rfl, rfl, rfl, rfl, rfl⟩

/-! ## The hash table -/

theorem marktblHashAdd {key : Be32} {id mark : Nat} {ret : RetCode}
    (ran : Kmod.marktblHashAdd env key id mark s = .ok (ret, s')) : Framed s s' := by
  obtain ⟨limited, _, ran⟩ := bind_eq_ok ran
  split at ran
  · cases ran
    exact refl s
  · obtain ⟨head, deref, ran⟩ := bind_eq_ok ran
    obtain ⟨i, _, ran⟩ := bind_eq_ok ran
    obtain ⟨chain, _, ran⟩ := bind_eq_ok ran
    split at ran
    -- the duplicate branch dereferences NULL
    · cases ran
    · split at ran
      · obtain ⟨s₁, count, ran⟩ := bind_eq_ok ran
        have counted : Framed s s₁ := modifyRule count fun _ => rfl
        cases ran
        exact ⟨counted.resetFlag, counted.maxIpCnt, counted.maxRuleCnt, counted.bits,
          counted.rules, (setHead (Ptr.deref_eq_ok deref) _).head⟩
      · cases ran
        exact refl s

theorem qmarkAddHash {srcIp : Be32} {id mark : Nat} {ret : RetCode}
    (ran : Kmod.qmarkAddHash env srcIp id mark s = .ok (ret, s')) : Framed s s' := by
  obtain ⟨allocated, _, ran⟩ := bind_eq_ok ran
  split at ran
  · cases ran
    exact refl s
  · exact marktblHashAdd ran

theorem qosMarktblHashtblDel {srcIp : Be32} {ret : RetCode} {mark : Nat}
    (ran : Kmod.qosMarktblHashtblDel srcIp s = .ok (ret, mark, s')) : Framed s s' := by
  obtain ⟨⟨ret', node, s₁⟩, remove, ran⟩ := bind_eq_ok ran
  have removed : Framed s s₁ := by
    obtain ⟨head, deref, remove⟩ := bind_eq_ok remove
    obtain ⟨i, _, remove⟩ := bind_eq_ok remove
    obtain ⟨chain, _, remove⟩ := bind_eq_ok remove
    split at remove
    · split at remove
      · cases remove
        exact refl s
      · obtain ⟨s₂, count, remove⟩ := bind_eq_ok remove
        cases remove
        exact (setHead (Ptr.deref_eq_ok deref) _).trans (modifyRule count fun _ => rfl)
    · cases remove
      exact refl s
  dsimp only at ran
  split at ran <;> cases ran <;> exact removed

/-! ## Allocation -/

theorem qmarkAllocMark {ret : RetCode} {mark : Nat}
    (ran : Kmod.qmarkAllocMark s = .ok (ret, mark, s')) : Framed s s' := by
  obtain ⟨⟨mark', s₁⟩, alloc, ran⟩ := bind_eq_ok ran
  dsimp only at ran
  split at ran <;> cases ran <;> exact allocMark alloc

theorem allocMarkAutoAdd {srcIp : Be32} {id mark : Nat} {r : RetCode × Nat × St}
    (ran : Kmod.allocMarkAutoAdd env srcIp id mark s = .ok r) : Framed s r.2.2 := by
  obtain ⟨⟨ret, s₁⟩, add, ran⟩ := bind_eq_ok ran
  have added := qmarkAddHash add
  dsimp only at ran
  split at ran
  · obtain ⟨rn, _, ran⟩ := bind_eq_ok ran
    split at ran
    · obtain ⟨s₂, clear, ran⟩ := bind_eq_ok ran
      obtain ⟨s₃, free, ran⟩ := bind_eq_ok ran
      cases ran
      exact added.trans ((modifyRule clear fun _ => rfl).trans (freeMark free))
    · cases ran
      exact added
  · obtain ⟨rn, _, ran⟩ := bind_eq_ok ran
    obtain ⟨s₂, shape, ran⟩ := bind_eq_ok ran
    cases ran
    exact added.trans (qmarkTcAddRule shape)

theorem qmarkAllocMarkAuto {srcIp : Be32} {id mark : Nat} {r : RetCode × Nat × St}
    (ran : Kmod.qmarkAllocMarkAuto env srcIp id mark s = .ok r) : Framed s r.2.2 := by
  -- all three branches end in the insertion
  unfold Kmod.qmarkAllocMarkAuto at ran
  split at ran
  · cases ran
    exact refl s
  · obtain ⟨rn, _, ran⟩ := bind_eq_ok ran
    split at ran
    · obtain ⟨⟨ret, mark', s₁⟩, alloc, ran⟩ := bind_eq_ok ran
      have reserved := qmarkAllocMark alloc
      dsimp only at ran
      split at ran
      · cases ran
        exact reserved
      · exact reserved.trans (allocMarkAutoAdd ran)
    · split at ran
      · obtain ⟨⟨ret, mark', s₁⟩, alloc, ran⟩ := bind_eq_ok ran
        have reserved := qmarkAllocMark alloc
        dsimp only at ran
        split at ran
        · cases ran
          exact reserved
        · obtain ⟨s₂, store, ran⟩ := bind_eq_ok ran
          exact reserved.trans ((modifyRule store fun _ => rfl).trans (allocMarkAutoAdd ran))
      · exact allocMarkAutoAdd ran

theorem qmarkHandle {skb skb' : SkBuff} {info : TgInfo}
    (ran : Kmod.qmarkHandle env skb info s = .ok (skb', s')) : Framed s s' := by
  obtain ⟨⟨code, mark⟩, _, ran⟩ := bind_eq_ok ran
  dsimp only at ran
  split at ran
  · obtain ⟨⟨ret, mark', s₁⟩, auto, ran⟩ := bind_eq_ok ran
    have framed := qmarkAllocMarkAuto auto
    dsimp only at ran
    split at ran <;> cases ran <;> exact framed
  · cases ran
    exact refl s

/-! ## Release -/

theorem qmarkDelHash {srcIp : Be32} {mark : Nat} {r : RetCode × Nat × St}
    (ran : Kmod.qmarkDelHash srcIp mark s = .ok r) : Framed s r.2.2 := by
  obtain ⟨node, _, ran⟩ := bind_eq_ok ran
  split at ran
  · cases ran
    exact refl s
  · obtain ⟨s₁, count, ran⟩ := bind_eq_ok ran
    have counted := modifyNode count
    split at ran
    · obtain ⟨⟨ret, mark', s₂⟩, del, ran⟩ := bind_eq_ok ran
      have deleted := counted.trans (qosMarktblHashtblDel del)
      obtain ⟨rn, _, ran⟩ := bind_eq_ok ran
      split at ran
      · obtain ⟨s₃, clear, ran⟩ := bind_eq_ok ran
        obtain ⟨s₄, free, ran⟩ := bind_eq_ok ran
        cases ran
        exact deleted.trans ((modifyRule clear fun _ => rfl).trans (freeMark free))
      · cases ran
        exact deleted
    · cases ran
      exact counted

theorem conntrackDestroy {ip : Be32} (ran : Kmod.conntrackDestroy env ip s = .ok s') :
    Framed s s' := by
  obtain ⟨node, _, ran⟩ := bind_eq_ok ran
  split at ran
  · cases ran
    exact refl s
  · obtain ⟨s₁, count, ran⟩ := bind_eq_ok ran
    have counted := modifyNode count
    split at ran
    · obtain ⟨⟨ret, mark, s₂⟩, del, ran⟩ := bind_eq_ok ran
      have deleted := counted.trans (qosMarktblHashtblDel del)
      obtain ⟨rn, _, ran⟩ := bind_eq_ok ran
      split at ran
      · obtain ⟨s₃, clear, ran⟩ := bind_eq_ok ran
        obtain ⟨rn', _, ran⟩ := bind_eq_ok ran
        obtain ⟨s₄, unshape, free⟩ := bind_eq_ok ran
        have cleared := deleted.trans (modifyRule clear fun _ => rfl)
        exact cleared.trans ((qmarkTcDelRule unshape).trans (freeMark free))
      · cases ran
        exact deleted
    · cases ran
      exact counted

theorem conntrackMark {ip : Be32} (ran : Kmod.conntrackMark ip s = .ok s') : Framed s s' := by
  obtain ⟨node, _, ran⟩ := bind_eq_ok ran
  split at ran
  · cases ran
    exact refl s
  · exact modifyNode ran

theorem qmarkConntrackEvent {events : Nat} {ct : Option NfConn}
    (ran : Kmod.qmarkConntrackEvent env events ct s = .ok s') : Framed s s' := by
  cases ct with
  | none =>
    cases ran
    exact refl s
  | some ct =>
    simp only [Kmod.qmarkConntrackEvent] at ran
    split at ran
    · split at ran
      · exact conntrackDestroy ran
      · split at ran
        · exact conntrackMark ran
        · cases ran
          exact refl s
    · cases ran
      exact refl s

/-! ## A call in flight -/

theorem stepCall {c c' : Call} (ran : Kmod.stepCall env c s = .ok (c', s')) : Framed s s' := by
  unfold Kmod.stepCall at ran
  -- a point of the call that only reads is `refl`; one that writes has the frame of what it calls
  cases pc : c.pc with
  | find =>
    simp only [pc] at ran
    obtain ⟨result, _, ran⟩ := bind_eq_ok ran
    split at ran <;> cases ran <;> exact refl s
  | testReset =>
    simp only [pc] at ran
    split at ran <;> cases ran <;> exact refl s
  | testMode | testCount | loadMark | retestMode | retestCount =>
    simp only [pc] at ran
    obtain ⟨rn, _, ran⟩ := bind_eq_ok ran
    try split at ran
    all_goals
      cases ran
      exact refl s
  | allocPriv | allocFirst =>
    simp only [pc] at ran
    obtain ⟨⟨ret, mark, s₁⟩, alloc, ran⟩ := bind_eq_ok ran
    split at ran <;> cases ran <;> exact qmarkAllocMark alloc
  | storeMark | clearMark =>
    simp only [pc] at ran
    obtain ⟨s₁, write, ran⟩ := bind_eq_ok ran
    cases ran
    exact modifyRule write fun _ => rfl
  | addHash =>
    simp only [pc] at ran
    obtain ⟨⟨ret, s₁⟩, add, ran⟩ := bind_eq_ok ran
    split at ran <;> cases ran <;> exact qmarkAddHash add
  | freeMark =>
    simp only [pc] at ran
    obtain ⟨s₁, free, ran⟩ := bind_eq_ok ran
    cases ran
    exact freeMark free
  | tcAdd =>
    simp only [pc] at ran
    obtain ⟨rn, _, ran⟩ := bind_eq_ok ran
    obtain ⟨s₁, shape, ran⟩ := bind_eq_ok ran
    cases ran
    exact qmarkTcAddRule shape
  | ret code =>
    simp only [pc] at ran
    cases ran
    exact refl s

end Framed

/-! ## What an operation can do -/

/-- Six commands rewrite a rule or allocate a table again; whatever else happens changes the
contents of the tables at most. -/
inductive Effect (env : Env) (s : St) : Op → St → Prop where
  | framed {op : Op} {s' : St} (framed : Framed s s') : Effect env s op s'
  | ruleAdd {qr : QmarkRule} {s' : St}
      (ran : qmarkAddRule qr.id qr.mode qr.devid qr.rate qr.rateMate qr.rateMin qr.rateMinMate s =
        .ok s') : Effect env s (.ioctl (.ruleAdd qr)) s'
  | ruleDel {qr : QmarkRule} {s' : St} (ran : qmarkDelRule qr.id s = .ok s') :
      Effect env s (.ioctl (.ruleDel qr)) s'
  | ruleFlush : Effect env s (.ioctl .ruleFlush) (qmarkFlushRule env s)
  | hashFlush {s' : St} (ran : qmarkFlushHash env s = .ok s') :
      Effect env s (.ioctl .hashFlush) s'
  | reset {flag : Nat} {s' : St} (ran : qmarkReset env flag s = .ok s') :
      Effect env s (.ioctl (.reset flag)) s'
  | specSet {ipSpec ruleSpec : Nat} {s' : St} (ran : qmarkSetSpec env ipSpec ruleSpec s = .ok s') :
      Effect env s (.ioctl (.specSet ipSpec ruleSpec)) s'

namespace Effect

variable {env : Env} {s s' : St} {r : Reply}

theorem refl (op : Op) : Effect env s op s := .framed (.refl s)

theorem afterCopy {op : Op} {body : Except Oops (Reply × St)}
    (ran : Kmod.afterCopy env s body = .ok (r, s'))
    (effect : body = .ok (r, s') → Effect env s op s') : Effect env s op s' := by
  unfold Kmod.afterCopy at ran
  split at ran
  · cases ran
    exact refl op
  · exact effect ran

theorem of_ioctl {cmd : QmarkIoc} (ran : qmarkCdevIoctl env cmd s = .ok (r, s')) :
    Effect env s (.ioctl cmd) s' := by
  -- the commands that replace or write a table keep a case of `Effect`; the others are framed
  cases cmd with
  | ruleAdd qr =>
    refine afterCopy ran fun ran => ?_
    obtain ⟨s₁, add, ran⟩ := bind_eq_ok ran
    cases ran
    exact .ruleAdd add
  | ruleDel qr =>
    refine afterCopy ran fun ran => ?_
    obtain ⟨s₁, del, ran⟩ := bind_eq_ok ran
    cases ran
    exact .ruleDel del
  | ruleFlush =>
    cases ran
    exact .ruleFlush
  | hashAdd qh =>
    refine afterCopy ran fun ran => ?_
    split at ran
    · cases ran
      exact refl _
    · obtain ⟨⟨ret, s₁⟩, add, ran⟩ := bind_eq_ok ran
      have framed := Framed.qmarkAddHash add
      dsimp only at ran
      split at ran <;> cases ran <;> exact .framed framed
  | hashDel qh =>
    refine afterCopy ran fun ran => ?_
    split at ran
    · cases ran
      exact refl _
    · obtain ⟨⟨ret, mark, s₁⟩, del, ran⟩ := bind_eq_ok ran
      have framed := Framed.qmarkDelHash del
      dsimp only at ran
      split at ran <;> cases ran <;> exact .framed framed
  | hashChk qh =>
    refine afterCopy ran fun ran => ?_
    split at ran
    · cases ran
      exact refl _
    · obtain ⟨⟨code, mark⟩, _, ran⟩ := bind_eq_ok ran
      dsimp only at ran
      split at ran <;> cases ran <;> exact refl _
  | hashFlush =>
    obtain ⟨s₁, flush, ran⟩ := bind_eq_ok ran
    cases ran
    exact .hashFlush flush
  | markAlo =>
    obtain ⟨⟨ret, mark, s₁⟩, reserve, ran⟩ := bind_eq_ok ran
    have framed := Framed.qmarkAllocMark reserve
    dsimp only at ran
    split at ran <;> cases ran <;> exact .framed framed
  | markFree mark =>
    refine afterCopy ran fun ran => ?_
    obtain ⟨s₁, free, ran⟩ := bind_eq_ok ran
    cases ran
    exact .framed (Framed.freeMark free)
  | markFlush =>
    obtain ⟨s₁, flush, ran⟩ := bind_eq_ok ran
    cases ran
    exact .framed (Framed.flushMark flush)
  | reset flag =>
    refine afterCopy ran fun ran => ?_
    obtain ⟨s₁, reset, ran⟩ := bind_eq_ok ran
    cases ran
    exact .reset reset
  | netdevSet lanDev wanDev =>
    refine afterCopy ran fun ran => ?_
    cases ran
    exact .framed ⟨rfl, rfl, rfl, rfl, rfl, rfl⟩
  | specSet ipSpec ruleSpec =>
    refine afterCopy ran fun ran => ?_
    obtain ⟨s₁, set, ran⟩ := bind_eq_ok ran
    cases ran
    exact .specSet set
  | tcAdd =>
    obtain ⟨rn, _, ran⟩ := bind_eq_ok ran
    obtain ⟨s₁, requests, ran⟩ := bind_eq_ok ran
    cases ran
    exact .framed (.qmarkTcAddRule requests)
  | tcDel =>
    obtain ⟨rn, _, ran⟩ := bind_eq_ok ran
    obtain ⟨s₁, requests, ran⟩ := bind_eq_ok ran
    cases ran
    exact .framed (.qmarkTcDelRule requests)
  | ruleLst | hashLst | dump =>
    obtain ⟨_, _, ran⟩ := bind_eq_ok ran
    cases ran
    exact refl _

theorem of_opStep {op : Op} (ran : opStep (env, op) s = .ok s') : Effect env s op s' := by
  obtain ⟨⟨out, s₁⟩, run, ran⟩ := bind_eq_ok ran
  cases ran
  cases op with
  | ioctl cmd =>
    obtain ⟨⟨r, s₂⟩, cdev, run⟩ := bind_eq_ok run
    cases run
    exact of_ioctl cdev
  | packet skb info =>
    obtain ⟨⟨skb', s₂⟩, handle, run⟩ := bind_eq_ok run
    cases run
    exact .framed (Framed.qmarkHandle handle)
  | conntrack events ct =>
    obtain ⟨s₂, event, run⟩ := bind_eq_ok run
    cases run
    exact .framed (Framed.qmarkConntrackEvent event)

end Effect

end IpQos.Verified
