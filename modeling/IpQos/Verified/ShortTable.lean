import IpQos.Verified.Operations

/-! # A rule table that falls short of its size

`qos_ruletbl_init` works out the bytes of the table in 32 bits, so the table can have fewer
elements than `max_rule_cnt` says.  Only the loops over all rules look at that number: a packet,
an event, `RULE_ADD` or `HASH_DEL` that returns would have done the same under any other. -/

namespace IpQos.Verified

open IpQos.Kmod

variable {env : Env} {s s' : St} {ip : Be32} {id mark mark' : Nat} {ret : RetCode}

/-- The same tables under another `max_rule_cnt`. -/
def resized (n : Nat) (s : St) : St := { s with maxRuleCnt := n }

variable (n : Nat)

theorem ruleAt_resized {rn : RuletblNode} (ran : ruleAt id s = .ok rn) :
    ruleAt id (resized n s) = .ok rn := by
  obtain ⟨tbl, live, ran⟩ := bind_eq_ok ran
  refine bind_eq_ok_iff.mpr ⟨tbl, live, ?_⟩
  split at ran
  · exact ran
  · cases ran

theorem modifyRule_resized {f : RuletblNode → RuletblNode} (ran : modifyRule id f s = .ok s') :
    modifyRule id f (resized n s) = .ok (resized n s') := by
  obtain ⟨tbl, live, ran⟩ := bind_eq_ok ran
  refine bind_eq_ok_iff.mpr ⟨tbl, live, ?_⟩
  split at ran
  · cases ran
    exact if_pos ‹_›
  · cases ran

theorem freeMark_resized (ran : freeMark mark s = .ok s') :
    freeMark mark (resized n s) = .ok (resized n s') := by
  obtain ⟨bm, live, ran⟩ := bind_eq_ok ran
  obtain ⟨bm', write, ran⟩ := bind_eq_ok ran
  cases ran
  exact bind_eq_ok_iff.mpr ⟨bm, live, bind_eq_ok_iff.mpr ⟨bm', write, rfl⟩⟩

theorem qmarkAllocMark_resized (ran : qmarkAllocMark s = .ok (ret, mark, s')) :
    qmarkAllocMark (resized n s) = .ok (ret, mark, resized n s') := by
  obtain ⟨⟨m, s₁⟩, alloc, ran⟩ := bind_eq_ok ran
  have taken : allocMark (resized n s) = .ok (m, resized n s₁) := by
    obtain ⟨bm, live, alloc⟩ := bind_eq_ok alloc
    refine bind_eq_ok_iff.mpr ⟨bm, live, ?_⟩
    dsimp only at alloc ⊢
    split at alloc
    · cases alloc
      exact if_pos ‹_›
    · obtain ⟨bm', write, alloc⟩ := bind_eq_ok alloc
      cases alloc
      rw [if_neg ‹_›]
      exact bind_eq_ok_iff.mpr ⟨bm', write, rfl⟩
  refine bind_eq_ok_iff.mpr ⟨_, taken, ?_⟩
  dsimp only at ran ⊢
  split at ran <;> cases ran
  · exact if_pos ‹_›
  · exact if_neg ‹_›

theorem modifyNode_resized {f : MarktblNode → MarktblNode} (ran : modifyNode ip f s = .ok s') :
    modifyNode ip f (resized n s) = .ok (resized n s') := by
  simp only [modifyNode, bind_eq_ok_iff] at ran ⊢
  obtain ⟨head, live, i, index, chain, here, ran⟩ := ran
  cases ran
  exact ⟨head, live, i, index, chain, here, rfl⟩

theorem qmarkAddHash_resized (ran : qmarkAddHash env ip id mark s = .ok (ret, s')) :
    qmarkAddHash env ip id mark (resized n s) = .ok (ret, resized n s') := by
  obtain ⟨set, test, ran⟩ := bind_eq_ok ran
  refine bind_eq_ok_iff.mpr ⟨set, test, ?_⟩
  split at ran
  · cases ran
    exact if_pos ‹_›
  · rw [if_neg ‹_›]
    obtain ⟨limited, limit, ran⟩ := bind_eq_ok ran
    refine bind_eq_ok_iff.mpr ⟨limited, limit, ?_⟩
    split at ran
    · cases ran
      exact if_pos ‹_›
    · rw [if_neg ‹_›]
      -- the hash table does not know `max_rule_cnt`
      simp only [bind_eq_ok_iff] at ran ⊢
      obtain ⟨head, live, i, index, chain, here, ran⟩ := ran
      refine ⟨head, live, i, index, chain, here, ?_⟩
      cases found : chain.find? (marktblHashCmp ip) with
      | some e =>
        rw [found] at ran
        obtain ⟨_, null, _⟩ := bind_eq_ok ran
        cases null
      | none =>
        rw [found] at ran
        dsimp only at ran ⊢
        split at ran
        · obtain ⟨s₁, count, ran⟩ := bind_eq_ok ran
          cases ran
          rw [if_pos ‹_›]
          exact bind_eq_ok_iff.mpr ⟨_, modifyRule_resized n count, rfl⟩
        · cases ran
          exact if_neg ‹_›

theorem qosMarktblHashtblDel_resized (ran : qosMarktblHashtblDel ip s = .ok (ret, mark, s')) :
    qosMarktblHashtblDel ip (resized n s) = .ok (ret, mark, resized n s') := by
  obtain ⟨⟨ret', node, s₁⟩, remove, ran⟩ := bind_eq_ok ran
  have removed : marktblHashRemove ip (resized n s) = .ok (ret', node, resized n s₁) := by
    simp only [marktblHashRemove, bind_eq_ok_iff] at remove ⊢
    obtain ⟨head, live, i, index, chain, here, remove⟩ := remove
    refine ⟨head, live, i, index, chain, here, ?_⟩
    cases found : chain.find? (marktblHashCmp ip) with
    | none =>
      rw [found] at remove
      cases remove
      rfl
    | some e =>
      rw [found] at remove
      dsimp only at remove ⊢
      split at remove
      · cases remove
        exact if_pos ‹_›
      · obtain ⟨s₂, count, remove⟩ := bind_eq_ok remove
        cases remove
        rw [if_neg ‹_›]
        exact bind_eq_ok_iff.mpr ⟨_, modifyRule_resized n count, rfl⟩
  refine bind_eq_ok_iff.mpr ⟨_, removed, ?_⟩
  dsimp only at ran ⊢
  split at ran <;> cases ran <;> rfl

theorem allocMarkAutoAdd_resized (ran : allocMarkAutoAdd env ip id mark s = .ok (ret, mark', s')) :
    allocMarkAutoAdd env ip id mark (resized n s) = .ok (ret, mark', resized n s') := by
  obtain ⟨⟨code, s₁⟩, add, ran⟩ := bind_eq_ok ran
  refine bind_eq_ok_iff.mpr ⟨_, qmarkAddHash_resized n add, ?_⟩
  dsimp only at ran ⊢
  split at ran
  · obtain ⟨rn, rule, ran⟩ := bind_eq_ok ran
    rw [if_pos ‹_›]
    refine bind_eq_ok_iff.mpr ⟨rn, ruleAt_resized n rule, ?_⟩
    split at ran
    · obtain ⟨s₂, clear, ran⟩ := bind_eq_ok ran
      obtain ⟨s₃, free, ran⟩ := bind_eq_ok ran
      cases ran
      rw [if_pos ‹_›]
      exact bind_eq_ok_iff.mpr ⟨_, modifyRule_resized n clear,
        bind_eq_ok_iff.mpr ⟨_, freeMark_resized n free, rfl⟩⟩
    · cases ran
      exact if_neg ‹_›
  · obtain ⟨rn, rule, ran⟩ := bind_eq_ok ran
    obtain ⟨s₂, shape, ran⟩ := bind_eq_ok ran
    cases ran
    rw [if_neg ‹_›]
    -- whether a class stalls depends on its rule and the devices only
    rw [qmarkTcAddRule_eq, unlessStalled_eq_ok] at shape
    refine bind_eq_ok_iff.mpr ⟨rn, ruleAt_resized n rule, bind_eq_ok_iff.mpr ⟨resized n s', ?_, rfl⟩⟩
    rw [qmarkTcAddRule_eq, unlessStalled_eq_ok]
    exact ⟨shape.1, congrArg (resized n) shape.2⟩

theorem qmarkAllocMarkAuto_resized
    (ran : qmarkAllocMarkAuto env ip id mark s = .ok (ret, mark', s')) :
    qmarkAllocMarkAuto env ip id mark (resized n s) = .ok (ret, mark', resized n s') := by
  -- branch for branch: no test reads `max_rule_cnt`
  unfold qmarkAllocMarkAuto at ran ⊢
  split at ran
  · cases ran
    exact if_pos ‹_›
  · have notSet : ¬ (resized n s).resetFlag = true := ‹_›
    obtain ⟨rn, rule, ran⟩ := bind_eq_ok ran
    rw [if_neg notSet]
    refine bind_eq_ok_iff.mpr ⟨rn, ruleAt_resized n rule, ?_⟩
    split at ran
    · obtain ⟨⟨code, taken, s₁⟩, alloc, ran⟩ := bind_eq_ok ran
      rw [if_pos ‹_›]
      refine bind_eq_ok_iff.mpr ⟨_, qmarkAllocMark_resized n alloc, ?_⟩
      dsimp only at ran ⊢
      split at ran
      · cases ran
        exact if_pos ‹_›
      · rw [if_neg ‹_›]
        exact allocMarkAutoAdd_resized n ran
    · rw [if_neg ‹_›]
      split at ran
      · obtain ⟨⟨code, taken, s₁⟩, alloc, ran⟩ := bind_eq_ok ran
        rw [if_pos ‹_›]
        refine bind_eq_ok_iff.mpr ⟨_, qmarkAllocMark_resized n alloc, ?_⟩
        dsimp only at ran ⊢
        split at ran
        · cases ran
          exact if_pos ‹_›
        · obtain ⟨s₂, store, ran⟩ := bind_eq_ok ran
          rw [if_neg ‹_›]
          exact bind_eq_ok_iff.mpr ⟨_, modifyRule_resized n store, allocMarkAutoAdd_resized n ran⟩
      · rw [if_neg ‹_›]
        exact allocMarkAutoAdd_resized n ran

theorem qmarkHandle_resized {skb skb' : SkBuff} {info : TgInfo}
    (ran : qmarkHandle env skb info s = .ok (skb', s')) :
    qmarkHandle env skb info (resized n s) = .ok (skb', resized n s') := by
  obtain ⟨found, find, ran⟩ := bind_eq_ok ran
  refine bind_eq_ok_iff.mpr ⟨found, find, ?_⟩
  dsimp only at ran ⊢
  split at ran
  · obtain ⟨⟨code, m, s₁⟩, auto, ran⟩ := bind_eq_ok ran
    rw [if_pos ‹_›]
    refine bind_eq_ok_iff.mpr ⟨_, qmarkAllocMarkAuto_resized n auto, ?_⟩
    dsimp only at ran ⊢
    split at ran <;> cases ran
    · exact if_pos ‹_›
    · exact if_neg ‹_›
  · cases ran
    exact if_neg ‹_›

theorem qmarkDelHash_resized (ran : qmarkDelHash ip mark s = .ok (ret, mark', s')) :
    qmarkDelHash ip mark (resized n s) = .ok (ret, mark', resized n s') := by
  obtain ⟨node, get, ran⟩ := bind_eq_ok ran
  refine bind_eq_ok_iff.mpr ⟨node, get, ?_⟩
  cases node with
  | none =>
    cases ran
    rfl
  | some e =>
    obtain ⟨s₁, unhold, ran⟩ := bind_eq_ok ran
    refine bind_eq_ok_iff.mpr ⟨_, modifyNode_resized n unhold, ?_⟩
    split at ran
    · obtain ⟨⟨code, m, s₂⟩, del, ran⟩ := bind_eq_ok ran
      obtain ⟨rn, rule, ran⟩ := bind_eq_ok ran
      rw [if_pos ‹_›]
      refine bind_eq_ok_iff.mpr ⟨_, qosMarktblHashtblDel_resized n del,
        bind_eq_ok_iff.mpr ⟨rn, ruleAt_resized n rule, ?_⟩⟩
      split at ran
      · obtain ⟨s₃, clear, ran⟩ := bind_eq_ok ran
        obtain ⟨s₄, free, ran⟩ := bind_eq_ok ran
        cases ran
        rw [if_pos ‹_›]
        exact bind_eq_ok_iff.mpr ⟨_, modifyRule_resized n clear,
          bind_eq_ok_iff.mpr ⟨_, freeMark_resized n free, rfl⟩⟩
      · cases ran
        exact if_neg ‹_›
    · cases ran
      exact if_neg ‹_›

theorem conntrackDestroy_resized (ran : conntrackDestroy env ip s = .ok s') :
    conntrackDestroy env ip (resized n s) = .ok (resized n s') := by
  obtain ⟨node, get, ran⟩ := bind_eq_ok ran
  refine bind_eq_ok_iff.mpr ⟨node, get, ?_⟩
  cases node with
  | none =>
    cases ran
    rfl
  | some e =>
    obtain ⟨s₁, unhold, ran⟩ := bind_eq_ok ran
    refine bind_eq_ok_iff.mpr ⟨_, modifyNode_resized n unhold, ?_⟩
    split at ran
    · obtain ⟨⟨code, m, s₂⟩, del, ran⟩ := bind_eq_ok ran
      obtain ⟨rn, rule, ran⟩ := bind_eq_ok ran
      rw [if_pos ‹_›]
      refine bind_eq_ok_iff.mpr ⟨_, qosMarktblHashtblDel_resized n del,
        bind_eq_ok_iff.mpr ⟨rn, ruleAt_resized n rule, ?_⟩⟩
      split at ran
      · obtain ⟨s₃, clear, ran⟩ := bind_eq_ok ran
        obtain ⟨rn', rule', ran⟩ := bind_eq_ok ran
        obtain ⟨s₄, unshape, free⟩ := bind_eq_ok ran
        -- the requests are for the devices and the rule, which are the same
        have same := qmarkTcDelRule_done unshape
        rw [if_pos ‹_›]
        refine bind_eq_ok_iff.mpr ⟨_, modifyRule_resized n clear,
          bind_eq_ok_iff.mpr ⟨rn', ruleAt_resized n rule', bind_eq_ok_iff.mpr
            ⟨resized n s₄, ?_, freeMark_resized n free⟩⟩⟩
        rw [qmarkTcDelRule_eq, same]
        rfl
      · cases ran
        exact if_neg ‹_›
    · cases ran
      exact if_neg ‹_›

theorem qmarkConntrackEvent_resized {events : Nat} {ct : Option NfConn}
    (ran : qmarkConntrackEvent env events ct s = .ok s') :
    qmarkConntrackEvent env events ct (resized n s) = .ok (resized n s') := by
  cases ct with
  | none =>
    cases ran
    rfl
  | some ct =>
    simp only [qmarkConntrackEvent] at ran ⊢
    split at ran
    · rw [if_pos ‹_›]
      split at ran
      · rw [if_pos ‹_›]
        exact conntrackDestroy_resized n ran
      · rw [if_neg ‹_›]
        split at ran
        · obtain ⟨node, get, ran⟩ := bind_eq_ok ran
          rw [if_pos ‹_›]
          refine bind_eq_ok_iff.mpr ⟨node, get, ?_⟩
          cases node with
          | none =>
            cases ran
            rfl
          | some e => exact modifyNode_resized n ran
        · cases ran
          exact if_neg ‹_›
    · cases ran
      exact if_neg ‹_›

end IpQos.Verified
