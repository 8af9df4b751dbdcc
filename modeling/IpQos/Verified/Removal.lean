import IpQos.Lib.Coupled
import IpQos.Verified.Ranges

/-! # Two ways to remove an entry

`HASH_DEL` and the DESTROY event carry the same removal, written out twice.  Run side by
side on the same entry they leave the same tables; only the event takes the class and
the filter of a freed mark away. -/

namespace IpQos.Verified

open IpQos.Kmod
open IpQos.Lib (Coupled runAll)

variable {env : Env} {s s' : St} {ip : Be32} {e : MarktblNode}

/-- The removal gives a mark back: no connection is left, and no other member of a share
    rule uses the mark. -/
def Frees (ip : Be32) (s : St) : Prop :=
  ∃ e rn, marktblHashGet ip s = .ok (some e) ∧ atomicDec e.count ≤ 0 ∧
    ruleAt e.id s = .ok rn ∧ (privMode = rn.mode ∨ 0 = atomicDec rn.count) ∧
    s.markBitmap.isLive = true

/-- The requests that take the class and the filter of an entry away, as far as the devices
    exist and rtnetlink is not locked. -/
def deletions (env : Env) (ip : Be32) (s : St) : List RtnlReq :=
  match marktblHashGet ip s with
  | .ok (some e) =>
    match ruleAt e.id s with
    | .ok rn => delRequests env s.qmarkLanDev s.qmarkWanDev rn e.mark
    | .error _ => []
  | _ => []

/-- A state without its history of requests. -/
def silent (s : St) : St := { s with sent := [] }

/-- What an event and a `HASH_DEL` have done to the entry of `ip`, both from `s`. -/
structure Alongside (env : Env) (ip : Be32) (s a : St) (r : RetCode × Nat × St) : Prop where
  tables : silent a = silent r.2.2
  freed : Frees ip s → a.sent = deletions env ip s ++ s.sent
  kept : ¬ Frees ip s → a.sent = s.sent
  del : r.2.2.sent = s.sent

theorem ruleAt_modifyRule {id : Nat} {f : RuletblNode → RuletblNode}
    (ran : modifyRule id f s = .ok s') :
    ∃ rn, ruleAt id s = .ok rn ∧ ruleAt id s' = .ok (f rn) ∧ s'.sent = s.sent ∧
      s'.qmarkLanDev = s.qmarkLanDev ∧ s'.qmarkWanDev = s.qmarkWanDev ∧
      s'.markBitmap = s.markBitmap := by
  obtain ⟨tbl, deref, ran⟩ := bind_eq_ok ran
  split at ran
  · rename_i inRange
    cases ran
    have here := List.getElem?_eq_getElem inRange
    refine ⟨tbl[subU32 id 1], ?_, ?_, rfl, rfl, rfl, rfl⟩
    · unfold ruleAt
      rw [deref, ok_bind, here]
    · have live : (s.setRules (tbl.modify (subU32 id 1) f)).gRuletbl.deref =
          .ok (tbl.modify (subU32 id 1) f) := rfl
      unfold ruleAt
      rw [live, ok_bind, List.getElem?_modify_eq, here]
      rfl
  · cases ran

/-- The requests handed over before a mark is freed do not matter to it. -/
theorem freeMark_sent (mark : Nat) (s : St) (reqs : List RtnlReq) :
    freeMark mark { s with sent := reqs } =
      (freeMark mark s).map fun s' => { s' with sent := reqs } := by
  unfold freeMark
  show (s.markBitmap.deref >>= _) = _
  cases s.markBitmap.deref with
  | error e => rfl
  | ok bm =>
    rw [ok_bind, ok_bind]
    cases writeBit s.maxIpCnt bm (subU32 (mark >>> markBase) 1) false with
    | error e => rfl
    | ok bm' => rfl

theorem freeMark_keeps {mark : Nat} (ran : freeMark mark s = .ok s') : s'.sent = s.sent := by
  obtain ⟨bm, _, ran⟩ := bind_eq_ok ran
  obtain ⟨bm', _, ran⟩ := bind_eq_ok ran
  cases ran
  rfl

/-- The two removals, side by side. -/
theorem removals_coupled (env : Env) (found : marktblHashGet ip s = .ok (some e)) (mark : Nat) :
    Coupled (Alongside env ip s)
      (conntrackDestroy env ip s) (qmarkDelHash ip mark s) := by
  obtain ⟨head, modify, found₁⟩ := Indexed.modifyNode_found
    (f := fun n => { n with count := atomicDec n.count }) found fun _ => rfl
  have same : ∀ {e' : MarktblNode}, marktblHashGet ip s = .ok (some e') → e' = e := by
    intro e' found'
    rw [found] at found'
    cases found'
    rfl
  -- both find the entry and take one connection off it
  unfold conntrackDestroy qmarkDelHash
  rw [found, ok_bind, ok_bind]
  dsimp only
  rw [modify, ok_bind, ok_bind]
  apply Coupled.ite
  · intro unused
    -- no connection is left: the entry goes and its rule counts one less
    obtain ⟨head₁, i, _, removed⟩ := Indexed.del_found found₁ unused
    rw [removed]
    cases count : modifyRule e.id (fun rn => { rn with count := atomicDec rn.count })
        ((s.setHead head).setHead
          { head₁ with
            elemNum := subU32 head₁.elemNum 1
            ht := head₁.ht.modify i (·.eraseP (marktblHashCmp ip)) }) with
    | error err => exact .error err
    | ok s₂ =>
      obtain ⟨rn, before, after, sent, lan, wan, bits⟩ := ruleAt_modifyRule count
      have rule : ruleAt e.id s = .ok rn := before
      rw [ok_bind, ok_bind, ok_bind]
      dsimp only
      rw [after, ok_bind, ok_bind]
      apply Coupled.ite
      · intro last
        cases clear : modifyRule e.id (fun rn => { rn with mark := 0 }) s₂ with
        | error err => exact .error err
        | ok s₃ =>
          obtain ⟨rn₂, before₂, after₂, sent₂, lan₂, wan₂, bits₂⟩ := ruleAt_modifyRule clear
          rw [after] at before₂
          cases before₂
          -- here the two part: only the event asks for the deletions
          rw [ok_bind, ok_bind, after₂, ok_bind, qmarkTcDelRule_eq, ok_bind, freeMark_sent]
          cases free : freeMark e.mark s₃ with
          | error err => exact .error err
          | ok s₄ =>
            obtain ⟨bm, live, _⟩ := bind_eq_ok free
            have sameBits : s₃.markBitmap = s.markBitmap := bits₂.trans bits
            have isLive : s.markBitmap.isLive = true :=
              sameBits ▸ Ptr.isLive_of_eq (Ptr.deref_eq_ok live)
            have frees : Frees ip s := ⟨e, rn, found, unused, rule, last, isLive⟩
            have requests : delRequests env s₃.qmarkLanDev s₃.qmarkWanDev
                { rn with count := atomicDec rn.count, mark := 0 } e.mark =
                deletions env ip s := by
              unfold deletions
              rw [found, lan₂, wan₂, lan, wan]
              dsimp only
              rw [rule]
              rfl
            apply Coupled.ok
            refine ⟨rfl, ?_, fun keeps => absurd frees keeps, ?_⟩
            · intro _
              show delRequests env s₃.qmarkLanDev s₃.qmarkWanDev _ e.mark ++ s₃.sent = _
              rw [requests, sent₂, sent]
              rfl
            · show s₄.sent = s.sent
              rw [freeMark_keeps free, sent₂, sent]
              rfl
      · intro others
        have keeps : ¬ Frees ip s := by
          rintro ⟨e', rn', found', _, rule', last, _⟩
          cases same found'
          rw [rule] at rule'
          cases rule'
          exact others last
        apply Coupled.ok
        exact ⟨rfl, fun frees => absurd frees keeps, fun _ => sent, sent⟩
  · intro used
    -- connections are left, and neither path goes on
    have keeps : ¬ Frees ip s := by
      rintro ⟨e', _, found', unused, _⟩
      cases same found'
      exact used unused
    apply Coupled.ok
    exact ⟨rfl, fun frees => absurd frees keeps, fun _ => rfl, rfl⟩

/-! ## A removal that frees returns -/

theorem modifyRule_of_ruleAt {id : Nat} {rn : RuletblNode} (found : ruleAt id s = .ok rn)
    (f : RuletblNode → RuletblNode) : ∃ s', modifyRule id f s = .ok s' := by
  obtain ⟨tbl, live, found⟩ := bind_eq_ok found
  split at found
  · rename_i here
    have inRange := (List.getElem?_eq_some_iff.mp here).1
    refine ⟨s.setRules (tbl.modify (subU32 id 1) f), ?_⟩
    unfold modifyRule
    rw [live, ok_bind, if_pos inRange]
  · cases found

theorem freeMark_inTable {bm : List Bool} (live : s.markBitmap = .to bm) {mark : Nat}
    (word : mark < 2 ^ 32) (length : bm.length < 2 ^ 32)
    (inTable : InTable (mark >>> markBase) bm.length) : ∃ s', freeMark mark s = .ok s' := by
  have inRange := (subU32_lt_iff (shiftRight_word word) length).mpr inTable
  unfold freeMark
  rw [live, Ptr.deref_to, ok_bind, writeBit, if_pos inRange]
  exact ⟨_, rfl⟩

theorem Frees.returns (indexed : Indexed s) (frees : Frees ip s) (mark : Nat) :
    ∃ r, qmarkDelHash ip mark s = .ok r := by
  obtain ⟨e, rn, found, unused, rule, last, isLive⟩ := frees
  obtain ⟨s₁, modify, indexed₁, sound, found₁⟩ := indexed.unhold found
  obtain ⟨head, modify', _⟩ := Indexed.modifyNode_found
    (f := fun n => { n with count := atomicDec n.count }) found fun _ => rfl
  obtain rfl : s₁ = s.setHead head := Except.ok.inj (modify.symm.trans modify')
  obtain ⟨head₁, i, _, removed⟩ := Indexed.del_found found₁ unused
  have kept := indexed₁.qosMarktblHashtblDel (G := False) found₁ unused sound
  have unlinked : ruleAt e.id ((s.setHead head).setHead
      { head₁ with
        elemNum := subU32 head₁.elemNum 1
        ht := head₁.ht.modify i (·.eraseP (marktblHashCmp ip)) }) = .ok rn := rule
  -- what was read once can be written, so no step of the removal faults
  obtain ⟨s₂, count⟩ := modifyRule_of_ruleAt unlinked
    (fun rn => { rn with count := atomicDec rn.count })
  obtain ⟨rn', before, after, _, _, _, bits⟩ := ruleAt_modifyRule count
  have same : ruleAt e.id s = .ok rn' := before
  rw [rule] at same
  cases same
  obtain ⟨s₃, clear⟩ := modifyRule_of_ruleAt after (fun rn => { rn with mark := 0 })
  obtain ⟨_, _, _, _, _, _, bits₂⟩ := ruleAt_modifyRule clear
  rw [removed, count] at kept
  have sameBits : s₃.markBitmap = s.markBitmap := bits₂.trans bits
  -- where there is a hash table the bitmap has a bit for every mark
  obtain ⟨bm, live⟩ := Strays.of_isLive isLive
  obtain ⟨old, _, _, liveHead, _⟩ := Indexed.found_cases found
  have length := indexed.bits_eq liveHead live
  obtain ⟨s₄, free⟩ := freeMark_inTable (sameBits.trans live) sound.word
    (length ▸ indexed.ipCnt_lt) (length.symm ▸ sound.mark)
  refine ⟨(.ok, e.mark, s₄), ?_⟩
  unfold qmarkDelHash
  rw [found, ok_bind]
  dsimp only
  rw [modify, ok_bind, if_pos unused, removed, count, ok_bind, ok_bind]
  dsimp only
  rw [after, ok_bind, if_pos last, clear, ok_bind, free]
  rfl

/-! ## The two paths -/

theorem destroyEvent {events : Nat} {ct : Option NfConn} (destroys : Destroys events ct ip) :
    qmarkConntrackEvent env events ct s = conntrackDestroy env ip s := by
  cases ct with
  | none => cases destroys
  | some ct =>
    obtain ⟨tracked, destroy, rfl⟩ := destroys
    unfold qmarkConntrackEvent
    dsimp only
    rw [if_pos tracked, if_pos destroy]

theorem eq_of_silent {a b : St} (tables : silent a = silent b) (sent : a.sent = b.sent) :
    a = b := by
  cases a
  cases b
  simp only [silent, St.mk.injEq] at tables
  simp_all

/-- The paths always leave the same tables, and they agree altogether if and only if no mark
    is freed or no request to take its class and its filter away can be handed over. -/
theorem removals_agree_iff (reached : Reached s) (found : marktblHashGet ip s = .ok (some e))
    {events : Nat} {ct : Option NfConn} (destroys : Destroys events ct ip) (mark : Nat) :
    (qmarkConntrackEvent env events ct s).map silent =
        (qmarkDelHash ip mark s).map (fun r => silent r.2.2) ∧
      (qmarkConntrackEvent env events ct s = (qmarkDelHash ip mark s).map (fun r => r.2.2) ↔
        (Frees ip s → deletions env ip s = [])) := by
  rw [destroyEvent destroys]
  have coupled := removals_coupled env found mark
  refine ⟨coupled.map_eq fun _ _ alongside => alongside.tables, ?_, ?_⟩
  · intro agree frees
    obtain ⟨r, ran⟩ := frees.returns reached.indexed mark
    rw [ran] at agree coupled
    rw [agree] at coupled
    cases coupled with
    | ok alongside =>
      have requests := alongside.freed frees
      rw [alongside.del] at requests
      -- with the same tables, what the event has sent in addition must be nothing
      exact List.self_eq_append_left.mp requests
  · intro nothing
    have same := coupled.map_eq (f := id) (g := fun r => r.2.2) ?_
    · rw [← same]
      cases conntrackDestroy env ip s with
      | error e => rfl
      | ok s' => rfl
    · intro a r alongside
      apply eq_of_silent alongside.tables
      rw [alongside.del]
      by_cases frees : Frees ip s
      · rw [alongside.freed frees, nothing frees]
        rfl
      · exact alongside.kept frees

/-! ## Runs on fixed inputs -/

/-- A private rule, an address with one marked connection. -/
def oneConnTrace : List (Env × Op) :=
  [(plainEnv, .ioctl (.specSet 2 2)),
    (plainEnv, .ioctl (.ruleAdd ⟨1, privMode, 2, 100, 0, 0, 0⟩)),
    (plainEnv, .packet ⟨0, 7, 9⟩ ⟨0x7f800, 1, 0⟩),
    (plainEnv, .conntrack ipctMark (some ⟨afInet, false, 0x800, ⟨7, 9⟩, ⟨9, 7⟩⟩))]

/-- A second connection of the same address. -/
def twoConnTrace : List (Env × Op) :=
  oneConnTrace ++ [(plainEnv, .conntrack ipctMark (some ⟨afInet, false, 0x800, ⟨7, 8⟩, ⟨8, 7⟩⟩))]

def lastConn : NfConn := ⟨afInet, false, 0x800, ⟨7, 9⟩, ⟨9, 7⟩⟩

theorem twoConnTrace_words : ∀ l ∈ twoConnTrace, l.2.Words := by
  intro l member
  simp only [twoConnTrace, oneConnTrace, List.cons_append, List.nil_append, List.mem_cons,
    List.not_mem_nil, or_false] at member
  rcases member with rfl | rfl | rfl | rfl | rfl
  · exact ⟨by decide, by decide⟩
  · show 1 < 2 ^ 32
    decide
  · exact ⟨by decide, by decide⟩
  · trivial
  · trivial

/-- While another connection is left the paths agree. -/
theorem twoConnTrace_agrees :
    ∃ s, runAll opStep twoConnTrace (qosMarktblInit plainEnv).2 = .ok s ∧
      qmarkConntrackEvent plainEnv ipctDestroy (some lastConn) s =
        (qmarkDelHash 7 0 s).map (fun r => r.2.2) := by
  have reached : Reached _ := reached_of_trace (s := _) twoConnTrace twoConnTrace_words rfl
  have destroys : Destroys ipctDestroy (some lastConn) 7 := by decide
  refine ⟨_, rfl, (removals_agree_iff reached rfl destroys 0).2.mpr ?_⟩
  rintro ⟨e, rn, found, unused, _⟩
  cases found
  revert unused
  decide

/-- With the last connection of a private rule only the event takes the class away. -/
theorem removals_differ :
    ¬ ∀ (env : Env) (s : St) (ip : Be32) (e : MarktblNode) (events : Nat) (ct : Option NfConn)
        (mark : Nat), Reached s → marktblHashGet ip s = .ok (some e) → Destroys events ct ip →
      (qmarkConntrackEvent env events ct s).map St.sent =
        (qmarkDelHash ip mark s).map (fun r => r.2.2.sent) := by
  intro agree
  have reached : Reached _ := reached_of_trace (s := _) oneConnTrace
    (fun l member => twoConnTrace_words l (List.mem_append_left _ member)) rfl
  have same := agree plainEnv _ 7 _ ipctDestroy (some lastConn) 0 reached rfl (by decide)
  revert same
  decide

end IpQos.Verified
