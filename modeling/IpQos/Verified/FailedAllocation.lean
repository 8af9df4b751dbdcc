import IpQos.Verified.FailedCalls
import IpQos.Verified.Removal
import IpQos.Verified.Respec
import IpQos.Verified.ShortTable
import IpQos.Verified.TableConsistency

/-! # Automatic allocations that fail

`qmark_alloc_mark_auto` decides anew, from the mode and the count of the rule, whether
the mark it gives back was taken for this call or borrowed from the group.  In every state
that ordinary operation leads to, also after tables could not be allocated, it gives back
what it took: what is left of a failure is the mark field of a rule that does not use it. -/

namespace IpQos.Verified

open IpQos.Kmod
open IpQos.Lib (Run Allowed runAll)
open Registry

variable {env : Env} {s s' : St} {ip : Be32} {id mark mark' : Nat} {ret : RetCode}

/-! ## Taking a mark and giving it back -/

theorem bitMark_index {b : Nat} (small : b + 1 < 2 ^ 21) : subU32 (bitMark b >>> markBase) 1 = b := by
  rw [bitMark_shiftRight, Nat.mod_eq_of_lt small, subU32_one (by omega) (by omega)]
  rfl

theorem bitMark_ne_zero {b : Nat} (small : b + 1 < 2 ^ 21) : bitMark b ≠ 0 := by
  intro zero
  have offset := bitMark_shiftRight b
  rw [zero, Nat.mod_eq_of_lt small] at offset
  cases offset

/-- A clear bit below 2 ^ 21 - 1 is taken, or nothing happens. -/
theorem qmarkAllocMark_cases (small : s.maxIpCnt < 2 ^ 21)
    (ran : qmarkAllocMark s = .ok (ret, mark, s')) :
    ret ≠ .ok ∧ s' = s ∨
      ret = .ok ∧ ∃ bm b, s.markBitmap = .to bm ∧ bm[b]? = some false ∧ b < s.maxIpCnt ∧
        mark = bitMark b ∧ s' = s.setBits (bm.set b true) := by
  obtain ⟨⟨m, s₁⟩, taken, ran⟩ := bind_eq_ok ran
  obtain ⟨bm, deref, taken⟩ := bind_eq_ok taken
  dsimp only at ran taken
  split at taken
  · cases taken
    rw [if_pos rfl] at ran
    cases ran
    exact .inl ⟨by decide, rfl⟩
  · rename_i below
    have below : findFirstZeroBit bm s.maxIpCnt < s.maxIpCnt := Nat.lt_of_not_le below
    obtain ⟨bm', write, taken⟩ := bind_eq_ok taken
    unfold writeBit at write
    split at write
    · rename_i inBitmap
      cases write
      obtain ⟨rfl, rfl⟩ := Prod.mk.inj (Except.ok.inj taken)
      -- below 2 ^ 21 the mark does not wrap to 0
      have nonzero : 0 ≠ u32 (u32 (findFirstZeroBit bm s.maxIpCnt + 1) <<< markBase) :=
        (bitMark_ne_zero (by omega)).symm
      rw [if_neg nonzero] at ran
      obtain ⟨rfl, rest⟩ := Prod.mk.inj (Except.ok.inj ran)
      obtain ⟨rfl, rfl⟩ := Prod.mk.inj rest
      exact .inr ⟨rfl, bm, _, Ptr.deref_eq_ok deref, findFirstZeroBit_clear below inBitmap, below,
        rfl, rfl⟩
    · cases write

/-- A mark that was just taken is given back without a trace in the bitmap. -/
theorem freeMark_taken {bm : List Bool} {b : Nat} (small : b + 1 < 2 ^ 21)
    (clear : bm[b]? = some false) (live : s.markBitmap = .to (bm.set b true))
    (ran : freeMark (bitMark b) s = .ok s') :
    s'.markBitmap = .to bm ∧ s'.gMarktblHead = s.gMarktblHead ∧ s'.gRuletbl = s.gRuletbl := by
  obtain ⟨inBitmap, value⟩ := List.getElem?_eq_some_iff.mp clear
  have restored : (bm.set b true).set b false = bm := by
    rw [List.set_set, ← value, List.set_getElem_self]
  obtain ⟨bm', deref, ran⟩ := bind_eq_ok ran
  cases Ptr.to.inj (live.symm.trans (Ptr.deref_eq_ok deref))
  obtain ⟨bm'', write, ran⟩ := bind_eq_ok ran
  rw [bitMark_index small, writeBit, List.length_set, if_pos inBitmap] at write
  cases write
  cases ran
  exact ⟨congrArg Ptr.to restored, rfl, rfl⟩

/-- `allocMarkAutoAdd` fails when the entry cannot be added.  It gives the mark back for a
    private rule and for the first member of a share rule. -/
theorem allocMarkAutoAdd_failed (ran : allocMarkAutoAdd env ip id mark s = .ok (ret, mark', s'))
    (failed : ret ≠ .ok) :
    ∃ rn, ruleAt id s = .ok rn ∧
      if rn.mode = privMode ∨ rn.count = 0 then
        ∃ s₁, modifyRule id (fun rn => { rn with mark := 0 }) s = .ok s₁ ∧
          freeMark mark s₁ = .ok s'
      else s' = s := by
  obtain ⟨⟨code, s₁⟩, add, rest⟩ := bind_eq_ok ran
  clear ran
  dsimp only at rest
  -- the error path clears `rule.mark` and frees the mark, or does nothing
  cases qmarkAddHash_cases add with
  | inl refused =>
    obtain ⟨notOk, rfl⟩ := refused
    rw [if_pos notOk] at rest
    obtain ⟨rn, rule, rest⟩ := bind_eq_ok rest
    refine ⟨rn, rule, ?_⟩
    by_cases own : privMode = rn.mode ∨ 0 = rn.count
    · rw [if_pos own] at rest
      obtain ⟨s₂, clear, rest⟩ := bind_eq_ok rest
      obtain ⟨s₃, free, rest⟩ := bind_eq_ok rest
      cases rest
      rw [if_pos (own.imp Eq.symm Eq.symm)]
      exact ⟨s₂, clear, free⟩
    · rw [if_neg own] at rest
      cases rest
      rw [if_neg fun h => own (h.imp Eq.symm Eq.symm)]
  | inr added =>
    rw [if_neg (not_not.mpr added.1)] at rest
    obtain ⟨rn, _, rest⟩ := bind_eq_ok rest
    obtain ⟨s₂, _, rest⟩ := bind_eq_ok rest
    cases rest
    exact (failed rfl).elim

/-- What is left of a failed call under rule `id`. -/
inductive GivenBack (id : Nat) (s s' : St) : Prop where
  | untouched (same : s' = s)
  | cleared (tbl : List RuletblNode) (rn : RuletblNode) (live : s.gRuletbl = .to tbl)
      (rule : tbl[subU32 id 1]? = some rn) (own : rn.mode = privMode ∨ rn.count = 0)
      (markBitmap : s'.markBitmap = s.markBitmap)
      (gMarktblHead : s'.gMarktblHead = s.gMarktblHead)
      (gRuletbl : s'.gRuletbl =
        .to (tbl.modify (subU32 id 1) fun rn => { rn with mark := 0 }))

theorem ruleAt_cases {rn : RuletblNode} (found : ruleAt id s = .ok rn) :
    ∃ tbl, s.gRuletbl = .to tbl ∧ tbl[subU32 id 1]? = some rn := by
  obtain ⟨tbl, deref, found⟩ := bind_eq_ok found
  refine ⟨tbl, Ptr.deref_eq_ok deref, ?_⟩
  split at found
  · cases found
    assumption
  · cases found

theorem modifyRule_cases {f : RuletblNode → RuletblNode} (ran : modifyRule id f s = .ok s') :
    ∃ tbl, s.gRuletbl = .to tbl ∧ s' = s.setRules (tbl.modify (subU32 id 1) f) := by
  obtain ⟨tbl, deref, ran⟩ := bind_eq_ok ran
  split at ran
  · cases ran
    exact ⟨tbl, Ptr.deref_eq_ok deref, rfl⟩
  · cases ran

/-- A failure after a mark was taken for the call, and perhaps stored in the rule. -/
theorem GivenBack.of_taken {bm : List Bool} {b : Nat} {tbl tbl₁ : List RuletblNode}
    {rn : RuletblNode} (small : b + 1 < 2 ^ 21) (bits : s.markBitmap = .to bm)
    (clear : bm[b]? = some false) (live : s.gRuletbl = .to tbl)
    (rule : tbl[subU32 id 1]? = some rn) (own : rn.mode = privMode ∨ rn.count = 0)
    (stored : tbl₁.modify (subU32 id 1) (fun rn => { rn with mark := 0 }) =
      tbl.modify (subU32 id 1) fun rn => { rn with mark := 0 })
    (asBefore : ∀ rn₁, tbl₁[subU32 id 1]? = some rn₁ → rn₁.mode = rn.mode ∧ rn₁.count = rn.count)
    (ran : allocMarkAutoAdd env ip id (bitMark b)
      ((s.setBits (bm.set b true)).setRules tbl₁) = .ok (ret, mark', s'))
    (failed : ret ≠ .ok) : GivenBack id s s' := by
  obtain ⟨rn₁, rule₁, rest⟩ := allocMarkAutoAdd_failed ran failed
  obtain ⟨tbl', live', rule'⟩ := ruleAt_cases rule₁
  cases live'
  obtain ⟨mode, count⟩ := asBefore rn₁ rule'
  rw [if_pos (by rwa [mode, count])] at rest
  obtain ⟨s₁, cleared, free⟩ := rest
  obtain ⟨tbl', live', rfl⟩ := modifyRule_cases cleared
  cases live'
  obtain ⟨markBitmap, gMarktblHead, gRuletbl⟩ := freeMark_taken small clear rfl free
  exact .cleared tbl rn live rule own (markBitmap.trans bits.symm) gMarktblHead
    (gRuletbl.trans (congrArg Ptr.to stored))

theorem GivenBack.of_failed (small : s.maxIpCnt < 2 ^ 21)
    (ran : qmarkAllocMarkAuto env ip id mark s = .ok (ret, mark', s')) (failed : ret ≠ .ok) :
    GivenBack id s s' := by
  unfold qmarkAllocMarkAuto at ran
  split at ran
  · cases ran
    exact .untouched rfl
  · obtain ⟨rn, found, ran⟩ := bind_eq_ok ran
    obtain ⟨tbl, live, rule⟩ := ruleAt_cases found
    have unstored (bm : List Bool) : s.setBits bm = (s.setBits bm).setRules tbl := by
      show { s with markBitmap := .to bm } =
        { s with markBitmap := .to bm, gRuletbl := .to tbl }
      rw [← live]
    split at ran
    next isPrivate =>
      obtain ⟨⟨code, m, s₁⟩, alloc, rest⟩ := bind_eq_ok ran
      clear ran
      dsimp only at rest
      cases qmarkAllocMark_cases small alloc with
      | inl full =>
        obtain ⟨notOk, rfl⟩ := full
        rw [if_pos notOk] at rest
        cases rest
        exact .untouched rfl
      | inr taken =>
        obtain ⟨isOk, bm, b, bits, clear, below, rfl, rfl⟩ := taken
        rw [if_neg (not_not.mpr isOk), unstored] at rest
        -- the bit that was set is cleared again, and the rule forgets its mark
        refine .of_taken (by omega) bits clear live rule (.inl isPrivate.symm) rfl ?_ rest failed
        intro rn₁ rule₁
        cases rule₁.symm.trans rule
        exact ⟨rfl, rfl⟩
    next isShare =>
      split at ran
      next unused =>
        obtain ⟨⟨code, m, s₁⟩, alloc, rest⟩ := bind_eq_ok ran
        clear ran
        dsimp only at rest
        cases qmarkAllocMark_cases small alloc with
        | inl full =>
          obtain ⟨notOk, rfl⟩ := full
          rw [if_pos notOk] at rest
          cases rest
          exact .untouched rfl
        | inr taken =>
          obtain ⟨isOk, bm, b, bits, clear, below, rfl, rfl⟩ := taken
          rw [if_neg (not_not.mpr isOk)] at rest
          -- the first member has stored its mark in the rule
          obtain ⟨s₂, store, rest⟩ := bind_eq_ok rest
          obtain ⟨tbl', live', rfl⟩ := modifyRule_cases store
          cases live.symm.trans live'
          refine .of_taken (by omega) bits clear live rule (.inr unused.symm) ?_ ?_ rest failed
          · rw [List.modify_modify_eq]
            rfl
          · intro rn₁ rule₁
            rw [List.getElem?_modify_eq, rule] at rule₁
            cases rule₁
            exact ⟨rfl, rfl⟩
      next used =>
        -- a further member has only borrowed the mark of the rule
        obtain ⟨rn', found', rest⟩ := allocMarkAutoAdd_failed ran failed
        cases found.symm.trans found'
        rw [if_neg (not_or.mpr ⟨Ne.symm isShare, Ne.symm used⟩)] at rest
        exact .untouched rest

/-! ## Tables without content

A RESET or a SPEC_SET whose allocations fail leaves some of the tables away, and the others
blank. -/

def blankHead (ipCnt : Nat) : MarktblHead :=
  { elemNum := 0, size := ipCnt, ht := List.replicate ipCnt [] }

structure Blank (s : St) : Prop where
  head : ∀ head, s.gMarktblHead = .to head → head = blankHead s.maxIpCnt
  counts : ∀ tbl, s.gRuletbl = .to tbl → ∀ rn ∈ tbl, rn.count = 0
  bits : ∀ bm, s.markBitmap = .to bm → ∀ bit ∈ bm, bit = false
  ipCnt_pos : 1 ≤ s.maxIpCnt
  ipCnt_lt : s.maxIpCnt < 2 ^ 21

/-- `max_rule_cnt` corrected to what the rule table holds. -/
def fitted (s : St) : St := resized (allotted sizeofRuletblNode s.maxRuleCnt) s

theorem allotted_rules_le (cnt : Nat) : allotted sizeofRuletblNode cnt ≤ 119304647 := by
  unfold allotted u32 sizeofRuletblNode
  omega

namespace Blank

theorem no_entries (blank : Blank s) : s.registry.entries = 0 := by
  unfold St.registry
  dsimp only
  split
  next head live =>
    rw [blank.head head live]
    exact IpQos.Lib.contents_replicate_nil _
  next => rfl

/-- With all of its tables a blank state is a good one. -/
theorem good (blank : Blank s) (indexed : Indexed s) (live : TablesLive s) : Good (fitted s) := by
  obtain ⟨bm, bits⟩ := Strays.of_isLive live.bits
  obtain ⟨tbl, rules⟩ := Strays.of_isLive live.rules
  obtain ⟨head, liveHead⟩ := Strays.of_isLive live.head
  have same : fitted s = (fitted s).setHead (blankHead s.maxIpCnt) := by
    rw [← blank.head head liveHead]
    show fitted s = { fitted s with gMarktblHead := .to head }
    rw [← liveHead]
    rfl
  have ipCnt_lt := blank.ipCnt_lt
  have unwrapped : Unwrapped s.maxIpCnt (fitted s).maxRuleCnt :=
    Unwrapped.iff_le.mpr ⟨by omega, allotted_rules_le s.maxRuleCnt⟩
  -- `fitted` lowers the number of rules to those that the memory holds
  have live' := Live.empty (fitted s) rules bits (indexed.rules tbl rules).1
    (indexed.bits_eq liveHead bits) unwrapped
  have wf : WellFormed (fitted s) := by
    rw [same]
    exact ⟨_, _, _, live'⟩
  refine ⟨wf, Consistent.ofEmpty blank.no_entries ?_ ?_ blank.ipCnt_pos blank.ipCnt_lt⟩
  · intro b _
    simp only [fitted, resized, St.registry, bits, List.getD_eq_getElem?_getD]
    cases read : bm[b]? with
    | none => rfl
    | some bit => exact blank.bits bm bits bit (List.mem_of_getElem? read)
  · intro id valid
    have nonzero : id ≠ 0 := Nat.one_le_iff_ne_zero.mp valid.1
    simp only [fitted, resized, St.registry, rules, if_neg nonzero, List.getD_eq_getElem?_getD]
    cases read : tbl[id - 1]? with
    | none => rfl
    | some rn => exact blank.counts tbl rules rn (List.mem_of_getElem? read)

theorem lookup (blank : Blank s) {node : Option MarktblNode}
    (ran : marktblHashGet ip s = .ok node) : node = none ∧ s.gMarktblHead.isLive = true := by
  cases node with
  | none =>
    obtain ⟨head, deref, _⟩ := bind_eq_ok ran
    exact ⟨rfl, Ptr.isLive_of_eq (Ptr.deref_eq_ok deref)⟩
  | some e =>
    obtain ⟨head, i, chain, live, _, here, hit⟩ := Indexed.found_cases ran
    rw [blank.head head live] at here
    have empty : chain = [] := List.eq_of_mem_replicate (List.mem_of_getElem? here)
    rw [empty] at hit
    cases hit

theorem modifyRule (blank : Blank s) {f : RuletblNode → RuletblNode}
    (keeps : ∀ rn, (f rn).count = rn.count) (ran : Kmod.modifyRule id f s = .ok s') :
    Blank s' := by
  obtain ⟨tbl, live, rfl⟩ := modifyRule_cases ran
  refine ⟨blank.head, ?_, blank.bits, blank.ipCnt_pos, blank.ipCnt_lt⟩
  intro tbl' live' rn member
  obtain rfl : tbl.modify (subU32 id 1) f = tbl' := Ptr.to.inj live'
  obtain ⟨i, here⟩ := List.mem_iff_getElem?.mp member
  rw [List.getElem?_modify] at here
  cases old : tbl[i]? with
  | none =>
    rw [old] at here
    split at here <;> cases here
  | some rn' =>
    have zero := blank.counts tbl live rn' (List.mem_of_getElem? old)
    rw [old] at here
    split at here <;> cases here
    · exact (keeps rn').trans zero
    · exact zero

theorem setSpec {ipSpec : Nat} (pos : 1 ≤ ipSpec) (small : ipSpec < 2 ^ 21) {ruleSpec : Nat}
    (ran : qmarkSetSpec env ipSpec ruleSpec s = .ok s') : Blank s' := by
  by_cases dangling : s.gMarktblHead = .dangling
  · rw [qmarkSetSpec_dangling env ipSpec ruleSpec dangling] at ran
    cases ran
  · rw [qmarkSetSpec_allocated env ipSpec ruleSpec dangling] at ran
    split at ran
    · cases ran
    cases ran
    refine ⟨?_, ?_, ?_, pos, small⟩
    · intro head live
      simp only [allocated] at live
      split at live
      · split at live <;> cases live
        rfl
      · cases live
    · intro tbl live rn member
      simp only [allocated] at live
      split at live <;> cases live
      rw [List.eq_of_mem_replicate member]
      rfl
    · intro bm live bit member
      simp only [allocated] at live
      split at live <;> cases live
      exact List.eq_of_mem_replicate member

theorem hashtblInit {s₁ : St} (ran : qosMarktblHashtblInit env s = .ok (ret, s₁)) :
    ∃ p, s₁ = { s with gMarktblHead := p } ∧ ∀ head, p = .to head → head = blankHead s.maxIpCnt := by
  unfold qosMarktblHashtblInit at ran
  split at ran
  · split at ran
    · split at ran
      · cases ran
      · cases ran
        exact ⟨_, rfl, fun _ live => (Ptr.to.inj live).symm⟩
    · cases ran
      exact ⟨.dangling, rfl, fun _ live => by cases live⟩
  · cases ran
    exact ⟨.null, rfl, fun _ live => by cases live⟩

/-- Bits, entries and counts are cleared one after the other. -/
theorem of_resetSection (indexed : Indexed s) (pos : 1 ≤ s.maxIpCnt) (small : s.maxIpCnt < 2 ^ 21)
    (ran : resetSection env s = .ok s') : Blank s' := by
  obtain ⟨s₁, flushBits, ran⟩ := bind_eq_ok ran
  obtain ⟨bm, bits, flushBits⟩ := bind_eq_ok flushBits
  cases flushBits
  obtain ⟨s₂, flush, ran⟩ := bind_eq_ok ran
  obtain ⟨s₃, exited, flush⟩ := bind_eq_ok flush
  -- a dangling head would have been dereferenced
  have kept : (s.setBits (bm.map fun _ => false)).gMarktblHead ≠ .dangling := by
    intro dangling
    rw [qosMarktblHashtblExit, marktblHashClean, dangling] at exited
    cases exited
  rw [qosMarktblHashtblExit_eq kept] at exited
  cases exited
  obtain ⟨⟨ret, s₃⟩, opened, flush⟩ := bind_eq_ok flush
  cases flush
  obtain ⟨p, rfl, blankHead⟩ := hashtblInit opened
  have bits_false : ∀ bit ∈ bm.map fun _ => false, bit = false := by
    intro bit member
    obtain ⟨_, _, rfl⟩ := List.mem_map.mp member
    rfl
  unfold clearCounts at ran
  split at ran
  next noRules =>
    cases ran
    refine ⟨blankHead, ?_, ?_, pos, small⟩
    · intro tbl live rn member
      have length : tbl.length ≤ 0 := (indexed.rules_le live).trans_eq noRules
      rw [List.eq_nil_of_length_eq_zero (Nat.le_zero.mp length)] at member
      cases member
    · intro bm' live
      cases live
      exact bits_false
  next =>
    obtain ⟨tbl, _, ran⟩ := bind_eq_ok ran
    split at ran
    · cases ran
    cases ran
    refine ⟨blankHead, ?_, ?_, pos, small⟩
    · intro tbl' live rn member
      cases live
      obtain ⟨_, _, rfl⟩ := List.mem_map.mp member
      rfl
    · intro bm' live
      cases live
      exact bits_false

end Blank

/-! ## Runs -/

/-- A call that finds no rule, or a rule without members and no bitmap, does nothing if it
    returns at all. -/
theorem qmarkAllocMarkAuto_stuck (noBits : ∀ rn, ruleAt id s = .ok rn →
      rn.count = 0 ∧ s.markBitmap.isLive = false)
    (ran : qmarkAllocMarkAuto env ip id mark s = .ok (ret, mark', s')) : s' = s := by
  unfold qmarkAllocMarkAuto at ran
  split at ran
  · cases ran
    rfl
  · obtain ⟨rn, found, ran⟩ := bind_eq_ok ran
    obtain ⟨unused, absent⟩ := noBits rn found
    have noMark : ∀ r, qmarkAllocMark s ≠ .ok r := by
      intro r alloc
      obtain ⟨taken, take, _⟩ := bind_eq_ok alloc
      obtain ⟨bm, deref, _⟩ := bind_eq_ok take
      rw [Ptr.deref_eq_ok deref] at absent
      cases absent
    split at ran
    · obtain ⟨r, alloc, _⟩ := bind_eq_ok ran
      exact (noMark r alloc).elim
    · rw [if_pos unused.symm] at ran
      obtain ⟨r, alloc, _⟩ := bind_eq_ok ran
      exact (noMark r alloc).elim

theorem qmarkHandle_stuck {skb skb' : SkBuff} {info : TgInfo}
    (noBits : s.gMarktblHead.isLive = true → ∀ rn, ruleAt info.id s = .ok rn →
      rn.count = 0 ∧ s.markBitmap.isLive = false)
    (ran : qmarkHandle env skb info s = .ok (skb', s')) : s' = s := by
  obtain ⟨⟨code, mark⟩, find, ran⟩ := bind_eq_ok ran
  obtain ⟨node, get, _⟩ := bind_eq_ok find
  obtain ⟨head, deref, _⟩ := bind_eq_ok get
  have live := Ptr.isLive_of_eq (Ptr.deref_eq_ok deref)
  dsimp only at ran
  split at ran
  · obtain ⟨⟨ret, mark', s₁⟩, alloc, ran⟩ := bind_eq_ok ran
    have same := qmarkAllocMarkAuto_stuck (noBits live) alloc
    dsimp only at ran
    split at ran <;> cases ran <;> exact same
  · cases ran
    rfl

/-- The operations of a router at work: the mode of a rule is kept while it has entries, and
    the sizes fit the marks. -/
def Ordinary (l : Env × Op) (s : St) : Prop :=
  match l.2 with
  | .packet skb info => skb.mark < 2 ^ 32 ∧ info.id < 2 ^ 32
  | .conntrack _ _ => True
  | .ioctl (.ruleAdd qr) =>
    qr.id < 2 ^ 32 ∧ ∀ e ∈ s.registry.entries, e.id = qr.id →
      (qr.mode = privMode ↔ s.registry.Private qr.id)
  | .ioctl (.hashDel _) => True
  | .ioctl (.reset _) => True
  | .ioctl (.specSet maxIpCnt maxRuleCnt) =>
    1 ≤ maxIpCnt ∧ maxIpCnt < 2 ^ 21 ∧ maxRuleCnt < 2 ^ 32
  | _ => False

theorem Ordinary.words {l : Env × Op} (ordinary : Ordinary l s) : l.2.Words := by
  obtain ⟨env, op⟩ := l
  cases op with
  | packet skb info => exact ordinary
  | conntrack events ct => trivial
  | ioctl cmd =>
    cases cmd with
    | ruleAdd qr => exact ordinary.1
    | specSet ipSpec ruleSpec => exact ⟨Nat.lt_trans ordinary.2.1 (by decide), ordinary.2.2⟩
    | hashDel | reset => trivial
    | _ => exact ordinary.elim

/-- All tables are there and consistent, of as many rules as there are, or whatever is there is
    blank. -/
def Sane (s : St) : Prop := Good (fitted s) ∨ Blank s

/-! ### From good tables -/

theorem Good.fitted_eq (good : Good s) : fitted s = s := by
  obtain ⟨⟨head, tbl, bm, live⟩, _⟩ := good
  unfold fitted resized
  rw [live.unwrapped.rules]

/-- What is harmless in the corrected state leaves the corrected state good. -/
theorem Good.fitted_step (good : Good (fitted s)) {l : Env × Op} (harmless : Harmless l (fitted s))
    (ruleCnt : s'.maxRuleCnt = s.maxRuleCnt)
    (ran : opStep l (fitted s) = .ok (resized (allotted sizeofRuletblNode s.maxRuleCnt) s')) :
    Sane s' := by
  have kept := good.stepped harmless ran
  rw [← ruleCnt] at kept
  exact .inl kept

theorem Good.validId (good : Good s) (word : id < 2 ^ 32) {rn : RuletblNode}
    (found : ruleAt id s = .ok rn) : s.registry.ValidId id := by
  obtain ⟨⟨head, tbl, bm, live⟩, _⟩ := good
  obtain ⟨tbl', live', rule⟩ := ruleAt_cases found
  cases live.liveRules.symm.trans live'
  have inRange := (List.getElem?_eq_some_iff.mp rule).1
  rw [live.ruleCnt] at inRange
  exact (subU32_lt_iff word live.ruleCnt_lt).mp inRange

theorem Good.sane_step (good : Good (fitted s)) (indexed : Indexed s) {l : Env × Op}
    (ordinary : Ordinary l s) (ran : opStep l s = .ok s') : Sane s' := by
  obtain ⟨env, op⟩ := l
  cases op with
  | packet skb info =>
    obtain ⟨skb', handle⟩ := opStep_packet ran
    by_cases valid : (fitted s).registry.ValidId info.id
    -- the same step with the number of rules that fits
    · have handle' := qmarkHandle_resized (allotted sizeofRuletblNode s.maxRuleCnt) handle
      refine good.fitted_step (l := (env, .packet skb info)) valid
        (Framed.qmarkHandle handle).maxRuleCnt ?_
      simp only [opStep, exec, fitted, handle']
      rfl
    -- an id past the rules in memory faults at once if its address is new
    · have noRule : ∀ rn, ruleAt info.id s ≠ .ok rn := fun rn found =>
        valid (good.validId ordinary.2 (ruleAt_resized _ found))
      rw [qmarkHandle_stuck (fun _ rn found => (noRule rn found).elim) handle]
      exact .inl good
  | conntrack events ct =>
    have event := opStep_conntrack ran
    have event' := qmarkConntrackEvent_resized (allotted sizeofRuletblNode s.maxRuleCnt) event
    refine good.fitted_step (l := (env, .conntrack events ct)) trivial
      (Framed.qmarkConntrackEvent event).maxRuleCnt ?_
    simp only [opStep, exec, fitted, event']
    rfl
  | ioctl cmd =>
    obtain ⟨r, cdev⟩ := opStep_cdev ran
    cases cmd with
    | ruleAdd qr =>
      rcases of_afterCopy cdev with rfl | ⟨copied, cdev⟩
      · exact .inl good
      · obtain ⟨s₁, add, done⟩ := bind_eq_ok cdev
        cases done
        obtain ⟨tbl, live, same⟩ := modifyRule_cases add
        obtain ⟨rn, rule, _⟩ := ruleAt_modifyRule add
        have valid := good.validId ordinary.1 (ruleAt_resized _ rule)
        have managed : Managed (env, .ioctl (.ruleAdd qr)) (fitted s) := ⟨valid, ordinary.2⟩
        have add' := modifyRule_resized (allotted sizeofRuletblNode s.maxRuleCnt) add
        have ruleCnt : s'.maxRuleCnt = s.maxRuleCnt := same ▸ rfl
        refine good.fitted_step (managed.harmless good) ruleCnt ?_
        rw [opStep_ioctl]
        simp only [qmarkCdevIoctl, Kmod.afterCopy, if_neg (Int.not_lt.mpr copied), qmarkAddRule, fitted,
          add']
        rfl
    | hashDel qh =>
      rcases of_afterCopy cdev with rfl | ⟨copied, cdev⟩
      · exact .inl good
      · split at cdev
        · cases cdev
          exact .inl good
        · obtain ⟨⟨ret, mark, s₁⟩, del, cdev⟩ := bind_eq_ok cdev
          have same : s₁ = s' := by
            dsimp only at cdev
            split at cdev <;> cases cdev <;> rfl
          subst same
          have del' := qmarkDelHash_resized (allotted sizeofRuletblNode s.maxRuleCnt) del
          refine good.fitted_step (l := (env, .ioctl (.hashDel qh))) trivial
            (Framed.qmarkDelHash del).maxRuleCnt ?_
          rw [opStep_ioctl]
          simp only [qmarkCdevIoctl, Kmod.afterCopy, if_neg (Int.not_lt.mpr copied), if_neg ‹¬ _ = _›,
            fitted, del', ok_bind]
          split <;> rfl
    | reset flag =>
      rcases of_afterCopy cdev with rfl | ⟨_, cdev⟩
      · exact .inl good
      · obtain ⟨s₁, reset, done⟩ := bind_eq_ok cdev
        cases done
        unfold qmarkReset at reset
        split at reset
        · cases reset
          exact .inl (.of_represents (setFlag_represents good.1.represents false)
            (good.2.congr rfl rfl rfl rfl rfl))
        -- RESET 1 may lose the hash table: from here on the state is a blank one
        · exact .inr (.of_resetSection (indexed.others true s.qmarkLanDev s.qmarkWanDev s.sent s.freed)
            good.2.ipCnt_pos good.2.ipCnt_lt reset)
    | specSet ipSpec ruleSpec =>
      rcases of_afterCopy cdev with rfl | ⟨_, cdev⟩
      · exact .inl good
      · obtain ⟨s₁, set, done⟩ := bind_eq_ok cdev
        cases done
        exact .inr (.setSpec ordinary.1 ordinary.2.1 set)
    | _ => exact ordinary.elim

/-! ### From blank tables -/

/-- Nothing can be looked up in a blank table, so an event finds nothing to do. -/
theorem Blank.conntrack (blank : Blank s) {events : Nat} {ct : Option NfConn}
    (ran : qmarkConntrackEvent env events ct s = .ok s') : s' = s := by
  unfold qmarkConntrackEvent at ran
  split at ran
  · cases ran
    rfl
  · split at ran
    · split at ran
      · obtain ⟨node, get, ran⟩ := bind_eq_ok ran
        obtain ⟨rfl, _⟩ := blank.lookup get
        cases ran
        rfl
      · split at ran
        · obtain ⟨node, get, ran⟩ := bind_eq_ok ran
          obtain ⟨rfl, _⟩ := blank.lookup get
          cases ran
          rfl
        · cases ran
          rfl
    · cases ran
      rfl

theorem Blank.hashDel (blank : Blank s) {qh : QmarkHash} {r : Reply}
    (ran : qmarkCdevIoctl env (.hashDel qh) s = .ok (r, s')) : s' = s := by
  rcases of_afterCopy ran with same | ⟨_, ran⟩
  · exact same
  · split at ran
    · cases ran
      rfl
    · obtain ⟨⟨ret, mark, s₁⟩, del, ran⟩ := bind_eq_ok ran
      obtain ⟨node, get, del⟩ := bind_eq_ok del
      obtain ⟨rfl, _⟩ := blank.lookup get
      cases del
      dsimp only at ran
      split at ran <;> cases ran <;> rfl

theorem Blank.count_eq_zero (blank : Blank s) {rn : RuletblNode} (found : ruleAt id s = .ok rn) :
    rn.count = 0 := by
  obtain ⟨tbl, live, rule⟩ := ruleAt_cases found
  exact blank.counts tbl live rn (List.mem_of_getElem? rule)

theorem Blank.sane_step (blank : Blank s) (indexed : Indexed s) {l : Env × Op}
    (ordinary : Ordinary l s) (ran : opStep l s = .ok s') : Sane s' := by
  obtain ⟨env, op⟩ := l
  cases op with
  | packet skb info =>
    -- with all three tables there, nothing is missing
    by_cases bits : s.markBitmap.isLive = true ∧ s.gRuletbl.isLive = true ∧
        s.gMarktblHead.isLive = true
    · exact (blank.good indexed ⟨bits.1, bits.2.1, bits.2.2⟩).sane_step indexed ordinary ran
    · obtain ⟨skb', handle⟩ := opStep_packet ran
      -- with a table missing no packet gets an entry
      have noBits : s.gMarktblHead.isLive = true → ∀ rn, ruleAt info.id s = .ok rn →
          rn.count = 0 ∧ s.markBitmap.isLive = false := by
        intro headLive rn found
        obtain ⟨tbl, live, _⟩ := ruleAt_cases found
        refine ⟨blank.count_eq_zero found, Bool.eq_false_iff.mpr fun bitsLive => ?_⟩
        exact bits ⟨bitsLive, Ptr.isLive_of_eq live, headLive⟩
      rw [qmarkHandle_stuck noBits handle]
      exact .inr blank
  | conntrack events ct =>
    rw [blank.conntrack (opStep_conntrack ran)]
    exact .inr blank
  | ioctl cmd =>
    obtain ⟨r, cdev⟩ := opStep_cdev ran
    cases cmd with
    | ruleAdd qr =>
      rcases of_afterCopy cdev with rfl | ⟨_, cdev⟩
      · exact .inr blank
      · obtain ⟨s₁, add, done⟩ := bind_eq_ok cdev
        cases done
        exact .inr (blank.modifyRule (f := addedRule qr) (fun _ => rfl) add)
    | hashDel qh =>
      rw [blank.hashDel cdev]
      exact .inr blank
    | reset flag =>
      rcases of_afterCopy cdev with rfl | ⟨_, cdev⟩
      · exact .inr blank
      · obtain ⟨s₁, reset, done⟩ := bind_eq_ok cdev
        cases done
        unfold qmarkReset at reset
        split at reset
        · cases reset
          exact .inr ⟨blank.head, blank.counts, blank.bits, blank.ipCnt_pos, blank.ipCnt_lt⟩
        · exact .inr (.of_resetSection
            (indexed.others true s.qmarkLanDev s.qmarkWanDev s.sent s.freed)
            blank.ipCnt_pos blank.ipCnt_lt reset)
    | specSet ipSpec ruleSpec =>
      rcases of_afterCopy cdev with rfl | ⟨_, cdev⟩
      · exact .inr blank
      · obtain ⟨s₁, set, done⟩ := bind_eq_ok cdev
        cases done
        exact .inr (.setSpec ordinary.1 ordinary.2.1 set)
    | _ => exact ordinary.elim

/-- The states of a router at work, also after allocations that failed. -/
def AtWork (s : St) : Prop :=
  ∃ env, (qosMarktblInit env).1 = .ok ∧ Run opStep Ordinary (qosMarktblInit env).2 s

theorem allocates_of_init (ok : (qosMarktblInit env).1 = .ok) : AllocatesTables env := by
  unfold qosMarktblInit markBitmapInit qosRuletblInit qosMarktblHashtblInit at ok
  unfold AllocatesTables
  revert ok
  cases env.kmalloc .markBitmap <;> cases env.kmalloc .ruletbl <;>
    cases env.kmalloc .marktblHead <;> cases env.kmalloc .marktblHt <;> decide

theorem AtWork.reached (atWork : AtWork s) : Reached s := by
  obtain ⟨env, ok, run⟩ := atWork
  exact ⟨env, ok, run.mono fun _ _ ordinary => ordinary.words⟩

theorem AtWork.sane (atWork : AtWork s) : Sane s := by
  obtain ⟨env, ok, run⟩ := atWork
  have kept : Indexed s ∧ Sane s := by
    apply run.invariant (fun s => Indexed s ∧ Sane s)
    · have good := good_init (allocates_of_init ok)
      exact ⟨Indexed.init env, .inl (good.fitted_eq.symm ▸ good)⟩
    · rintro l y z ⟨indexed, sane⟩ ordinary ran
      have ensures := indexed.step ordinary.words
      rw [ran] at ensures
      refine ⟨ensures.returned, ?_⟩
      cases sane with
      | inl good => exact good.sane_step indexed ordinary ran
      | inr blank => exact blank.sane_step indexed ordinary ran
  exact kept.2

theorem Sane.ipCnt_lt (sane : Sane s) : s.maxIpCnt < 2 ^ 21 := by
  cases sane with
  | inl good => exact good.2.ipCnt_lt
  | inr blank => exact blank.ipCnt_lt

theorem Sane.unused (sane : Sane s) (word : id < 2 ^ 32) {rn : RuletblNode}
    (found : ruleAt id s = .ok rn) (zero : rn.count = 0) :
    ∀ e ∈ s.registry.entries, e.id ≠ id := by
  cases sane with
  | inl good =>
    have found' := ruleAt_resized (allotted sizeofRuletblNode s.maxRuleCnt) found
    have valid' := good.validId word found'
    cases found'.symm.trans (ruleAt_spec good.1.represents id valid')
    exact (good.2.count_eq_zero_iff valid').mp zero
  | inr blank =>
    intro e member
    rw [blank.no_entries] at member
    cases Multiset.notMem_zero e member

/-! ## The result -/

/-- The bitmap and the hash table are as before, and a rule has at most lost its mark: a
    private rule, which does not use it, or one without entries. -/
structure FailedQuietly (s s' : St) : Prop where
  markBitmap : s'.markBitmap = s.markBitmap
  gMarktblHead : s'.gMarktblHead = s.gMarktblHead
  rules : ∀ i, 1 ≤ i → i ≤ s.maxRuleCnt → ruleAt i s' = ruleAt i s ∨
    ∃ rn, ruleAt i s = .ok rn ∧ ruleAt i s' = .ok { rn with mark := 0 } ∧
      (rn.mode = privMode ∨ ∀ e ∈ s.registry.entries, e.id ≠ i)

theorem failed_allocation_quiet (atWork : AtWork s) (valid : 1 ≤ id ∧ id ≤ s.maxRuleCnt)
    (ran : qmarkAllocMarkAuto env ip id mark s = .ok (ret, mark', s')) (failed : ret ≠ .ok) :
    FailedQuietly s s' := by
  have sane := atWork.sane
  have ruleCnt_lt := atWork.reached.indexed.ruleCnt_lt
  have ruleCnt : s'.maxRuleCnt = s.maxRuleCnt := (Framed.qmarkAllocMarkAuto ran).maxRuleCnt
  cases GivenBack.of_failed sane.ipCnt_lt ran failed with
  | untouched same =>
    rw [same]
    exact ⟨rfl, rfl, fun _ _ _ => .inl rfl⟩
  | cleared tbl rn live rule own markBitmap gMarktblHead gRuletbl =>
    refine ⟨markBitmap, gMarktblHead, ?_⟩
    intro i pos le
    by_cases here : i = id
    · subst here
      have found : ruleAt i s = .ok rn := by
        rw [ruleAt, live, Ptr.deref_to, ok_bind, rule]
      refine .inr ⟨rn, found, ?_, own.imp_right (sane.unused (Nat.lt_of_le_of_lt valid.2 ruleCnt_lt) found)⟩
      rw [ruleAt, gRuletbl, Ptr.deref_to, ok_bind, List.getElem?_modify_eq, rule]
      rfl
    · left
      -- the other rules have other slots
      have apart : subU32 id 1 ≠ subU32 i 1 := by
        rw [subU32_one valid.1 (by omega), subU32_one pos (by omega)]
        omega
      rw [ruleAt, gRuletbl, ruleAt, live, Ptr.deref_to, Ptr.deref_to, ok_bind, ok_bind,
        List.getElem?_modify_ne _ _ apart, ruleCnt]

/-- A share rule that had a member becomes private after a reset, and keeps its old mark. -/
def staleMarkTrace : List (Env × Op) :=
  [(plainEnv, .ioctl (.specSet 2 2)),
    (plainEnv, .ioctl (.ruleAdd ⟨1, shareMode, 2, 100, 0, 0, 0⟩)),
    (plainEnv, .packet ⟨0, 7, 9⟩ ⟨0x7f800, 1, 0⟩),
    (plainEnv, .ioctl (.reset 1)),
    (plainEnv, .ioctl (.ruleAdd ⟨1, privMode, 2, 100, 0, 0, 0⟩)),
    (plainEnv, .ioctl (.reset 0)),
    (plainEnv, .packet ⟨0, 7, 9⟩ ⟨0x7f800, 1, 0⟩)]

theorem staleMarkTrace_allowed :
    Allowed opStep Ordinary staleMarkTrace (qosMarktblInit plainEnv).2 := by
  refine ⟨⟨by decide, by decide, by decide⟩, ?_⟩
  refine ⟨⟨by decide, by decide⟩, ⟨by decide, by decide⟩, trivial, ⟨by decide, by decide⟩, trivial,
    ⟨by decide, by decide⟩, trivial⟩

/-- No memory for an entry. -/
def noNodesEnv : Env := { plainEnv with kmalloc := fun site => site ≠ .marktblNode }

def staleMarkSt : St :=
  match runAll opStep staleMarkTrace (qosMarktblInit plainEnv).2 with
  | .ok s => s
  | .error _ => .static

theorem staleMarkSt_atWork : AtWork staleMarkSt :=
  ⟨plainEnv, rfl, Run.of_runAll staleMarkTrace_allowed rfl⟩

theorem stale_mark_quiet :
    ∃ mark' s', qmarkAllocMarkAuto noNodesEnv 8 1 0 staleMarkSt = .ok (.error, mark', s') ∧
      FailedQuietly staleMarkSt s' := by
  have failing : ∃ mark' s',
      qmarkAllocMarkAuto noNodesEnv 8 1 0 staleMarkSt = .ok (.error, mark', s') := ⟨_, _, rfl⟩
  obtain ⟨mark', s', ran⟩ := failing
  exact ⟨mark', s', ran, failed_allocation_quiet staleMarkSt_atWork (by decide) ran (by decide)⟩

/-- The failed call of address 8 clears the mark field of a rule that address 7 is under. -/
theorem stale_mark_cleared :
    ∃ mark' s' rn, AtWork staleMarkSt ∧ marktblHashGet 8 staleMarkSt = .ok none ∧
      qmarkAllocMarkAuto noNodesEnv 8 1 0 staleMarkSt = .ok (.error, mark', s') ∧
      ruleAt 1 staleMarkSt = .ok rn ∧ ruleAt 1 s' ≠ .ok rn ∧
      ¬ ∀ e ∈ staleMarkSt.registry.entries, e.id ≠ 1 :=
  ⟨_, _, _, staleMarkSt_atWork, rfl, rfl, rfl, by decide, by decide⟩

end IpQos.Verified
