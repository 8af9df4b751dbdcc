import IpQos.Kmod.Ops
import IpQos.Verified.Rates
import IpQos.Verified.Registry

/-! # The tables represent a registry

`St.registry` reads the three tables off as a registry, `WellFormed` says that
they are live and of the sizes the globals promise.  Every static helper of the
module is then one step of the registry: one lemma per function, from which the
lemmas about the entry points are composed. -/

namespace IpQos.Kmod

open IpQos.Lib (contents)

/-- What the tables hold, pointers and buckets apart. -/
def St.registry (s : St) : Verified.Registry where
  entries :=
    match s.gMarktblHead with
    | .to head => contents head.ht
    | _ => 0
  bit b :=
    match s.markBitmap with
    | .to bm => bm.getD b false
    | _ => false
  rule id :=
    match s.gRuletbl with
    | .to tbl => if id = 0 then .zero else tbl.getD (id - 1) .zero
    | _ => .zero
  ipCnt := s.maxIpCnt
  ruleCnt := s.maxRuleCnt
  resetFlag := s.resetFlag
  lanDev := s.qmarkLanDev
  wanDev := s.qmarkWanDev
  sent := s.sent
  freed := s.freed

end IpQos.Kmod

namespace IpQos.Verified

open IpQos.Kmod
open IpQos.Lib (contents Placed modifyFirst)
open Registry

/-! ## Live tables -/

/-- Sizes for which no byte count of `kmalloc` wraps. -/
def Unwrapped (ipCnt ruleCnt : Nat) : Prop :=
  sizeofHlistHead * ipCnt < 2 ^ 32 ∧ sizeofRuletblNode * ruleCnt < 2 ^ 32

instance (ipCnt ruleCnt : Nat) : Decidable (Unwrapped ipCnt ruleCnt) :=
  inferInstanceAs (Decidable (_ ∧ _))

namespace Unwrapped

variable {ipCnt ruleCnt : Nat}

theorem iff_le : Unwrapped ipCnt ruleCnt ↔ ipCnt < 2 ^ 30 ∧ ruleCnt ≤ 119304647 := by
  unfold Unwrapped sizeofHlistHead sizeofRuletblNode
  omega

theorem ipCnt_lt (unwrapped : Unwrapped ipCnt ruleCnt) : ipCnt < 2 ^ 30 := (iff_le.mp unwrapped).1

theorem ruleCnt_lt (unwrapped : Unwrapped ipCnt ruleCnt) : ruleCnt < 2 ^ 32 := by
  have := (iff_le.mp unwrapped).2
  omega

theorem buckets (unwrapped : Unwrapped ipCnt ruleCnt) : allotted sizeofHlistHead ipCnt = ipCnt :=
  allotted_of_small (by decide) unwrapped.1

theorem rules (unwrapped : Unwrapped ipCnt ruleCnt) :
    allotted sizeofRuletblNode ruleCnt = ruleCnt := allotted_of_small (by decide) unwrapped.2

theorem bits (unwrapped : Unwrapped ipCnt ruleCnt) : allottedBits ipCnt = ipCnt := by
  have := unwrapped.ipCnt_lt
  exact allottedBits_of_small (by omega)

end Unwrapped

/-- The three tables of a state, with their sizes. -/
structure Live (s : St) (head : MarktblHead) (tbl : List RuletblNode) (bm : List Bool) : Prop where
  liveHead : s.gMarktblHead = .to head
  liveRules : s.gRuletbl = .to tbl
  liveBits : s.markBitmap = .to bm
  size : head.size = s.maxIpCnt
  buckets : head.ht.length = s.maxIpCnt
  ruleCnt : tbl.length = s.maxRuleCnt
  bitCnt : bm.length = s.maxIpCnt
  unwrapped : Unwrapped s.maxIpCnt s.maxRuleCnt
  elemNum : head.elemNum = u32 (contents head.ht).card
  placed : Placed (·.srcIp) (slotOf head.size) head.ht

def WellFormed (s : St) : Prop := ∃ head tbl bm, Live s head tbl bm

/-- The refinement relation: `s` implements `t`. -/
def Represents (s : St) (t : Registry) : Prop := WellFormed s ∧ s.registry = t

theorem WellFormed.represents {s : St} (wf : WellFormed s) : Represents s s.registry := ⟨wf, rfl⟩

theorem Represents.resetFlag {s : St} {t : Registry} (rep : Represents s t) :
    s.resetFlag = t.resetFlag := congrArg Registry.resetFlag rep.2

/-! ## Arithmetic of ids and marks -/

theorem subU32_one {n : Nat} (pos : 1 ≤ n) (lt : n < 2 ^ 32) : subU32 n 1 = n - 1 := by
  unfold subU32 u32
  omega

theorem u32_of_lt {n : Nat} (lt : n < 2 ^ 32) : u32 n = n := Nat.mod_eq_of_lt lt

theorem markOf_shiftRight (b : Nat) : markOf b >>> markBase = b + 1 := by
  simp [markOf, markBase, Nat.shiftLeft_eq, Nat.shiftRight_eq_div_pow]

theorem markOf_ne_zero (b : Nat) : markOf b ≠ 0 := by
  rw [markOf_eq]
  omega

theorem subU32_markOf {b : Nat} (lt : b + 1 < 2 ^ 32) : subU32 (markOf b >>> markBase) 1 = b := by
  rw [markOf_shiftRight, subU32_one (Nat.le_add_left 1 b) lt]
  rfl

/-! ## Array accesses -/

/-- The bucket of an address, as every function of the hash table reaches it. -/
theorem homeBucket {head : MarktblHead} (pos : 1 ≤ head.size)
    (buckets : head.ht.length = head.size) (key : Be32) :
    ∃ chain, head.ht[slotOf head.size key]? = some chain ∧
      hashIndex head key = .ok (slotOf head.size key) ∧
      bucket head (slotOf head.size key) = .ok chain := by
  have sizePos : head.size ≠ 0 := Nat.one_le_iff_ne_zero.mp pos
  have inRange : slotOf head.size key < head.ht.length := by
    rw [buckets]
    exact Nat.mod_lt _ pos
  refine ⟨head.ht[slotOf head.size key], List.getElem?_eq_getElem inRange, ?_, ?_⟩
  · simp [hashIndex, sizePos]
  · simp [bucket, inRange]

theorem modifyRule_of_live {s : St} {tbl : List RuletblNode} (rules : s.gRuletbl = .to tbl)
    {id : Nat} (pos : 1 ≤ id) (le : id ≤ tbl.length) (tbl_lt : tbl.length < 2 ^ 32)
    (f : RuletblNode → RuletblNode) :
    modifyRule id f s = .ok (s.setRules (tbl.modify (id - 1) f)) := by
  have small : id < 2 ^ 32 := Nat.lt_of_le_of_lt le tbl_lt
  have inRange : id - 1 < tbl.length := Nat.lt_of_lt_of_le (by omega) le
  simp [modifyRule, rules, subU32_one pos small, inRange]

/-! ## One table written -/

namespace Live

variable {s : St} {head : MarktblHead} {tbl : List RuletblNode} {bm : List Bool}

theorem ruleCnt_lt (live : Live s head tbl bm) : s.maxRuleCnt < 2 ^ 32 := live.unwrapped.ruleCnt_lt

theorem setBits (live : Live s head tbl bm) (bm' : List Bool) (length : bm'.length = bm.length) :
    Live (s.setBits bm') head tbl bm' :=
  { live with liveBits := rfl, bitCnt := length.trans live.bitCnt }

theorem setRules (live : Live s head tbl bm) (tbl' : List RuletblNode)
    (length : tbl'.length = tbl.length) : Live (s.setRules tbl') head tbl' bm :=
  { live with liveRules := rfl, ruleCnt := length.trans live.ruleCnt }

theorem setHead (live : Live s head tbl bm) {head' : MarktblHead} (size : head'.size = head.size)
    (buckets : head'.ht.length = head.ht.length)
    (elemNum : head'.elemNum = u32 (contents head'.ht).card)
    (placed : Placed (·.srcIp) (slotOf head'.size) head'.ht) :
    Live (s.setHead head') head' tbl bm :=
  { live with
    liveHead := rfl
    size := size.trans live.size
    buckets := buckets.trans live.buckets
    elemNum := elemNum
    placed := placed }

theorem entries (live : Live s head tbl bm) : s.registry.entries = contents head.ht := by
  simp [St.registry, live.liveHead]

theorem bit (live : Live s head tbl bm) (b : Nat) : s.registry.bit b = bm.getD b false := by
  simp [St.registry, live.liveBits]

theorem rule (live : Live s head tbl bm) {id : Nat} (pos : 1 ≤ id) :
    s.registry.rule id = tbl.getD (id - 1) .zero := by
  simp [St.registry, live.liveRules, Nat.one_le_iff_ne_zero.mp pos]

theorem registry_setBits (live : Live s head tbl bm) {b : Nat} (inRange : b < s.maxIpCnt)
    (v : Bool) : (s.setBits (bm.set b v)).registry = s.registry.setBit b v := by
  have inRange : b < bm.length := live.bitCnt ▸ inRange
  refine Registry.ext rfl ?_ rfl rfl rfl rfl rfl rfl rfl rfl
  funext c
  by_cases same : c = b
  · subst c
    rw [setBit_bit_self]
    simp [St.registry, St.setBits, inRange]
  · rw [setBit_bit_of_ne _ _ _ same, live.bit]
    simp [St.registry, St.setBits, List.getElem?_set_ne (Ne.symm same)]

theorem registry_modifyRule (live : Live s head tbl bm) {id : Nat}
    (valid : s.registry.ValidId id) (f : RuletblNode → RuletblNode) :
    (s.setRules (tbl.modify (id - 1) f)).registry =
      s.registry.setRule id (f (s.registry.rule id)) := by
  obtain ⟨pos, le⟩ := valid
  have inRange : id - 1 < tbl.length := by
    rw [live.ruleCnt]
    exact Nat.lt_of_lt_of_le (by omega) le
  refine Registry.ext rfl rfl ?_ rfl rfl rfl rfl rfl rfl rfl
  funext id'
  by_cases same : id' = id
  · subst id'
    rw [setRule_rule_self, live.rule pos]
    simp [St.registry, St.setRules, Nat.one_le_iff_ne_zero.mp pos, List.getElem?_modify, inRange]
  · rw [setRule_rule_of_ne _ _ _ same]
    by_cases zero : id' = 0
    · simp [St.registry, St.setRules, live.liveRules, zero]
    · have elsewhere : id - 1 ≠ id' - 1 := by omega
      simp [St.registry, St.setRules, live.liveRules, zero, List.getElem?_modify, elsewhere]

theorem bucketAt (live : Live s head tbl bm) (pos : 1 ≤ s.maxIpCnt) (key : Be32) :
    ∃ chain, head.ht[slotOf head.size key]? = some chain ∧
      hashIndex head key = .ok (slotOf head.size key) ∧
      bucket head (slotOf head.size key) = .ok chain :=
  homeBucket (live.size ▸ pos) (live.buckets.trans live.size.symm) key

end Live

/-! ## Rules -/

section Steps

variable {env : Env} {s : St} {t : Registry}

theorem ruleAt_spec (rep : Represents s t) (id : Nat) (valid : t.ValidId id) :
    ruleAt id s = .ok (t.rule id) := by
  obtain ⟨⟨head, tbl, bm, live⟩, rfl⟩ := rep
  obtain ⟨pos, le⟩ := valid
  have small : id < 2 ^ 32 := Nat.lt_of_le_of_lt le live.ruleCnt_lt
  have inRange : id - 1 < tbl.length := by
    rw [live.ruleCnt]
    exact Nat.lt_of_lt_of_le (by omega) le
  simp [ruleAt, live.liveRules, subU32_one pos small, live.rule pos, inRange]

theorem Live.modifyRule_eq {head : MarktblHead} {tbl : List RuletblNode} {bm : List Bool}
    (live : Live s head tbl bm) {id : Nat} (valid : s.registry.ValidId id)
    (f : RuletblNode → RuletblNode) :
    modifyRule id f s = .ok (s.setRules (tbl.modify (id - 1) f)) :=
  modifyRule_of_live live.liveRules valid.1 (live.ruleCnt ▸ valid.2)
    (live.ruleCnt ▸ live.ruleCnt_lt) f

theorem modifyRule_spec (rep : Represents s t) (id : Nat) (valid : t.ValidId id)
    (f : RuletblNode → RuletblNode) :
    ∃ s', modifyRule id f s = .ok s' ∧ Represents s' (t.setRule id (f (t.rule id))) := by
  obtain ⟨⟨head, tbl, bm, live⟩, rfl⟩ := rep
  exact ⟨_, live.modifyRule_eq valid f, ⟨head, _, bm, live.setRules _ (by simp)⟩,
    live.registry_modifyRule valid f⟩

/-! ## The bitmap -/

theorem findFirstZeroBit_lt {bm : List Bool} {size : Nat}
    (found : findFirstZeroBit bm size < size) (length : bm.length = size) :
    bm.getD (findFirstZeroBit bm size) false = false := by
  have inRange : (bm.take size).findIdx (!·) < (bm.take size).length := by
    rw [List.length_take, length, Nat.min_self]
    exact found
  have clear := List.findIdx_getElem (w := inRange)
  simp only [List.getElem_take, Bool.not_eq_eq_eq_not, Bool.not_true] at clear
  rw [findFirstZeroBit, List.getD_eq_getElem?_getD,
    List.getElem?_eq_getElem (Nat.lt_of_lt_of_le inRange (List.length_take_le' ..)),
    Option.getD_some, clear]

theorem findFirstZeroBit_before {bm : List Bool} {size : Nat} (length : bm.length = size) {b : Nat}
    (inRange : b < size) (before : b < findFirstZeroBit bm size) : bm.getD b false = true := by
  have isSet := List.not_of_lt_findIdx before
  have inBitmap : b < bm.length := length ▸ inRange
  rw [List.getD_eq_getElem?_getD, List.getElem?_eq_getElem inBitmap, Option.getD_some]
  simpa using isSet

theorem findFirstZeroBit_full {bm : List Bool} {size : Nat}
    (full : size ≤ findFirstZeroBit bm size) (length : bm.length = size) {b : Nat}
    (inRange : b < size) : bm.getD b false = true :=
  findFirstZeroBit_before length inRange (Nat.lt_of_lt_of_le inRange full)

/-- The mark of a bit as `alloc_mark` computes it. -/
theorem markOf_u32 {b : Nat} (small : b + 1 < 2 ^ 21) :
    u32 (u32 (b + 1) <<< markBase) = markOf b := by
  have offset : u32 (b + 1) = b + 1 := u32_of_lt (by omega)
  rw [offset, ← markOf, markOf_eq]
  exact u32_of_lt (by omega)

/-- Either a clear bit is taken, or all of them are set. -/
theorem allocMark_spec (rep : Represents s t) (small : t.ipCnt < 2 ^ 21) :
    (∃ b < t.ipCnt, t.bit b = false ∧
      ∃ s', allocMark s = .ok (markOf b, s') ∧ Represents s' (t.setBit b true)) ∨
    (∀ b < t.ipCnt, t.bit b = true) ∧ allocMark s = .ok (0, s) := by
  obtain ⟨⟨head, tbl, bm, live⟩, rfl⟩ := rep
  have small : s.maxIpCnt < 2 ^ 21 := small
  by_cases full : s.maxIpCnt ≤ findFirstZeroBit bm s.maxIpCnt
  · right
    constructor
    · intro b bound
      rw [live.bit]
      exact findFirstZeroBit_full full live.bitCnt bound
    · simp [allocMark, live.liveBits, full]
  · left
    have inRange : findFirstZeroBit bm s.maxIpCnt < s.maxIpCnt := Nat.lt_of_not_le full
    refine ⟨findFirstZeroBit bm s.maxIpCnt, inRange, ?_, ?_⟩
    · rw [live.bit]
      exact findFirstZeroBit_lt inRange live.bitCnt
    · refine ⟨s.setBits (bm.set (findFirstZeroBit bm s.maxIpCnt) true), ?_, ?_,
        live.registry_setBits inRange true⟩
      · have mark := markOf_u32 (Nat.lt_of_le_of_lt inRange small)
        simp [allocMark, live.liveBits, full, writeBit, live.bitCnt, inRange, mark]
      · exact ⟨head, tbl, _, live.setBits _ (by simp)⟩

theorem testMark_spec (rep : Represents s t) {b : Nat} (inRange : b < t.ipCnt)
    (small : t.ipCnt < 2 ^ 21) : testMark (markOf b) s = .ok (t.bit b) := by
  obtain ⟨⟨head, tbl, bm, live⟩, rfl⟩ := rep
  have inBitmap : b < bm.length := live.bitCnt ▸ inRange
  have lt : b + 1 < 2 ^ 32 := by omega
  simp [testMark, live.liveBits, subU32_markOf lt, readBit, live.bit, inBitmap]

theorem freeMark_spec (rep : Represents s t) {b : Nat} (inRange : b < t.ipCnt)
    (small : t.ipCnt < 2 ^ 21) :
    ∃ s', freeMark (markOf b) s = .ok s' ∧ Represents s' (t.freeBit b) := by
  obtain ⟨⟨head, tbl, bm, live⟩, rfl⟩ := rep
  have lt : b + 1 < 2 ^ 32 := by omega
  have inBitmap : b < bm.length := live.bitCnt ▸ inRange
  refine ⟨{ s.setBits (bm.set b false) with freed := markOf b :: s.freed }, ?_, ?_, ?_⟩
  · simp [freeMark, live.liveBits, subU32_markOf lt, writeBit, inBitmap]
  · exact ⟨head, tbl, bm.set b false,
      { live.setBits (bm.set b false) (by simp) with }⟩
  · have bits := live.registry_setBits inRange false
    exact congrArg (fun t : Registry => { t with freed := markOf b :: s.freed }) bits

/-! ## The hash table -/

theorem marktblHashCmp_eq (key : Be32) :
    marktblHashCmp key = fun node : MarktblNode => decide (node.srcIp = key) := rfl

/-- The entry of an address, or that there is none. -/
theorem marktblHashGet_spec (rep : Represents s t) (pos : 1 ≤ t.ipCnt) (ip : Be32) :
    (∃ e ∈ t.entries, e.srcIp = ip ∧ marktblHashGet ip s = .ok (some e)) ∨
      t.Fresh ip ∧ marktblHashGet ip s = .ok none := by
  obtain ⟨⟨head, tbl, bm, live⟩, rfl⟩ := rep
  obtain ⟨chain, inTable, index, home⟩ := live.bucketAt pos ip
  have run : marktblHashGet ip s = .ok (chain.find? (marktblHashCmp ip)) := by
    simp [marktblHashGet, live.liveHead, index, home]
  rw [run, marktblHashCmp_eq]
  cases found : chain.find? (fun node => decide (node.srcIp = ip)) with
  | some e =>
    obtain ⟨member, same⟩ := (live.placed.find_iff inTable).mp found
    exact .inl ⟨e, live.entries ▸ member, same, rfl⟩
  | none =>
    refine .inr ⟨?_, rfl⟩
    intro e member
    exact (live.placed.find_none_iff inTable).mp found e (live.entries ▸ member)

/-- What a found entry looks like in its bucket. -/
theorem Live.findEntry {head : MarktblHead} {tbl : List RuletblNode} {bm : List Bool}
    (live : Live s head tbl bm) (pos : 1 ≤ s.maxIpCnt) {e : MarktblNode}
    (member : e ∈ s.registry.entries) :
    ∃ chain, head.ht[slotOf head.size e.srcIp]? = some chain ∧
      hashIndex head e.srcIp = .ok (slotOf head.size e.srcIp) ∧
      bucket head (slotOf head.size e.srcIp) = .ok chain ∧
      chain.find? (marktblHashCmp e.srcIp) = some e := by
  obtain ⟨chain, inTable, index, home⟩ := live.bucketAt pos e.srcIp
  refine ⟨chain, inTable, index, home, ?_⟩
  rw [marktblHashCmp_eq]
  exact (live.placed.find_iff inTable).mpr ⟨live.entries ▸ member, rfl⟩

theorem modifyNode_spec (rep : Represents s t) (pos : 1 ≤ t.ipCnt) {e : MarktblNode}
    (member : e ∈ t.entries) (f : Int → Int) :
    ∃ rest, t.entries = e ::ₘ rest ∧
      ∃ s', modifyNode e.srcIp (fun n => { n with count := f n.count }) s = .ok s' ∧
        Represents s' (t.touch e rest (f e.count)) := by
  obtain ⟨⟨head, tbl, bm, live⟩, rfl⟩ := rep
  obtain ⟨chain, inTable, index, home, found⟩ := live.findEntry pos member
  obtain ⟨rest, before, after, _⟩ :=
    IpQos.Lib.contents_modifyFirst (f := fun n => { n with count := f n.count }) inTable found
  refine ⟨rest, live.entries.trans before, s.setHead
    { head with
      ht := head.ht.modify (slotOf head.size e.srcIp)
        (modifyFirst (marktblHashCmp e.srcIp) fun n => { n with count := f n.count }) },
    ?_, ⟨_, tbl, bm, live.setHead rfl (by simp) ?_ ?_⟩, ?_⟩
  · simp [modifyNode, live.liveHead, index, home]
  · simp only
    rw [after, live.elemNum, before, Multiset.card_cons, Multiset.card_cons]
  · exact live.placed.modifyFirst inTable found fun _ => rfl
  · refine Registry.ext ?_ rfl rfl rfl rfl rfl rfl rfl rfl rfl
    exact after

theorem qosMarktblHashtblDel_spec (rep : Represents s t) (pos : 1 ≤ t.ipCnt) {e : MarktblNode}
    {rest : Multiset MarktblNode} (split : t.entries = e ::ₘ rest) (valid : t.ValidId e.id)
    (idle : e.count ≤ 0) :
    ∃ s', qosMarktblHashtblDel e.srcIp s = .ok (.ok, e.mark, s') ∧
      Represents s' (t.detach e rest) := by
  obtain ⟨⟨head, tbl, bm, live⟩, rfl⟩ := rep
  have member : e ∈ s.registry.entries := split ▸ Multiset.mem_cons_self e rest
  obtain ⟨chain, inTable, index, home, found⟩ := live.findEntry pos member
  have before := IpQos.Lib.contents_eraseP inTable found
  have after : contents (head.ht.modify (slotOf head.size e.srcIp)
      (·.eraseP (marktblHashCmp e.srcIp))) = rest := by
    rw [← live.entries, split] at before
    exact ((Multiset.cons_inj_right e).mp before).symm
  -- unlinked, but the rule not yet counted down
  have wfMid : WellFormed (s.setHead
      { head with
        elemNum := subU32 head.elemNum 1
        ht := head.ht.modify (slotOf head.size e.srcIp)
          (·.eraseP (marktblHashCmp e.srcIp)) }) := by
    refine ⟨_, tbl, bm, live.setHead rfl (by simp) ?_ (live.placed.eraseP inTable found)⟩
    simp only
    rw [live.elemNum, before, Multiset.card_cons]
    unfold subU32 u32
    omega
  obtain ⟨s', run, rep'⟩ := modifyRule_spec wfMid.represents e.id valid
    fun rn => { rn with count := atomicDec rn.count }
  have removed : marktblHashRemove e.srcIp s = .ok (.ok, some e, s') := by
    simp only [marktblHashRemove, live.liveHead, Ptr.deref_to, ok_bind, index, home, found,
      gt_iff_lt, Int.not_lt.mpr idle, ↓reduceIte]
    rw [run]
    rfl
  refine ⟨s', ?_, rep'.1, rep'.2.trans ?_⟩
  · simp only [qosMarktblHashtblDel, removed, ok_bind]
    rfl
  · refine Registry.ext ?_ rfl rfl rfl rfl rfl rfl rfl rfl rfl
    exact after

theorem elemOverLimit_spec (rep : Represents s t) (small : t.ipCnt < 2 ^ 21)
    (room : t.entries.card ≤ t.ipCnt) :
    elemOverLimit s = .ok (decide (t.ipCnt ≤ t.entries.card)) := by
  obtain ⟨⟨head, tbl, bm, live⟩, rfl⟩ := rep
  have small : s.maxIpCnt < 2 ^ 21 := small
  have room : (contents head.ht).card ≤ s.maxIpCnt := live.entries ▸ room
  have elemNum : head.elemNum = (contents head.ht).card :=
    live.elemNum.trans (u32_of_lt (by omega))
  have next : u32 (head.elemNum + 1) = (contents head.ht).card + 1 := by
    rw [elemNum]
    exact u32_of_lt (by omega)
  simp only [elemOverLimit, live.liveHead, Ptr.deref_to, ok_bind, next, live.entries]
  change Except.ok (decide (s.maxIpCnt < _)) = Except.ok (decide (s.maxIpCnt ≤ _))
  simp only [Nat.lt_succ_iff]

/-- A node pushed on its chain after the count of its rule was raised. -/
theorem Live.insert {head : MarktblHead} {tbl : List RuletblNode} {bm : List Bool}
    (live : Live s head tbl bm) {ip : Be32} {id mark : Nat} {chain : List MarktblNode}
    (valid : s.registry.ValidId id) (fresh : s.registry.Fresh ip)
    (inTable : head.ht[slotOf head.size ip]? = some chain) :
    Represents
      ((s.setRules (tbl.modify (id - 1) fun rn => { rn with count := atomicInc rn.count })).setHead
        { head with
          elemNum := u32 (head.elemNum + 1)
          ht := head.ht.modify (slotOf head.size ip)
            ({ srcIp := ip, id, mark, count := 0 } :: ·) })
      (s.registry.attach ip id mark) := by
  have pushed := IpQos.Lib.contents_push { srcIp := ip, id, mark, count := 0 } inTable
  -- a new address, so the keys of its chain stay distinct
  have newcomer : ∀ e ∈ contents head.ht, e.srcIp ≠ ip :=
    fun e member => fresh e (live.entries.symm ▸ member)
  have counted := live.registry_modifyRule valid fun rn => { rn with count := atomicInc rn.count }
  have liveRules := live.setRules
    (tbl.modify (id - 1) fun rn => { rn with count := atomicInc rn.count }) (by simp)
  refine ⟨⟨_, _, bm, liveRules.setHead rfl (by simp) ?_ ?_⟩, ?_⟩
  · simp only
    rw [pushed, live.elemNum, Multiset.card_cons]
    unfold u32
    omega
  · exact live.placed.push (a := { srcIp := ip, id, mark, count := 0 }) inTable newcomer
  · have rules := congrArg Registry.rule counted
    have entries := pushed
    rw [← live.entries] at entries
    exact Registry.ext entries rfl rules rfl rfl rfl rfl rfl rfl rfl

/-- A full table, or a mark that is not set, refuses every address, known or not. -/
theorem qmarkAddHash_refused (env : Env) (rep : Represents s t) (small : t.ipCnt < 2 ^ 21)
    (room : t.entries.card ≤ t.ipCnt) (ip : Be32) (id : Nat) {b : Nat} (inRange : b < t.ipCnt)
    (refused : t.bit b = false ∨ t.ipCnt ≤ t.entries.card) :
    ∃ ret, ret ≠ .ok ∧ qmarkAddHash env ip id (markOf b) s = .ok (ret, s) := by
  have tested := testMark_spec rep inRange small
  have limited := elemOverLimit_spec rep small room
  cases isSet : t.bit b with
  | false =>
    refine ⟨.error, by simp, ?_⟩
    simp [qmarkAddHash, qosMarktblHashtblAdd, tested, isSet]
  | true =>
    have full : t.ipCnt ≤ t.entries.card := by
      cases refused with
      | inl isClear => rw [isSet] at isClear; cases isClear
      | inr full => exact full
    refine ⟨.overMax, by simp, ?_⟩
    simp [qmarkAddHash, qosMarktblHashtblAdd, marktblHashAdd, tested, isSet, limited, full]

/-- A new address is registered, or refused for one of three reasons. -/
theorem qmarkAddHash_spec (env : Env) (rep : Represents s t) (pos : 1 ≤ t.ipCnt) (small : t.ipCnt < 2 ^ 21)
    (room : t.entries.card ≤ t.ipCnt) {ip : Be32} {id b : Nat} (inRange : b < t.ipCnt)
    (valid : t.ValidId id) (fresh : t.Fresh ip) :
    (t.bit b = true ∧ t.entries.card < t.ipCnt ∧ env.kmalloc .marktblNode = true ∧
      ∃ s', qmarkAddHash env ip id (markOf b) s = .ok (.ok, s') ∧
        Represents s' (t.attach ip id (markOf b))) ∨
    (t.bit b = false ∨ t.ipCnt ≤ t.entries.card ∨ env.kmalloc .marktblNode = false) ∧
      ∃ ret, ret ≠ .ok ∧ qmarkAddHash env ip id (markOf b) s = .ok (ret, s) := by
  by_cases refused : t.bit b = false ∨ t.ipCnt ≤ t.entries.card
  · exact .inr ⟨refused.imp_right .inl, qmarkAddHash_refused env rep small room ip id inRange refused⟩
  · have isSet : t.bit b = true := by simpa using fun isClear => refused (.inl isClear)
    have below : t.entries.card < t.ipCnt := Nat.lt_of_not_le fun full => refused (.inr full)
    have tested := testMark_spec rep inRange small
    have limited := elemOverLimit_spec rep small room
    obtain ⟨⟨head, tbl, bm, live⟩, rfl⟩ := rep
    obtain ⟨chain, inTable, index, home⟩ := live.bucketAt pos ip
    -- a new address is in no chain, so the duplicate branch is not reached
    have missing : chain.find? (marktblHashCmp ip) = none := by
      rw [marktblHashCmp_eq]
      refine (live.placed.find_none_iff inTable).mpr fun e member => ?_
      exact fresh e (live.entries.symm ▸ member)
    cases kmalloc : env.kmalloc .marktblNode with
    | false =>
      refine .inr ⟨.inr (.inr rfl), .allocFail, by simp, ?_⟩
      simp [qmarkAddHash, qosMarktblHashtblAdd, marktblHashAdd, tested, isSet, limited,
        Nat.not_le.mpr below, live.liveHead, index, home, missing, kmalloc]
    | true =>
      have counted := live.modifyRule_eq valid fun rn => { rn with count := atomicInc rn.count }
      refine .inl ⟨isSet, below, rfl, _, ?_, live.insert valid fresh inTable⟩
      simp only [qmarkAddHash, qosMarktblHashtblAdd, tested, isSet, ok_bind, Bool.not_true,
        Bool.false_eq_true, ↓reduceIte, marktblHashAdd, limited, Nat.not_le.mpr below, decide_false,
        live.liveHead, Ptr.deref_to, index, home, missing, kmalloc, counted]
      rfl

/-- The duplicate branch of `marktbl_hash_add` goes through its NULL `mark_node`. -/
theorem qmarkAddHash_duplicate (env : Env) (rep : Represents s t) (pos : 1 ≤ t.ipCnt)
    (small : t.ipCnt < 2 ^ 21) (below : t.entries.card < t.ipCnt) {e : MarktblNode} {id b : Nat}
    (inRange : b < t.ipCnt) (isSet : t.bit b = true) (member : e ∈ t.entries) :
    qmarkAddHash env e.srcIp id (markOf b) s = .error .nullDeref := by
  have tested := testMark_spec rep inRange small
  have limited := elemOverLimit_spec rep small (Nat.le_of_lt below)
  obtain ⟨⟨head, tbl, bm, live⟩, rfl⟩ := rep
  obtain ⟨chain, inTable, index, home, found⟩ := live.findEntry pos member
  simp only [qmarkAddHash, qosMarktblHashtblAdd, tested, isSet, ok_bind, Bool.not_true,
    Bool.false_eq_true, ↓reduceIte, marktblHashAdd, limited, Nat.not_le.mpr below, decide_false,
    live.liveHead, index, home, found, Ptr.deref, error_bind]

/-! ## Whole tables -/

/-- The tables themselves can be allocated; the entries may not. -/
def AllocatesTables (env : Env) : Prop :=
  env.kmalloc .markBitmap = true ∧ env.kmalloc .ruletbl = true ∧
    env.kmalloc .marktblHead = true ∧ env.kmalloc .marktblHt = true

theorem replicate_false_getD (n b : Nat) : (List.replicate n false).getD b false = false := by
  by_cases inRange : b < n
  · simp [inRange]
  · simp [Nat.not_lt.mp inRange]

/-- New tables of any size. -/
theorem Live.empty (s : St) {tbl : List RuletblNode} {bm : List Bool}
    (rules : s.gRuletbl = .to tbl) (bits : s.markBitmap = .to bm)
    (ruleCnt : tbl.length = s.maxRuleCnt) (bitCnt : bm.length = s.maxIpCnt)
    (unwrapped : Unwrapped s.maxIpCnt s.maxRuleCnt) :
    Live
      (s.setHead { elemNum := 0, size := s.maxIpCnt, ht := List.replicate s.maxIpCnt [] })
      { elemNum := 0, size := s.maxIpCnt, ht := List.replicate s.maxIpCnt [] } tbl bm where
  liveHead := rfl
  liveRules := rules
  liveBits := bits
  size := rfl
  buckets := List.length_replicate
  ruleCnt := ruleCnt
  bitCnt := bitCnt
  unwrapped := unwrapped
  elemNum := by simp [u32]
  placed := Placed.replicate_nil _ _ _

/-- Buckets of which the byte count does not wrap. -/
theorem qosMarktblHashtblInit_eq (alloc : AllocatesTables env)
    (buckets : allotted sizeofHlistHead s.maxIpCnt = s.maxIpCnt) :
    qosMarktblHashtblInit env s = .ok (.ok,
      s.setHead { elemNum := 0, size := s.maxIpCnt, ht := List.replicate s.maxIpCnt [] }) := by
  obtain ⟨_, _, allocHead, allocHt⟩ := alloc
  simp [qosMarktblHashtblInit, allocHead, allocHt, buckets]

theorem qmarkFlushHash_eq (alloc : AllocatesTables env) {head : MarktblHead}
    (liveHead : s.gMarktblHead = .to head)
    (buckets : allotted sizeofHlistHead s.maxIpCnt = s.maxIpCnt) :
    qmarkFlushHash env s = .ok
      (s.setHead { elemNum := 0, size := s.maxIpCnt, ht := List.replicate s.maxIpCnt [] }) := by
  have init := qosMarktblHashtblInit_eq (s := { s with gMarktblHead := .null }) alloc buckets
  simp only [qmarkFlushHash, qosMarktblHashtblExit, marktblHashClean, liveHead, Ptr.deref_to,
    ok_bind, pure_eq_ok]
  exact congrArg (· >>= fun r => Except.ok r.2) init

theorem clearCounts_eq {tbl : List RuletblNode} (rules : s.gRuletbl = .to tbl)
    (ruleCnt : tbl.length = s.maxRuleCnt) :
    clearCounts s = .ok (s.setRules (tbl.map fun rn => { rn with count := 0 })) := by
  by_cases none : s.maxRuleCnt = 0
  · obtain rfl : tbl = [] := List.eq_nil_of_length_eq_zero (ruleCnt.trans none)
    rw [clearCounts, if_pos none, St.setRules, List.map_nil, ← rules]
  · simp [clearCounts, none, rules, ruleCnt]

/-- A table without a set bit. -/
theorem map_false_getD (bm : List Bool) (b : Nat) : (bm.map fun _ => false).getD b false = false := by
  rw [List.map_const', replicate_false_getD]

theorem resetSection_spec (alloc : AllocatesTables env) (rep : Represents s t) :
    ∃ s', resetSection env s = .ok s' ∧ Represents s' t.clear := by
  obtain ⟨⟨head, tbl, bm, live⟩, rfl⟩ := rep
  let flushed := s.setBits (bm.map fun _ => false)
  let emptied := flushed.setHead
    { elemNum := 0, size := s.maxIpCnt, ht := List.replicate s.maxIpCnt [] }
  have flush : flushMark s = .ok flushed := by simp [flushMark, live.liveBits, flushed]
  have empty : qmarkFlushHash env flushed = .ok emptied := qmarkFlushHash_eq alloc live.liveHead live.unwrapped.buckets
  have zeroed : clearCounts emptied = .ok _ := clearCounts_eq live.liveRules live.ruleCnt
  have run : resetSection env s =
      .ok (emptied.setRules (tbl.map fun rn => { rn with count := 0 })) := by
    simp only [resetSection, flush, ok_bind, empty, zeroed]
  have liveFlushed : Live flushed head tbl _ := live.setBits _ (by simp)
  have liveEmptied : Live emptied _ tbl _ := Live.empty flushed liveFlushed.liveRules
    liveFlushed.liveBits liveFlushed.ruleCnt liveFlushed.bitCnt liveFlushed.unwrapped
  refine ⟨_, run, ⟨_, _, _, liveEmptied.setRules _ (List.length_map _)⟩, ?_⟩
  -- entries, bits and counts; the rest of the rules stays
  refine Registry.ext ?_ ?_ ?_ rfl rfl rfl rfl rfl rfl rfl
  · exact IpQos.Lib.contents_replicate_nil _
  · funext b
    exact map_false_getD bm b
  · funext id
    by_cases zero : id = 0
    · simp [St.registry, St.setRules, live.liveRules, zero, Registry.clear, RuletblNode.zero]
    · simp only [St.registry, St.setRules, live.liveRules, zero, ↓reduceIte, Registry.clear,
        List.getD_eq_getElem?_getD, List.getElem?_map]
      cases tbl[id - 1]? <;> rfl

theorem replicate_zero_getD (n i : Nat) :
    (List.replicate n RuletblNode.zero).getD i .zero = .zero := by
  by_cases inRange : i < n
  · simp [inRange]
  · simp [Nat.not_lt.mp inRange]

/-- New tables represent a registry without entries, bits and rules. -/
theorem newTables_represents (s : St) (unwrapped : Unwrapped s.maxIpCnt s.maxRuleCnt) :
    Represents
      (((s.setBits (List.replicate s.maxIpCnt false)).setRules
        (List.replicate s.maxRuleCnt .zero)).setHead
          { elemNum := 0, size := s.maxIpCnt, ht := List.replicate s.maxIpCnt [] })
      (s.registry.respec s.maxIpCnt s.maxRuleCnt) := by
  have live := Live.empty
    ((s.setBits (List.replicate s.maxIpCnt false)).setRules (List.replicate s.maxRuleCnt .zero))
    rfl rfl List.length_replicate List.length_replicate unwrapped
  refine ⟨⟨_, _, _, live⟩, Registry.ext ?_ ?_ ?_ rfl rfl rfl rfl rfl rfl rfl⟩
  · exact IpQos.Lib.contents_replicate_nil _
  · funext b
    exact replicate_false_getD s.maxIpCnt b
  · funext id
    change (if id = 0 then RuletblNode.zero
      else (List.replicate s.maxRuleCnt RuletblNode.zero).getD (id - 1) .zero) = .zero
    rw [replicate_zero_getD, ite_self]

/-- What `qmark_set_spec` leaves once the tables are allocated. -/
theorem qmarkSetSpec_eq (alloc : AllocatesTables env) {head : MarktblHead}
    (liveHead : s.gMarktblHead = .to head) {ipSpec ruleSpec : Nat}
    (unwrapped : Unwrapped ipSpec ruleSpec) :
    qmarkSetSpec env ipSpec ruleSpec s = .ok
      ((({ s with maxIpCnt := ipSpec, maxRuleCnt := ruleSpec }.setBits
        (List.replicate ipSpec false)).setRules (List.replicate ruleSpec .zero)).setHead
          { elemNum := 0, size := ipSpec, ht := List.replicate ipSpec [] }) := by
  obtain ⟨allocBits, allocRules, allocHead, allocHt⟩ := alloc
  simp [qmarkSetSpec, qosMarktblHashtblExit, marktblHashClean, liveHead, markBitmapExit,
    markBitmapInit, qosRuletblExit, qosRuletblInit, qosMarktblHashtblInit, allocBits, allocRules,
    allocHead, allocHt, St.setHead, St.setBits, St.setRules, unwrapped.buckets, unwrapped.rules,
    unwrapped.bits]

theorem qmarkSetSpec_spec (alloc : AllocatesTables env) (rep : Represents s t)
    {ipSpec ruleSpec : Nat} (unwrapped : Unwrapped ipSpec ruleSpec) :
    ∃ s', qmarkSetSpec env ipSpec ruleSpec s = .ok s' ∧
      Represents s' (t.respec ipSpec ruleSpec) := by
  obtain ⟨⟨head, tbl, bm, live⟩, rfl⟩ := rep
  exact ⟨_, qmarkSetSpec_eq alloc live.liveHead unwrapped,
    newTables_represents { s with maxIpCnt := ipSpec, maxRuleCnt := ruleSpec } unwrapped⟩

theorem unwrapped_static : Unwrapped tcMaxIpCnt maxRuleCntDefault := by decide

/-- The tables of the default sizes. -/
theorem qosMarktblInit_eq (alloc : AllocatesTables env) :
    qosMarktblInit env = (.ok, ((St.static.setBits (List.replicate tcMaxIpCnt false)).setRules
      (List.replicate maxRuleCntDefault .zero)).setHead
        { elemNum := 0, size := tcMaxIpCnt, ht := List.replicate tcMaxIpCnt [] }) := by
  let withBits := St.static.setBits (List.replicate tcMaxIpCnt false)
  have bits : markBitmapInit env St.static.maxIpCnt St.static = (.ok, withBits) := by
    rw [markBitmapInit, if_pos alloc.1]
    exact congrArg (fun n => (RetCode.ok, St.static.setBits (List.replicate n false)))
      unwrapped_static.bits
  have rules : qosRuletblInit env withBits =
      (.ok, withBits.setRules (List.replicate maxRuleCntDefault .zero)) := by
    rw [qosRuletblInit, if_pos alloc.2.1]
    exact congrArg (fun n => (RetCode.ok, withBits.setRules (List.replicate n .zero)))
      unwrapped_static.rules
  have buckets := qosMarktblHashtblInit_eq
    (s := withBits.setRules (List.replicate maxRuleCntDefault .zero)) alloc unwrapped_static.buckets
  simp only [qosMarktblInit, bits, rules, buckets]
  rfl

theorem qosMarktblInit_represents (alloc : AllocatesTables env) :
    Represents (qosMarktblInit env).2
      (St.static.registry.respec tcMaxIpCnt maxRuleCntDefault) := by
  rw [qosMarktblInit_eq alloc]
  exact newTables_represents St.static unwrapped_static

theorem qmarkFlushRule_spec (alloc : AllocatesTables env) (rep : Represents s t) :
    Represents (qmarkFlushRule env s) { t with rule := fun _ => .zero } := by
  obtain ⟨_, allocRules, _, _⟩ := alloc
  obtain ⟨⟨head, tbl, bm, live⟩, rfl⟩ := rep
  have run : qmarkFlushRule env s = s.setRules (List.replicate s.maxRuleCnt .zero) := by
    simp [qmarkFlushRule, qosRuletblInit, qosRuletblExit, allocRules, St.setRules,
      live.unwrapped.rules]
  rw [run]
  refine ⟨⟨head, _, bm, live.setRules _ (by simp [live.ruleCnt])⟩, ?_⟩
  refine Registry.ext rfl rfl ?_ rfl rfl rfl rfl rfl rfl rfl
  funext id
  change (if id = 0 then RuletblNode.zero
    else (List.replicate s.maxRuleCnt RuletblNode.zero).getD (id - 1) .zero) = .zero
  rw [replicate_zero_getD, ite_self]

/-! ## Requests and the flag -/

theorem send_represents (rep : Represents s t) (reqs : List RtnlReq) :
    Represents { s with sent := reqs ++ s.sent } (t.send reqs) := by
  obtain ⟨⟨head, tbl, bm, live⟩, rfl⟩ := rep
  exact ⟨⟨head, tbl, bm, { live with }⟩, rfl⟩

theorem qmarkTcAddRule_spec (env : Env) (rep : Represents s t) (rn : RuletblNode) (mark : Nat) :
    ∃ s', qmarkTcAddRule env rn mark s =
        unlessStalled (Buildable env t.lanDev t.wanDev rn) (.ok s') ∧
      Represents s' (t.send (addRequests env t.lanDev t.wanDev rn mark)) := by
  obtain ⟨wf, rfl⟩ := rep
  exact ⟨_, qmarkTcAddRule_eq env rn mark s, send_represents wf.represents _⟩

theorem qmarkTcDelRule_spec (env : Env) (rep : Represents s t) (rn : RuletblNode) (mark : Nat) :
    ∃ s', qmarkTcDelRule env rn mark s = .ok s' ∧
      Represents s' (t.send (delRequests env t.lanDev t.wanDev rn mark)) := by
  obtain ⟨wf, rfl⟩ := rep
  exact ⟨_, qmarkTcDelRule_eq env rn mark s, send_represents wf.represents _⟩

/-! ## Listings -/

theorem walkTable_ok {α : Type} {p : Ptr (List α)} {tbl : List α} (live : p = .to tbl) :
    walkTable p tbl.length = .ok () := by
  unfold walkTable
  split <;> simp_all

theorem qmarkListRule_spec (rep : Represents s t) : qmarkListRule s = .ok () := by
  obtain ⟨⟨head, tbl, bm, live⟩, rfl⟩ := rep
  rw [qmarkListRule, printRules, ← live.ruleCnt, walkTable_ok live.liveRules]

theorem qmarkListHash_spec (rep : Represents s t) : qmarkListHash s = .ok () := by
  obtain ⟨⟨head, tbl, bm, live⟩, rfl⟩ := rep
  simp [qmarkListHash, marktblHashList, live.liveHead]

theorem qmarkDump_spec (rep : Represents s t) : qmarkDump s = .ok () := by
  obtain ⟨⟨head, tbl, bm, live⟩, rfl⟩ := rep
  have rules : printRules s = .ok () := by
    rw [printRules, ← live.ruleCnt, walkTable_ok live.liveRules]
  have marks : printMarks s = .ok () := by
    rw [printMarks, ← live.bitCnt, walkTable_ok live.liveBits]
  simp [qmarkDump, rules, marktblHashList, live.liveHead, marks]

theorem setFlag_represents (rep : Represents s t) (flag : Bool) :
    Represents { s with resetFlag := flag } { t with resetFlag := flag } := by
  obtain ⟨⟨head, tbl, bm, live⟩, rfl⟩ := rep
  exact ⟨⟨head, tbl, bm, { live with }⟩, rfl⟩

end Steps

end IpQos.Verified
