import IpQos.Lib.Ensures
import IpQos.Verified.Frames
import IpQos.Verified.Operations

/-! # What an index may be

Every id and every mark that the module stores stays inside the tables it will be
used on.  The invariant needs no guard: an operation that returns has made only
accesses in range, so what it stores is in range.  Each lemma carries a proposition
`G`, the conditions of the function itself; an access out of range is excluded under
`G`, the invariant is kept in any case. -/

namespace IpQos.Kmod

/-- An access outside a table as large as the globals say, or a remainder by 0. -/
def Oops.Stray : Oops → Prop
  | .outOfBounds | .remainderByZero => True
  | .nullDeref | .useAfterFree | .overrun | .divideByZero => False

theorem Oops.beyond_stray {i size : Nat} (past : ¬ i < size) : (Oops.beyond i size).Stray := by
  rw [beyond, if_neg past]
  trivial

theorem Oops.not_beyond_stray {i size : Nat} (below : i < size) : ¬ (Oops.beyond i size).Stray := by
  rw [beyond, if_pos below]
  exact id

def Ptr.isLive {α : Type} : Ptr α → Bool
  | .to _ => true
  | _ => false

theorem Ptr.isLive_of_eq {α : Type} {p : Ptr α} {a : α} (live : p = .to a) : p.isLive = true := by
  rw [live]
  rfl

/-- The mark that `alloc_mark` returns for a bit. -/
def bitMark (b : Nat) : Nat := u32 (u32 (b + 1) <<< markBase)

/-- The arguments an operation takes from its caller are of 32 bits. -/
def Op.Words : Op → Prop
  | .ioctl (.ruleAdd qr) | .ioctl (.ruleDel qr) => qr.id < 2 ^ 32
  | .ioctl (.hashAdd qh) => qh.id < 2 ^ 32 ∧ qh.mark < 2 ^ 32
  | .ioctl (.markFree mark) => mark < 2 ^ 32
  | .ioctl (.specSet maxIpCnt maxRuleCnt) => maxIpCnt < 2 ^ 32 ∧ maxRuleCnt < 2 ^ 32
  | .packet skb info => skb.mark < 2 ^ 32 ∧ info.id < 2 ^ 32
  | _ => True

end IpQos.Kmod

namespace IpQos.Verified

open IpQos.Kmod
open IpQos.Lib (Ensures Run)

/-- An index that counts from 1. -/
def InTable (i n : Nat) : Prop := 1 ≤ i ∧ i ≤ n

instance (i n : Nat) : Decidable (InTable i n) := inferInstanceAs (Decidable (_ ∧ _))

/-- An entry whose id and mark may be used as indices. -/
structure InBounds (ipCnt ruleCnt : Nat) (e : MarktblNode) : Prop where
  id : InTable e.id ruleCnt
  mark : InTable (e.mark >>> markBase) ipCnt
  word : e.mark < 2 ^ 32

structure Indexed (s : St) : Prop where
  ipCnt_lt : s.maxIpCnt < 2 ^ 32
  ruleCnt_lt : s.maxRuleCnt < 2 ^ 32
  bits : ∀ bm, s.markBitmap = .to bm → bm.length = allottedBits s.maxIpCnt
  rules : ∀ tbl, s.gRuletbl = .to tbl → tbl.length = allotted sizeofRuletblNode s.maxRuleCnt ∧
    ∀ rn ∈ tbl, rn.mark = 0 ∨ ∃ b < s.maxIpCnt, rn.mark = bitMark b
  head : ∀ head, s.gMarktblHead = .to head → s.maxIpCnt < 2 ^ 30 ∧ head.size = s.maxIpCnt ∧
    head.ht.length = s.maxIpCnt ∧ ∀ chain ∈ head.ht, ∀ e ∈ chain, InBounds s.maxIpCnt s.maxRuleCnt e

/-! ## Conditions -/

/-- `id` may index the rule table, if there is one. -/
def IdFits (id : Nat) (s : St) : Prop := s.gRuletbl.isLive = true → InTable id s.maxRuleCnt

def MarkFits (mark : Nat) (s : St) : Prop :=
  s.markBitmap.isLive = true → InTable (mark >>> markBase) s.maxIpCnt

/-- A live hash table has a bucket. -/
def Bucketed (s : St) : Prop := s.gMarktblHead.isLive = true → 1 ≤ s.maxIpCnt

instance (id : Nat) (s : St) : Decidable (IdFits id s) := inferInstanceAs (Decidable (_ → _))
instance (mark : Nat) (s : St) : Decidable (MarkFits mark s) := inferInstanceAs (Decidable (_ → _))
instance (s : St) : Decidable (Bucketed s) := inferInstanceAs (Decidable (_ → _))

/-- The faults that `G` excludes. -/
def Straying (G : Prop) (e : Oops) : Prop := G ∧ e.Stray

/-! ## Indices -/

theorem subU32_lt_iff {i n : Nat} (word : i < 2 ^ 32) (small : n < 2 ^ 32) :
    subU32 i 1 < n ↔ InTable i n := by
  unfold subU32 u32 InTable
  omega

theorem shiftRight_word {mark : Nat} (word : mark < 2 ^ 32) : mark >>> markBase < 2 ^ 32 :=
  Nat.lt_of_le_of_lt (Nat.shiftRight_le mark markBase) word

theorem bitMark_lt (b : Nat) : bitMark b < 2 ^ 32 := Nat.mod_lt _ (by decide)

/-- Only 21 bits of the number of a mark survive the shift. -/
theorem bitMark_shiftRight (b : Nat) : bitMark b >>> markBase = (b + 1) % 2 ^ 21 := by
  unfold bitMark u32 markBase
  rw [Nat.shiftLeft_eq, Nat.shiftRight_eq_div_pow]
  omega

theorem bitMark_inTable {b n : Nat} (lt : b < n) (nonzero : bitMark b ≠ 0) :
    InTable (bitMark b >>> markBase) n := by
  have shifted := bitMark_shiftRight b
  have value : bitMark b = (b + 1) % 2 ^ 21 * 2 ^ 11 := by
    unfold bitMark u32 markBase
    rw [Nat.shiftLeft_eq]
    omega
  unfold InTable
  omega

variable {G : Prop} {env : Env} {s s' : St}

theorem Straying.nullDeref : ¬ Straying G .nullDeref := fun straying => straying.2

theorem Straying.useAfterFree : ¬ Straying G .useAfterFree := fun straying => straying.2

theorem Straying.overrun : ¬ Straying G .overrun := fun straying => straying.2

theorem Straying.divideByZero : ¬ Straying G .divideByZero := fun straying => straying.2

/-- An access that the globals allow. -/
theorem Straying.beyond {i size : Nat} (below : G → i < size) : ¬ Straying G (.beyond i size) :=
  fun straying => Oops.not_beyond_stray (below straying.1) straying.2

theorem ensures_deref {α : Type} (p : Ptr α) :
    Ensures (Straying G) (fun a => p = .to a) p.deref := by
  match p with
  | .null => exact .error Straying.nullDeref
  | .dangling => exact .error Straying.useAfterFree
  | .to _ => exact .ok rfl

/-- What an operation keeps of its state, whatever else it returns. -/
theorem ensures_outcome {α : Type} {bad : Oops → Prop} {post : St → Prop} {x : Except Oops α}
    {f : α → St} {g : α → Outcome} (ran : Ensures bad (fun a => post (f a)) x) :
    Ensures bad post ((x >>= fun a => .ok (g a, f a)) >>= fun r => .ok r.2) := by
  cases ran with
  | error harmless => exact .error harmless
  | ok holds => exact .ok holds

namespace Indexed

/-! ## Tables written -/

theorem bits_le (indexed : Indexed s) {bm : List Bool} (live : s.markBitmap = .to bm) :
    bm.length ≤ s.maxIpCnt := (indexed.bits bm live).trans_le (allottedBits_le _)

/-- No table of so many buckets goes with a bitmap whose longs are too few. -/
theorem bits_eq (indexed : Indexed s) {head : MarktblHead} (live : s.gMarktblHead = .to head)
    {bm : List Bool} (bits : s.markBitmap = .to bm) : bm.length = s.maxIpCnt := by
  have small := (indexed.head head live).1
  exact (indexed.bits bm bits).trans (allottedBits_of_small (by omega))

theorem rules_le (indexed : Indexed s) {tbl : List RuletblNode} (live : s.gRuletbl = .to tbl) :
    tbl.length ≤ s.maxRuleCnt := (indexed.rules tbl live).1.trans_le (allotted_le ..)

theorem setBits (indexed : Indexed s) {bm : List Bool}
    (length : bm.length = allottedBits s.maxIpCnt) :
    Indexed (s.setBits bm) where
  ipCnt_lt := indexed.ipCnt_lt
  ruleCnt_lt := indexed.ruleCnt_lt
  bits := by
    intro bm' live
    cases live
    exact length
  rules := indexed.rules
  head := indexed.head

theorem setRules (indexed : Indexed s) {tbl : List RuletblNode}
    (length : tbl.length = allotted sizeofRuletblNode s.maxRuleCnt)
    (marks : ∀ rn ∈ tbl, rn.mark = 0 ∨ ∃ b < s.maxIpCnt, rn.mark = bitMark b) :
    Indexed (s.setRules tbl) where
  ipCnt_lt := indexed.ipCnt_lt
  ruleCnt_lt := indexed.ruleCnt_lt
  bits := indexed.bits
  rules := by
    intro tbl' live
    cases live
    exact ⟨length, marks⟩
  head := indexed.head

theorem setHead (indexed : Indexed s) {head : MarktblHead} (small : s.maxIpCnt < 2 ^ 30)
    (size : head.size = s.maxIpCnt) (length : head.ht.length = s.maxIpCnt)
    (sound : ∀ chain ∈ head.ht, ∀ e ∈ chain, InBounds s.maxIpCnt s.maxRuleCnt e) :
    Indexed (s.setHead head) where
  ipCnt_lt := indexed.ipCnt_lt
  ruleCnt_lt := indexed.ruleCnt_lt
  bits := indexed.bits
  rules := indexed.rules
  head := by
    intro head' live
    cases live
    exact ⟨small, size, length, sound⟩

/-- The history and the globals that no index depends on. -/
theorem others (indexed : Indexed s) (flag : Bool) (lanDev wanDev : String)
    (sent : List RtnlReq) (freed : List Nat) :
    Indexed { s with
      resetFlag := flag, qmarkLanDev := lanDev, qmarkWanDev := wanDev, sent, freed } :=
  ⟨indexed.ipCnt_lt, indexed.ruleCnt_lt, indexed.bits, indexed.rules, indexed.head⟩

theorem ruleAt (indexed : Indexed s) {id : Nat} (word : id < 2 ^ 32) (fits : G → IdFits id s) :
    Ensures (Straying G)
      (fun rn => InTable id s.maxRuleCnt ∧ (rn.mark = 0 ∨ ∃ b < s.maxIpCnt, rn.mark = bitMark b))
      (Kmod.ruleAt id s) := by
  apply (ensures_deref _).bind
  intro tbl live
  have marks := (indexed.rules tbl live).2
  have index := subU32_lt_iff word indexed.ruleCnt_lt
  cases found : tbl[subU32 id 1]? with
  | some rn =>
    apply Ensures.ok
    refine ⟨index.mp ?_, marks rn (List.mem_of_getElem? found)⟩
    exact Nat.lt_of_lt_of_le (List.getElem?_eq_some_iff.mp found).1 (indexed.rules_le live)
  | none =>
    apply Ensures.error
    exact Straying.beyond fun guard => index.mpr (fits guard (Ptr.isLive_of_eq live))

theorem modifyRule (indexed : Indexed s) {id : Nat} {f : RuletblNode → RuletblNode}
    (word : id < 2 ^ 32) (fits : G → IdFits id s)
    (marks : ∀ rn, (rn.mark = 0 ∨ ∃ b < s.maxIpCnt, rn.mark = bitMark b) →
      (f rn).mark = 0 ∨ ∃ b < s.maxIpCnt, (f rn).mark = bitMark b) :
    Ensures (Straying G) (fun s' => Indexed s' ∧ InTable id s.maxRuleCnt ∧
      s'.maxIpCnt = s.maxIpCnt ∧ s'.maxRuleCnt = s.maxRuleCnt ∧
      s'.markBitmap = s.markBitmap ∧ s'.gMarktblHead = s.gMarktblHead)
      (Kmod.modifyRule id f s) := by
  apply (ensures_deref _).bind
  intro tbl live
  obtain ⟨length, old⟩ := indexed.rules tbl live
  have index := subU32_lt_iff word indexed.ruleCnt_lt
  apply Ensures.ite
  · intro inRange
    apply Ensures.ok
    refine ⟨indexed.setRules ((List.length_modify ..).trans length) ?_,
      index.mp (Nat.lt_of_lt_of_le inRange (indexed.rules_le live)), rfl, rfl, rfl, rfl⟩
    exact IpQos.Lib.forall_mem_modify _ old marks
  · intro _
    apply Ensures.error
    exact Straying.beyond fun guard => index.mpr (fits guard (Ptr.isLive_of_eq live))

/-! ## Marks -/

theorem allocMark (indexed : Indexed s) :
    Ensures (Straying G)
      (fun r => Indexed r.2 ∧ (r.1 = 0 ∨ ∃ b < s.maxIpCnt, r.1 = bitMark b)) (Kmod.allocMark s) := by
  apply (ensures_deref _).bind
  intro bm live
  have length := indexed.bits bm live
  apply Ensures.ite
  · intro _
    exact .ok ⟨indexed, .inl rfl⟩
  · intro below
    have inRange := Nat.lt_of_not_le below
    unfold writeBit
    split
    · exact .ok ⟨indexed.setBits (List.length_set.trans length), .inr ⟨_, inRange, rfl⟩⟩
    · exact .error (Straying.beyond fun _ => inRange)

/-- The index of a mark in the bitmap. -/
theorem markIndex (indexed : Indexed s) {mark : Nat} (word : mark < 2 ^ 32) :
    subU32 (mark >>> markBase) 1 < s.maxIpCnt ↔ InTable (mark >>> markBase) s.maxIpCnt :=
  subU32_lt_iff (shiftRight_word word) indexed.ipCnt_lt

theorem freeMark (indexed : Indexed s) {mark : Nat} (word : mark < 2 ^ 32)
    (fits : G → MarkFits mark s) : Ensures (Straying G) Indexed (Kmod.freeMark mark s) := by
  apply (ensures_deref _).bind
  intro bm live
  unfold writeBit
  split
  · have cleared := indexed.setBits
      ((List.length_set (i := subU32 (mark >>> markBase) 1) (a := false)).trans
        (indexed.bits bm live))
    exact .ok (cleared.others ..)
  · apply Ensures.error
    exact Straying.beyond fun guard =>
      (indexed.markIndex word).mpr (fits guard (Ptr.isLive_of_eq live))

theorem testMark (indexed : Indexed s) {mark : Nat} (word : mark < 2 ^ 32)
    (fits : G → MarkFits mark s) :
    Ensures (Straying G) (fun _ => InTable (mark >>> markBase) s.maxIpCnt)
      (Kmod.testMark mark s) := by
  apply (ensures_deref _).bind
  intro bm live
  have index := indexed.markIndex word
  unfold readBit
  cases found : bm[subU32 (mark >>> markBase) 1]? with
  | some b =>
    have inRange := (List.getElem?_eq_some_iff.mp found).1
    exact .ok (index.mp (Nat.lt_of_lt_of_le inRange (indexed.bits_le live)))
  | none =>
    apply Ensures.error
    exact Straying.beyond fun guard => index.mpr (fits guard (Ptr.isLive_of_eq live))

/-! ## Hash table -/

/-- The way into a chain, shared by every access to the hash table. -/
theorem bindBucket {β : Type} {post : β → Prop} (indexed : Indexed s) (key : Be32)
    (bucketed : G → Bucketed s) {f : MarktblHead → Nat → List MarktblNode → Except Oops β}
    (next : ∀ head i chain, s.gMarktblHead = .to head → hashIndex head key = .ok i →
      head.ht[i]? = some chain → Ensures (Straying G) post (f head i chain)) :
    Ensures (Straying G) post (do
      let head ← s.gMarktblHead.deref
      let i ← hashIndex head key
      let chain ← bucket head i
      f head i chain) := by
  apply (ensures_deref _).bind
  intro head live
  obtain ⟨_, size, length, _⟩ := indexed.head head live
  unfold hashIndex
  split
  · rename_i empty
    apply Ensures.error
    rintro ⟨guard, _⟩
    have := bucketed guard (Ptr.isLive_of_eq live)
    omega
  · rename_i nonempty
    rw [ok_bind]
    -- the index is taken modulo the number of buckets
    have inRange : slotOf head.size key < head.ht.length := by
      rw [length, ← size]
      exact Nat.mod_lt _ (Nat.pos_of_ne_zero nonempty)
    have here := List.getElem?_eq_getElem inRange
    unfold bucket
    rw [here]
    exact next head _ _ live (by rw [hashIndex, if_neg nonempty]) here

theorem marktblHashGet (indexed : Indexed s) (key : Be32) (bucketed : G → Bucketed s) :
    Ensures (Straying G) (fun r => ∀ e, r = some e → InBounds s.maxIpCnt s.maxRuleCnt e)
      (Kmod.marktblHashGet key s) := by
  apply indexed.bindBucket key bucketed
  intro head i chain live _ here
  apply Ensures.ok
  intro e found
  exact (indexed.head head live).2.2.2 chain (List.mem_of_getElem? here) e
    (List.mem_of_find?_eq_some found)

theorem modifyNode (indexed : Indexed s) (key : Be32) {f : MarktblNode → MarktblNode}
    (bucketed : G → Bucketed s)
    (keeps : ∀ e, (f e).id = e.id ∧ (f e).mark = e.mark) :
    Ensures (Straying G) Indexed (Kmod.modifyNode key f s) := by
  apply indexed.bindBucket key bucketed
  intro head i chain live _ here
  obtain ⟨small, size, length, sound⟩ := indexed.head head live
  apply Ensures.ok
  refine indexed.setHead small size ((List.length_modify ..).trans length) ?_
  apply IpQos.Lib.forall_mem_modify i sound
  intro old oldSound e inChanged
  cases IpQos.Lib.Placed.mem_modifyFirst inChanged with
  | inl same => exact oldSound e same
  | inr changed =>
    obtain ⟨c, inOld, rfl⟩ := changed
    obtain ⟨sameId, sameMark⟩ := keeps c
    obtain ⟨id, mark, word⟩ := oldSound c inOld
    exact ⟨sameId ▸ id, sameMark ▸ mark, sameMark ▸ word⟩

/-- The id is used only once nothing refuses the entry. -/
theorem marktblHashAdd (indexed : Indexed s) {key : Be32} {id mark : Nat} (wordId : id < 2 ^ 32)
    (word : mark < 2 ^ 32) (inTable : InTable (mark >>> markBase) s.maxIpCnt)
    (fits : G → elemOverLimit s = .ok false → Kmod.marktblHashGet key s = .ok none →
      env.kmalloc .marktblNode = true → IdFits id s) :
    Ensures (Straying G) (fun r => Indexed r.2) (Kmod.marktblHashAdd env key id mark s) := by
  have limit : Ensures (Straying G) (fun _ => True) (elemOverLimit s) :=
    (ensures_deref _).bind fun head _ => .ok trivial
  apply limit.known.bind
  rintro limited ⟨_, overLimit⟩
  apply Ensures.ite
  · intro _
    exact .ok indexed
  · intro below
    have bucketed : Bucketed s := fun _ => Nat.le_trans inTable.1 inTable.2
    apply indexed.bindBucket key fun _ => bucketed
    intro head i chain live index here
    cases found : chain.find? (marktblHashCmp key) with
    -- the duplicate branch dereferences NULL
    | some e => exact .error Straying.nullDeref
    | none =>
      dsimp only
      by_cases kmalloc : env.kmalloc .marktblNode = true
      · rw [if_pos kmalloc]
        -- nothing has refused the entry, so the rule of its id is written
        have fresh : Kmod.marktblHashGet key s = .ok none := by
          simp only [Kmod.marktblHashGet, live, Ptr.deref_to, ok_bind, index, bucket, here, found]
          rfl
        have notOver : elemOverLimit s = .ok false := by
          rw [overLimit, Bool.eq_false_iff.mpr below]
        have counted := indexed.modifyRule (G := G)
          (f := fun rn => { rn with count := atomicInc rn.count }) wordId
          (fun guard => fits guard notOver fresh kmalloc) (fun _ kept => kept)
        apply counted.bind
        rintro s₁ ⟨indexed₁, inTableId, ipCnt, ruleCnt, _, _⟩
        obtain ⟨small, size, length, sound⟩ := indexed.head head live
        apply Ensures.ok
        refine indexed₁.setHead (ipCnt.symm ▸ small) (size.trans ipCnt.symm)
          ((List.length_modify ..).trans (length.trans ipCnt.symm)) ?_
        rw [ipCnt, ruleCnt]
        -- the new entry is in bounds, and the chain behind it was
        apply IpQos.Lib.forall_mem_modify i sound
        intro old oldSound e inOther
        cases List.mem_cons.mp inOther with
        | inl same =>
          cases same
          exact ⟨inTableId, inTable, word⟩
        | inr inOld => exact oldSound e inOld
      · rw [if_neg kmalloc]
        exact .ok indexed

theorem qmarkAddHash (indexed : Indexed s) (env : Env) (key : Be32) {id mark : Nat} (wordId : id < 2 ^ 32)
    (word : mark < 2 ^ 32) (markFits : G → MarkFits mark s)
    (fits : G → Kmod.testMark mark s = .ok true → elemOverLimit s = .ok false →
      Kmod.marktblHashGet key s = .ok none → env.kmalloc .marktblNode = true → IdFits id s) :
    Ensures (Straying G) (fun r => Indexed r.2 ∧ InTable (mark >>> markBase) s.maxIpCnt)
      (Kmod.qmarkAddHash env key id mark s) := by
  apply (indexed.testMark word markFits).known.bind
  rintro allocated ⟨inTable, test⟩
  cases allocated with
  | false => exact .ok ⟨indexed, inTable⟩
  | true =>
    apply (indexed.marktblHashAdd wordId word inTable fun guard => fits guard test).mono
    intro r indexed'
    exact ⟨indexed', inTable⟩

/-! ## An entry found -/

theorem found_cases {key : Be32} {e : MarktblNode}
    (found : Kmod.marktblHashGet key s = .ok (some e)) :
    ∃ head i chain, s.gMarktblHead = .to head ∧ hashIndex head key = .ok i ∧
      head.ht[i]? = some chain ∧ chain.find? (marktblHashCmp key) = some e := by
  obtain ⟨head, deref, found⟩ := bind_eq_ok found
  obtain ⟨i, index, found⟩ := bind_eq_ok found
  obtain ⟨chain, here, found⟩ := bind_eq_ok found
  refine ⟨head, i, chain, Ptr.deref_eq_ok deref, index, ?_, Except.ok.inj found⟩
  unfold bucket at here
  split at here
  · cases here
    assumption
  · cases here

/-- The entry stays where it was found. -/
theorem modifyNode_found {key : Be32} {e : MarktblNode} {f : MarktblNode → MarktblNode}
    (found : Kmod.marktblHashGet key s = .ok (some e)) (keeps : ∀ n, (f n).srcIp = n.srcIp) :
    ∃ head, Kmod.modifyNode key f s = .ok (s.setHead head) ∧
      Kmod.marktblHashGet key (s.setHead head) = .ok (some (f e)) := by
  obtain ⟨head, i, chain, live, index, here, hit⟩ := found_cases found
  refine ⟨{ head with ht := head.ht.modify i (IpQos.Lib.modifyFirst (marktblHashCmp key) f) },
    ?_, ?_⟩
  · simp only [Kmod.modifyNode, live, Ptr.deref_to, ok_bind, index, bucket, here]
    rfl
  · have same : ∀ n, marktblHashCmp key (f n) = marktblHashCmp key n := by
      intro n
      unfold marktblHashCmp
      rw [keeps]
    have index' : hashIndex { head with
        ht := head.ht.modify i (IpQos.Lib.modifyFirst (marktblHashCmp key) f) } key = .ok i := index
    simp only [Kmod.marktblHashGet, St.setHead, Ptr.deref_to, ok_bind, index', bucket,
      List.getElem?_modify, here, Option.map_eq_map, Option.map_some, if_true, IpQos.Lib.find?_modifyFirst same, hit]
    rfl

/-- Removal of an entry that no connection holds. -/
theorem del_found {key : Be32} {e : MarktblNode}
    (found : Kmod.marktblHashGet key s = .ok (some e)) (unused : e.count ≤ 0) :
    ∃ head i, s.gMarktblHead = .to head ∧ qosMarktblHashtblDel key s =
      (Kmod.modifyRule e.id (fun rn => { rn with count := atomicDec rn.count }) (s.setHead
        { head with
          elemNum := subU32 head.elemNum 1
          ht := head.ht.modify i (·.eraseP (marktblHashCmp key)) })) >>=
        fun s' => .ok (.ok, e.mark, s') := by
  obtain ⟨head, i, chain, live, index, here, hit⟩ := found_cases found
  refine ⟨head, i, live, ?_⟩
  have notMore : ¬ e.count > 0 := Int.not_lt.mpr unused
  simp only [qosMarktblHashtblDel, marktblHashRemove, live, Ptr.deref_to, ok_bind, index, bucket,
    here, hit, if_neg notMore]
  cases Kmod.modifyRule e.id (fun rn => { rn with count := atomicDec rn.count }) (s.setHead
    { head with
      elemNum := subU32 head.elemNum 1
      ht := head.ht.modify i (·.eraseP (marktblHashCmp key)) }) with
  | error e => rfl
  | ok s' => rfl

/-! ## Entry points -/

/-- The write in front of every `free_mark`. -/
theorem clearMark (indexed : Indexed s) {id : Nat} (valid : InTable id s.maxRuleCnt) :
    Ensures (Straying G) (fun s' => Indexed s' ∧ InTable id s'.maxRuleCnt ∧
      s'.maxIpCnt = s.maxIpCnt) (Kmod.modifyRule id (fun rn => { rn with mark := 0 }) s) := by
  have word : id < 2 ^ 32 := Nat.lt_of_le_of_lt valid.2 indexed.ruleCnt_lt
  have clear := indexed.modifyRule (G := G) (f := fun rn => { rn with mark := 0 }) word
    (fun _ _ => valid) (fun _ _ => .inl rfl)
  apply clear.mono
  rintro s' ⟨indexed', valid, ipCnt, ruleCnt, _, _⟩
  exact ⟨indexed', ruleCnt ▸ valid, ipCnt⟩

theorem kept_word {n mark : Nat} (kept : mark = 0 ∨ ∃ b < n, mark = bitMark b) :
    mark < 2 ^ 32 := by
  cases kept with
  | inl zero => rw [zero]; decide
  | inr bit =>
    obtain ⟨b, _, rfl⟩ := bit
    exact bitMark_lt b

theorem qmarkAllocMark (indexed : Indexed s) :
    Ensures (Straying G) (fun r => Indexed r.2.2 ∧
      (r.1 = .ok → r.2.1 ≠ 0 ∧ ∃ b < s.maxIpCnt, r.2.1 = bitMark b)) (Kmod.qmarkAllocMark s) := by
  apply (indexed.allocMark).bind
  rintro ⟨mark, s₁⟩ ⟨indexed₁, kept⟩
  apply Ensures.ite
  · intro _
    refine .ok ⟨indexed₁, ?_⟩
    intro ok
    cases ok
  · intro nonzero
    refine .ok ⟨indexed₁, fun _ => ⟨fun zero => nonzero zero.symm, ?_⟩⟩
    cases kept with
    | inl zero => exact absurd zero.symm nonzero
    | inr bit => exact bit

/-- Neither the devices nor the rates have to do with the tables. -/
theorem qmarkTcAddRule (indexed : Indexed s) (env : Env) (rn : RuletblNode) (mark : Nat) :
    Ensures (Straying G) Indexed (Kmod.qmarkTcAddRule env rn mark s) := by
  rw [qmarkTcAddRule_eq]
  unfold unlessStalled
  apply Ensures.ite
  · intro _
    exact .ok (indexed.others ..)
  · intro _
    exact .error Straying.divideByZero

theorem qmarkTcDelRule (indexed : Indexed s) (env : Env) (rn : RuletblNode) (mark : Nat) :
    Ensures (Straying G) (fun s' => Indexed s' ∧ s'.maxIpCnt = s.maxIpCnt)
      (Kmod.qmarkTcDelRule env rn mark s) := by
  rw [qmarkTcDelRule_eq]
  exact .ok ⟨indexed.others .., rfl⟩

theorem allocMarkAutoAdd (indexed : Indexed s) {srcIp : Be32} {id mark : Nat}
    (wordId : id < 2 ^ 32) (valid : InTable id s.maxRuleCnt) (word : mark < 2 ^ 32)
    (fits : G → MarkFits mark s) :
    Ensures (Straying G) (fun r => Indexed r.2.2) (Kmod.allocMarkAutoAdd env srcIp id mark s) := by
  have add := indexed.qmarkAddHash env srcIp wordId word fits
    fun _ _ _ _ _ _ => valid
  apply add.known.bind
  rintro ⟨ret, s₁⟩ ⟨⟨indexed₁, inTable⟩, ran⟩
  have framed := Framed.qmarkAddHash ran
  have valid₁ : InTable id s₁.maxRuleCnt := framed.maxRuleCnt ▸ valid
  have found := indexed₁.ruleAt (G := G) wordId fun _ _ => valid₁
  apply Ensures.ite
  · intro _
    apply found.bind
    intro rn _
    apply Ensures.ite
    · intro _
      -- the mark has passed the test, so it can be freed
      apply (indexed₁.clearMark valid₁).bind
      rintro s₂ ⟨indexed₂, _, ipCnt⟩
      apply (indexed₂.freeMark word fun _ _ => ?_).bind
      · intro s₃ indexed₃
        exact .ok indexed₃
      · rw [ipCnt, framed.maxIpCnt]
        exact inTable
    · intro _
      exact .ok indexed₁
  · intro _
    apply found.bind
    intro rn _
    exact (indexed₁.qmarkTcAddRule env rn mark).bind fun _ indexed₂ => .ok indexed₂

/-- What is entered has passed the test of its mark. -/
theorem allocMarkAutoAdd_inTable (indexed : Indexed s) {srcIp : Be32} {id mark : Nat}
    (wordId : id < 2 ^ 32) (word : mark < 2 ^ 32) {r : RetCode × Nat × St}
    (ran : Kmod.allocMarkAutoAdd env srcIp id mark s = .ok r) :
    InTable (mark >>> markBase) s.maxIpCnt := by
  obtain ⟨⟨ret, s₁⟩, add, _⟩ := bind_eq_ok ran
  have added := indexed.qmarkAddHash (G := False) env srcIp wordId word
    False.elim False.elim
  rw [add] at added
  exact added.returned.2

theorem qmarkAllocMarkAuto (indexed : Indexed s) (env : Env) (srcIp : Be32) {id : Nat} (mark : Nat)
    (wordId : id < 2 ^ 32)
    (fits : G → s.resetFlag = false → IdFits id s ∧ ∀ rn, Kmod.ruleAt id s = .ok rn →
      rn.mode ≠ privMode → rn.count ≠ 0 → MarkFits rn.mark s) :
    Ensures (Straying G) (fun r => Indexed r.2.2)
      (Kmod.qmarkAllocMarkAuto env srcIp id mark s) := by
  have reserve : Ensures (Straying G) _ (Kmod.qmarkAllocMark s) := indexed.qmarkAllocMark.known
  apply Ensures.ite
  · intro _
    exact .ok indexed
  · intro notSet
    have flag : s.resetFlag = false := Bool.eq_false_iff.mpr notSet
    apply (indexed.ruleAt wordId fun guard => (fits guard flag).1).known.bind
    rintro rn ⟨⟨valid, kept⟩, found⟩
    apply Ensures.ite
    · intro _
      apply reserve.bind
      rintro ⟨ret, mark', s₁⟩ ⟨⟨indexed₁, handed⟩, alloc⟩
      have framed := Framed.qmarkAllocMark alloc
      apply Ensures.ite
      · intro _
        exact .ok indexed₁
      · intro ok
        -- a mark that was handed out is the mark of a bit
        obtain ⟨nonzero, b, below, rfl⟩ := handed (not_not.mp ok)
        apply indexed₁.allocMarkAutoAdd wordId (framed.maxRuleCnt ▸ valid) (bitMark_lt b)
        intro _ _
        exact framed.maxIpCnt ▸ bitMark_inTable below nonzero
    · intro shared
      apply Ensures.ite
      · intro _
        apply reserve.bind
        rintro ⟨ret, mark', s₁⟩ ⟨⟨indexed₁, handed⟩, alloc⟩
        have framed := Framed.qmarkAllocMark alloc
        apply Ensures.ite
        · intro _
          exact .ok indexed₁
        · intro ok
          obtain ⟨nonzero, b, below, same⟩ := handed (not_not.mp ok)
          dsimp only at same nonzero
          subst same
          have valid₁ : InTable id s₁.maxRuleCnt := framed.maxRuleCnt ▸ valid
          have store := indexed₁.modifyRule (G := G) (f := fun rn => { rn with mark := bitMark b })
            wordId (fun _ _ => valid₁) (fun _ _ => .inr ⟨b, framed.maxIpCnt ▸ below, rfl⟩)
          apply store.bind
          rintro s₂ ⟨indexed₂, _, ipCnt, ruleCnt, _, _⟩
          apply indexed₂.allocMarkAutoAdd wordId (ruleCnt ▸ valid₁) (bitMark_lt b)
          intro _ _
          rw [ipCnt, framed.maxIpCnt]
          exact bitMark_inTable below nonzero
      · intro members
        -- the mark a share rule keeps may be 0, which is no bit
        apply indexed.allocMarkAutoAdd wordId valid (kept_word kept)
        intro guard
        exact (fits guard flag).2 rn found (fun priv => shared priv.symm)
          (fun zero => members zero.symm)

/-- Only a packet that no entry marks needs its rule. -/
theorem qmarkHandle (indexed : Indexed s) (env : Env) (skb : SkBuff) (info : TgInfo)
    (wordId : info.id < 2 ^ 32) (bucketed : G → Bucketed s)
    (fits : G → Kmod.marktblHashGet (info.ipAddr skb) s = .ok none → s.resetFlag = false →
      IdFits info.id s ∧ ∀ rn, Kmod.ruleAt info.id s = .ok rn →
        rn.mode ≠ privMode → rn.count ≠ 0 → MarkFits rn.mark s) :
    Ensures (Straying G) (fun r => Indexed r.2) (Kmod.qmarkHandle env skb info s) := by
  have lookup : Ensures (Straying G)
      (fun r => r.2 = 0 → Kmod.marktblHashGet (info.ipAddr skb) s = .ok none)
      (Kmod.qmarkFindHash (info.ipAddr skb) s) := by
    apply (indexed.marktblHashGet (info.ipAddr skb) bucketed).known.bind
    rintro found ⟨sound, get⟩
    cases found with
    | none => exact .ok fun _ => get
    | some e =>
      apply Ensures.ok
      intro unmarked
      dsimp only at unmarked
      -- an entry has a mark whose number is not 0
      have := (sound e rfl).mark.1
      rw [unmarked] at this
      cases this
  apply lookup.bind
  rintro ⟨code, mark⟩ missed
  apply Ensures.ite
  · intro unmarked
    have auto := indexed.qmarkAllocMarkAuto (G := G) env (info.ipAddr skb) mark wordId
      fun guard => fits guard (missed unmarked)
    apply auto.bind
    rintro ⟨ret, mark', s₁⟩ indexed₁
    apply Ensures.ite
    · intro _
      exact .ok indexed₁
    · intro _
      exact .ok indexed₁
  · intro _
    exact .ok indexed

/-! ## Removal -/

theorem qosMarktblHashtblDel (indexed : Indexed s) {key : Be32} {e : MarktblNode}
    (found : Kmod.marktblHashGet key s = .ok (some e)) (unused : e.count ≤ 0)
    (sound : InBounds s.maxIpCnt s.maxRuleCnt e) :
    Ensures (Straying G) (fun r => Indexed r.2.2 ∧ r.2.1 = e.mark ∧
        InTable e.id r.2.2.maxRuleCnt ∧ r.2.2.maxIpCnt = s.maxIpCnt)
      (Kmod.qosMarktblHashtblDel key s) := by
  obtain ⟨head, i, live, removed⟩ := del_found found unused
  rw [removed]
  obtain ⟨small, size, length, all⟩ := indexed.head head live
  have unlinked : Indexed (s.setHead { head with
      elemNum := subU32 head.elemNum 1
      ht := head.ht.modify i (·.eraseP (marktblHashCmp key)) }) := by
    refine indexed.setHead small size ((List.length_modify ..).trans length) ?_
    apply IpQos.Lib.forall_mem_modify i all
    intro old oldSound e' inOther
    exact oldSound e' (List.mem_of_mem_eraseP inOther)
  have word : e.id < 2 ^ 32 := Nat.lt_of_le_of_lt sound.id.2 indexed.ruleCnt_lt
  have counted := unlinked.modifyRule (G := G)
    (f := fun rn => { rn with count := atomicDec rn.count }) word (fun _ _ => sound.id)
    (fun _ kept => kept)
  apply counted.bind
  rintro s₁ ⟨indexed₁, valid, ipCnt, ruleCnt, _, _⟩
  exact .ok ⟨indexed₁, rfl, ruleCnt ▸ valid, ipCnt⟩

/-- What both removals do to the entry they have found. -/
theorem unhold (indexed : Indexed s) {key : Be32} {e : MarktblNode}
    (found : Kmod.marktblHashGet key s = .ok (some e)) :
    ∃ s₁, Kmod.modifyNode key (fun n => { n with count := atomicDec n.count }) s = .ok s₁ ∧
      Indexed s₁ ∧ InBounds s₁.maxIpCnt s₁.maxRuleCnt { e with count := atomicDec e.count } ∧
      Kmod.marktblHashGet key s₁ = .ok (some { e with count := atomicDec e.count }) := by
  obtain ⟨head, modify, found'⟩ :=
    modifyNode_found (f := fun n => { n with count := atomicDec n.count }) found fun _ => rfl
  have changed := indexed.modifyNode (G := False) key
    (f := fun n => { n with count := atomicDec n.count }) False.elim (fun _ => ⟨rfl, rfl⟩)
  rw [modify] at changed
  have lookup := changed.returned.marktblHashGet (G := False) key False.elim
  rw [found'] at lookup
  exact ⟨_, modify, changed.returned, lookup.returned _ rfl, found'⟩

theorem conntrackDestroy (indexed : Indexed s) (ip : Be32) (bucketed : G → Bucketed s) :
    Ensures (Straying G) Indexed (Kmod.conntrackDestroy env ip s) := by
  apply (indexed.marktblHashGet ip bucketed).known.bind
  rintro node ⟨_, found⟩
  cases node with
  | none => exact .ok indexed
  | some e =>
    -- the entry was in bounds when it was stored
    obtain ⟨s₁, modify, indexed₁, sound, found₁⟩ := indexed.unhold found
    show Ensures (Straying G) Indexed (Kmod.modifyNode ip _ s >>= _)
    rw [modify, ok_bind]
    apply Ensures.ite
    · intro unused
      apply (indexed₁.qosMarktblHashtblDel found₁ unused sound).bind
      rintro ⟨ret, mark, s₂⟩ ⟨indexed₂, same, valid, ipCnt⟩
      dsimp only at same
      subst same
      have word : e.id < 2 ^ 32 := Nat.lt_of_le_of_lt valid.2 indexed₂.ruleCnt_lt
      apply (indexed₂.ruleAt word fun _ _ => valid).bind
      intro rn _
      apply Ensures.ite
      · intro _
        apply (indexed₂.clearMark valid).bind
        rintro s₃ ⟨indexed₃, valid₃, ipCnt₃⟩
        apply (indexed₃.ruleAt word fun _ _ => valid₃).bind
        intro rn' _
        apply (indexed₃.qmarkTcDelRule env rn' e.mark).bind
        rintro s₄ ⟨indexed₄, ipCnt₄⟩
        apply indexed₄.freeMark sound.word
        intro _ _
        rw [ipCnt₄, ipCnt₃, ipCnt]
        exact sound.mark
      · intro _
        exact .ok indexed₂
    · intro _
      exact .ok indexed₁

theorem conntrackMark (indexed : Indexed s) (ip : Be32) (bucketed : G → Bucketed s) :
    Ensures (Straying G) Indexed (Kmod.conntrackMark ip s) := by
  apply (indexed.marktblHashGet ip bucketed).bind
  intro node _
  cases node with
  | none => exact .ok indexed
  | some e => exact indexed.modifyNode ip bucketed fun _ => ⟨rfl, rfl⟩

theorem qmarkDelHash (indexed : Indexed s) (ip : Be32) (mark : Nat) (bucketed : G → Bucketed s) :
    Ensures (Straying G) (fun r => Indexed r.2.2) (Kmod.qmarkDelHash ip mark s) := by
  apply (indexed.marktblHashGet ip bucketed).known.bind
  rintro node ⟨_, found⟩
  cases node with
  | none => exact .ok indexed
  | some e =>
    obtain ⟨s₁, modify, indexed₁, sound, found₁⟩ := indexed.unhold found
    show Ensures (Straying G) _ (Kmod.modifyNode ip _ s >>= _)
    rw [modify, ok_bind]
    apply Ensures.ite
    · intro unused
      apply (indexed₁.qosMarktblHashtblDel found₁ unused sound).bind
      rintro ⟨ret, mark', s₂⟩ ⟨indexed₂, same, valid, ipCnt⟩
      dsimp only at same
      subst same
      have word : e.id < 2 ^ 32 := Nat.lt_of_le_of_lt valid.2 indexed₂.ruleCnt_lt
      apply (indexed₂.ruleAt word fun _ _ => valid).bind
      intro rn _
      apply Ensures.ite
      · intro _
        apply (indexed₂.clearMark valid).bind
        rintro s₃ ⟨indexed₃, _, ipCnt₃⟩
        apply (indexed₃.freeMark sound.word fun _ _ => ?_).bind
        · intro s₄ indexed₄
          exact .ok indexed₄
        · rw [ipCnt₃, ipCnt]
          exact sound.mark
      · intro _
        exact .ok indexed₂
    · intro _
      exact .ok indexed₁

/-! ## Tables allocated and flushed -/

theorem markBitmapInit (indexed : Indexed s) (env : Env) {cnt : Nat} (same : cnt = s.maxIpCnt) :
    Indexed (Kmod.markBitmapInit env cnt s).2 := by
  unfold Kmod.markBitmapInit
  split
  · exact indexed.setBits (List.length_replicate.trans (congrArg allottedBits same))
  · refine ⟨indexed.ipCnt_lt, indexed.ruleCnt_lt, ?_, indexed.rules, indexed.head⟩
    intro bm live
    cases live

theorem qosRuletblInit (indexed : Indexed s) (env : Env) :
    Indexed (Kmod.qosRuletblInit env s).2 := by
  unfold Kmod.qosRuletblInit
  split
  · apply indexed.setRules List.length_replicate
    intro rn member
    rw [List.eq_of_mem_replicate member]
    exact .inl rfl
  · refine ⟨indexed.ipCnt_lt, indexed.ruleCnt_lt, indexed.bits, ?_, indexed.head⟩
    intro tbl live
    cases live

theorem qosMarktblHashtblInit (indexed : Indexed s) (env : Env) :
    Ensures (Straying G) (fun r => Indexed r.2) (Kmod.qosMarktblHashtblInit env s) := by
  have headless : ∀ p : Ptr MarktblHead, p.isLive = false →
      Indexed { s with gMarktblHead := p } := by
    intro p absent
    refine ⟨indexed.ipCnt_lt, indexed.ruleCnt_lt, indexed.bits, indexed.rules, ?_⟩
    intro head live
    rw [Ptr.isLive_of_eq live] at absent
    cases absent
  apply Ensures.ite
  · intro _
    apply Ensures.ite
    · intro _
      apply Ensures.ite
      · intro _
        exact .error Straying.overrun
      · intro allocated
        -- the byte count has not wrapped, so the loop stays within the buckets
        have small : s.maxIpCnt < 2 ^ 30 := by
          unfold allotted u32 sizeofHlistHead at allocated
          omega
        apply Ensures.ok
        apply indexed.setHead small rfl List.length_replicate
        intro chain member e inChain
        rw [List.eq_of_mem_replicate member] at inChain
        cases inChain
    · intro _
      exact .ok (headless _ rfl)
  · intro _
    exact .ok (headless _ rfl)

/-- Nothing is left in place that the sizes could contradict. -/
theorem of_absent (ipCnt_lt : s.maxIpCnt < 2 ^ 32) (ruleCnt_lt : s.maxRuleCnt < 2 ^ 32)
    (bits : s.markBitmap = .null) (rules : s.gRuletbl = .null) (head : s.gMarktblHead = .null) :
    Indexed s := by
  refine ⟨ipCnt_lt, ruleCnt_lt, ?_, ?_, ?_⟩
  · intro bm live
    rw [bits] at live
    cases live
  · intro tbl live
    rw [rules] at live
    cases live
  · intro head' live
    rw [head] at live
    cases live

/-- The old hash table is cleared before it is freed. -/
theorem qosMarktblHashtblExit (s : St) :
    Ensures (Straying G) (fun s' => s' = { s with gMarktblHead := .null })
      (Kmod.qosMarktblHashtblExit s) := by
  unfold Kmod.qosMarktblHashtblExit
  split
  · rename_i absent
    apply Ensures.ok
    rw [← absent]
  · have clean : Ensures (Straying G) (fun s' => ∃ head, s' = s.setHead head)
        (marktblHashClean s) :=
      (ensures_deref _).bind fun head _ => .ok ⟨_, rfl⟩
    apply clean.bind
    rintro s₁ ⟨head, rfl⟩
    exact .ok rfl

theorem qmarkSetSpec (env : Env) {ipSpec ruleSpec : Nat} (ipCnt_lt : ipSpec < 2 ^ 32)
    (ruleCnt_lt : ruleSpec < 2 ^ 32) (s : St) :
    Ensures (Straying G) Indexed (Kmod.qmarkSetSpec env ipSpec ruleSpec s) := by
  apply (qosMarktblHashtblExit s).bind
  rintro s₁ rfl
  have absent : Indexed (markBitmapExit (qosRuletblExit { s with
      gMarktblHead := .null, maxRuleCnt := ruleSpec, maxIpCnt := ipSpec })) :=
    of_absent ipCnt_lt ruleCnt_lt rfl rfl rfl
  have rules := (absent.markBitmapInit env rfl).qosRuletblInit env
  exact (rules.qosMarktblHashtblInit env).bind fun _ indexed => .ok indexed

theorem qmarkFlushHash (indexed : Indexed s) (env : Env) :
    Ensures (Straying G) Indexed (Kmod.qmarkFlushHash env s) := by
  apply (qosMarktblHashtblExit s).bind
  rintro s₁ rfl
  have headless : Indexed { s with gMarktblHead := .null } := by
    refine ⟨indexed.ipCnt_lt, indexed.ruleCnt_lt, indexed.bits, indexed.rules, ?_⟩
    intro head live
    cases live
  exact (headless.qosMarktblHashtblInit env).bind fun _ indexed' => .ok indexed'

theorem qmarkFlushRule (indexed : Indexed s) (env : Env) :
    Indexed (Kmod.qmarkFlushRule env s) := by
  apply qosRuletblInit
  refine ⟨indexed.ipCnt_lt, indexed.ruleCnt_lt, indexed.bits, ?_, indexed.head⟩
  intro tbl live
  cases live

theorem flushMark (indexed : Indexed s) :
    Ensures (Straying G) Indexed (Kmod.flushMark s) := by
  apply (ensures_deref _).bind
  intro bm live
  exact .ok (indexed.setBits ((List.length_map _).trans (indexed.bits bm live)))

theorem clearCounts (indexed : Indexed s) : Ensures (Straying G) Indexed (Kmod.clearCounts s) := by
  apply Ensures.ite
  · intro _
    exact .ok indexed
  · intro _
    apply (ensures_deref _).bind
    intro tbl live
    obtain ⟨length, marks⟩ := indexed.rules tbl live
    apply Ensures.ite
    · intro _
      exact .error Straying.overrun
    · intro _
      apply Ensures.ok
      apply indexed.setRules ((List.length_map _).trans length)
      intro rn member
      obtain ⟨old, inTable, rfl⟩ := List.mem_map.mp member
      exact marks old inTable

theorem qmarkReset (indexed : Indexed s) (env : Env) (flag : Nat) :
    Ensures (Straying G) Indexed (Kmod.qmarkReset env flag s) := by
  apply Ensures.ite
  · intro _
    exact .ok (indexed.others ..)
  · intro _
    apply (flushMark (s := { s with resetFlag := true }) (indexed.others ..)).bind
    intro s₁ indexed₁
    apply (indexed₁.qmarkFlushHash env).bind
    intro s₂ indexed₂
    exact indexed₂.clearCounts

end Indexed

end IpQos.Verified
