import IpQos.Kmod.Marktbl
import IpQos.Lib.FiniteMap
import IpQos.Lib.Lockstep
import IpQos.Verified.Operations

/-! # The hash table is a finite map

The operations of the hash table on their own, each beside the operation of a finite map
from addresses to entries that it implements.  In lockstep they give the same answers: no
table that can be initialised is large enough for its element counter to wrap. -/

namespace IpQos.Verified

open IpQos.Kmod
open IpQos.Lib (AllowedBy Holds Lockstep contents modifyFirst)

/-! ## Operations -/

/-- `count` is a change of the reference count through the pointer that `marktbl_hash_get`
    returned. -/
inductive HashOp where
  | add (env : Env) (ip : Be32) (id mark : Nat)
  | get (ip : Be32)
  | remove (ip : Be32)
  | clean
  | count (ip : Be32) (f : Int → Int)

inductive HashReply where
  | returned (ret : RetCode)
  | found (entry : Option MarktblNode)
  | removed (ret : RetCode) (entry : Option MarktblNode)
  | done
  deriving DecidableEq, Repr

def hashStep (op : HashOp) (s : St) : Except Oops (HashReply × St) :=
  match op with
  | .add env ip id mark => do
    let (ret, s) ← marktblHashAdd env ip id mark s
    return (.returned ret, s)
  | .get ip => do
    let entry ← marktblHashGet ip s
    return (.found entry, s)
  | .remove ip => do
    let (ret, entry, s) ← marktblHashRemove ip s
    return (.removed ret entry, s)
  | .clean => do
    let s ← marktblHashClean s
    return (.done, s)
  | .count ip f => do
    let entry ← marktblHashGet ip s
    match entry with
    | some _ =>
      let s ← modifyNode ip (fun n => { n with count := f n.count }) s
      return (.found entry, s)
    | none => return (.found none, s)

/-- The one address an operation is about. -/
def HashOp.target : HashOp → Option Be32
  | .add _ ip _ _ => some ip
  | .get ip => some ip
  | .remove ip => some ip
  | .clean => none
  | .count ip _ => some ip

/-- A lookup, or an operation that was refused. -/
def HashOp.Idle : HashOp → HashReply → Prop
  | .get _, _ => True
  | _, .returned ret => ret ≠ .ok
  | _, .removed ret _ => ret ≠ .ok
  | _, .found entry => entry = none
  | _, .done => False

/-! ## The map -/

/-- The entry that was last added for each address and not removed since. -/
abbrev EntryMap := Finmap fun _ : Be32 => MarktblNode

/-- What the operations are to do, with room for `size` entries. -/
def mapStep (size : Nat) (op : HashOp) (m : EntryMap) : HashReply × EntryMap :=
  match op with
  | .add _ ip id mark =>
    if m.keys.card = size then (.returned .overMax, m)
    else (.returned .ok, m.insert ip { srcIp := ip, id, mark, count := 0 })
  | .get ip => (.found (m.lookup ip), m)
  | .remove ip =>
    match m.lookup ip with
    | some e =>
      if e.count ≤ 0 then (.removed .ok (some e), m.erase ip)
      else (.removed .countNozero none, m)
    | none => (.removed .noExist none, m)
  | .clean => (.done, ∅)
  | .count ip f =>
    match m.lookup ip with
    | some e => (.found (some e), m.insert ip { e with count := f e.count })
    | none => (.found none, m)

/-- An address is added while it is absent, for a rule of the rule table and with memory
    for the entry. -/
def Proper (ruleCnt : Nat) (op : HashOp) (m : EntryMap) : Prop :=
  match op with
  | .add env ip id _ =>
    m.lookup ip = none ∧ (1 ≤ id ∧ id ≤ ruleCnt) ∧ env.kmalloc .marktblNode = true
  | _ => True

instance (ruleCnt : Nat) : (op : HashOp) → (m : EntryMap) → Decidable (Proper ruleCnt op m)
  | .add env ip id _, m => inferInstanceAs (Decidable
      (m.lookup ip = none ∧ (1 ≤ id ∧ id ≤ ruleCnt) ∧ env.kmalloc .marktblNode = true))
  | .get _, _ => .isTrue trivial
  | .remove _, _ => .isTrue trivial
  | .clean, _ => .isTrue trivial
  | .count _ _, _ => .isTrue trivial

/-- What an operation that answered `reply` has done to the table, where `m` is the map
    after it. -/
structure Faithful (op : HashOp) (s : St) (reply : HashReply) (s' : St) (m : EntryMap) :
    Prop where
  /-- Every address is looked up to its entry in the map. -/
  lookups : ∀ ip, marktblHashGet ip s' = .ok (m.lookup ip)
  idle : op.Idle reply → s' = s
  others : ∀ target, op.target = some target →
    ∀ ip, ip ≠ target → marktblHashGet ip s' = marktblHashGet ip s
  /-- Every entry is in the bucket of its address, once. -/
  table : ∃ head, s'.gMarktblHead = .to head ∧ head.size = s'.maxIpCnt ∧
    Holds (·.srcIp) (slotOf head.size) head.ht m ∧
    head.elemNum = (contents head.ht).card ∧ head.elemNum ≤ s'.maxIpCnt

/-! ## The simulation relation -/

/-- The tables of `s` hold the entries of the map. -/
structure Tabled (ipCnt ruleCnt : Nat) (s : St) (head : MarktblHead) (tbl : List RuletblNode)
    (m : EntryMap) : Prop where
  liveHead : s.gMarktblHead = .to head
  liveRules : s.gRuletbl = .to tbl
  ipCnt_eq : s.maxIpCnt = ipCnt
  size : head.size = ipCnt
  buckets : head.ht.length = ipCnt
  ruleCnt_eq : tbl.length = ruleCnt
  holds : Holds (·.srcIp) (slotOf ipCnt) head.ht m
  elemNum : head.elemNum = m.keys.card
  bounded : m.keys.card ≤ ipCnt
  validIds : ∀ ip e, m.lookup ip = some e → 1 ≤ e.id ∧ e.id ≤ ruleCnt

/-- The simulation relation. -/
def Tracks (ipCnt ruleCnt : Nat) (s : St) (m : EntryMap) : Prop :=
  ∃ head tbl, Tabled ipCnt ruleCnt s head tbl m

section Steps

variable {ipCnt ruleCnt : Nat} {s s' : St} {m : EntryMap}

namespace Tabled

variable {head : MarktblHead} {tbl : List RuletblNode}

/-- The bucket of an address, and what is found in it. -/
theorem bucketAt (tabled : Tabled ipCnt ruleCnt s head tbl m) (pos : 1 ≤ ipCnt) (ip : Be32) :
    ∃ chain, head.ht[slotOf ipCnt ip]? = some chain ∧
      hashIndex head ip = .ok (slotOf ipCnt ip) ∧ bucket head (slotOf ipCnt ip) = .ok chain ∧
      chain.find? (marktblHashCmp ip) = m.lookup ip := by
  have sized := tabled.size
  obtain ⟨chain, inTable, index, home⟩ :=
    homeBucket (sized ▸ pos) (tabled.buckets.trans sized.symm) ip
  rw [sized] at inTable index home
  exact ⟨chain, inTable, index, home, tabled.holds.find_eq inTable⟩

theorem get (tabled : Tabled ipCnt ruleCnt s head tbl m) (pos : 1 ≤ ipCnt) (ip : Be32) :
    marktblHashGet ip s = .ok (m.lookup ip) := by
  obtain ⟨chain, _, index, home, found⟩ := tabled.bucketAt pos ip
  simp [marktblHashGet, tabled.liveHead, index, home, found]

/-- The table with another head, once the head is shown to hold another map. -/
theorem setHead (tabled : Tabled ipCnt ruleCnt s head tbl m) {head' : MarktblHead}
    {m' : EntryMap} (size : head'.size = head.size) (buckets : head'.ht.length = head.ht.length)
    (holds : Holds (·.srcIp) (slotOf ipCnt) head'.ht m') (elemNum : head'.elemNum = m'.keys.card)
    (bounded : m'.keys.card ≤ ipCnt)
    (validIds : ∀ ip e, m'.lookup ip = some e → 1 ≤ e.id ∧ e.id ≤ ruleCnt) :
    Tabled ipCnt ruleCnt (s.setHead head') head' tbl m' where
  liveHead := rfl
  liveRules := tabled.liveRules
  ipCnt_eq := tabled.ipCnt_eq
  size := size.trans tabled.size
  buckets := buckets.trans tabled.buckets
  ruleCnt_eq := tabled.ruleCnt_eq
  holds := holds
  elemNum := elemNum
  bounded := bounded
  validIds := validIds

/-- A change of one count in the rule table. -/
theorem modifyRule (tabled : Tabled ipCnt ruleCnt s head tbl m) (ruleCnt_lt : ruleCnt < 2 ^ 32)
    {id : Nat} (valid : 1 ≤ id ∧ id ≤ ruleCnt) (f : RuletblNode → RuletblNode) :
    ∃ tbl', Kmod.modifyRule id f s = .ok (s.setRules tbl') ∧
      Tabled ipCnt ruleCnt (s.setRules tbl') head tbl' m := by
  have counted := tabled.ruleCnt_eq
  refine ⟨tbl.modify (id - 1) f, ?_, ?_⟩
  · exact modifyRule_of_live tabled.liveRules valid.1 (counted ▸ valid.2) (counted ▸ ruleCnt_lt) f
  · exact { tabled with liveRules := rfl, ruleCnt_eq := (List.length_modify ..).trans counted }

/-! ### The capacity check -/

theorem elemOverLimit (tabled : Tabled ipCnt ruleCnt s head tbl m) (small : ipCnt < 2 ^ 30) :
    Kmod.elemOverLimit s = .ok (decide (m.keys.card = ipCnt)) := by
  have bounded := tabled.bounded
  have counted : u32 (m.keys.card + 1) = m.keys.card + 1 := u32_of_lt (by omega)
  have full : ipCnt < m.keys.card + 1 ↔ m.keys.card = ipCnt := by omega
  simp [Kmod.elemOverLimit, tabled.liveHead, tabled.elemNum, tabled.ipCnt_eq, counted, full]

/-! ### Adding an entry -/

/-- Past the capacity check an absent address is added. -/
theorem add_unlimited (tabled : Tabled ipCnt ruleCnt s head tbl m) (pos : 1 ≤ ipCnt)
    (ruleCnt_lt : ruleCnt < 2 ^ 32) {env : Env} {ip : Be32} {id : Nat} (mark : Nat)
    (proper : Proper ruleCnt (.add env ip id mark) m) (limit : Kmod.elemOverLimit s = .ok false) :
    ∃ tbl', Tabled ipCnt ruleCnt (s.setRules tbl') head tbl' m ∧
      marktblHashAdd env ip id mark s = .ok (.ok, (s.setRules tbl').setHead
        { head with
          elemNum := u32 (head.elemNum + 1)
          ht := head.ht.modify (slotOf ipCnt ip)
            ({ srcIp := ip, id, mark, count := 0 } :: ·) }) := by
  obtain ⟨absent, valid, kmalloc⟩ := proper
  obtain ⟨chain, inTable, index, home, found⟩ := tabled.bucketAt pos ip
  obtain ⟨tbl', counted, tabled'⟩ :=
    tabled.modifyRule ruleCnt_lt valid fun rn => { rn with count := atomicInc rn.count }
  refine ⟨tbl', tabled', ?_⟩
  simp [marktblHashAdd, limit, tabled.liveHead, index, home, found.trans absent, kmalloc, counted]

theorem validIds_insert (tabled : Tabled ipCnt ruleCnt s head tbl m) {ip : Be32} {e : MarktblNode}
    (valid : 1 ≤ e.id ∧ e.id ≤ ruleCnt) :
    ∀ ip' e', (m.insert ip e).lookup ip' = some e' → 1 ≤ e'.id ∧ e'.id ≤ ruleCnt := by
  intro ip' e' present
  by_cases here : ip' = ip
  · subst ip'
    rw [Finmap.lookup_insert] at present
    cases present
    exact valid
  · rw [Finmap.lookup_insert_of_ne m here] at present
    exact tabled.validIds ip' e' present

/-- The entry of an absent address, at the head of its bucket. -/
theorem insert (tabled : Tabled ipCnt ruleCnt s head tbl m) (pos : 1 ≤ ipCnt) (node : MarktblNode)
    (absent : m.lookup node.srcIp = none) (valid : 1 ≤ node.id ∧ node.id ≤ ruleCnt)
    (small : ipCnt < 2 ^ 30) (room : m.keys.card ≠ ipCnt) :
    Tracks ipCnt ruleCnt (s.setHead
      { head with
        elemNum := u32 (head.elemNum + 1)
        ht := head.ht.modify (slotOf ipCnt node.srcIp) (node :: ·) })
      (m.insert node.srcIp node) := by
  obtain ⟨chain, inTable, _⟩ := tabled.bucketAt pos node.srcIp
  have card := IpQos.Lib.card_keys_insert absent node
  have bounded := tabled.bounded
  refine ⟨_, tbl, tabled.setHead rfl (List.length_modify ..) (tabled.holds.push inTable absent)
    ?_ ?_ ?_⟩
  · rw [card, ← u32_of_lt (by omega : m.keys.card + 1 < 2 ^ 32), ← tabled.elemNum]
  · rw [card]
    omega
  · exact tabled.validIds_insert valid

/-- The table without one entry. -/
theorem erase (tabled : Tabled ipCnt ruleCnt s head tbl m) (pos : 1 ≤ ipCnt)
    (small : ipCnt < 2 ^ 30) {ip : Be32} {e : MarktblNode} (present : m.lookup ip = some e) :
    Tabled ipCnt ruleCnt
      (s.setHead
        { head with
          elemNum := subU32 head.elemNum 1
          ht := head.ht.modify (slotOf ipCnt ip) (·.eraseP (marktblHashCmp ip)) })
      { head with
        elemNum := subU32 head.elemNum 1
        ht := head.ht.modify (slotOf ipCnt ip) (·.eraseP (marktblHashCmp ip)) }
      tbl (m.erase ip) := by
  obtain ⟨chain, inTable, _⟩ := tabled.bucketAt pos ip
  have card := IpQos.Lib.card_keys_erase present
  have cardPos := IpQos.Lib.card_keys_pos present
  have bounded := tabled.bounded
  refine tabled.setHead rfl (List.length_modify ..) (tabled.holds.eraseP inTable present) ?_ ?_ ?_
  -- the element counter follows the number of keys
  · change subU32 head.elemNum 1 = _
    rw [tabled.elemNum, card, subU32_one cardPos (by omega)]
  · omega
  · intro other e' lookup
    by_cases here : other = ip
    · subst other
      rw [Finmap.lookup_erase] at lookup
      cases lookup
    · rw [Finmap.lookup_erase_ne here] at lookup
      exact tabled.validIds other e' lookup

/-- The table without any entry. -/
theorem empty (tabled : Tabled ipCnt ruleCnt s head tbl m) (small : ipCnt < 2 ^ 30) :
    Tabled ipCnt ruleCnt
      (s.setHead
        { head with
          elemNum := subU32 head.elemNum head.ht.flatten.length
          ht := head.ht.map fun _ => [] })
      { head with
        elemNum := subU32 head.elemNum head.ht.flatten.length
        ht := head.ht.map fun _ => [] }
      tbl ∅ := by
  have bounded := tabled.bounded
  have counted : head.ht.flatten.length = m.keys.card := tabled.holds.card_contents
  refine tabled.setHead rfl (List.length_map _) ?_ ?_ (Nat.zero_le _) ?_
  · rw [List.map_const']
    exact Holds.replicate_nil _ _ _
  · change subU32 head.elemNum head.ht.flatten.length = 0
    rw [counted, tabled.elemNum]
    unfold subU32 u32
    omega
  · intro ip e lookup
    cases lookup

/-- The table with another count in one entry. -/
theorem modifyEntry (tabled : Tabled ipCnt ruleCnt s head tbl m) (pos : 1 ≤ ipCnt) {ip : Be32}
    {e : MarktblNode} (present : m.lookup ip = some e) (f : Int → Int) :
    Tabled ipCnt ruleCnt
      (s.setHead
        { head with
          ht := head.ht.modify (slotOf ipCnt ip)
            (modifyFirst (marktblHashCmp ip) fun n => { n with count := f n.count }) })
      { head with
        ht := head.ht.modify (slotOf ipCnt ip)
          (modifyFirst (marktblHashCmp ip) fun n => { n with count := f n.count }) }
      tbl (m.insert ip { e with count := f e.count }) := by
  obtain ⟨chain, inTable, _⟩ := tabled.bucketAt pos ip
  have keys := IpQos.Lib.keys_insert_of_lookup present { e with count := f e.count }
  refine tabled.setHead rfl (List.length_modify ..)
    (tabled.holds.modifyFirst inTable present fun _ => rfl) ?_ ?_ ?_
  · exact tabled.elemNum.trans (congrArg Finset.card keys).symm
  · rw [keys]
    exact tabled.bounded
  · exact tabled.validIds_insert (tabled.validIds ip e present)

end Tabled

/-- What a step that suits the map has to show. -/
def Matches (ipCnt ruleCnt : Nat) (op : HashOp) (s : St) (m : EntryMap) : Prop :=
  ∃ s', hashStep op s = .ok ((mapStep ipCnt op m).1, s') ∧
    Tracks ipCnt ruleCnt s' (mapStep ipCnt op m).2 ∧ (op.Idle (mapStep ipCnt op m).1 → s' = s)

theorem Matches.of_step {op : HashOp} {reply : HashReply} {m' : EntryMap}
    (spec : mapStep ipCnt op m = (reply, m')) (ran : hashStep op s = .ok (reply, s'))
    (tracks : Tracks ipCnt ruleCnt s' m') (idle : op.Idle reply → s' = s) :
    Matches ipCnt ruleCnt op s m := by
  refine ⟨s', ?_, ?_, ?_⟩
  · rw [ran, spec]
  · rw [spec]
    exact tracks
  · rw [spec]
    exact idle

namespace Tracks

theorem add (tracks : Tracks ipCnt ruleCnt s m) (pos : 1 ≤ ipCnt) (ruleCnt_lt : ruleCnt < 2 ^ 32)
    (small : ipCnt < 2 ^ 30) {env : Env} {ip : Be32} {id mark : Nat}
    (proper : Proper ruleCnt (.add env ip id mark) m) :
    Matches ipCnt ruleCnt (.add env ip id mark) s m := by
  have same := tracks
  obtain ⟨head, tbl, tabled⟩ := tracks
  have limit := tabled.elemOverLimit small
  -- without a wrap the check of the counter is the check of the capacity
  by_cases full : m.keys.card = ipCnt
  · rw [decide_eq_true full] at limit
    refine .of_step (if_pos full) ?_ same fun _ => rfl
    simp [hashStep, marktblHashAdd, limit]
  · rw [decide_eq_false full] at limit
    obtain ⟨tbl', tabled', added⟩ := tabled.add_unlimited pos ruleCnt_lt mark proper limit
    have inserted := tabled'.insert pos { srcIp := ip, id, mark, count := 0 } proper.1 proper.2.1
      small full
    refine .of_step (if_neg full) ?_ inserted ?_
    · rw [hashStep, added]
      rfl
    · intro refused
      exact absurd rfl refused

theorem get (tracks : Tracks ipCnt ruleCnt s m) (pos : 1 ≤ ipCnt) (ip : Be32) :
    Matches ipCnt ruleCnt (.get ip) s m := by
  have same := tracks
  obtain ⟨head, tbl, tabled⟩ := tracks
  refine .of_step rfl ?_ same fun _ => rfl
  rw [hashStep, tabled.get pos ip]
  rfl

theorem remove (tracks : Tracks ipCnt ruleCnt s m) (pos : 1 ≤ ipCnt)
    (ruleCnt_lt : ruleCnt < 2 ^ 32) (small : ipCnt < 2 ^ 30) (ip : Be32) :
    Matches ipCnt ruleCnt (.remove ip) s m := by
  have same := tracks
  obtain ⟨head, tbl, tabled⟩ := tracks
  obtain ⟨chain, inTable, index, home, found⟩ := tabled.bucketAt pos ip
  cases present : m.lookup ip with
  | none =>
    have spec : mapStep ipCnt (.remove ip) m = (.removed .noExist none, m) := by
      simp [mapStep, present]
    refine .of_step spec ?_ same fun _ => rfl
    simp [hashStep, marktblHashRemove, tabled.liveHead, index, home, found, present]
  | some e =>
    by_cases idle : e.count ≤ 0
    · have spec : mapStep ipCnt (.remove ip) m = (.removed .ok (some e), m.erase ip) := by
        simp [mapStep, present, idle]
      obtain ⟨tbl', counted, tabled'⟩ := (tabled.erase pos small present).modifyRule ruleCnt_lt
        (tabled.validIds ip e present) fun rn => { rn with count := atomicDec rn.count }
      refine .of_step spec ?_ ⟨_, tbl', tabled'⟩ ?_
      · -- the entry is unlinked before its rule is counted down
        simp only [hashStep, marktblHashRemove, tabled.liveHead, Ptr.deref_to, ok_bind, index,
          home, found, present, Int.not_lt.mpr idle, ↓reduceIte]
        rw [counted]
        rfl
      · intro refused
        exact absurd rfl refused
    · have spec : mapStep ipCnt (.remove ip) m = (.removed .countNozero none, m) := by
        simp [mapStep, present, idle]
      refine .of_step spec ?_ same fun _ => rfl
      simp [hashStep, marktblHashRemove, tabled.liveHead, index, home, found, present,
        Int.not_le.mp idle]

theorem clean (tracks : Tracks ipCnt ruleCnt s m) (small : ipCnt < 2 ^ 30) :
    Matches ipCnt ruleCnt .clean s m := by
  obtain ⟨head, tbl, tabled⟩ := tracks
  have cleaned : marktblHashClean s = .ok (s.setHead
      { head with
        elemNum := subU32 head.elemNum head.ht.flatten.length
        ht := head.ht.map fun _ => [] }) := by simp [marktblHashClean, tabled.liveHead]
  refine .of_step rfl ?_ ⟨_, tbl, tabled.empty small⟩ fun idle => idle.elim
  rw [hashStep, cleaned]
  rfl

theorem count (tracks : Tracks ipCnt ruleCnt s m) (pos : 1 ≤ ipCnt) (ip : Be32) (f : Int → Int) :
    Matches ipCnt ruleCnt (.count ip f) s m := by
  have same := tracks
  obtain ⟨head, tbl, tabled⟩ := tracks
  obtain ⟨chain, inTable, index, home, found⟩ := tabled.bucketAt pos ip
  have got := tabled.get pos ip
  cases present : m.lookup ip with
  | none =>
    have spec : mapStep ipCnt (.count ip f) m = (.found none, m) := by simp [mapStep, present]
    refine .of_step spec ?_ same fun _ => rfl
    simp [hashStep, got, present]
  | some e =>
    have spec : mapStep ipCnt (.count ip f) m =
        (.found (some e), m.insert ip { e with count := f e.count }) := by simp [mapStep, present]
    refine .of_step spec ?_ ⟨_, tbl, tabled.modifyEntry pos present f⟩ ?_
    · simp [hashStep, got, present, modifyNode, tabled.liveHead, index, home]
    · intro missing
      cases missing

/-- Every step that suits the map. -/
theorem step (tracks : Tracks ipCnt ruleCnt s m) (pos : 1 ≤ ipCnt) (ruleCnt_lt : ruleCnt < 2 ^ 32)
    (small : ipCnt < 2 ^ 30) (op : HashOp) (proper : Proper ruleCnt op m) :
    Matches ipCnt ruleCnt op s m := by
  cases op with
  | add env ip id mark => exact tracks.add pos ruleCnt_lt small proper
  | get ip => exact tracks.get pos ip
  | remove ip => exact tracks.remove pos ruleCnt_lt small ip
  | clean => exact tracks.clean small
  | count ip f => exact tracks.count pos ip f

end Tracks

theorem mapStep_lookup_of_ne {size : Nat} {op : HashOp} {target ip : Be32}
    (targets : op.target = some target) (other : ip ≠ target) :
    (mapStep size op m).2.lookup ip = m.lookup ip := by
  -- every operation writes at its target only
  cases op with
  | add env ip id mark =>
    cases targets
    simp only [mapStep]
    split
    · rfl
    · exact Finmap.lookup_insert_of_ne m other
  | get ip => rfl
  | remove ip =>
    cases targets
    simp only [mapStep]
    split
    · split
      · exact Finmap.lookup_erase_ne other
      · rfl
    · rfl
  | clean => cases targets
  | count ip f =>
    cases targets
    simp only [mapStep]
    split
    · exact Finmap.lookup_insert_of_ne m other
    · rfl

theorem Tracks.faithful {op : HashOp} (before : Tracks ipCnt ruleCnt s m) (pos : 1 ≤ ipCnt)
    (after : Tracks ipCnt ruleCnt s' (mapStep ipCnt op m).2)
    (idle : op.Idle (mapStep ipCnt op m).1 → s' = s) :
    Faithful op s (mapStep ipCnt op m).1 s' (mapStep ipCnt op m).2 := by
  obtain ⟨_, _, tabled⟩ := before
  obtain ⟨head, tbl, tabled'⟩ := after
  refine ⟨tabled'.get pos, idle, ?_, head, tabled'.liveHead, ?_, ?_, ?_, ?_⟩
  · intro target targets ip other
    rw [tabled'.get pos, tabled.get pos, mapStep_lookup_of_ne targets other]
  · rw [tabled'.size, tabled'.ipCnt_eq]
  · rw [tabled'.size]
    exact tabled'.holds
  · rw [tabled'.elemNum, tabled'.holds.card_contents]
  · rw [tabled'.elemNum, tabled'.ipCnt_eq]
    exact tabled'.bounded

/-- A new hash table beside a live rule table: its buckets have not wrapped the byte count of
    `kmalloc`. -/
theorem Tracks.init {env : Env} {tbl : List RuletblNode} (rules : s.gRuletbl = .to tbl)
    (initialised : qosMarktblHashtblInit env s = .ok (.ok, s')) :
    s.maxIpCnt < 2 ^ 30 ∧ Tracks s.maxIpCnt tbl.length s' ∅ := by
  unfold qosMarktblHashtblInit at initialised
  split at initialised
  · split at initialised
    · split at initialised
      · cases initialised
      · rename_i allocated
        cases initialised
        refine ⟨?_, _, tbl, rfl, rules, rfl, rfl, List.length_replicate, rfl,
          Holds.replicate_nil _ _ _, rfl, Nat.zero_le _, ?_⟩
        · unfold allotted u32 sizeofHlistHead at allocated
          omega
        · intro ip e lookup
          cases lookup
    · cases initialised
  · cases initialised

end Steps

/-! ## Every sequence of operations -/

/-- Hash table and map in lockstep, from any table that holds the map's entries. -/
theorem Tracks.lockstep {ipCnt ruleCnt : Nat} {s : St} {m : EntryMap} {ops : List HashOp}
    (tracks : Tracks ipCnt ruleCnt s m) (pos : 1 ≤ ipCnt) (ruleCnt_lt : ruleCnt < 2 ^ 32)
    (small : ipCnt < 2 ^ 30) (proper : AllowedBy (mapStep ipCnt) (Proper ruleCnt) ops m) :
    Lockstep hashStep (mapStep ipCnt) Faithful ops s m := by
  refine .of_steps (Tracks ipCnt ruleCnt) ?_ tracks proper
  intro op s m tracks suits
  obtain ⟨s', ran, after, idle⟩ := tracks.step pos ruleCnt_lt small op suits
  exact ⟨s', ran, tracks.faithful pos after idle, after⟩

/-- A new hash table of any size is the finite map, through every sequence of proper
    operations. -/
theorem hashTable_refines_map (env : Env) (s s₀ : St) (tbl : List RuletblNode)
    (rules : s.gRuletbl = .to tbl) (ruleCnt_lt : tbl.length < 2 ^ 32) (pos : 1 ≤ s.maxIpCnt)
    (initialised : qosMarktblHashtblInit env s = .ok (.ok, s₀)) (ops : List HashOp)
    (proper : AllowedBy (mapStep s.maxIpCnt) (Proper tbl.length) ops ∅) :
    Lockstep hashStep (mapStep s.maxIpCnt) Faithful ops s₀ ∅ := by
  obtain ⟨small, tracks⟩ := Tracks.init rules initialised
  exact tracks.lockstep pos ruleCnt_lt small proper

/-- A module with one rule, before its hash table is made. -/
def beforeTable (size : Nat) : St :=
  { St.static with gRuletbl := .to [.zero], maxIpCnt := size, maxRuleCnt := 1 }

/-- Three addresses of one bucket and one too many, a reference taken and dropped, and
    removals, the first of them in the middle of the chain. -/
def oneChain : List HashOp :=
  [.add plainEnv 0x0a000001 1 2048, .add plainEnv 0x0a000003 1 4096,
    .add plainEnv 0x0a000004 1 6144, .add plainEnv 0x0a000005 1 8192, .remove 0x0a000003,
    .count 0x0a000001 atomicInc, .remove 0x0a000001, .get 0x0a000001,
    .count 0x0a000001 atomicDec, .remove 0x0a000001, .add plainEnv 0x0a000003 1 4096, .clean,
    .get 0x0a000003]

theorem hashTable_refines_map_oneChain :
    (slotOf 3 0x0a000001 = 1 ∧ slotOf 3 0x0a000003 = 1 ∧ slotOf 3 0x0a000004 = 1) ∧
      ∃ s₀, qosMarktblHashtblInit plainEnv (beforeTable 3) = .ok (.ok, s₀) ∧
        Lockstep hashStep (mapStep 3) Faithful oneChain s₀ ∅ :=
  ⟨by decide, _, rfl, hashTable_refines_map plainEnv (beforeTable 3) _ [.zero] rfl (by decide)
    (by decide) rfl oneChain (by decide)⟩

end IpQos.Verified
