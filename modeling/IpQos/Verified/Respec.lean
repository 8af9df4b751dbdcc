import IpQos.Verified.Target

/-! # Setting the sizes

`SPEC_SET` frees the three tables before it allocates the new ones, and returns 0
whatever becomes of the allocations, also where the byte count of one has wrapped.  A later operation is safe as long as the tables
are there: outside the commands that allocate them again, nothing takes a table away. -/

namespace IpQos.Verified

open IpQos.Kmod
open IpQos.Lib (Ensures Run Allowed runAll)

variable {env : Env} {s s' : St}

structure TablesLive (s : St) : Prop where
  bits : s.markBitmap.isLive = true
  rules : s.gRuletbl.isLive = true
  head : s.gMarktblHead.isLive = true

/-- A fault of an access through an absent or a freed table. -/
def Missing : Oops → Prop
  | .nullDeref | .useAfterFree => True
  | .outOfBounds | .overrun | .remainderByZero | .divideByZero => False

theorem not_missing_beyond (i size : Nat) : ¬ Missing (.beyond i size) := by
  unfold Oops.beyond
  split <;> exact id

/-! ## Accesses to live tables -/

theorem ensures_live {α : Type} {p : Ptr α} (live : p.isLive = true) :
    Ensures Missing (fun a => p = .to a) p.deref := by
  obtain ⟨a, same⟩ := Strays.of_isLive live
  rw [same]
  exact .ok rfl

theorem Ptr.isLive_map {α β : Type} (p : Ptr α) (f : α → β) : (p.map f).isLive = p.isLive := by
  match p with
  | .null => rfl
  | .dangling => rfl
  | .to a => rfl

namespace TablesLive

theorem framed (live : TablesLive s) (framed : Framed s s') : TablesLive s' where
  bits := by
    rw [← Ptr.isLive_map s'.markBitmap List.length, framed.bits, Ptr.isLive_map]
    exact live.bits
  rules := by
    rw [← Ptr.isLive_map s'.gRuletbl (List.map RuletblNode.params), framed.rules, Ptr.isLive_map]
    exact live.rules
  head := by
    rw [← Ptr.isLive_map s'.gMarktblHead (fun _ => ()), framed.head, Ptr.isLive_map]
    exact live.head

theorem ruleAt (live : TablesLive s) (id : Nat) :
    Ensures Missing (fun _ => True) (Kmod.ruleAt id s) := by
  apply (ensures_live live.rules).bind
  intro tbl _
  split
  · exact .ok trivial
  · exact .error (not_missing_beyond _ _)

theorem modifyRule (live : TablesLive s) (id : Nat) (f : RuletblNode → RuletblNode) :
    Ensures Missing TablesLive (Kmod.modifyRule id f s) := by
  apply (ensures_live live.rules).bind
  intro tbl _
  apply Ensures.ite
  · intro _
    exact .ok ⟨live.bits, rfl, live.head⟩
  · intro _
    exact .error (not_missing_beyond _ _)

theorem writeBit (size : Nat) (bm : List Bool) (i : Nat) (b : Bool) :
    Ensures Missing (fun _ => True) (Kmod.writeBit size bm i b) := by
  apply Ensures.ite
  · intro _
    exact .ok trivial
  · intro _
    exact .error (not_missing_beyond _ _)

theorem testMark (live : TablesLive s) (mark : Nat) :
    Ensures Missing (fun _ => True) (Kmod.testMark mark s) := by
  apply (ensures_live live.bits).bind
  intro bm _
  unfold readBit
  split
  · exact .ok trivial
  · exact .error (not_missing_beyond _ _)

theorem freeMark (live : TablesLive s) (mark : Nat) :
    Ensures Missing TablesLive (Kmod.freeMark mark s) := by
  apply (ensures_live live.bits).bind
  intro bm _
  apply (writeBit _ _ _ _).bind
  intro bm' _
  exact .ok ⟨rfl, live.rules, live.head⟩

theorem qmarkAllocMark (live : TablesLive s) :
    Ensures Missing (fun r => TablesLive r.2.2) (Kmod.qmarkAllocMark s) := by
  have alloc : Ensures Missing (fun r => TablesLive r.2) (Kmod.allocMark s) := by
    apply (ensures_live live.bits).bind
    intro bm _
    apply Ensures.ite
    · intro _
      exact .ok live
    · intro _
      apply (writeBit _ _ _ _).bind
      intro bm' _
      exact .ok ⟨rfl, live.rules, live.head⟩
  apply alloc.bind
  rintro ⟨mark, s₁⟩ live₁
  apply Ensures.ite
  · intro _
    exact .ok live₁
  · intro _
    exact .ok live₁

/-- The way into a chain. -/
theorem bindBucket {β : Type} {post : β → Prop} (live : TablesLive s) (key : Be32)
    {f : MarktblHead → Nat → List MarktblNode → Except Oops β}
    (next : ∀ head i chain, s.gMarktblHead.deref = .ok head → hashIndex head key = .ok i →
      bucket head i = .ok chain → Ensures Missing post (f head i chain)) :
    Ensures Missing post (do
      let head ← s.gMarktblHead.deref
      let i ← hashIndex head key
      let chain ← bucket head i
      f head i chain) := by
  apply (ensures_live live.head).known.bind
  rintro head ⟨_, deref⟩
  have index : Ensures Missing (fun _ => True) (hashIndex head key) := by
    apply Ensures.ite
    · intro _
      exact .error fun missing => missing
    · intro _
      exact .ok trivial
  apply index.known.bind
  rintro i ⟨_, at_i⟩
  have chainAt : Ensures Missing (fun _ => True) (bucket head i) := by
    unfold bucket
    split
    · exact .ok trivial
    · exact .error fun missing => missing
  apply chainAt.known.bind
  rintro chain ⟨_, here⟩
  exact next head i chain deref at_i here

theorem marktblHashGet (live : TablesLive s) (key : Be32) :
    Ensures Missing (fun _ => True) (Kmod.marktblHashGet key s) := by
  apply live.bindBucket key
  intro head i chain _ _ _
  exact .ok trivial

theorem modifyNode (live : TablesLive s) (key : Be32) (f : MarktblNode → MarktblNode) :
    Ensures Missing TablesLive (Kmod.modifyNode key f s) := by
  apply live.bindBucket key
  intro head i chain _ _ _
  exact .ok ⟨live.bits, live.rules, rfl⟩

theorem qosMarktblHashtblDel (live : TablesLive s) (key : Be32) :
    Ensures Missing (fun r => TablesLive r.2.2) (Kmod.qosMarktblHashtblDel key s) := by
  have remove : Ensures Missing (fun r => TablesLive r.2.2) (marktblHashRemove key s) := by
    apply live.bindBucket key
    intro head i chain _ _ _
    split
    · apply Ensures.ite
      · intro _
        exact .ok live
      · intro _
        have unlinked : TablesLive (s.setHead { head with
            elemNum := subU32 head.elemNum 1
            ht := head.ht.modify i (·.eraseP (marktblHashCmp key)) }) :=
          ⟨live.bits, live.rules, rfl⟩
        apply (unlinked.modifyRule _ _).bind
        intro s₁ live₁
        exact .ok live₁
    · exact .ok live
  apply remove.bind
  rintro ⟨ret, node, s₁⟩ live₁
  dsimp only
  split
  · exact .ok live₁
  · exact .ok live₁

/-- The NULL `mark_node` of the duplicate branch is out of reach for an address without entry. -/
theorem qmarkAddHash (live : TablesLive s) {key : Be32} {id mark : Nat}
    (fresh : Kmod.marktblHashGet key s = .ok none) :
    Ensures Missing (fun r => TablesLive r.2) (Kmod.qmarkAddHash env key id mark s) := by
  apply (live.testMark mark).bind
  intro allocated _
  apply Ensures.ite
  · intro _
    exact .ok live
  · intro _
    have limit : Ensures Missing (fun _ => True) (elemOverLimit s) :=
      (ensures_live live.head).bind fun head _ => .ok trivial
    apply limit.bind
    intro limited _
    apply Ensures.ite
    · intro _
      exact .ok live
    · intro _
      apply live.bindBucket key
      intro head i chain deref index here
      unfold Kmod.marktblHashGet at fresh
      rw [deref, ok_bind, index, ok_bind, here, ok_bind] at fresh
      rw [Except.ok.inj fresh]
      dsimp only
      by_cases kmalloc : env.kmalloc .marktblNode = true
      · rw [if_pos kmalloc]
        have counted := live.modifyRule id fun rn => { rn with count := atomicInc rn.count }
        apply counted.bind
        intro s₁ live₁
        exact .ok ⟨live₁.bits, live₁.rules, rfl⟩
      · rw [if_neg kmalloc]
        exact .ok live

/-! ## Lookups, allocations and events -/

theorem allocMarkAutoAdd (live : TablesLive s) {key : Be32} {id mark : Nat}
    (fresh : Kmod.marktblHashGet key s = .ok none) :
    Ensures Missing (fun _ => True) (Kmod.allocMarkAutoAdd env key id mark s) := by
  have add : Ensures Missing (fun r => TablesLive r.2) (Kmod.qmarkAddHash env key id mark s) :=
    live.qmarkAddHash fresh
  apply add.bind
  rintro ⟨ret, s₁⟩ live₁
  apply Ensures.ite
  · intro _
    apply (live₁.ruleAt id).bind
    intro rn _
    apply Ensures.ite
    · intro _
      apply (live₁.modifyRule id fun rn => { rn with mark := 0 }).bind
      intro s₂ live₂
      apply (live₂.freeMark mark).bind
      intro s₃ _
      exact .ok trivial
    · intro _
      exact .ok trivial
  · intro _
    apply (live₁.ruleAt id).bind
    intro rn _
    -- a class that divides by zero is not a missing table
    rw [qmarkTcAddRule_eq, unlessStalled_bind]
    apply Ensures.ite
    · intro _
      exact .ok trivial
    · intro _
      exact .error fun missing => missing

theorem qmarkAllocMarkAuto (live : TablesLive s) {key : Be32} {id mark : Nat}
    (fresh : Kmod.marktblHashGet key s = .ok none) :
    Ensures Missing (fun _ => True) (Kmod.qmarkAllocMarkAuto env key id mark s) := by
  -- reserving and storing a mark leave the hash table, so the address stays without entry
  have reserve : Ensures Missing _ (Kmod.qmarkAllocMark s) := live.qmarkAllocMark.known
  apply Ensures.ite
  · intro _
    exact .ok trivial
  · intro _
    apply (live.ruleAt id).bind
    intro rn _
    apply Ensures.ite
    · intro _
      apply reserve.bind
      rintro ⟨ret, mark', s₁⟩ ⟨live₁, alloc⟩
      apply Ensures.ite
      · intro _
        exact .ok trivial
      · intro _
        apply live₁.allocMarkAutoAdd
        rw [← fresh]
        exact marktblHashGet_congr (qmarkAllocMark_head alloc) key
    · intro _
      apply Ensures.ite
      · intro _
        apply reserve.bind
        rintro ⟨ret, mark', s₁⟩ ⟨live₁, alloc⟩
        apply Ensures.ite
        · intro _
          exact .ok trivial
        · intro _
          have store := live₁.modifyRule id fun rn => { rn with mark := mark' }
          apply store.known.bind
          rintro s₂ ⟨live₂, stored⟩
          apply live₂.allocMarkAutoAdd
          rw [← fresh]
          exact marktblHashGet_congr
            ((modifyRule_head stored).trans (qmarkAllocMark_head alloc)) key
      · intro _
        exact live.allocMarkAutoAdd fresh

theorem qmarkFindHash (live : TablesLive s) (key : Be32) :
    Ensures Missing (fun _ => True) (Kmod.qmarkFindHash key s) := by
  apply (live.marktblHashGet key).bind
  intro found _
  cases found with
  | none => exact .ok trivial
  | some e => exact .ok trivial

theorem qmarkHandle (live : TablesLive s) (indexed : Indexed s) (skb : SkBuff) (info : TgInfo) :
    Ensures Missing (fun _ => True) (Kmod.qmarkHandle env skb info s) := by
  apply (live.qmarkFindHash (info.ipAddr skb)).known.bind
  rintro ⟨code, mark⟩ ⟨_, find⟩
  apply Ensures.ite
  · intro unmarked
    -- mark 0 means that there is no entry, since no entry has it
    have fresh : Kmod.marktblHashGet (info.ipAddr skb) s = .ok none := by
      obtain ⟨found, get, find⟩ := bind_eq_ok find
      cases found with
      | none => exact get
      | some e =>
        have inBounds := indexed.marktblHashGet (G := False) (info.ipAddr skb) False.elim
        rw [get] at inBounds
        have number := (inBounds.returned e rfl).mark.1
        cases find
        rw [unmarked] at number
        exact absurd number (by decide)
    have auto : Ensures Missing (fun _ => True)
        (Kmod.qmarkAllocMarkAuto env (info.ipAddr skb) info.id mark s) :=
      live.qmarkAllocMarkAuto fresh
    apply auto.bind
    rintro ⟨ret, mark', s₁⟩ _
    apply Ensures.ite
    · intro _
      exact .ok trivial
    · intro _
      exact .ok trivial
  · intro _
    exact .ok trivial

theorem conntrackDestroy (live : TablesLive s) (ip : Be32) :
    Ensures Missing (fun _ => True) (Kmod.conntrackDestroy env ip s) := by
  apply (live.marktblHashGet ip).bind
  intro node _
  cases node with
  | none => exact .ok trivial
  | some e =>
    have unhold := live.modifyNode ip fun n => { n with count := atomicDec n.count }
    apply unhold.bind
    intro s₁ live₁
    apply Ensures.ite
    · intro _
      apply (live₁.qosMarktblHashtblDel ip).bind
      rintro ⟨ret, mark, s₂⟩ live₂
      apply (live₂.ruleAt e.id).bind
      intro rn _
      apply Ensures.ite
      · intro _
        apply (live₂.modifyRule e.id fun rn => { rn with mark := 0 }).bind
        intro s₃ live₃
        apply (live₃.ruleAt e.id).bind
        intro rn' _
        rw [qmarkTcDelRule_eq, ok_bind]
        have sent : TablesLive { s₃ with
            sent := delRequests env s₃.qmarkLanDev s₃.qmarkWanDev rn' mark ++ s₃.sent } :=
          ⟨live₃.bits, live₃.rules, live₃.head⟩
        exact (sent.freeMark mark).mono fun _ _ => trivial
      · intro _
        exact .ok trivial
    · intro _
      exact .ok trivial

theorem conntrackMark (live : TablesLive s) (ip : Be32) :
    Ensures Missing (fun _ => True) (Kmod.conntrackMark ip s) := by
  apply (live.marktblHashGet ip).bind
  intro node _
  cases node with
  | none => exact .ok trivial
  | some e => exact (live.modifyNode ip _).mono fun _ _ => trivial

theorem qmarkConntrackEvent (live : TablesLive s) (events : Nat) (ct : Option NfConn) :
    Ensures Missing (fun _ => True) (Kmod.qmarkConntrackEvent env events ct s) := by
  cases ct with
  | none => exact .ok trivial
  | some ct =>
    apply Ensures.ite
    · intro _
      apply Ensures.ite
      · intro _
        exact live.conntrackDestroy ct.ipAddr
      · intro _
        apply Ensures.ite
        · intro _
          exact live.conntrackMark ct.ipAddr
        · intro _
          exact .ok trivial
    · intro _
      exact .ok trivial

end TablesLive

/-- Lookups, allocations and conntrack events. -/
def Uses : Op → Prop
  | .packet _ _ | .conntrack _ _ | .ioctl (.hashChk _) | .ioctl .markAlo => True
  | _ => False

theorem TablesLive.uses (live : TablesLive s) (indexed : Indexed s) {l : Env × Op}
    (uses : Uses l.2) : Ensures Missing (fun _ => True) (opStep l s) := by
  obtain ⟨env, op⟩ := l
  cases op with
  | packet skb info => exact ensures_outcome (live.qmarkHandle indexed skb info)
  | conntrack events ct => exact ensures_outcome (live.qmarkConntrackEvent events ct)
  | ioctl cmd =>
    cases cmd with
    | hashChk qh =>
      apply ensures_outcome
      apply Ensures.ite
      · intro _
        exact .ok trivial
      · intro _
        apply Ensures.ite
        · intro _
          exact .ok trivial
        · intro _
          apply (live.qmarkFindHash qh.ip).bind
          intro r _
          apply Ensures.ite
          · intro _
            exact .ok trivial
          · intro _
            exact .ok trivial
    | markAlo =>
      apply ensures_outcome
      apply live.qmarkAllocMark.bind
      intro r _
      apply Ensures.ite
      · intro _
        exact .ok trivial
      · intro _
        exact .ok trivial
    | _ => exact absurd uses id

/-! ## What takes a table away -/

/-- The commands that free a table and allocate it again. -/
def Reallocates : Op → Prop
  | .ioctl .ruleFlush | .ioctl .hashFlush | .ioctl (.reset _) | .ioctl (.specSet _ _) => True
  | _ => False

namespace TablesLive

theorem of_modifyRule (live : TablesLive s) {id : Nat} {f : RuletblNode → RuletblNode}
    (ran : Kmod.modifyRule id f s = .ok s') : TablesLive s' := by
  have kept := live.modifyRule id f
  rw [ran] at kept
  exact kept.returned

theorem step (live : TablesLive s) {l : Env × Op} (kept : ¬ Reallocates l.2)
    (ran : opStep l s = .ok s') : TablesLive s' := by
  obtain ⟨env, op⟩ := l
  cases Effect.of_opStep ran with
  | framed framed => exact live.framed framed
  | ruleAdd add => exact live.of_modifyRule add
  | ruleDel del =>
    obtain ⟨s₁, clear, off⟩ := bind_eq_ok del
    exact (live.of_modifyRule clear).of_modifyRule off
  | ruleFlush | hashFlush | reset | specSet => exact absurd trivial kept

end TablesLive

/-! ## SPEC_SET -/

/-- What `qmark_set_spec` leaves, allocation by allocation. -/
def allocated (env : Env) (ipSpec ruleSpec : Nat) (s : St) : St :=
  { s with
    maxIpCnt := ipSpec
    maxRuleCnt := ruleSpec
    markBitmap :=
      if env.kmalloc .markBitmap then .to (List.replicate (allottedBits ipSpec) false) else .null
    gRuletbl :=
      if env.kmalloc .ruletbl then
        .to (List.replicate (allotted sizeofRuletblNode ruleSpec) .zero)
      else .null
    gMarktblHead :=
      if env.kmalloc .marktblHead then
        if env.kmalloc .marktblHt then
          .to { elemNum := 0, size := ipSpec, ht := List.replicate ipSpec [] }
        else .dangling
      else .null }

/-- The buckets are initialised past their memory. -/
def BucketsOverrun (env : Env) (ipSpec : Nat) : Prop :=
  env.kmalloc .marktblHead = true ∧ env.kmalloc .marktblHt = true ∧
    allotted sizeofHlistHead ipSpec < ipSpec

instance (env : Env) (ipSpec : Nat) : Decidable (BucketsOverrun env ipSpec) :=
  inferInstanceAs (Decidable (_ ∧ _))

theorem qosMarktblHashtblExit_eq (kept : s.gMarktblHead ≠ .dangling) :
    qosMarktblHashtblExit s = .ok { s with gMarktblHead := .null } := by
  obtain ⟨head, rules, bits, flag, ipCnt, ruleCnt, lanDev, wanDev, sent, freed⟩ := s
  match head with
  | .null => rfl
  | .dangling => exact absurd rfl kept
  | .to head => rfl

theorem markBitmapInit_allocated (env : Env) (cnt : Nat) (s : St) :
    (markBitmapInit env cnt s).2 = { s with
      markBitmap :=
        if env.kmalloc .markBitmap then .to (List.replicate (allottedBits cnt) false) else .null } := by
  unfold markBitmapInit
  split <;> rfl

theorem qosRuletblInit_allocated (env : Env) (s : St) :
    (qosRuletblInit env s).2 = { s with
      gRuletbl :=
        if env.kmalloc .ruletbl then
          .to (List.replicate (allotted sizeofRuletblNode s.maxRuleCnt) .zero)
        else .null } := by
  unfold qosRuletblInit
  split <;> rfl

theorem qosMarktblHashtblInit_allocated (env : Env) (s : St) :
    (qosMarktblHashtblInit env s).map Prod.snd =
      if BucketsOverrun env s.maxIpCnt then .error .overrun
      else .ok { s with
        gMarktblHead :=
          if env.kmalloc .marktblHead then
            if env.kmalloc .marktblHt then
              .to { elemNum := 0, size := s.maxIpCnt, ht := List.replicate s.maxIpCnt [] }
            else .dangling
          else .null } := by
  unfold qosMarktblHashtblInit BucketsOverrun
  by_cases head : env.kmalloc .marktblHead = true
  · by_cases ht : env.kmalloc .marktblHt = true
    · by_cases short : allotted sizeofHlistHead s.maxIpCnt < s.maxIpCnt
      · simp [head, ht, short, Except.map]
      · simp [head, ht, short, Except.map, St.setHead]
    · simp [head, ht, Except.map]
  · simp [head, Except.map]

theorem qmarkSetSpec_allocated (env : Env) (ipSpec ruleSpec : Nat)
    (kept : s.gMarktblHead ≠ .dangling) :
    qmarkSetSpec env ipSpec ruleSpec s =
      if BucketsOverrun env ipSpec then .error .overrun
      else .ok (allocated env ipSpec ruleSpec s) := by
  unfold qmarkSetSpec
  rw [qosMarktblHashtblExit_eq kept, ok_bind]
  simp only [qosRuletblExit, markBitmapExit, markBitmapInit_allocated, qosRuletblInit_allocated]
  exact qosMarktblHashtblInit_allocated env _

/-- The head that a failed allocation has left dangling is used once more. -/
theorem qmarkSetSpec_dangling (env : Env) (ipSpec ruleSpec : Nat)
    (dangling : s.gMarktblHead = .dangling) :
    qmarkSetSpec env ipSpec ruleSpec s = .error .useAfterFree := by
  unfold qmarkSetSpec qosMarktblHashtblExit marktblHashClean
  rw [dangling]
  rfl

theorem buckets_iff {ipSpec : Nat} (word : ipSpec < 2 ^ 32) :
    allotted sizeofHlistHead ipSpec = ipSpec ↔ sizeofHlistHead * ipSpec < 2 ^ 32 := by
  unfold allotted sizeofHlistHead u32
  omega

theorem rules_iff {ruleSpec : Nat} (word : ruleSpec < 2 ^ 32) :
    allotted sizeofRuletblNode ruleSpec = ruleSpec ↔ sizeofRuletblNode * ruleSpec < 2 ^ 32 := by
  unfold allotted sizeofRuletblNode u32
  omega

/-- The new tables are whole if everything is allocated and no byte count has wrapped. -/
theorem allocated_eq_iff (env : Env) {ipSpec ruleSpec : Nat} (ipWord : ipSpec < 2 ^ 32)
    (ruleWord : ruleSpec < 2 ^ 32) (s : St) (fits : ¬ BucketsOverrun env ipSpec) :
    allocated env ipSpec ruleSpec s = respecified s ipSpec ruleSpec ↔
      AllocatesTables env ∧ Unwrapped ipSpec ruleSpec := by
  constructor
  · intro same
    have bits := congrArg St.markBitmap same
    have rules := congrArg St.gRuletbl same
    have head := congrArg St.gMarktblHead same
    simp only [allocated, respecified] at bits rules head
    split at bits
    · split at rules
      · split at head
        · split at head
          · next allocBits allocRules allocHead allocHt =>
            refine ⟨⟨allocBits, allocRules, allocHead, allocHt⟩, ?_, ?_⟩
            -- each table has the length of its size only if the byte count has not wrapped
            · have whole : ¬ allotted sizeofHlistHead ipSpec < ipSpec :=
                fun less => fits ⟨allocHead, allocHt, less⟩
              exact (buckets_iff ipWord).mp (Nat.le_antisymm (allotted_le ..) (Nat.le_of_not_lt whole))
            · have length := congrArg List.length (Ptr.to.inj rules)
              rw [List.length_replicate, List.length_replicate] at length
              exact (rules_iff ruleWord).mp length
          · cases head
        · cases head
      · cases rules
    · cases bits
  · rintro ⟨⟨allocBits, allocRules, allocHead, allocHt⟩, unwrapped⟩
    simp [allocated, respecified, allocBits, allocRules, allocHead, allocHt, unwrapped.bits,
      unwrapped.rules]

theorem respecified_live (s : St) (ipSpec ruleSpec : Nat) :
    TablesLive (respecified s ipSpec ruleSpec) := ⟨rfl, rfl, rfl⟩

/-- Afterwards the new tables are there, empty, or the old ones still are; and whatever else
    follows, lookups, allocations and events find the tables live. -/
def AllOrNothing (env : Env) (ipSpec ruleSpec : Nat) (s : St) : Prop :=
  ∃ r s', qmarkCdevIoctl env (.specSet ipSpec ruleSpec) s = .ok (r, s') ∧
    (r.ret = 0 ∧ s' = respecified s ipSpec ruleSpec ∨ r.ret < 0 ∧ s' = s) ∧
    ∀ s'', Run opStep (fun l _ => l.2.Words ∧ ¬ Reallocates l.2) s' s'' →
      TablesLive s'' ∧ ∀ l, Uses l.2 → ∀ e, opStep l s'' = .error e → ¬ Missing e

theorem TablesLive.later (live : TablesLive s) (indexed : Indexed s)
    (run : Run opStep (fun l _ => l.2.Words ∧ ¬ Reallocates l.2) s s') :
    TablesLive s' ∧ ∀ l, Uses l.2 → ∀ e, opStep l s' = .error e → ¬ Missing e := by
  have kept : TablesLive s' ∧ Indexed s' := by
    apply run.invariant (fun s => TablesLive s ∧ Indexed s) ⟨live, indexed⟩
    rintro l y z ⟨live_y, indexed_y⟩ ⟨words, keeps⟩ ran
    have ensures := indexed_y.step words
    rw [ran] at ensures
    exact ⟨live_y.step keeps ran, ensures.returned⟩
  refine ⟨kept.1, ?_⟩
  intro l uses e ran
  have ensures := kept.1.uses kept.2 uses
  rw [ran] at ensures
  exact ensures.failed

theorem specSet_refused (ipSpec ruleSpec : Nat) (s : St) (refused : env.copyFromUser < 0) :
    qmarkCdevIoctl env (.specSet ipSpec ruleSpec) s = .ok (.invalid, s) :=
  if_pos refused

theorem specSet_copied (ipSpec ruleSpec : Nat) (s : St) (copied : 0 ≤ env.copyFromUser) :
    qmarkCdevIoctl env (.specSet ipSpec ruleSpec) s =
      qmarkSetSpec env ipSpec ruleSpec s >>= fun s => .ok (.done, s) :=
  if_neg (Int.not_lt.mpr copied)

/-- A change of the sizes is all or nothing if and only if the copy fails while the tables are
    there, or every allocation succeeds, no byte count wraps at 32 bits, and no earlier failure
    has left the hash head dangling. -/
theorem respec_iff (reached : Reached s) {ipSpec ruleSpec : Nat}
    (words : (Op.ioctl (.specSet ipSpec ruleSpec)).Words) :
    AllOrNothing env ipSpec ruleSpec s ↔
      (env.copyFromUser < 0 ∧ TablesLive s) ∨
      (0 ≤ env.copyFromUser ∧ AllocatesTables env ∧ Unwrapped ipSpec ruleSpec ∧
        s.gMarktblHead ≠ .dangling) := by
  have indexed := reached.indexed
  constructor
  · rintro ⟨r, s', ran, result, later⟩
    by_cases refused : env.copyFromUser < 0
    · rw [specSet_refused ipSpec ruleSpec s refused] at ran
      cases ran
      exact .inl ⟨refused, (later s .refl).1⟩
    · have copied := Int.not_lt.mp refused
      rw [specSet_copied ipSpec ruleSpec s copied] at ran
      -- `qos_marktbl_hashtbl_exit` frees the head it finds, a dangling one again
      have kept : s.gMarktblHead ≠ .dangling := by
        intro dangling
        rw [qmarkSetSpec_dangling env ipSpec ruleSpec dangling] at ran
        cases ran
      rw [qmarkSetSpec_allocated env ipSpec ruleSpec kept] at ran
      split at ran
      · cases ran
      · next fits =>
        cases ran
        -- the command never returns an error, so the old tables are no way out
        cases result with
        | inl new =>
          obtain ⟨alloc, unwrapped⟩ :=
            (allocated_eq_iff env words.1 words.2 s fits).mp new.2
          exact .inr ⟨copied, alloc, unwrapped, kept⟩
        | inr old => exact absurd old.1 (by decide)
  · intro condition
    cases condition with
    | inl refused =>
      refine ⟨.invalid, s, specSet_refused ipSpec ruleSpec s refused.1, .inr ⟨by decide, rfl⟩, ?_⟩
      intro s'' run
      exact refused.2.later indexed run
    | inr allocates =>
      obtain ⟨copied, alloc, unwrapped, kept⟩ := allocates
      have fits : ¬ BucketsOverrun env ipSpec := fun overrun =>
        absurd overrun.2.2 (by rw [unwrapped.buckets]; exact Nat.lt_irrefl _)
      have ran : qmarkSetSpec env ipSpec ruleSpec s = .ok (respecified s ipSpec ruleSpec) := by
        rw [qmarkSetSpec_allocated env ipSpec ruleSpec kept, if_neg fits,
          (allocated_eq_iff env words.1 words.2 s fits).mpr ⟨alloc, unwrapped⟩]
      have indexed' := Indexed.qmarkSetSpec (G := False) env words.1 words.2 s
      rw [ran] at indexed'
      refine ⟨.done, respecified s ipSpec ruleSpec, ?_, .inl ⟨rfl, rfl⟩, ?_⟩
      · rw [specSet_copied ipSpec ruleSpec s copied, ran]
        rfl
      · intro s'' run
        exact (respecified_live s ipSpec ruleSpec).later indexed'.returned run

/-- The first `SPEC_SET` after module init. -/
theorem first_respec : AllOrNothing plainEnv 254 20 (qosMarktblInit plainEnv).2 := by
  have reached : Reached (qosMarktblInit plainEnv).2 := ⟨plainEnv, rfl, .refl⟩
  refine (respec_iff reached ⟨by decide, by decide⟩).mpr (.inr ⟨by decide, plainEnv_alloc, by decide, ?_⟩)
  intro dangling
  cases dangling

/-- Memory for everything but the buckets of the hash table. -/
def noBucketsEnv : Env := { plainEnv with kmalloc := fun site => site ≠ .marktblHt }

/-- Without memory for the buckets the command returns 0 and the hash head is left dangling. -/
theorem respec_dangles :
    ¬ ∀ (env : Env) (ipSpec ruleSpec : Nat) (s : St), Reached s →
      (Op.ioctl (.specSet ipSpec ruleSpec)).Words → AllOrNothing env ipSpec ruleSpec s := by
  intro all
  have reached : Reached (qosMarktblInit plainEnv).2 := ⟨plainEnv, rfl, .refl⟩
  obtain ⟨r, s', ran, _, later⟩ := all noBucketsEnv 254 20 _ reached ⟨by decide, by decide⟩
  have live := (later s' .refl).1.head
  cases ran
  cases live

/-! ## The size that operations leave -/

/-- An operation that sets no size over `n`. -/
def SpecWithin (n : Nat) : Op → Prop
  | .ioctl (.specSet maxIpCnt _) => maxIpCnt ≤ n
  | _ => True

theorem modifyRule_ipCnt {id : Nat} {f : RuletblNode → RuletblNode}
    (ran : modifyRule id f s = .ok s') : s'.maxIpCnt = s.maxIpCnt := by
  obtain ⟨tbl, _, ran⟩ := bind_eq_ok ran
  split at ran
  · cases ran
    rfl
  · cases ran

theorem qosRuletblInit_ipCnt (env : Env) (s : St) :
    (qosRuletblInit env s).2.maxIpCnt = s.maxIpCnt := by
  unfold qosRuletblInit
  split <;> rfl

/-- Flushing the hash table touches nothing but its head. -/
theorem qmarkFlushHash_cases (ran : qmarkFlushHash env s = .ok s') :
    ∃ p, s' = { s with gMarktblHead := p } := by
  obtain ⟨s₁, exit, ran⟩ := bind_eq_ok ran
  by_cases dangling : s.gMarktblHead = .dangling
  · unfold qosMarktblHashtblExit marktblHashClean at exit
    rw [dangling] at exit
    cases exit
  · rw [qosMarktblHashtblExit_eq dangling] at exit
    cases exit
    obtain ⟨⟨ret, s₂⟩, init, ran⟩ := bind_eq_ok ran
    cases ran
    unfold qosMarktblHashtblInit at init
    split at init
    · split at init
      · split at init
        · cases init
        · cases init
          exact ⟨_, rfl⟩
      · cases init
        exact ⟨_, rfl⟩
    · cases init
      exact ⟨_, rfl⟩

theorem qmarkReset_ipCnt {flag : Nat} (ran : qmarkReset env flag s = .ok s') :
    s'.maxIpCnt = s.maxIpCnt := by
  unfold qmarkReset at ran
  split at ran
  · cases ran
    rfl
  · obtain ⟨s₁, flush, ran⟩ := bind_eq_ok ran
    obtain ⟨s₂, flushHash, ran⟩ := bind_eq_ok ran
    obtain ⟨p, rfl⟩ := qmarkFlushHash_cases flushHash
    have second : s₁.maxIpCnt = s.maxIpCnt := (Framed.flushMark flush).maxIpCnt
    unfold clearCounts at ran
    split at ran
    · cases ran
      exact second
    · obtain ⟨tbl, _, ran⟩ := bind_eq_ok ran
      split at ran
      · cases ran
      · cases ran
        exact second

theorem Effect.maxIpCnt_le {op : Op} {n : Nat} (effect : Effect env s op s')
    (small : s.maxIpCnt ≤ n) (spec : SpecWithin n op) : s'.maxIpCnt ≤ n := by
  cases effect with
  | framed framed => exact framed.maxIpCnt ▸ small
  | ruleAdd add => exact modifyRule_ipCnt add ▸ small
  | ruleDel del =>
    obtain ⟨s₁, clear, off⟩ := bind_eq_ok del
    have same := (modifyRule_ipCnt off).trans (modifyRule_ipCnt clear)
    exact same ▸ small
  | ruleFlush => exact (qosRuletblInit_ipCnt env (qosRuletblExit s)).symm ▸ small
  | hashFlush flush =>
    obtain ⟨p, rfl⟩ := qmarkFlushHash_cases flush
    exact small
  | reset reset => exact qmarkReset_ipCnt reset ▸ small
  | specSet set =>
    by_cases dangling : s.gMarktblHead = .dangling
    · rw [qmarkSetSpec_dangling _ _ _ dangling] at set
      cases set
    · rw [qmarkSetSpec_allocated _ _ _ dangling] at set
      split at set
      · cases set
      · cases set
        exact spec

end IpQos.Verified
