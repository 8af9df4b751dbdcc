import IpQos.Lib.FirstFit
import IpQos.Verified.FailedAllocation

/-! # Marks stay below their peak

`alloc_mark` takes the first clear bit.  Whatever size `SPEC_SET` gives the bitmap, and in
whatever order marks are given back, the marks in use are numbered below the most that were
ever in use at a time, so it takes more than 255 of them at a time to leave the mask of the
scripts. -/

namespace IpQos.Verified

open IpQos.Kmod
open IpQos.Lib (FitStep Run)

variable {env : Env} {s s' : St} {id mark mark' : Nat} {ip : Be32} {ret : RetCode}

/-! ## Marks in use -/

def bitsOf : Ptr (List Bool) → List Bool
  | .to bm => bm
  | _ => []

/-- The offsets of the bits that are set. -/
def marksInUse (s : St) : Finset ℕ :=
  (Finset.range (bitsOf s.markBitmap).length).filter fun b => (bitsOf s.markBitmap)[b]? = some true

@[simp] theorem mem_marksInUse {b : ℕ} :
    b ∈ marksInUse s ↔ (bitsOf s.markBitmap)[b]? = some true := by
  simp only [marksInUse, Finset.mem_filter, Finset.mem_range, and_iff_right_iff_imp]
  intro isSet
  exact (List.getElem?_eq_some_iff.mp isSet).1

theorem marksInUse_congr (same : s'.markBitmap = s.markBitmap) : marksInUse s' = marksInUse s := by
  simp only [marksInUse, same]

theorem marksInUse_set {bm : List Bool} {b : ℕ} (live : s.markBitmap = .to bm)
    (inBitmap : b < bm.length) (taken : s'.markBitmap = .to (bm.set b true)) :
    marksInUse s' = insert b (marksInUse s) := by
  ext c
  simp only [Finset.mem_insert, mem_marksInUse, live, taken, bitsOf, List.getElem?_set]
  by_cases same : b = c
  · simp [← same, inBitmap]
  · simp [same, Ne.symm same]

theorem marksInUse_clear (clear : ∀ bm, s.markBitmap = .to bm → ∀ bit ∈ bm, bit = false) :
    marksInUse s = ∅ := by
  apply Finset.eq_empty_of_forall_notMem
  intro b member
  rw [mem_marksInUse] at member
  cases live : s.markBitmap <;> simp only [live, bitsOf, List.getElem?_nil, reduceCtorEq] at member
  exact absurd (clear _ live true (List.mem_of_getElem? member)) (by simp)

/-! ## What gives marks back -/

theorem modifyRule_bits {f : RuletblNode → RuletblNode} (ran : modifyRule id f s = .ok s') :
    s'.markBitmap = s.markBitmap := by
  obtain ⟨tbl, _, rfl⟩ := modifyRule_cases ran
  rfl

theorem modifyNode_bits {f : MarktblNode → MarktblNode} (ran : modifyNode ip f s = .ok s') :
    s'.markBitmap = s.markBitmap := by
  obtain ⟨head, _, ran⟩ := bind_eq_ok ran
  obtain ⟨i, _, ran⟩ := bind_eq_ok ran
  obtain ⟨chain, _, ran⟩ := bind_eq_ok ran
  cases ran
  rfl

theorem qmarkAddHash_bits (ran : qmarkAddHash env ip id mark s = .ok (ret, s')) :
    s'.markBitmap = s.markBitmap := by
  obtain ⟨allocated, _, ran⟩ := bind_eq_ok ran
  split at ran
  · cases ran
    rfl
  · obtain ⟨limited, _, ran⟩ := bind_eq_ok ran
    split at ran
    · cases ran
      rfl
    · obtain ⟨head, _, ran⟩ := bind_eq_ok ran
      obtain ⟨i, _, ran⟩ := bind_eq_ok ran
      obtain ⟨chain, _, ran⟩ := bind_eq_ok ran
      split at ran
      · cases ran
      · split at ran
        · obtain ⟨s₁, count, ran⟩ := bind_eq_ok ran
          have counted := modifyRule_bits count
          cases ran
          exact counted
        · cases ran
          rfl

theorem qosMarktblHashtblDel_bits (ran : qosMarktblHashtblDel ip s = .ok (ret, mark, s')) :
    s'.markBitmap = s.markBitmap := by
  obtain ⟨⟨ret', node, s₁⟩, remove, ran⟩ := bind_eq_ok ran
  have removed : s₁.markBitmap = s.markBitmap := by
    obtain ⟨head, _, remove⟩ := bind_eq_ok remove
    obtain ⟨i, _, remove⟩ := bind_eq_ok remove
    obtain ⟨chain, _, remove⟩ := bind_eq_ok remove
    split at remove
    · split at remove
      · cases remove
        rfl
      · obtain ⟨s₂, count, remove⟩ := bind_eq_ok remove
        have counted := modifyRule_bits count
        cases remove
        exact counted
    · cases remove
      rfl
  dsimp only at ran
  split at ran <;> cases ran <;> exact removed

theorem freeMark_fewer (ran : freeMark mark s = .ok s') : marksInUse s' ⊆ marksInUse s := by
  obtain ⟨bm, deref, ran⟩ := bind_eq_ok ran
  obtain ⟨bm', write, ran⟩ := bind_eq_ok ran
  have live := Ptr.deref_eq_ok deref
  unfold writeBit at write
  split at write
  · cases write
    cases ran
    intro b
    simp only [mem_marksInUse, live, bitsOf, St.setBits, List.getElem?_set]
    split <;> simp
  · cases write

theorem qmarkDelHash_fewer (ran : qmarkDelHash ip mark s = .ok (ret, mark', s')) :
    marksInUse s' ⊆ marksInUse s := by
  obtain ⟨node, _, ran⟩ := bind_eq_ok ran
  split at ran
  · cases ran
    exact Finset.Subset.refl _
  · obtain ⟨s₁, count, ran⟩ := bind_eq_ok ran
    have counted := modifyNode_bits count
    split at ran
    · obtain ⟨⟨code, m, s₂⟩, del, ran⟩ := bind_eq_ok ran
      have deleted := (qosMarktblHashtblDel_bits del).trans counted
      obtain ⟨rn, _, ran⟩ := bind_eq_ok ran
      split at ran
      · obtain ⟨s₃, clear, ran⟩ := bind_eq_ok ran
        obtain ⟨s₄, free, ran⟩ := bind_eq_ok ran
        cases ran
        rw [← marksInUse_congr ((modifyRule_bits clear).trans deleted)]
        exact freeMark_fewer free
      · cases ran
        exact (marksInUse_congr deleted).subset
    · cases ran
      exact (marksInUse_congr counted).subset

theorem conntrackDestroy_fewer (ran : conntrackDestroy env ip s = .ok s') :
    marksInUse s' ⊆ marksInUse s := by
  obtain ⟨node, _, ran⟩ := bind_eq_ok ran
  split at ran
  · cases ran
    exact Finset.Subset.refl _
  · obtain ⟨s₁, count, ran⟩ := bind_eq_ok ran
    have counted := modifyNode_bits count
    split at ran
    · obtain ⟨⟨code, m, s₂⟩, del, ran⟩ := bind_eq_ok ran
      have deleted := (qosMarktblHashtblDel_bits del).trans counted
      obtain ⟨rn, _, ran⟩ := bind_eq_ok ran
      split at ran
      · obtain ⟨s₃, clear, ran⟩ := bind_eq_ok ran
        obtain ⟨rn', _, free⟩ := bind_eq_ok ran
        have cleared := (modifyRule_bits clear).trans deleted
        rw [qmarkTcDelRule_eq] at free
        exact (freeMark_fewer free).trans (marksInUse_congr cleared).subset
      · cases ran
        exact (marksInUse_congr deleted).subset
    · cases ran
      exact (marksInUse_congr counted).subset

theorem qmarkConntrackEvent_fewer {events : Nat} {ct : Option NfConn}
    (ran : qmarkConntrackEvent env events ct s = .ok s') : marksInUse s' ⊆ marksInUse s := by
  cases ct with
  | none =>
    cases ran
    exact Finset.Subset.refl _
  | some ct =>
    simp only [qmarkConntrackEvent] at ran
    split at ran
    · split at ran
      · exact conntrackDestroy_fewer ran
      · split at ran
        · obtain ⟨node, _, ran⟩ := bind_eq_ok ran
          split at ran
          · cases ran
            exact Finset.Subset.refl _
          · exact (marksInUse_congr (modifyNode_bits ran)).subset
        · cases ran
          exact Finset.Subset.refl _
    · cases ran
      exact Finset.Subset.refl _

theorem qmarkReset_fewer {flag : Nat} (ran : qmarkReset env flag s = .ok s') :
    marksInUse s' ⊆ marksInUse s := by
  unfold qmarkReset at ran
  split at ran
  · cases ran
    exact Finset.Subset.refl _
  · obtain ⟨s₁, flush, ran⟩ := bind_eq_ok ran
    obtain ⟨bm, _, flush⟩ := bind_eq_ok flush
    cases flush
    obtain ⟨s₂, flushHash, ran⟩ := bind_eq_ok ran
    obtain ⟨p, rfl⟩ := qmarkFlushHash_cases flushHash
    -- the counts are cleared after the bitmap, which they do not touch
    have clear : s'.markBitmap = .to (bm.map fun _ => false) := by
      unfold clearCounts at ran
      split at ran
      · cases ran
        rfl
      · obtain ⟨tbl, _, ran⟩ := bind_eq_ok ran
        split at ran <;> cases ran
        rfl
    have empty : marksInUse s' = ∅ := by
      apply marksInUse_clear
      intro bm' live bit member
      rw [clear] at live
      cases live
      simp only [List.mem_map] at member
      obtain ⟨_, _, rfl⟩ := member
      rfl
    rw [empty]
    exact Finset.empty_subset _

theorem qmarkSetSpec_fewer {ipSpec ruleSpec : Nat}
    (ran : qmarkSetSpec env ipSpec ruleSpec s = .ok s') : marksInUse s' ⊆ marksInUse s := by
  by_cases dangling : s.gMarktblHead = .dangling
  · rw [qmarkSetSpec_dangling env ipSpec ruleSpec dangling] at ran
    cases ran
  · rw [qmarkSetSpec_allocated env ipSpec ruleSpec dangling] at ran
    split at ran <;> cases ran
    have empty : marksInUse (allocated env ipSpec ruleSpec s) = ∅ := by
      apply marksInUse_clear
      intro bm live bit member
      simp only [allocated] at live
      split at live
      · cases live
        exact List.eq_of_mem_replicate member
      · cases live
    rw [empty]
    exact Finset.empty_subset _

/-! ## What takes a mark -/

/-- The first clear bit is taken, or no bit changes. -/
theorem qmarkAllocMark_fits (indexed : Indexed s) (small : s.maxIpCnt < 2 ^ 21)
    (ran : qmarkAllocMark s = .ok (ret, mark, s')) :
    ret ≠ .ok ∧ s' = s ∨ ret = .ok ∧ ∃ b, (∀ c < b, c ∈ marksInUse s) ∧ mark = bitMark b ∧
      b < s.maxIpCnt ∧ marksInUse s' = insert b (marksInUse s) := by
  obtain ⟨⟨m, s₁⟩, taken, ran⟩ := bind_eq_ok ran
  obtain ⟨bm, deref, taken⟩ := bind_eq_ok taken
  have live := Ptr.deref_eq_ok deref
  have length : bm.length = s.maxIpCnt :=
    (indexed.bits bm live).trans (allottedBits_of_small (by omega))
  dsimp only at ran taken
  split at taken
  · cases taken
    rw [if_pos rfl] at ran
    cases ran
    exact .inl ⟨nofun, rfl⟩
  · rename_i notFull
    have below : findFirstZeroBit bm s.maxIpCnt < s.maxIpCnt := Nat.lt_of_not_le notFull
    have inBitmap : findFirstZeroBit bm s.maxIpCnt < bm.length := length ▸ below
    rw [writeBit, if_pos inBitmap, ok_bind] at taken
    obtain ⟨rfl, rfl⟩ := Prod.mk.inj (Except.ok.inj taken)
    have nonzero : 0 ≠ u32 (u32 (findFirstZeroBit bm s.maxIpCnt + 1) <<< markBase) :=
      (bitMark_ne_zero (by omega)).symm
    rw [if_neg nonzero] at ran
    cases ran
    -- every bit below the first clear one is set
    refine .inr ⟨rfl, _, fun c before => ?_, rfl, below, marksInUse_set live inBitmap rfl⟩
    have isSet := findFirstZeroBit_before length (Nat.lt_trans before below) before
    have inside : c < bm.length := Nat.lt_trans before inBitmap
    rw [List.getD_eq_getElem?_getD, List.getElem?_eq_getElem inside, Option.getD_some] at isSet
    rw [mem_marksInUse, live, bitsOf, List.getElem?_eq_getElem inside, isSet]

/-- The entry and the class that go with a mark leave the bitmap alone. -/
theorem allocMarkAutoAdd_bits (ran : allocMarkAutoAdd env ip id mark s = .ok (.ok, mark', s')) :
    s'.markBitmap = s.markBitmap := by
  obtain ⟨⟨code, s₁⟩, add, ran⟩ := bind_eq_ok ran
  have added := qmarkAddHash_bits add
  dsimp only at ran
  split at ran
  · obtain ⟨rn, _, ran⟩ := bind_eq_ok ran
    split at ran
    · obtain ⟨s₂, _, ran⟩ := bind_eq_ok ran
      obtain ⟨s₃, _, ran⟩ := bind_eq_ok ran
      cases ran
    · cases ran
  · obtain ⟨rn, _, ran⟩ := bind_eq_ok ran
    obtain ⟨s₂, shape, ran⟩ := bind_eq_ok ran
    have same := qmarkTcAddRule_done shape
    cases ran
    rw [same]
    exact added

theorem qmarkAllocMarkAuto_fits (indexed : Indexed s) (small : s.maxIpCnt < 2 ^ 21)
    (ran : qmarkAllocMarkAuto env ip id mark s = .ok (ret, mark', s')) :
    FitStep (marksInUse s) (marksInUse s') := by
  by_cases ok : ret = .ok
  · subst ok
    unfold qmarkAllocMarkAuto at ran
    split at ran
    · cases ran
    · obtain ⟨rn, _, ran⟩ := bind_eq_ok ran
      split at ran
      · obtain ⟨⟨code, m, s₁⟩, alloc, ran⟩ := bind_eq_ok ran
        dsimp only at ran
        split at ran
        · cases ran
        · cases qmarkAllocMark_fits indexed small alloc with
          | inl full => exact absurd full.1 ‹_›
          | inr taken =>
            obtain ⟨_, b, least, _, _, inserted⟩ := taken
            rw [marksInUse_congr (allocMarkAutoAdd_bits ran), inserted]
            exact .handedOut least
      · split at ran
        · obtain ⟨⟨code, m, s₁⟩, alloc, ran⟩ := bind_eq_ok ran
          dsimp only at ran
          split at ran
          · cases ran
          · obtain ⟨s₂, store, ran⟩ := bind_eq_ok ran
            have same := (allocMarkAutoAdd_bits ran).trans (modifyRule_bits store)
            cases qmarkAllocMark_fits indexed small alloc with
            | inl full => exact absurd full.1 ‹_›
            | inr taken =>
              obtain ⟨_, b, least, _, _, inserted⟩ := taken
              rw [marksInUse_congr same, inserted]
              exact .handedOut least
        -- a further member of a group takes no bit
        · rw [marksInUse_congr (allocMarkAutoAdd_bits ran)]
          exact .givenBack (Finset.Subset.refl _)
  -- a call that fails has given back what it had taken
  · cases GivenBack.of_failed small ran ok with
    | untouched same =>
      rw [same]
      exact .givenBack (Finset.Subset.refl _)
    | cleared _ _ _ _ _ bits =>
      rw [marksInUse_congr bits]
      exact .givenBack (Finset.Subset.refl _)

theorem qmarkHandle_fits {skb skb' : SkBuff} {info : TgInfo} (indexed : Indexed s)
    (small : s.maxIpCnt < 2 ^ 21) (ran : qmarkHandle env skb info s = .ok (skb', s')) :
    FitStep (marksInUse s) (marksInUse s') := by
  obtain ⟨⟨code, mark⟩, _, ran⟩ := bind_eq_ok ran
  dsimp only at ran
  split at ran
  · obtain ⟨⟨ret, mark', s₁⟩, auto, ran⟩ := bind_eq_ok ran
    have fits := qmarkAllocMarkAuto_fits indexed small auto
    dsimp only at ran
    split at ran <;> cases ran <;> exact fits
  · cases ran
    exact .givenBack (Finset.Subset.refl _)

/-! ## Operations -/

theorem afterCopy_skips {body : Except Oops (Reply × St)} {r : Reply}
    (ran : afterCopy env s body = .ok (r, s')) : s' = s ∨ body = .ok (r, s') := by
  unfold afterCopy at ran
  split at ran
  · cases ran
    exact .inl rfl
  · exact .inr ran

theorem qmarkCdevIoctl_fits {cmd : QmarkIoc} {r : Reply} (indexed : Indexed s)
    (small : s.maxIpCnt < 2 ^ 21) (ran : qmarkCdevIoctl env cmd s = .ok (r, s')) :
    FitStep (marksInUse s) (marksInUse s') := by
  have untouched : s' = s → FitStep (marksInUse s) (marksInUse s') := by
    rintro rfl
    exact .givenBack (Finset.Subset.refl _)
  have sameBits (same : s'.markBitmap = s.markBitmap) : FitStep (marksInUse s) (marksInUse s') :=
    .givenBack (marksInUse_congr same).subset
  -- of all commands only `MARK_ALO` takes a bit
  cases cmd with
  | ruleAdd qr =>
    refine (afterCopy_skips ran).elim untouched fun ran => ?_
    obtain ⟨s₁, add, ran⟩ := bind_eq_ok ran
    cases ran
    exact sameBits (modifyRule_bits add)
  | ruleDel qr =>
    refine (afterCopy_skips ran).elim untouched fun ran => ?_
    obtain ⟨s₁, del, ran⟩ := bind_eq_ok ran
    obtain ⟨s₂, clear, off⟩ := bind_eq_ok del
    cases ran
    exact sameBits ((modifyRule_bits off).trans (modifyRule_bits clear))
  | ruleFlush =>
    cases ran
    apply sameBits
    unfold qmarkFlushRule qosRuletblInit
    split <;> rfl
  | hashAdd qh =>
    refine (afterCopy_skips ran).elim untouched fun ran => ?_
    split at ran
    · cases ran
      exact untouched rfl
    · obtain ⟨⟨ret, s₁⟩, add, ran⟩ := bind_eq_ok ran
      dsimp only at ran
      split at ran <;> cases ran <;> exact sameBits (qmarkAddHash_bits add)
  | hashDel qh =>
    refine (afterCopy_skips ran).elim untouched fun ran => ?_
    split at ran
    · cases ran
      exact untouched rfl
    · obtain ⟨⟨ret, mark, s₁⟩, del, ran⟩ := bind_eq_ok ran
      dsimp only at ran
      split at ran <;> cases ran <;> exact .givenBack (qmarkDelHash_fewer del)
  | hashChk qh =>
    refine (afterCopy_skips ran).elim untouched fun ran => ?_
    split at ran
    · cases ran
      exact untouched rfl
    · obtain ⟨⟨ret, mark⟩, _, ran⟩ := bind_eq_ok ran
      dsimp only at ran
      split at ran <;> cases ran <;> exact untouched rfl
  | hashFlush =>
    obtain ⟨s₁, flush, ran⟩ := bind_eq_ok ran
    obtain ⟨p, rfl⟩ := qmarkFlushHash_cases flush
    cases ran
    exact sameBits rfl
  | markAlo =>
    obtain ⟨⟨ret, mark, s₁⟩, alloc, ran⟩ := bind_eq_ok ran
    have fits : FitStep (marksInUse s) (marksInUse s₁) := by
      cases qmarkAllocMark_fits indexed small alloc with
      | inl full => exact full.2 ▸ .givenBack (Finset.Subset.refl _)
      | inr taken =>
        obtain ⟨_, b, least, _, _, inserted⟩ := taken
        exact inserted ▸ .handedOut least
    dsimp only at ran
    split at ran <;> cases ran <;> exact fits
  | markFree mark =>
    refine (afterCopy_skips ran).elim untouched fun ran => ?_
    obtain ⟨s₁, free, ran⟩ := bind_eq_ok ran
    cases ran
    exact .givenBack (freeMark_fewer free)
  | markFlush =>
    obtain ⟨s₁, flush, ran⟩ := bind_eq_ok ran
    obtain ⟨bm, _, flush⟩ := bind_eq_ok flush
    cases flush
    cases ran
    apply FitStep.givenBack
    rw [marksInUse_clear]
    · exact Finset.empty_subset _
    · intro bm' live bit member
      cases live
      simp only [List.mem_map] at member
      obtain ⟨_, _, rfl⟩ := member
      rfl
  | reset flag =>
    refine (afterCopy_skips ran).elim untouched fun ran => ?_
    obtain ⟨s₁, reset, ran⟩ := bind_eq_ok ran
    cases ran
    exact .givenBack (qmarkReset_fewer reset)
  | netdevSet lanDev wanDev =>
    refine (afterCopy_skips ran).elim untouched fun ran => ?_
    cases ran
    exact sameBits rfl
  | specSet ipSpec ruleSpec =>
    refine (afterCopy_skips ran).elim untouched fun ran => ?_
    obtain ⟨s₁, set, ran⟩ := bind_eq_ok ran
    cases ran
    exact .givenBack (qmarkSetSpec_fewer set)
  | tcAdd =>
    obtain ⟨rn, _, ran⟩ := bind_eq_ok ran
    obtain ⟨s₂, shape, ran⟩ := bind_eq_ok ran
    have same := qmarkTcAddRule_done shape
    cases ran
    exact sameBits (same ▸ rfl)
  | tcDel =>
    obtain ⟨rn, _, ran⟩ := bind_eq_ok ran
    obtain ⟨s₂, unshape, ran⟩ := bind_eq_ok ran
    have same := qmarkTcDelRule_done unshape
    cases ran
    exact sameBits (same ▸ rfl)
  | ruleLst | hashLst | dump =>
    obtain ⟨_, _, ran⟩ := bind_eq_ok ran
    cases ran
    exact untouched rfl

theorem opStep_fits {op : Op} (indexed : Indexed s) (small : s.maxIpCnt < 2 ^ 21)
    (ran : opStep (env, op) s = .ok s') : FitStep (marksInUse s) (marksInUse s') := by
  obtain ⟨⟨out, s₁⟩, run, ran⟩ := bind_eq_ok ran
  cases ran
  cases op with
  | ioctl cmd =>
    obtain ⟨⟨r, s₂⟩, cdev, run⟩ := bind_eq_ok run
    cases run
    exact qmarkCdevIoctl_fits indexed small cdev
  | packet skb info =>
    obtain ⟨⟨skb', s₂⟩, handle, run⟩ := bind_eq_ok run
    cases run
    exact qmarkHandle_fits indexed small handle
  | conntrack events ct =>
    obtain ⟨s₂, event, run⟩ := bind_eq_ok run
    cases run
    exact .givenBack (qmarkConntrackEvent_fewer event)

/-! ## Runs -/

/-- Operations with arbitrary arguments, sizes below 2 ^ 21, while at most `n` marks are in use. -/
def Uncrowded (n : Nat) (l : Env × Op) (s : St) : Prop :=
  l.2.Words ∧ SpecWithin (2 ^ 21 - 1) l.2 ∧ (marksInUse s).card ≤ n

theorem init_cases (env : Env) :
    (qosMarktblInit env).2.maxIpCnt = tcMaxIpCnt ∧
      ((qosMarktblInit env).2.markBitmap = .null ∨
        (qosMarktblInit env).2.markBitmap = .to (List.replicate tcMaxIpCnt false)) := by
  unfold qosMarktblInit markBitmapInit qosRuletblInit qosMarktblHashtblInit
  cases env.kmalloc .markBitmap <;> cases env.kmalloc .ruletbl <;>
    cases env.kmalloc .marktblHead <;> cases env.kmalloc .marktblHt <;>
    first | exact ⟨rfl, .inl rfl⟩ | exact ⟨rfl, .inr rfl⟩

theorem init_unused (env : Env) : marksInUse (qosMarktblInit env).2 = ∅ := by
  apply marksInUse_clear
  intro bm live bit member
  cases (init_cases env).2 with
  | inl absent =>
    rw [absent] at live
    cases live
  | inr fresh =>
    rw [fresh] at live
    cases live
    exact List.eq_of_mem_replicate member

/-- In every run with at most `n` marks in use at a time, all of them have one of the first `n`
    bits, and so has the next mark.  Up to 255 the marks fit the mask of the scripts, whatever
    the size of the bitmap. -/
theorem marks_below_peak {n : Nat} (env : Env)
    (run : Run opStep (Uncrowded n) (qosMarktblInit env).2 s) (within : (marksInUse s).card ≤ n) :
    (∀ b ∈ marksInUse s, b < n) ∧
      ∀ mark s', qmarkAllocMark s = .ok (.ok, mark, s') → (marksInUse s').card ≤ n →
        InTable (mark >>> markBase) n ∧ (n ≤ 255 → mark &&& targetMask = mark) := by
  have size := (init_cases env).1
  have start : Indexed (qosMarktblInit env).2 ∧ (qosMarktblInit env).2.maxIpCnt ≤ 2 ^ 21 - 1 :=
    ⟨.init env, size ▸ by decide⟩
  -- the marks in use are a first-fit set of every state, with the bound on the size as invariant
  have peak := run.below_peak marksInUse (fun s => Indexed s ∧ s.maxIpCnt ≤ 2 ^ 21 - 1) start
    (init_unused env) (fun l y uncrowded => uncrowded.2.2) (fun l y z inv uncrowded stepped => ?_) within
  · obtain ⟨⟨indexed, small⟩, below⟩ := peak
    refine ⟨below, fun mark s' alloc crowd => ?_⟩
    cases qmarkAllocMark_fits indexed (by omega) alloc with
    | inl full => exact absurd rfl full.1
    | inr taken =>
      obtain ⟨_, b, least, rfl, bound, inserted⟩ := taken
      have fits : b < n := by
        rw [inserted] at crowd
        exact Nat.lt_of_lt_of_le (IpQos.Lib.lt_card_insert least) crowd
      refine ⟨bitMark_inTable fits (bitMark_ne_zero (by omega)), fun few => ?_⟩
      exact (bitMark_fits (by omega)).2.1
  · obtain ⟨indexed, small⟩ := inv
    have kept := indexed.step uncrowded.1
    rw [stepped] at kept
    have smaller := (Effect.of_opStep stepped).maxIpCnt_le small uncrowded.2.1
    exact ⟨⟨kept.returned, smaller⟩, opStep_fits indexed (by omega) stepped⟩

/-- A bitmap larger than the mask: of two marks the first is given back and handed out again,
    and the next one opens the third number. -/
theorem reusedMark_below :
    ∃ s mark s', Run opStep (Uncrowded 3) (qosMarktblInit plainEnv).2 s ∧ s.maxIpCnt = 300 ∧
      qmarkAllocMark s = .ok (.ok, mark, s') ∧ mark = 0x1800 ∧ (∀ b ∈ marksInUse s, b < 3) ∧
      InTable (mark >>> markBase) 3 ∧ mark &&& targetMask = mark := by
  have ran : (opStep (plainEnv, .ioctl (.specSet 300 1)) (qosMarktblInit plainEnv).2 >>= fun s₁ =>
      opStep (plainEnv, .ioctl .markAlo) s₁ >>= fun s₂ =>
        opStep (plainEnv, .ioctl .markAlo) s₂ >>= fun s₃ =>
          opStep (plainEnv, .ioctl (.markFree 0x800)) s₃ >>= fun s₄ =>
            opStep (plainEnv, .ioctl .markAlo) s₄ >>= fun s₅ =>
              (qmarkAllocMark s₅).map fun r =>
                ([s₁, s₂, s₃, s₄, s₅, r.2.2].map fun s => (marksInUse s).card, s₅.maxIpCnt, r.1,
                  r.2.1)) =
      .ok ([0, 1, 2, 1, 2, 3], 300, .ok, 0x1800) := by decide +kernel
  -- the run in its five steps
  obtain ⟨s₁, sized, ran⟩ := bind_eq_ok ran
  obtain ⟨s₂, first, ran⟩ := bind_eq_ok ran
  obtain ⟨s₃, second, ran⟩ := bind_eq_ok ran
  obtain ⟨s₄, free, ran⟩ := bind_eq_ok ran
  obtain ⟨s₅, again, ran⟩ := bind_eq_ok ran
  obtain ⟨⟨ret, mark, s₆⟩, next, same⟩ := map_eq_ok ran
  simp only [List.map_cons, List.map_nil, Prod.mk.injEq, List.cons.injEq, and_true] at same
  obtain ⟨⟨c₁, c₂, c₃, c₄, c₅, c₆⟩, size, rfl, mark_eq⟩ := same
  have noneUsed : (marksInUse (qosMarktblInit plainEnv).2).card ≤ 3 := by simp [init_unused]
  have respec : Uncrowded 3 (plainEnv, .ioctl (.specSet 300 1)) (qosMarktblInit plainEnv).2 :=
    ⟨⟨by decide, by decide⟩, (by decide : 300 ≤ 2 ^ 21 - 1), noneUsed⟩
  have alloc {s : St} (few : (marksInUse s).card ≤ 3) :
      Uncrowded 3 (plainEnv, .ioctl .markAlo) s := ⟨trivial, trivial, few⟩
  have release : Uncrowded 3 (plainEnv, .ioctl (.markFree 0x800)) s₃ :=
    ⟨(by decide : 0x800 < 2 ^ 32), trivial, by omega⟩
  have run := ((((Run.single respec sized).tail (alloc (by omega)) first).tail (alloc (by omega))
    second).tail release free).tail (alloc (by omega)) again
  have below := marks_below_peak plainEnv run (by omega)
  obtain ⟨inTable, fits⟩ := below.2 mark s₆ next (by omega)
  exact ⟨s₅, mark, s₆, run, size, next, mark_eq, below.1, inTable, fits (by decide)⟩

end IpQos.Verified
