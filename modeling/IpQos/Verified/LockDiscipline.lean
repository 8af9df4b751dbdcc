import IpQos.Kmod.Locked
import IpQos.Verified.Ranges

/-! # Lock discipline

Every entry point takes the two locks in order and gives them back on every path, but
for a reset: it calls a function that takes the lock it holds. -/

namespace IpQos.Verified

open IpQos.Kmod
open IpQos.Lib (Allowed Locking Moves follow follow_enter follow_bind_none)

/-! ## The locks change nothing else

Without its locks each function is the one of the model without locks. -/

section Results

variable (env : Env) (key : Be32) (id mark : Nat) (s : St)

@[simp] theorem result_spinLockBh (l : Lock) : (spinLockBh l).result = .ok () := rfl

@[simp] theorem result_spinUnlockBh (l : Lock) : (spinUnlockBh l).result = .ok () := rfl

theorem bind_ok {ε α : Type} (x : Except ε α) : (x >>= fun a => .ok a) = x := by
  cases x <;> rfl

theorem bind_ok_unit {ε : Type} (x : Except ε Unit) : (x >>= fun _ => .ok ()) = x := bind_ok x

theorem result_spinLockBh_bind {α : Type} (l : Lock) (f : Unit → Exec α) :
    (spinLockBh l >>= f).result = (f ()).result := rfl

@[simp] theorem result_marktblHashGet :
    (Locked.marktblHashGet key s).result = marktblHashGet key s := by
  unfold Locked.marktblHashGet marktblHashGet
  apply Locking.result_congr rfl
  intro head
  apply Locking.result_congr rfl
  intro i
  rw [result_spinLockBh_bind]
  apply Locking.result_congr rfl
  intro chain
  cases chain.find? (marktblHashCmp key) <;> rfl

@[simp] theorem result_marktblHashAdd :
    (Locked.marktblHashAdd env key id mark s).result = marktblHashAdd env key id mark s := by
  unfold Locked.marktblHashAdd marktblHashAdd
  apply Locking.result_congr rfl
  intro limited
  rw [Locking.result_ite]
  congr 1
  apply Locking.result_congr rfl
  intro head
  apply Locking.result_congr rfl
  intro i
  rw [result_spinLockBh_bind]
  apply Locking.result_congr rfl
  intro chain
  cases chain.find? (marktblHashCmp key) with
  | some entry => rfl
  | none => simp 

@[simp] theorem result_marktblHashRemove :
    (Locked.marktblHashRemove key s).result = marktblHashRemove key s := by
  unfold Locked.marktblHashRemove marktblHashRemove
  apply Locking.result_congr rfl
  intro head
  apply Locking.result_congr rfl
  intro i
  rw [result_spinLockBh_bind]
  apply Locking.result_congr rfl
  intro chain
  cases chain.find? (marktblHashCmp key) with
  | none => rfl
  | some entry => simp 

@[simp] theorem result_marktblHashClean :
    (Locked.marktblHashClean s).result = marktblHashClean s := by
  unfold Locked.marktblHashClean marktblHashClean
  cases s.gMarktblHead <;> rfl

@[simp] theorem result_qosMarktblHashtblAdd :
    (Locked.qosMarktblHashtblAdd env key id mark s).result =
      qosMarktblHashtblAdd env key id mark s := by
  simp [Locked.qosMarktblHashtblAdd, qosMarktblHashtblAdd]

@[simp] theorem result_qosMarktblHashtblDel :
    (Locked.qosMarktblHashtblDel key s).result = qosMarktblHashtblDel key s := by
  apply Locking.result_congr (result_marktblHashRemove key s)
  rintro ⟨ret, markNode, s⟩
  cases ret <;> cases markNode <;> rfl

@[simp] theorem result_qosMarktblHashtblGet :
    (Locked.qosMarktblHashtblGet key s).result = qosMarktblHashtblGet key s := by
  apply Locking.result_congr (result_marktblHashGet key s)
  intro markNode
  cases markNode <;> rfl

@[simp] theorem result_qosMarktblHashtblExit :
    (Locked.qosMarktblHashtblExit s).result = qosMarktblHashtblExit s := by
  unfold Locked.qosMarktblHashtblExit qosMarktblHashtblExit
  cases s.gMarktblHead <;> simp 

@[simp] theorem result_qmarkAllocMark :
    (Locked.qmarkAllocMark s).result = qmarkAllocMark s := by
  simp [Locked.qmarkAllocMark, qmarkAllocMark]

@[simp] theorem result_qmarkFlushHash :
    (Locked.qmarkFlushHash env s).result = qmarkFlushHash env s := by
  simp [Locked.qmarkFlushHash, qmarkFlushHash]

@[simp] theorem result_qmarkAddHash :
    (Locked.qmarkAddHash env key id mark s).result = qmarkAddHash env key id mark s := by
  simp [Locked.qmarkAddHash, qmarkAddHash, bind_ok]

@[simp] theorem result_qmarkFreeMark :
    (Locked.qmarkFreeMark mark s).result = qmarkFreeMark mark s := by
  simp [Locked.qmarkFreeMark, qmarkFreeMark, bind_ok]

@[simp] theorem result_allocMarkAutoAdd :
    (Locked.allocMarkAutoAdd env key id mark s).result = allocMarkAutoAdd env key id mark s := by
  simp [Locked.allocMarkAutoAdd, allocMarkAutoAdd]

@[simp] theorem result_qmarkAllocMarkAuto :
    (Locked.qmarkAllocMarkAuto env key id mark s).result = qmarkAllocMarkAuto env key id mark s := by
  simp [Locked.qmarkAllocMarkAuto, qmarkAllocMarkAuto]

@[simp] theorem result_qmarkSetSpec (ipSpec ruleSpec : Nat) :
    (Locked.qmarkSetSpec env ipSpec ruleSpec s).result = qmarkSetSpec env ipSpec ruleSpec s := by
  simp [Locked.qmarkSetSpec, qmarkSetSpec]

@[simp] theorem result_qmarkReset (flag : Nat) :
    (Locked.qmarkReset env flag s).result = qmarkReset env flag s := by
  simp [Locked.qmarkReset, qmarkReset, resetSection, bind_ok]

@[simp] theorem result_qmarkDelHash :
    (Locked.qmarkDelHash key mark s).result = qmarkDelHash key mark s := by
  unfold Locked.qmarkDelHash qmarkDelHash
  rw [result_spinLockBh_bind]
  apply Locking.result_congr (result_marktblHashGet key s)
  intro markNode
  cases markNode <;> simp 

@[simp] theorem result_conntrackDestroy :
    (Locked.conntrackDestroy env key s).result = conntrackDestroy env key s := by
  unfold Locked.conntrackDestroy conntrackDestroy
  rw [result_spinLockBh_bind]
  apply Locking.result_congr (result_marktblHashGet key s)
  intro markNode
  cases markNode <;> simp [bind_ok]

@[simp] theorem result_conntrackMark :
    (Locked.conntrackMark key s).result = conntrackMark key s := by
  unfold Locked.conntrackMark conntrackMark
  rw [result_spinLockBh_bind]
  apply Locking.result_congr (result_marktblHashGet key s)
  intro markNode
  cases markNode <;> simp [bind_ok]

@[simp] theorem result_qmarkConntrackEvent (events : Nat) (ct : Option NfConn) :
    (Locked.qmarkConntrackEvent env events ct s).result = qmarkConntrackEvent env events ct s := by
  cases ct with
  | none => rfl
  | some ct => simp [Locked.qmarkConntrackEvent, qmarkConntrackEvent]

@[simp] theorem result_qmarkFindHash :
    (Locked.qmarkFindHash key s).result = qmarkFindHash key s := result_qosMarktblHashtblGet key s

@[simp] theorem result_qmarkFlushMark : (Locked.qmarkFlushMark s).result = qmarkFlushMark s := by
  simp [Locked.qmarkFlushMark, qmarkFlushMark, bind_ok]

@[simp] theorem result_qmarkFlushRule :
    (Locked.qmarkFlushRule env s).result = .ok (qmarkFlushRule env s) := rfl

@[simp] theorem result_qmarkAddRule (mode devid rate rateMate rateMin rateMinMate : Nat) :
    (Locked.qmarkAddRule id mode devid rate rateMate rateMin rateMinMate s).result =
      qmarkAddRule id mode devid rate rateMate rateMin rateMinMate s := by
  simp [Locked.qmarkAddRule, bind_ok]

@[simp] theorem result_qmarkDelRule : (Locked.qmarkDelRule id s).result = qmarkDelRule id s := by
  simp [Locked.qmarkDelRule, bind_ok]

@[simp] theorem result_marktblHashList :
    (Locked.marktblHashList s).result = marktblHashList s := by
  unfold Locked.marktblHashList marktblHashList
  cases s.gMarktblHead <;> rfl

@[simp] theorem result_qmarkListRule : (Locked.qmarkListRule s).result = qmarkListRule s := by
  simp [Locked.qmarkListRule, qmarkListRule, bind_ok_unit]

@[simp] theorem result_qmarkListHash : (Locked.qmarkListHash s).result = qmarkListHash s := by
  simp [Locked.qmarkListHash, qmarkListHash, bind_ok_unit]

@[simp] theorem result_qmarkDump : (Locked.qmarkDump s).result = qmarkDump s := by
  simp [Locked.qmarkDump, qmarkDump, bind_ok_unit]

/-- What a command does with its locks it does without. -/
theorem result_qmarkCdevIoctl (cmd : QmarkIoc) :
    (Locked.qmarkCdevIoctl env cmd s).result = qmarkCdevIoctl env cmd s := by
  cases cmd with
  | _ =>
    simp [Locked.qmarkCdevIoctl, qmarkCdevIoctl, Locked.afterCopy, afterCopy]

end Results

/-! ## Order of the locks -/

/-- The head lock may be taken inside `qmark_op_lock`, nothing else inside anything. -/
def lockInside : Lock → Lock → Bool
  | .head, .op => true
  | _, _ => false

/-- From both locks free no lock is taken against the order, and a return leaves both
free.  A fault is no return, it ends where it happens. -/
def Disciplined {α : Type} (m : Exec α) : Prop := Moves lockInside [] [] m

section Order

variable {held : List Lock} (env : Env) (key : Be32) (id mark : Nat) (s : St)

theorem moves_marktblHashGet (free : held.all (lockInside .head ·)) :
    Moves lockInside held held (Locked.marktblHashGet key s) := by
  unfold Locked.marktblHashGet
  apply Moves.compute
  intro head _
  apply Moves.compute
  intro i _
  apply Moves.enter free
  apply Moves.compute
  intro chain _
  cases chain.find? (marktblHashCmp key) with
  | some entry => exact Moves.leave (Moves.known _)
  | none => exact Moves.leave (Moves.known _)

theorem moves_marktblHashAdd (free : held.all (lockInside .head ·)) :
    Moves lockInside held held (Locked.marktblHashAdd env key id mark s) := by
  unfold Locked.marktblHashAdd
  apply Moves.compute
  intro limited _
  split
  · exact Moves.known _
  · apply Moves.compute
    intro head _
    apply Moves.compute
    intro i _
    apply Moves.enter free
    apply Moves.compute
    intro chain _
    cases chain.find? (marktblHashCmp key) with
    | some entry =>
      -- the null pointer faults before the lock is given back
      apply Moves.compute
      intro node _
      exact Moves.leave (Moves.known _)
    | none =>
      dsimp only
      split
      · apply Moves.compute
        intro s' _
        exact Moves.leave (Moves.known _)
      · exact Moves.leave (Moves.known _)

theorem moves_marktblHashRemove (free : held.all (lockInside .head ·)) :
    Moves lockInside held held (Locked.marktblHashRemove key s) := by
  unfold Locked.marktblHashRemove
  apply Moves.compute
  intro head _
  apply Moves.compute
  intro i _
  apply Moves.enter free
  apply Moves.compute
  intro chain _
  cases chain.find? (marktblHashCmp key) with
  | some entry =>
    dsimp only
    split
    · exact Moves.leave (Moves.known _)
    · apply Moves.compute
      intro s' _
      exact Moves.leave (Moves.known _)
  | none => exact Moves.leave (Moves.known _)

theorem moves_marktblHashClean (free : held.all (lockInside .head ·)) :
    Moves lockInside held held (Locked.marktblHashClean s) := by
  apply Moves.compute
  intro head _
  apply Moves.enter free
  apply Moves.compute
  intro s' _
  exact Moves.leave (Moves.known _)

theorem moves_marktblHashList (free : held.all (lockInside .head ·)) :
    Moves lockInside held held (Locked.marktblHashList s) := by
  apply Moves.compute
  intro head _
  apply Moves.enter free
  exact Moves.release

theorem moves_qosMarktblHashtblAdd (free : held.all (lockInside .head ·)) :
    Moves lockInside held held (Locked.qosMarktblHashtblAdd env key id mark s) := by
  apply Moves.compute
  intro allocated _
  split
  · exact Moves.known _
  · exact moves_marktblHashAdd env key id mark s free

theorem moves_qosMarktblHashtblDel (free : held.all (lockInside .head ·)) :
    Moves lockInside held held (Locked.qosMarktblHashtblDel key s) := by
  apply Moves.bind (moves_marktblHashRemove key s free)
  intro removed _
  obtain ⟨ret, markNode, s'⟩ := removed
  cases ret with
  | ok => cases markNode <;> exact Moves.known _
  | _ => exact Moves.known _

theorem moves_qosMarktblHashtblGet (free : held.all (lockInside .head ·)) :
    Moves lockInside held held (Locked.qosMarktblHashtblGet key s) := by
  apply (moves_marktblHashGet key s free).bind
  intro markNode _
  split
  · exact Moves.known _
  · exact Moves.known _

theorem moves_qosMarktblHashtblExit (free : held.all (lockInside .head ·)) :
    Moves lockInside held held (Locked.qosMarktblHashtblExit s) := by
  unfold Locked.qosMarktblHashtblExit
  split
  · exact Moves.known _
  · apply (moves_marktblHashClean s free).bind
    intro s' _
    exact Moves.known _

/-! The operations take `qmark_op_lock` first. -/

/-- One computation inside `qmark_op_lock`. -/
theorem disciplined_section {α β : Type} (x : Except Oops α) (f : α → β) :
    Disciplined (do
      spinLockBh .op
      let a ← .lift x
      spinUnlockBh .op
      return f a) := by
  apply Moves.enter rfl
  apply Moves.compute
  intro a _
  exact Moves.leave (Moves.known _)

theorem disciplined_conntrackDestroy : Disciplined (Locked.conntrackDestroy env key s) := by
  apply Moves.enter rfl
  apply (moves_marktblHashGet key s rfl).bind
  intro markNode _
  cases markNode with
  | none => exact Moves.leave (Moves.known _)
  | some node =>
    apply Moves.compute
    intro s₁ _
    split
    · apply (moves_qosMarktblHashtblDel key s₁ rfl).bind
      intro removed _
      apply Moves.compute
      intro rn _
      split
      · -- the rule is forgotten and the mark given back before the lock is
        apply Moves.compute
        intro s₂ _
        apply Moves.compute
        intro rn' _
        apply Moves.compute
        intro s₃ _
        apply Moves.compute
        intro s₄ _
        exact Moves.leave (Moves.known _)
      · exact Moves.leave (Moves.known _)
    · exact Moves.leave (Moves.known _)

theorem disciplined_conntrackMark : Disciplined (Locked.conntrackMark key s) := by
  apply Moves.enter rfl
  apply (moves_marktblHashGet key s rfl).bind
  intro markNode _
  cases markNode with
  | none => exact Moves.leave (Moves.known _)
  | some node =>
    apply Moves.compute
    intro s' _
    exact Moves.leave (Moves.known _)

theorem disciplined_qmarkConntrackEvent (events : Nat) (ct : Option NfConn) :
    Disciplined (Locked.qmarkConntrackEvent env events ct s) := by
  unfold Locked.qmarkConntrackEvent
  cases ct with
  | none => exact Moves.known _
  | some ct =>
    dsimp only
    split
    · split
      · exact disciplined_conntrackDestroy env ct.ipAddr s
      · split
        · exact disciplined_conntrackMark ct.ipAddr s
        · exact Moves.known _
    · exact Moves.known _

theorem disciplined_qmarkFlushRule : Disciplined (Locked.qmarkFlushRule env s) := by
  apply Moves.enter rfl
  exact Moves.leave (Moves.known _)

theorem disciplined_qmarkAddHash : Disciplined (Locked.qmarkAddHash env key id mark s) := by
  apply Moves.enter rfl
  apply (moves_qosMarktblHashtblAdd env key id mark s rfl).bind
  intro added _
  exact Moves.leave (Moves.known _)

theorem disciplined_qmarkDelHash : Disciplined (Locked.qmarkDelHash key mark s) := by
  apply Moves.enter rfl
  apply (moves_marktblHashGet key s rfl).bind
  intro markNode _
  cases markNode with
  | none => exact Moves.leave (Moves.known _)
  | some node =>
    apply Moves.compute
    intro s₁ _
    split
    · apply (moves_qosMarktblHashtblDel key s₁ rfl).bind
      intro removed _
      apply Moves.compute
      intro rn _
      split
      · apply Moves.compute
        intro s₂ _
        apply Moves.compute
        intro s₃ _
        exact Moves.leave (Moves.known _)
      · exact Moves.leave (Moves.known _)
    · exact Moves.leave (Moves.known _)

theorem disciplined_qmarkListHash : Disciplined (Locked.qmarkListHash s) := by
  apply Moves.enter rfl
  apply (moves_marktblHashList s rfl).bind
  intro _ _
  exact Moves.release

theorem disciplined_qmarkFlushHash : Disciplined (Locked.qmarkFlushHash env s) := by
  apply Moves.enter rfl
  apply (moves_qosMarktblHashtblExit s rfl).bind
  intro s' _
  apply Moves.compute
  intro made _
  exact Moves.leave (Moves.known _)

theorem disciplined_qmarkAllocMark : Disciplined (Locked.qmarkAllocMark s) := by
  apply Moves.enter rfl
  apply Moves.compute
  intro allocated _
  dsimp only
  split
  · exact Moves.leave (Moves.known _)
  · exact Moves.leave (Moves.known _)

theorem disciplined_allocMarkAutoAdd :
    Disciplined (Locked.allocMarkAutoAdd env key id mark s) := by
  apply (disciplined_qmarkAddHash env key id mark s).bind
  intro added _
  dsimp only
  split
  · apply Moves.compute
    intro rn _
    split
    · apply Moves.compute
      intro s' _
      apply (disciplined_section _ _).bind
      intro s'' _
      exact Moves.known _
    · exact Moves.known _
  · -- the lock is taken again for the classes
    apply Moves.enter rfl
    apply Moves.compute
    intro rn _
    apply Moves.compute
    intro s' _
    exact Moves.leave (Moves.known _)

theorem disciplined_qmarkAllocMarkAuto :
    Disciplined (Locked.qmarkAllocMarkAuto env key id mark s) := by
  unfold Locked.qmarkAllocMarkAuto
  split
  · exact Moves.known _
  · apply Moves.compute
    intro rn _
    split
    · apply (disciplined_qmarkAllocMark s).bind
      intro allocated _
      dsimp only
      split
      · exact Moves.known _
      · exact disciplined_allocMarkAutoAdd env key id _ _
    · split
      · apply (disciplined_qmarkAllocMark s).bind
        intro allocated _
        dsimp only
        split
        · exact Moves.known _
        · apply Moves.compute
          intro s' _
          exact disciplined_allocMarkAutoAdd env key id _ s'
      · exact disciplined_allocMarkAutoAdd env key id _ s

theorem disciplined_qmarkSetSpec (ipSpec ruleSpec : Nat) :
    Disciplined (Locked.qmarkSetSpec env ipSpec ruleSpec s) := by
  apply Moves.enter rfl
  apply (moves_qosMarktblHashtblExit s rfl).bind
  intro s' _
  apply Moves.compute
  intro made _
  exact Moves.leave (Moves.known _)

theorem disciplined_qmarkListRule : Disciplined (Locked.qmarkListRule s) := by
  apply Moves.enter rfl
  apply Moves.compute
  intro _ _
  exact Moves.release

theorem disciplined_qmarkDump : Disciplined (Locked.qmarkDump s) := by
  apply Moves.enter rfl
  apply Moves.compute
  intro _ _
  apply (moves_marktblHashList s rfl).bind
  intro _ _
  apply Moves.compute
  intro _ _
  exact Moves.release

/-! A reset takes `qmark_op_lock` once more where it flushes the hash table. -/

theorem follow_qmarkFlushHash :
    follow lockInside [.op] (Locked.qmarkFlushHash env s).events = none := by
  show follow lockInside [.op] (.acquire .op >>= _ : Exec St).events = none
  rw [follow_enter]
  rfl

/-- With a bitmap to clear, the flush is reached with the lock held. -/
theorem follow_qmarkReset {flag : Nat} (set : flag ≠ 0) {bm : List Bool}
    (live : s.markBitmap = .to bm) :
    follow lockInside [] (Locked.qmarkReset env flag s).events = none := by
  have flushed : flushMark { s with resetFlag := true } =
      .ok (St.setBits { s with resetFlag := true } (bm.map fun _ => false)) := by
    show (s.markBitmap.deref >>= _) = _
    rw [live]
    rfl
  unfold Locked.qmarkReset
  rw [if_neg (Ne.symm set)]
  show follow lockInside [] (.acquire .op >>= _ : Exec St).events = none
  rw [follow_enter, flushed]
  show follow lockInside [.op] (Locked.qmarkFlushHash env _ >>= _ : Exec St).events = none
  exact follow_bind_none (follow_qmarkFlushHash env _)

/-- Without a bitmap the section faults before the flush. -/
theorem disciplined_qmarkReset {flag : Nat}
    (calm : flag = 0 ∨ ∀ bm, s.markBitmap ≠ .to bm) :
    Disciplined (Locked.qmarkReset env flag s) := by
  unfold Locked.qmarkReset
  split
  · exact Moves.known _
  · rename_i set
    apply Moves.enter rfl
    apply Moves.compute
    intro s' flushed
    obtain ⟨bm, live, _⟩ := bind_eq_ok flushed
    cases calm with
    | inl clear => exact absurd clear.symm set
    | inr absent => exact absurd (Ptr.deref_eq_ok live) (absent bm)

end Order

/-! ## Entry points -/

/-- A reset that is copied, raises the flag and finds the bitmap to clear. -/
def Resets (env : Env) (e : EntryPoint) (s : St) : Prop :=
  ∃ flag bm, e = .ioctl (.reset flag) ∧ 0 ≤ env.copyFromUser ∧ flag ≠ 0 ∧ s.markBitmap = .to bm

section EntryPoints

variable {env : Env} {s : St}

theorem disciplined_afterCopy {body : Exec (Reply × St)} (disciplined : Disciplined body) :
    Disciplined (Locked.afterCopy env s body) := by
  unfold Locked.afterCopy
  split
  · exact Moves.known _
  · exact disciplined

/-- Followed by a reply that depends on no lock. -/
theorem Disciplined.reply {α β : Type} {m : Exec α} (disciplined : Disciplined m) (f : α → β) :
    Disciplined (m >>= fun a => pure (f a)) := by
  apply Moves.bind disciplined
  intro a _
  exact Moves.known _

theorem disciplined_qmarkCdevIoctl {cmd : QmarkIoc} (calm : ¬ Resets env (.ioctl cmd) s) :
    Disciplined (Locked.qmarkCdevIoctl env cmd s) := by
  -- the dispatcher takes no lock of its own, so each command is as disciplined as what it calls
  cases cmd with
  | ruleAdd qr =>
    apply disciplined_afterCopy
    exact (disciplined_section _ _).reply _
  | ruleDel qr =>
    apply disciplined_afterCopy
    exact (disciplined_section _ _).reply _
  | ruleLst => exact (disciplined_qmarkListRule s).reply _
  | ruleFlush => exact (disciplined_qmarkFlushRule env s).reply _
  | hashAdd qh =>
    apply disciplined_afterCopy
    split
    · exact Moves.known _
    · apply Moves.bind (disciplined_qmarkAddHash env qh.ip qh.id qh.mark s)
      intro added _
      dsimp only
      split
      · exact Moves.known _
      · exact Moves.known _
  | hashDel qh =>
    apply disciplined_afterCopy
    split
    · exact Moves.known _
    · apply Moves.bind (disciplined_qmarkDelHash qh.ip 0 s)
      intro deleted _
      dsimp only
      split
      · exact Moves.known _
      · exact Moves.known _
  | hashChk qh =>
    apply disciplined_afterCopy
    split
    · exact Moves.known _
    · apply Moves.bind (moves_qosMarktblHashtblGet qh.ip s rfl)
      intro found _
      dsimp only
      split
      · exact Moves.known _
      · exact Moves.known _
  | hashLst => exact (disciplined_qmarkListHash s).reply _
  | hashFlush => exact (disciplined_qmarkFlushHash env s).reply _
  | markAlo =>
    apply Moves.bind (disciplined_qmarkAllocMark s)
    intro allocated _
    dsimp only
    split
    · exact Moves.known _
    · exact Moves.known _
  | markFree mark =>
    apply disciplined_afterCopy
    exact (disciplined_section _ _).reply _
  | markFlush => exact (disciplined_section _ _).reply _
  | dump => exact (disciplined_qmarkDump s).reply _
  | reset flag =>
    show Disciplined (Locked.afterCopy env s _)
    unfold Locked.afterCopy
    split
    · exact Moves.known _
    · rename_i copied
      apply Disciplined.reply
      apply disciplined_qmarkReset
      -- RESET 1 takes the lock twice, unless it faults in the bitmap before
      by_cases clear : flag = 0
      · exact .inl clear
      · right
        intro bm live
        exact calm ⟨flag, bm, rfl, Int.not_lt.mp copied, clear, live⟩
  | netdevSet lanDev wanDev =>
    apply disciplined_afterCopy
    apply Moves.enter rfl
    exact Moves.leave (Moves.known _)
  | specSet maxIpCnt maxRuleCnt =>
    apply disciplined_afterCopy
    exact (disciplined_qmarkSetSpec env s maxIpCnt maxRuleCnt).reply _
  -- TC_ADD and TC_DEL run without the lock
  | tcAdd =>
    apply Moves.compute
    intro rn _
    apply Moves.compute
    intro s' _
    exact Moves.known _
  | tcDel =>
    apply Moves.compute
    intro rn _
    apply Moves.compute
    intro s' _
    exact Moves.known _

theorem disciplined_run {e : EntryPoint} (calm : ¬ Resets env e s) :
    Disciplined (e.run env s) := by
  cases e with
  | ioctl cmd => exact (disciplined_qmarkCdevIoctl calm).reply _
  | findHash srcIp => exact Disciplined.reply (moves_qosMarktblHashtblGet srcIp s rfl) _
  | allocMarkAuto srcIp id mark =>
    exact (disciplined_qmarkAllocMarkAuto env srcIp id mark s).reply _
  | conntrackEvent events ct => exact disciplined_qmarkConntrackEvent env s events ct

theorem follow_run_none {e : EntryPoint} (resets : Resets env e s) :
    follow lockInside [] (e.run env s).events = none := by
  obtain ⟨flag, bm, rfl, copied, set, live⟩ := resets
  apply follow_bind_none
  show follow lockInside [] (Locked.afterCopy env s _).events = none
  unfold Locked.afterCopy
  rw [if_neg (Int.not_lt.mpr copied)]
  exact follow_bind_none (follow_qmarkReset env s set live)

end EntryPoints

/-- An entry point keeps the order of the locks and ends with both free unless it is a
reset that is carried out. -/
theorem lock_discipline_iff (env : Env) (e : EntryPoint) (s : St) :
    Disciplined (e.run env s) ↔ ¬ Resets env e s := by
  constructor
  · intro disciplined resets
    have legal := disciplined.legal
    rw [follow_run_none resets] at legal
    cases legal
  · exact disciplined_run

/-- After module init a reset with flag 1 takes `qmark_op_lock` twice. -/
theorem reset_takes_lock_twice :
    ¬ ∀ (env : Env) (e : EntryPoint) (s : St), Reached s → Disciplined (e.run env s) := by
  intro disciplined
  have legal := (disciplined plainEnv (.ioctl (.reset 1)) (qosMarktblInit plainEnv).2
    ⟨plainEnv, rfl, .refl⟩).legal
  have resets : Resets plainEnv (.ioctl (.reset 1)) (qosMarktblInit plainEnv).2 :=
    ⟨1, _, rfl, by decide, by decide, rfl⟩
  rw [follow_run_none resets] at legal
  cases legal

/-! ## Calls one after the other -/

/-- Each call starts where the one before it returned. -/
def runCalls : List (Env × EntryPoint) → St → Exec St
  | [], s => return s
  | (env, e) :: calls, s => do
    let s ← e.run env s
    runCalls calls s

/-- Without a reset the locks are free again after any number of calls. -/
theorem disciplined_runCalls {calls : List (Env × EntryPoint)} {s : St}
    (calm : Allowed (fun l s => (l.2.run l.1 s).result) (fun l s => ¬ Resets l.1 l.2 s) calls s) :
    Disciplined (runCalls calls s) := by
  induction calls generalizing s with
  | nil => exact Moves.known s
  | cons l calls ih =>
    obtain ⟨calmHere, rest⟩ := calm
    apply Moves.bind (disciplined_run calmHere)
    intro s' returned
    apply ih
    simp only [returned] at rest
    exact rest

end IpQos.Verified
