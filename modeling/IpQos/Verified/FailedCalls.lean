import IpQos.Kmod.UserCopy
import IpQos.Verified.Removal
import IpQos.Verified.Target

/-! # Ioctls that fail

What an ioctl leaves behind when it returns an error.  The helpers check before they
write, except where a reference is given back before it is known whether the entry can
go, and where a mark is taken before it is known whether it can be handed over. -/

namespace IpQos.Verified

open IpQos.Kmod
open IpQos.Lib (ByteOrder)
open Indexed (modifyNode_found)

variable {env : Env} {s s' : St} {r : Reply} {ip : Be32} {mark mark' : Nat} {ret : RetCode}

structure SameTables (s s' : St) : Prop where
  markBitmap : s'.markBitmap = s.markBitmap
  gMarktblHead : s'.gMarktblHead = s.gMarktblHead
  gRuletbl : s'.gRuletbl = s.gRuletbl

theorem SameTables.refl (s : St) : SameTables s s := ⟨rfl, rfl, rfl⟩

/-! ## Entries with more than one reference -/

/-- The entry of `ip` still has a reference after one is given back. -/
def HeldFurther (ip : Be32) (s : St) : Prop :=
  ∃ e, marktblHashGet ip s = .ok (some e) ∧ 0 < atomicDec e.count

theorem atomicDec_ne (c : Int) : atomicDec c ≠ c := by
  unfold atomicDec
  rw [Int.bmod_def]
  split <;> omega

/-- `HASH_DEL` takes the reference away before it finds that the entry has to stay. -/
theorem qmarkDelHash_held {e : MarktblNode} (found : marktblHashGet ip s = .ok (some e))
    (held : 0 < atomicDec e.count) (mark : Nat) :
    ∃ head, qmarkDelHash ip mark s = .ok (.error, mark, s.setHead head) ∧
      (s.setHead head).gMarktblHead ≠ s.gMarktblHead := by
  obtain ⟨head, dropped, found'⟩ :=
    modifyNode_found found (f := fun n => { n with count := atomicDec n.count }) fun _ => rfl
  refine ⟨head, ?_, ?_⟩
  · simp only [qmarkDelHash, found, ok_bind, dropped, if_neg (Int.not_le.mpr held)]
    rfl
  · intro same
    rw [marktblHashGet_congr same ip, found] at found'
    have counts : e.count = atomicDec e.count :=
      congrArg MarktblNode.count (Option.some.inj (Except.ok.inj found'))
    exact atomicDec_ne e.count counts.symm

theorem qmarkDelHash_failed (ran : qmarkDelHash ip mark s = .ok (ret, mark', s'))
    (failed : ret ≠ .ok) (notHeld : ¬ HeldFurther ip s) :
    marktblHashGet ip s = .ok none ∧ s' = s := by
  obtain ⟨node, found, ran⟩ := bind_eq_ok ran
  cases node with
  | none =>
    cases ran
    exact ⟨found, rfl⟩
  | some e =>
    have last : atomicDec e.count ≤ 0 := Int.not_lt.mp fun held => notHeld ⟨e, found, held⟩
    dsimp only at ran
    obtain ⟨s₁, _, ran⟩ := bind_eq_ok ran
    rw [if_pos last] at ran
    obtain ⟨removed, _, ran⟩ := bind_eq_ok ran
    obtain ⟨rn, _, ran⟩ := bind_eq_ok ran
    split at ran
    · obtain ⟨s₂, _, ran⟩ := bind_eq_ok ran
      obtain ⟨s₃, _, ran⟩ := bind_eq_ok ran
      cases ran
      exact (failed rfl).elim
    · cases ran
      exact (failed rfl).elim

/-! ## Marks that are left -/

def HasClearBit (s : St) : Prop :=
  ∃ bm, s.markBitmap = .to bm ∧ ∃ i < s.maxIpCnt, bm[i]? = some false

theorem findFirstZeroBit_clear {bm : List Bool} {size : Nat}
    (below : findFirstZeroBit bm size < size) (inBitmap : findFirstZeroBit bm size < bm.length) :
    bm[findFirstZeroBit bm size]? = some false := by
  have inTaken : (bm.take size).findIdx (!·) < (bm.take size).length := by
    rw [List.length_take]
    exact Nat.lt_min.mpr ⟨below, inBitmap⟩
  have clear := List.findIdx_getElem (w := inTaken)
  simp only [List.getElem_take, Bool.not_eq_eq_eq_not, Bool.not_true] at clear
  rw [List.getElem?_eq_getElem inBitmap]
  exact congrArg some clear

theorem findFirstZeroBit_le {bm : List Bool} {i : Nat} (size : Nat)
    (bit : bm[i]? = some false) : findFirstZeroBit bm size ≤ i := by
  by_contra later
  have isSet := List.not_of_lt_findIdx (Nat.lt_of_not_le later)
  obtain ⟨_, value⟩ := List.getElem?_eq_some_iff.mp bit
  rw [List.getElem_take, value] at isSet
  cases isSet

theorem allocMark_clear (clear : HasClearBit s) :
    ∃ mark s', allocMark s = .ok (mark, s') ∧ s'.markBitmap ≠ s.markBitmap := by
  obtain ⟨bm, live, i, below, bit⟩ := clear
  have first := findFirstZeroBit_le s.maxIpCnt bit
  obtain ⟨inBitmap, _⟩ := List.getElem?_eq_some_iff.mp bit
  have below_first : findFirstZeroBit bm s.maxIpCnt < s.maxIpCnt := Nat.lt_of_le_of_lt first below
  have in_first : findFirstZeroBit bm s.maxIpCnt < bm.length := Nat.lt_of_le_of_lt first inBitmap
  have wasClear := findFirstZeroBit_clear below_first in_first
  refine ⟨bitMark (findFirstZeroBit bm s.maxIpCnt),
    s.setBits (bm.set (findFirstZeroBit bm s.maxIpCnt) true), ?_, ?_⟩
  · simp only [allocMark, live, Ptr.deref_to, ok_bind, if_neg (Nat.not_le_of_lt below_first),
      writeBit, if_pos in_first]
    rfl
  · rw [live]
    intro same
    have bits : bm.set (findFirstZeroBit bm s.maxIpCnt) true = bm := Ptr.to.inj same
    have nowSet := List.getElem?_set_self (a := true) in_first
    rw [bits, wasClear] at nowSet
    cases nowSet

theorem allocMark_full (ran : allocMark s = .ok (mark, s')) (full : ¬ HasClearBit s) : s' = s := by
  obtain ⟨bm, deref, ran⟩ := bind_eq_ok ran
  dsimp only at ran
  split at ran
  · cases ran
    rfl
  · rename_i below
    obtain ⟨bm', write, _⟩ := bind_eq_ok ran
    have below_first : findFirstZeroBit bm s.maxIpCnt < s.maxIpCnt := Nat.lt_of_not_le below
    unfold writeBit at write
    split at write
    · rename_i inBitmap
      exact (full ⟨bm, Ptr.deref_eq_ok deref, _, below_first,
        findFirstZeroBit_clear below_first inBitmap⟩).elim
    · cases write

/-! ## Every command -/

/-- The failures that leave a trace: `HASH_DEL` of an entry with further references, and
    `MARK_ALO` whose mark cannot be copied to its caller. -/
def LeavesTrace (env : Env) (cmd : QmarkIoc) (s : St) : Prop :=
  match cmd with
  | .hashDel qh => 0 ≤ env.copyFromUser ∧ qh.ip ≠ 0 ∧ HeldFurther qh.ip s
  | .markAlo => env.copyToUser < 0 ∧ HasClearBit s
  | _ => False

theorem of_afterCopy {body : Except Oops (Reply × St)}
    (ran : afterCopy env s body = .ok (r, s')) :
    s' = s ∨ 0 ≤ env.copyFromUser ∧ body = .ok (r, s') := by
  unfold afterCopy at ran
  split at ran
  · cases ran
    exact .inl rfl
  · exact .inr ⟨Int.not_lt.mp ‹_›, ran⟩

/-- A command that goes on to `return 0` after its copy. -/
theorem afterCopy_done {x : Except Oops St}
    (ran : (afterCopy env s do
      let s ← x
      return (Reply.done, s)) = .ok (r, s')) (failed : r.ret < 0) : s' = s := by
  rcases of_afterCopy ran with same | ⟨_, ran⟩
  · exact same
  · obtain ⟨s₁, _, ran⟩ := bind_eq_ok ran
    cases ran
    cases failed

theorem failed_unchanged {cmd : QmarkIoc} (ran : qmarkCdevIoctl env cmd s = .ok (r, s'))
    (failed : r.ret < 0) (noTrace : ¬ LeavesTrace env cmd s) : s' = s := by
  -- a command fails on its argument, which is before anything is written, or in what it calls
  cases cmd with
  | ruleAdd qr => exact afterCopy_done ran failed
  | ruleDel qr => exact afterCopy_done ran failed
  | markFree mark => exact afterCopy_done ran failed
  | reset mark => exact afterCopy_done ran failed
  | specSet maxIpCnt maxRuleCnt => exact afterCopy_done ran failed
  | netdevSet lanDev wanDev =>
    rcases of_afterCopy ran with same | ⟨_, ran⟩
    · exact same
    · cases ran
      cases failed
  | hashAdd qh =>
    rcases of_afterCopy ran with same | ⟨_, ran⟩
    · exact same
    · split at ran
      · cases ran
        rfl
      · obtain ⟨⟨ret, s₁⟩, add, ran⟩ := bind_eq_ok ran
        dsimp only at ran
        split at ran
        · rename_i negative
          cases ran
          cases qmarkAddHash_cases add with
          | inl refused => exact refused.2
          | inr added =>
            rw [added.1] at negative
            cases negative
        · cases ran
          cases failed
  | hashDel qh =>
    rcases of_afterCopy ran with same | ⟨copied, ran⟩
    · exact same
    · split at ran
      · cases ran
        rfl
      · rename_i nonzero
        obtain ⟨⟨ret, mark, s₁⟩, del, ran⟩ := bind_eq_ok ran
        dsimp only at ran
        split at ran
        · rename_i negative
          cases ran
          -- the one deletion that fails late has lowered the count
          refine (qmarkDelHash_failed del ?_ fun held => noTrace ⟨copied, nonzero, held⟩).2
          rintro rfl
          cases negative
        · cases ran
          cases failed
  | hashChk qh =>
    rcases of_afterCopy ran with same | ⟨_, ran⟩
    · exact same
    · split at ran
      · cases ran
        rfl
      · obtain ⟨found, _, ran⟩ := bind_eq_ok ran
        dsimp only at ran
        split at ran <;> cases ran <;> rfl
  | markAlo =>
    obtain ⟨⟨ret, mark, s₁⟩, alloc, ran⟩ := bind_eq_ok ran
    dsimp only at ran
    split at ran
    · rename_i notCopied
      cases ran
      obtain ⟨⟨mark', s₂⟩, taken, alloc⟩ := bind_eq_ok alloc
      -- the mark is taken before it is copied to the caller
      have same := allocMark_full taken fun clear => noTrace ⟨notCopied, clear⟩
      dsimp only at alloc
      split at alloc <;> cases alloc <;> exact same
    · cases ran
      cases failed
  | hashFlush | markFlush | ruleLst | hashLst | dump =>
    obtain ⟨_, _, ran⟩ := bind_eq_ok ran
    cases ran
    cases failed
  | tcAdd | tcDel =>
    obtain ⟨rn, _, ran⟩ := bind_eq_ok ran
    obtain ⟨s₁, _, ran⟩ := bind_eq_ok ran
    cases ran
    cases failed
  | ruleFlush =>
    cases ran
    cases failed

theorem trace_left {cmd : QmarkIoc} (trace : LeavesTrace env cmd s) :
    ∃ r s', qmarkCdevIoctl env cmd s = .ok (r, s') ∧ r.ret < 0 ∧ ¬ SameTables s s' := by
  cases cmd with
  | hashDel qh =>
    obtain ⟨copied, nonzero, e, found, held⟩ := trace
    obtain ⟨head, ran, changed⟩ := qmarkDelHash_held found held 0
    refine ⟨.invalid, s.setHead head, ?_, by decide, fun same => changed same.gMarktblHead⟩
    simp only [qmarkCdevIoctl, afterCopy, if_neg (Int.not_lt.mpr copied), if_neg nonzero, ran,
      ok_bind]
    rfl
  | markAlo =>
    obtain ⟨notCopied, clear⟩ := trace
    obtain ⟨mark, s', ran, changed⟩ := allocMark_clear clear
    refine ⟨.invalid, s', ?_, by decide, fun same => changed same.markBitmap⟩
    simp only [qmarkCdevIoctl, qmarkAllocMark, ran, ok_bind]
    by_cases zero : 0 = mark
    · simp only [if_pos zero, pure_eq_ok, ok_bind, if_pos notCopied]
    · simp only [if_neg zero, pure_eq_ok, ok_bind, if_pos notCopied]
  | ruleAdd | ruleDel | ruleLst | ruleFlush | hashAdd | hashChk | hashLst | hashFlush | markFree
  | markFlush | dump | reset | netdevSet | specSet | tcAdd | tcDel => exact trace.elim

/-- From any state, a failure leaves the tables as they were exactly if it is none of the two. -/
theorem failed_ioctl_iff (env : Env) (cmd : QmarkIoc) (s : St) :
    (∀ r s', qmarkCdevIoctl env cmd s = .ok (r, s') → r.ret < 0 → SameTables s s') ↔
      ¬ LeavesTrace env cmd s := by
  constructor
  · intro same trace
    obtain ⟨r, s', ran, failed, changed⟩ := trace_left trace
    exact changed (same r s' ran failed)
  · intro noTrace r s' ran failed
    cases failed_unchanged ran failed noTrace
    exact .refl s

/-- With two connections `HASH_DEL` reports an error and takes a reference away. -/
theorem failed_del_counts :
    ∃ s r s', Reached s ∧ qmarkCdevIoctl plainEnv (.hashDel ⟨7, 1, 0⟩) s = .ok (r, s') ∧
      r.ret < 0 ∧ ¬ SameTables s s' := by
  have reached : Reached _ := reached_of_trace (s := _) twoConnTrace twoConnTrace_words rfl
  refine ⟨_, .invalid, _, reached, rfl, by decide, ?_⟩
  intro same
  have heads := same.gMarktblHead
  revert heads
  decide

/-! ## Arguments that cannot be read -/

/-- Everything but the histories of the model. -/
structure SameModule (s s' : St) : Prop where
  tables : SameTables s s'
  resetFlag : s'.resetFlag = s.resetFlag
  maxIpCnt : s'.maxIpCnt = s.maxIpCnt
  maxRuleCnt : s'.maxRuleCnt = s.maxRuleCnt
  qmarkLanDev : s'.qmarkLanDev = s.qmarkLanDev
  qmarkWanDev : s'.qmarkWanDev = s.qmarkWanDev

theorem SameModule.refl (s : St) : SameModule s s := ⟨.refl s, rfl, rfl, rfl, rfl, rfl⟩

def Rejected (env : Env) (cmd : QmarkIoc) (s : St) : Prop :=
  ∃ s', qmarkCdevIoctl env cmd s = .ok (.invalid, s') ∧ SameModule s s'

/-- The refusals of `qmark_add_hash`: a mark that is not allocated, a full table, no memory. -/
def AddRefused (env : Env) (qh : QmarkHash) (s : St) : Prop :=
  testMark qh.mark s = .ok false ∨
    testMark qh.mark s = .ok true ∧
      (elemOverLimit s = .ok true ∨
        elemOverLimit s = .ok false ∧ marktblHashGet qh.ip s = .ok none ∧
          env.kmalloc .marktblNode = false)

/-- The test of `copy_from_user` never refuses anything, so a command is refused only if it
    refuses the argument that is left of it. -/
def StillRefused (env : Env) (cmd : QmarkIoc) (s : St) : Prop :=
  match cmd with
  | .hashAdd qh => qh.ip = 0 ∨ AddRefused env qh s
  | .hashDel qh => qh.ip = 0 ∨ marktblHashGet qh.ip s = .ok none
  | .hashChk qh =>
    qh.ip = 0 ∨ env.copyToUser < 0 ∧ ∃ node, marktblHashGet qh.ip s = .ok node
  | _ => False

theorem AddRefused.refuses {qh : QmarkHash} (refused : AddRefused env qh s) :
    ∃ ret, ret ≠ .ok ∧ qmarkAddHash env qh.ip qh.id qh.mark s = .ok (ret, s) := by
  rcases refused with unallocated | ⟨allocated, full | ⟨space, fresh, noMemory⟩⟩
  · refine ⟨.error, by decide, ?_⟩
    simp only [qmarkAddHash, qosMarktblHashtblAdd, unallocated, ok_bind]
    rfl
  · refine ⟨.overMax, by decide, ?_⟩
    simp only [qmarkAddHash, qosMarktblHashtblAdd, allocated, marktblHashAdd, full, ok_bind]
    rfl
  · obtain ⟨head, deref, fresh⟩ := bind_eq_ok fresh
    obtain ⟨i, index, fresh⟩ := bind_eq_ok fresh
    obtain ⟨chain, here, fresh⟩ := bind_eq_ok fresh
    have absent : chain.find? (marktblHashCmp qh.ip) = none := Except.ok.inj fresh
    refine ⟨.allocFail, by decide, ?_⟩
    simp only [qmarkAddHash, qosMarktblHashtblAdd, allocated, marktblHashAdd, space, ok_bind,
      deref, index, here, absent, noMemory]
    rfl

theorem AddRefused.of_failed {qh : QmarkHash}
    (ran : qmarkAddHash env qh.ip qh.id qh.mark s = .ok (ret, s')) (failed : ret ≠ .ok) :
    AddRefused env qh s := by
  -- the tests in the order of the code: the mark, the limit, and the memory for the node
  obtain ⟨allocated, test, ran⟩ := bind_eq_ok ran
  cases allocated with
  | false => exact .inl test
  | true =>
    refine .inr ⟨test, ?_⟩
    obtain ⟨limited, limit, ran⟩ := bind_eq_ok ran
    cases limited with
    | true => exact .inl limit
    | false =>
      obtain ⟨head, deref, ran⟩ := bind_eq_ok ran
      obtain ⟨i, index, ran⟩ := bind_eq_ok ran
      obtain ⟨chain, here, ran⟩ := bind_eq_ok ran
      split at ran
      · obtain ⟨_, null, _⟩ := bind_eq_ok ran
        cases null
      · rename_i absent
        split at ran
        · obtain ⟨s₁, _, ran⟩ := bind_eq_ok ran
          cases ran
          exact (failed rfl).elim
        · rename_i noMemory
          refine .inr ⟨limit, ?_, Bool.eq_false_iff.mpr noMemory⟩
          simp only [marktblHashGet, deref, index, here, ok_bind, absent]
          rfl

theorem afterCopy_copied (copied : 0 ≤ env.copyFromUser) (body : Except Oops (Reply × St)) :
    afterCopy env s body = body := if_neg (Int.not_lt.mpr copied)

theorem rejected_hashAdd (copied : 0 ≤ env.copyFromUser) (qh : QmarkHash) :
    Rejected env (.hashAdd qh) s ↔ qh.ip = 0 ∨ AddRefused env qh s := by
  have body := afterCopy_copied (s := s) copied
  constructor
  · rintro ⟨s', ran, _⟩
    rw [qmarkCdevIoctl, body] at ran
    split at ran
    · exact .inl ‹_›
    · obtain ⟨⟨ret, s₁⟩, add, ran⟩ := bind_eq_ok ran
      dsimp only at ran
      split at ran
      · rename_i negative
        refine .inr (.of_failed add ?_)
        rintro rfl
        cases negative
      · cases ran
  · intro refused
    refine ⟨s, ?_, .refl s⟩
    rw [qmarkCdevIoctl, body]
    split
    · rfl
    · rename_i nonzero
      -- every code but 0 is negative
      obtain ⟨ret, failed, add⟩ := (refused.resolve_left nonzero).refuses
      have negative : ret.toInt < 0 := by
        cases ret with
        | ok => exact (failed rfl).elim
        | error | countNozero | noExist | overMax | allocFail => decide
      simp only [add, ok_bind, if_pos negative]
      rfl

theorem rejected_hashDel (copied : 0 ≤ env.copyFromUser) (qh : QmarkHash) :
    Rejected env (.hashDel qh) s ↔ qh.ip = 0 ∨ marktblHashGet qh.ip s = .ok none := by
  have body := afterCopy_copied (s := s) copied
  constructor
  · rintro ⟨s', ran, same⟩
    by_contra accepted
    have nonzero : qh.ip ≠ 0 := fun zero => accepted (.inl zero)
    -- an entry that is still held is refused too, but not without a trace
    by_cases held : HeldFurther qh.ip s
    · obtain ⟨e, found, held⟩ := held
      obtain ⟨head, del, changed⟩ := qmarkDelHash_held found held 0
      rw [qmarkCdevIoctl, body, if_neg nonzero, del, ok_bind] at ran
      cases ran
      exact changed same.tables.gMarktblHead
    · rw [qmarkCdevIoctl, body, if_neg nonzero] at ran
      obtain ⟨⟨ret, mark, s₁⟩, del, ran⟩ := bind_eq_ok ran
      dsimp only at ran
      split at ran
      · rename_i negative
        refine accepted (.inr (qmarkDelHash_failed del ?_ held).1)
        rintro rfl
        cases negative
      · cases ran
  · intro refused
    refine ⟨s, ?_, .refl s⟩
    rw [qmarkCdevIoctl, body]
    split
    · rfl
    · rename_i nonzero
      have absent := refused.resolve_left nonzero
      simp only [qmarkDelHash, absent, ok_bind]
      rfl

theorem rejected_hashChk (copied : 0 ≤ env.copyFromUser) (qh : QmarkHash) :
    Rejected env (.hashChk qh) s ↔
      qh.ip = 0 ∨ env.copyToUser < 0 ∧ ∃ node, marktblHashGet qh.ip s = .ok node := by
  -- an address without entry is answered with mark 0, which is no failure
  have body := afterCopy_copied (s := s) copied
  constructor
  · rintro ⟨s', ran, _⟩
    rw [qmarkCdevIoctl, body] at ran
    split at ran
    · exact .inl ‹_›
    · obtain ⟨found, find, ran⟩ := bind_eq_ok ran
      obtain ⟨node, get, _⟩ := bind_eq_ok find
      dsimp only at ran
      split at ran
      · exact .inr ⟨‹_›, node, get⟩
      · cases ran
  · intro refused
    refine ⟨s, ?_, .refl s⟩
    rw [qmarkCdevIoctl, body]
    split
    · rfl
    · rename_i nonzero
      obtain ⟨notCopied, node, get⟩ := refused.resolve_left nonzero
      cases node with
      | none => simp only [qmarkFindHash, qosMarktblHashtblGet, get, ok_bind, pure_eq_ok,
          if_pos notCopied]
      | some e => simp only [qmarkFindHash, qosMarktblHashtblGet, get, ok_bind, pure_eq_ok,
          if_pos notCopied]

/-- A command that goes on to `return 0` is not rejected. -/
theorem not_rejected_of_done {cmd : QmarkIoc} {x : Except Oops St} (copied : 0 ≤ env.copyFromUser)
    (body : qmarkCdevIoctl env cmd s = afterCopy env s do
      let s ← x
      return (Reply.done, s)) : ¬ Rejected env cmd s := by
  rintro ⟨s', ran, _⟩
  rw [body, afterCopy_copied copied] at ran
  obtain ⟨s₁, _, ran⟩ := bind_eq_ok ran
  cases ran

/-- With bytes that could not be copied a command is rejected exactly if it refuses the
    cleared argument on its own account. -/
theorem short_copy_rejected_iff (o : ByteOrder) (c : ArgCmd) (arg : List UInt8) {left : Nat}
    (fails : env.copyFromUser = left) (s : St) :
    Rejected env (c.decode o (copied arg left)) s ↔
      StillRefused env (c.decode o (copied arg left)) s := by
  have copied : 0 ≤ env.copyFromUser := by omega
  cases c with
  | hashAdd => exact rejected_hashAdd copied _
  | hashDel => exact rejected_hashDel copied _
  | hashChk => exact rejected_hashChk copied _
  | ruleAdd | ruleDel | markFree | reset | specSet =>
    exact iff_of_false (not_rejected_of_done copied rfl) id
  | netdevSet => exact iff_of_false (not_rejected_of_done (x := .ok _) copied rfl) id

/-- Of the argument of `HASH_DEL` the id and the mark are not read: the address is there, and no
    entry has it. -/
theorem partlyRead_del_rejected :
    Rejected { plainEnv with copyFromUser := 8 }
      (ArgCmd.hashDel.decode .little (copied [7, 0, 0, 0, 1, 0, 0, 0, 0, 8, 0, 0] 8)) smallSt :=
  (short_copy_rejected_iff .little .hashDel _ rfl _).mpr (.inr (by decide))

/-- No byte of the argument of `NETDEV_SET` is read: it returns 0, and both names are empty. -/
theorem unread_netdev_accepted :
    ∃ s', Reached (qosMarktblInit plainEnv).2 ∧
      qmarkCdevIoctl { plainEnv with copyFromUser := 32 }
        (ArgCmd.netdevSet.decode .little (copied (List.replicate 32 97) 32))
        (qosMarktblInit plainEnv).2 = .ok (.done, s') ∧
      s'.qmarkLanDev = "" ∧ s'.qmarkWanDev = "" ∧
      (qosMarktblInit plainEnv).2.qmarkLanDev ≠ "" :=
  ⟨_, ⟨plainEnv, rfl, .refl⟩, rfl, by decide, by decide, by decide⟩

end IpQos.Verified
