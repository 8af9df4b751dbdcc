import IpQos.Kmod.Ops
import IpQos.Lib.Locks

/-! # The functions with their locks

The functions of `kmod/qos_marktbl_main.c` once more, each with the places where it
takes and releases `qmark_op_lock` and the lock of the hash head.  The parts between
them are those of the model without locks. -/

namespace IpQos.Kmod

open IpQos.Lib (Locking)

inductive Lock where
  /-- `qmark_op_lock` -/
  | op
  /-- `g_marktbl_head->lock` -/
  | head
  deriving DecidableEq, Repr

abbrev Exec (α : Type) := Locking Lock Oops α

def spinLockBh (l : Lock) : Exec Unit := .acquire l

def spinUnlockBh (l : Lock) : Exec Unit := .release l

namespace Locked

/-! ## Hash table -/

def marktblHashGet (key : Be32) (s : St) : Exec (Option MarktblNode) := do
  let head ← .lift s.gMarktblHead.deref
  let i ← .lift (hashIndex head key)
  spinLockBh .head
  let chain ← .lift (bucket head i)
  match chain.find? (marktblHashCmp key) with
  | some entry =>
    spinUnlockBh .head
    return some entry
  | none =>
    spinUnlockBh .head
    return none

def marktblHashAdd (env : Env) (key : Be32) (id mark : Nat) (s : St) : Exec (RetCode × St) := do
  let limited ← .lift (elemOverLimit s)
  if limited then return (.overMax, s)
  else
    let markNode : Ptr MarktblNode := .null
    let head ← .lift s.gMarktblHead.deref
    let i ← .lift (hashIndex head key)
    spinLockBh .head
    let chain ← .lift (bucket head i)
    match chain.find? (marktblHashCmp key) with
    | some _ =>
      let _ ← .lift markNode.deref
      spinUnlockBh .head
      return (.ok, s)
    | none =>
      if env.kmalloc .marktblNode then
        let node : MarktblNode := { srcIp := key, id, mark, count := 0 }
        let s ← .lift (modifyRule id (fun rn => { rn with count := atomicInc rn.count }) s)
        spinUnlockBh .head
        return (.ok, s.setHead
          { head with elemNum := u32 (head.elemNum + 1), ht := head.ht.modify i (node :: ·) })
      else
        spinUnlockBh .head
        return (.allocFail, s)

def marktblHashRemove (key : Be32) (s : St) : Exec (RetCode × Option MarktblNode × St) := do
  let head ← .lift s.gMarktblHead.deref
  let i ← .lift (hashIndex head key)
  spinLockBh .head
  let chain ← .lift (bucket head i)
  match chain.find? (marktblHashCmp key) with
  | some entry =>
    if entry.count > 0 then
      spinUnlockBh .head
      return (.countNozero, none, s)
    else
      let s := s.setHead
        { head with
          elemNum := subU32 head.elemNum 1
          ht := head.ht.modify i (·.eraseP (marktblHashCmp key)) }
      let s ← .lift (modifyRule entry.id (fun rn => { rn with count := atomicDec rn.count }) s)
      spinUnlockBh .head
      return (.ok, some entry, s)
  | none =>
    spinUnlockBh .head
    return (.noExist, none, s)

def marktblHashClean (s : St) : Exec St := do
  let _ ← .lift s.gMarktblHead.deref
  spinLockBh .head
  let s ← .lift (Kmod.marktblHashClean s)
  spinUnlockBh .head
  return s

def marktblHashList (s : St) : Exec Unit := do
  let _ ← .lift s.gMarktblHead.deref
  spinLockBh .head
  spinUnlockBh .head

def qosMarktblHashtblAdd (env : Env) (srcIp : Be32) (id mark : Nat) (s : St) :
    Exec (RetCode × St) := do
  let allocated ← .lift (testMark mark s)
  if !allocated then return (.error, s)
  else marktblHashAdd env srcIp id mark s

def qosMarktblHashtblDel (srcIp : Be32) (s : St) : Exec (RetCode × Nat × St) := do
  let (ret, markNode, s) ← marktblHashRemove srcIp s
  match ret, markNode with
  | .ok, some node => return (ret, node.mark, s)
  | _, _ => return (ret, 0, s)

def qosMarktblHashtblGet (srcIp : Be32) (s : St) : Exec (RetCode × Nat) := do
  let markNode ← marktblHashGet srcIp s
  match markNode with
  | some node => return (.ok, node.mark)
  | none => return (.noExist, 0)

/-- The lock is freed with the head it belongs to, after it was released. -/
def qosMarktblHashtblExit (s : St) : Exec St :=
  match s.gMarktblHead with
  | .null => return s
  | _ => do
    let s ← marktblHashClean s
    return { s with gMarktblHead := .null }

/-! ## conntrack event handle -/

/-- The branch for `IPCT_DESTROY`. -/
def conntrackDestroy (env : Env) (ipAddr : Be32) (s : St) : Exec St := do
  spinLockBh .op
  let markNode ← marktblHashGet ipAddr s
  match markNode with
  | none =>
    spinUnlockBh .op
    return s
  | some node =>
    let s ← .lift (modifyNode ipAddr (fun n => { n with count := atomicDec n.count }) s)
    if atomicDec node.count ≤ 0 then
      let id := node.id
      let (_, mark, s) ← qosMarktblHashtblDel ipAddr s
      let rn ← .lift (ruleAt id s)
      if privMode = rn.mode ∨ 0 = rn.count then
        let s ← .lift (modifyRule id (fun rn => { rn with mark := 0 }) s)
        let rn ← .lift (ruleAt id s)
        let s ← .lift (qmarkTcDelRule env rn mark s)
        let s ← .lift (freeMark mark s)
        spinUnlockBh .op
        return s
      else
        spinUnlockBh .op
        return s
    else
      spinUnlockBh .op
      return s

/-- The branch for `IPCT_MARK`. -/
def conntrackMark (ipAddr : Be32) (s : St) : Exec St := do
  spinLockBh .op
  let markNode ← marktblHashGet ipAddr s
  match markNode with
  | none =>
    spinUnlockBh .op
    return s
  | some _ =>
    let s ← .lift (modifyNode ipAddr (fun n => { n with count := atomicInc n.count }) s)
    spinUnlockBh .op
    return s

def qmarkConntrackEvent (env : Env) (events : Nat) (ct : Option NfConn) (s : St) : Exec St :=
  match ct with
  | none => return s
  | some ct =>
    if ct.tracked then
      if events &&& ipctDestroy ≠ 0 then conntrackDestroy env ct.ipAddr s
      else if events &&& ipctMark ≠ 0 then conntrackMark ct.ipAddr s
      else return s
    else return s

/-! ## API -/

def qmarkAddRule (id mode devid rate rateMate rateMin rateMinMate : Nat) (s : St) : Exec St := do
  spinLockBh .op
  let s ← .lift (Kmod.qmarkAddRule id mode devid rate rateMate rateMin rateMinMate s)
  spinUnlockBh .op
  return s

def qmarkDelRule (id : Nat) (s : St) : Exec St := do
  spinLockBh .op
  let s ← .lift (Kmod.qmarkDelRule id s)
  spinUnlockBh .op
  return s

def qmarkListRule (s : St) : Exec Unit := do
  spinLockBh .op
  let _ ← .lift (printRules s)
  spinUnlockBh .op

def qmarkFlushRule (env : Env) (s : St) : Exec St := do
  spinLockBh .op
  let s := (qosRuletblInit env (qosRuletblExit s)).2
  spinUnlockBh .op
  return s

def qmarkFindHash (srcIp : Be32) (s : St) : Exec (RetCode × Nat) := qosMarktblHashtblGet srcIp s

def qmarkAddHash (env : Env) (srcIp : Be32) (id mark : Nat) (s : St) : Exec (RetCode × St) := do
  spinLockBh .op
  let (ret, s) ← qosMarktblHashtblAdd env srcIp id mark s
  spinUnlockBh .op
  return (ret, s)

def qmarkDelHash (srcIp : Be32) (mark : Nat) (s : St) : Exec (RetCode × Nat × St) := do
  spinLockBh .op
  let markNode ← marktblHashGet srcIp s
  match markNode with
  | none =>
    spinUnlockBh .op
    return (.error, mark, s)
  | some node =>
    let s ← .lift (modifyNode srcIp (fun n => { n with count := atomicDec n.count }) s)
    if atomicDec node.count ≤ 0 then
      let id := node.id
      let (_, mark, s) ← qosMarktblHashtblDel srcIp s
      let rn ← .lift (ruleAt id s)
      if privMode = rn.mode ∨ 0 = rn.count then
        let s ← .lift (modifyRule id (fun rn => { rn with mark := 0 }) s)
        let s ← .lift (freeMark mark s)
        spinUnlockBh .op
        return (.ok, mark, s)
      else
        spinUnlockBh .op
        return (.ok, mark, s)
    else
      spinUnlockBh .op
      return (.error, mark, s)

def qmarkListHash (s : St) : Exec Unit := do
  spinLockBh .op
  marktblHashList s
  spinUnlockBh .op

def qmarkFlushHash (env : Env) (s : St) : Exec St := do
  spinLockBh .op
  let s ← qosMarktblHashtblExit s
  let (_, s) ← .lift (qosMarktblHashtblInit env s)
  spinUnlockBh .op
  return s

def qmarkAllocMark (s : St) : Exec (RetCode × Nat × St) := do
  spinLockBh .op
  let (mark, s) ← .lift (allocMark s)
  if 0 = mark then
    spinUnlockBh .op
    return (.error, mark, s)
  else
    spinUnlockBh .op
    return (.ok, mark, s)

def qmarkFreeMark (mark : Nat) (s : St) : Exec St := do
  spinLockBh .op
  let s ← .lift (freeMark mark s)
  spinUnlockBh .op
  return s

def qmarkFlushMark (s : St) : Exec St := do
  spinLockBh .op
  let s ← .lift (flushMark s)
  spinUnlockBh .op
  return s

def allocMarkAutoAdd (env : Env) (srcIp : Be32) (id mark : Nat) (s : St) :
    Exec (RetCode × Nat × St) := do
  let (ret, s) ← qmarkAddHash env srcIp id mark s
  if ret ≠ .ok then
    let rn ← .lift (ruleAt id s)
    if privMode = rn.mode ∨ 0 = rn.count then
      let s ← .lift (modifyRule id (fun rn => { rn with mark := 0 }) s)
      let s ← qmarkFreeMark mark s
      return (.error, mark, s)
    else return (.error, mark, s)
  else
    spinLockBh .op
    let rn ← .lift (ruleAt id s)
    let s ← .lift (qmarkTcAddRule env rn mark s)
    spinUnlockBh .op
    return (.ok, mark, s)

/-- The rule table is read outside of the lock. -/
def qmarkAllocMarkAuto (env : Env) (srcIp : Be32) (id mark : Nat) (s : St) :
    Exec (RetCode × Nat × St) := do
  if s.resetFlag = true then return (.error, mark, s)
  else
    let rn ← .lift (ruleAt id s)
    if privMode = rn.mode then
      let (ret, mark, s) ← qmarkAllocMark s
      if ret ≠ .ok then return (.error, mark, s)
      else allocMarkAutoAdd env srcIp id mark s
    else
      if 0 = rn.count then
        let (ret, mark, s) ← qmarkAllocMark s
        if ret ≠ .ok then return (.error, mark, s)
        else
          let s ← .lift (modifyRule id (fun rn => { rn with mark := mark }) s)
          allocMarkAutoAdd env srcIp id mark s
      else allocMarkAutoAdd env srcIp id rn.mark s

def qmarkSetSpec (env : Env) (ipSpec ruleSpec : Nat) (s : St) : Exec St := do
  spinLockBh .op
  let s ← qosMarktblHashtblExit s
  let s := qosRuletblExit s
  let s := markBitmapExit s
  let s := { s with maxRuleCnt := ruleSpec, maxIpCnt := ipSpec }
  let s := (markBitmapInit env ipSpec s).2
  let s := (qosRuletblInit env s).2
  let (_, s) ← .lift (qosMarktblHashtblInit env s)
  spinUnlockBh .op
  return s

def qmarkReset (env : Env) (flag : Nat) (s : St) : Exec St :=
  if 0 = flag then return { s with resetFlag := false }
  else do
    let s := { s with resetFlag := true }
    spinLockBh .op
    let s ← .lift (flushMark s)
    let s ← qmarkFlushHash env s
    let s ← .lift (clearCounts s)
    spinUnlockBh .op
    return s

def qmarkDump (s : St) : Exec Unit := do
  spinLockBh .op
  let _ ← .lift (printRules s)
  marktblHashList s
  let _ ← .lift (printMarks s)
  spinUnlockBh .op

/-! ## Entry points -/

def afterCopy (env : Env) (s : St) (body : Exec (Reply × St)) : Exec (Reply × St) :=
  if env.copyFromUser < 0 then return (.invalid, s) else body

def qmarkCdevIoctl (env : Env) (cmd : QmarkIoc) (s : St) : Exec (Reply × St) :=
  match cmd with
  | .ruleAdd qr => afterCopy env s do
    let s ← qmarkAddRule qr.id qr.mode qr.devid qr.rate qr.rateMate qr.rateMin qr.rateMinMate s
    return (.done, s)
  | .ruleDel qr => afterCopy env s do
    let s ← qmarkDelRule qr.id s
    return (.done, s)
  | .ruleLst => do
    qmarkListRule s
    return (.done, s)
  | .ruleFlush => do
    let s ← qmarkFlushRule env s
    return (.done, s)
  | .hashAdd qh => afterCopy env s do
    if qh.ip = 0 then return (.invalid, s)
    else
      let (ret, s) ← qmarkAddHash env qh.ip qh.id qh.mark s
      if ret.toInt < 0 then return (.invalid, s) else return (.done, s)
  | .hashDel qh => afterCopy env s do
    if qh.ip = 0 then return (.invalid, s)
    else
      let (ret, mark, s) ← qmarkDelHash qh.ip 0 s
      if ret.toInt < 0 then return (.invalid, s) else return ({ ret := 0, mark }, s)
  | .hashChk qh => afterCopy env s do
    if qh.ip = 0 then return (.invalid, s)
    else
      let (_, mark) ← qmarkFindHash qh.ip s
      if env.copyToUser < 0 then return (.invalid, s) else return ({ ret := 0, mark }, s)
  | .hashLst => do
    qmarkListHash s
    return (.done, s)
  | .hashFlush => do
    let s ← qmarkFlushHash env s
    return (.done, s)
  | .markAlo => do
    let (_, mark, s) ← qmarkAllocMark s
    if env.copyToUser < 0 then return (.invalid, s) else return ({ ret := 0, mark }, s)
  | .markFree mark => afterCopy env s do
    let s ← qmarkFreeMark mark s
    return (.done, s)
  | .markFlush => do
    let s ← qmarkFlushMark s
    return (.done, s)
  | .dump => do
    qmarkDump s
    return (.done, s)
  | .reset mark => afterCopy env s do
    let s ← qmarkReset env mark s
    return (.done, s)
  | .netdevSet lanDev wanDev => afterCopy env s do
    spinLockBh .op
    let s := { s with qmarkLanDev := lanDev, qmarkWanDev := wanDev }
    spinUnlockBh .op
    return (.done, s)
  | .specSet maxIpCnt maxRuleCnt => afterCopy env s do
    let s ← qmarkSetSpec env maxIpCnt maxRuleCnt s
    return (.done, s)
  | .tcAdd => do
    let rn ← .lift (ruleAt 1 s)
    let s ← .lift (qmarkTcAddRule env rn 0x800 s)
    return (.done, s)
  | .tcDel => do
    let rn ← .lift (ruleAt 1 s)
    let s ← .lift (qmarkTcDelRule env rn 0x800 s)
    return (.done, s)

end Locked

/-- What the kernel calls. -/
inductive EntryPoint where
  | ioctl (cmd : QmarkIoc)
  | findHash (srcIp : Be32)
  | allocMarkAuto (srcIp : Be32) (id mark : Nat)
  | conntrackEvent (events : Nat) (ct : Option NfConn)

/-- The state an entry point leaves, with the locks on the way. -/
def EntryPoint.run (env : Env) (e : EntryPoint) (s : St) : Exec St :=
  match e with
  | .ioctl cmd => do
    let (_, s) ← Locked.qmarkCdevIoctl env cmd s
    return s
  | .findHash srcIp => do
    let _ ← Locked.qmarkFindHash srcIp s
    return s
  | .allocMarkAuto srcIp id mark => do
    let (_, _, s) ← Locked.qmarkAllocMarkAuto env srcIp id mark s
    return s
  | .conntrackEvent events ct => Locked.qmarkConntrackEvent env events ct s

end IpQos.Kmod
