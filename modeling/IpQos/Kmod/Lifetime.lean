import IpQos.Kmod.Ops
import IpQos.Lib.Ledger

/-! # What the module holds

The module from `qos_marktbl_init` to `qos_marktbl_exit` with everything it acquires:
memory, the netlink socket, the character device and the notifier.  The functions are those
of `IpQos.Kmod.Marktbl` and `IpQos.Kmod.Api` that allocate or free, in the order of the
source, over a state that keeps a ledger beside the tables; `kfree` of what is not
allocated is a fault. -/

namespace IpQos.Kmod

open IpQos.Lib (modifyFirst release releaseAll)

/-- What the module can hold.  A hash entry is known by its address. -/
inductive Resource where
  | markBitmap
  | ruletbl
  | marktblHead
  | marktblHt
  | marktblNode (srcIp : Be32)
  | sock
  | chrdevRegion (major : Nat)
  | cdev
  | devClass
  | device
  | notifier
  deriving DecidableEq, Repr

/-- `qmark_class`, which `class_create` may leave an error pointer. -/
inductive ClassPtr where
  | null
  | err
  | valid
  deriving DecidableEq, Repr

/-- The globals of the module and what it holds.  Of the pointers to the socket and the
    `cdev` only whether they are NULL is kept. -/
structure ModSt where
  tables : St
  qmarkSock : Bool
  qmarkCdevMajor : Nat
  qmarkCdev : Bool
  qmarkClass : ClassPtr
  held : Multiset Resource

namespace Held

def setTables (m : ModSt) (s : St) : ModSt := { m with tables := s }

/-- Code that touches the tables only. -/
def onTables (f : St → Except Oops St) (m : ModSt) : Except Oops ModSt := do
  let s ← f m.tables
  return setTables m s

def acquire (r : Resource) (m : ModSt) : ModSt := { m with held := r ::ₘ m.held }

def kmalloc (env : Env) (site : KmallocSite) (r : Resource) (m : ModSt) : Bool × ModSt :=
  if env.kmalloc site then (true, acquire r m) else (false, m)

/-- `kfree`, and the calls that release anything else. -/
def free (r : Resource) (m : ModSt) : Except Oops ModSt :=
  match release r m.held with
  | some held => .ok { m with held := held }
  | none => .error .useAfterFree

def freeAll (rs : List Resource) (m : ModSt) : Except Oops ModSt :=
  match releaseAll rs m.held with
  | some held => .ok { m with held := held }
  | none => .error .useAfterFree

/-! ## The tables -/

def markBitmapInit (env : Env) (cnt : Nat) (m : ModSt) : RetCode × ModSt :=
  match kmalloc env .markBitmap .markBitmap m with
  | (false, m) => (.allocFail, setTables m { m.tables with markBitmap := .null })
  | (true, m) => (.ok, setTables m (m.tables.setBits (List.replicate (allottedBits cnt) false)))

def markBitmapExit (m : ModSt) : Except Oops ModSt :=
  match m.tables.markBitmap with
  | .null => .ok m
  | _ => do
    let m ← free .markBitmap m
    return setTables m { m.tables with markBitmap := .null }

def marktblHashAdd (env : Env) (key : Be32) (id mark : Nat) (m : ModSt) :
    Except Oops (RetCode × ModSt) := do
  let limited ← elemOverLimit m.tables
  if limited then return (.overMax, m)
  else
    let markNode : Ptr MarktblNode := .null
    let head ← m.tables.gMarktblHead.deref
    let i ← hashIndex head key
    let chain ← bucket head i
    match chain.find? (marktblHashCmp key) with
    | some _ =>
      let _ ← markNode.deref
      return (.ok, m)
    | none =>
      match kmalloc env .marktblNode (.marktblNode key) m with
      | (false, m) => return (.allocFail, m)
      | (true, m) =>
        let node : MarktblNode := { srcIp := key, id, mark, count := 0 }
        let s ← modifyRule id (fun rn => { rn with count := atomicInc rn.count }) m.tables
        return (.ok, setTables m (s.setHead
          { head with elemNum := u32 (head.elemNum + 1), ht := head.ht.modify i (node :: ·) }))

/-- The loop unlinks and frees entry after entry. -/
def marktblHashClean (m : ModSt) : Except Oops ModSt := do
  let head ← m.tables.gMarktblHead.deref
  let m ← freeAll (head.ht.flatten.map fun entry => .marktblNode entry.srcIp) m
  return setTables m (m.tables.setHead
    { head with
      elemNum := subU32 head.elemNum head.ht.flatten.length
      ht := head.ht.map fun _ => [] })

def qosMarktblHashtblAdd (env : Env) (srcIp : Be32) (id mark : Nat) (m : ModSt) :
    Except Oops (RetCode × ModSt) := do
  let allocated ← testMark mark m.tables
  if !allocated then return (.error, m)
  else marktblHashAdd env srcIp id mark m

/-- `marktbl_hash_remove` unlinks the entry, which is freed here. -/
def qosMarktblHashtblDel (srcIp : Be32) (m : ModSt) : Except Oops (RetCode × Nat × ModSt) := do
  let (ret, markNode, s) ← marktblHashRemove srcIp m.tables
  let m := setTables m s
  match ret, markNode with
  | .ok, some node => do
    let m ← free (.marktblNode node.srcIp) m
    return (ret, node.mark, m)
  | _, _ => return (ret, 0, m)

def qosMarktblHashtblInit (env : Env) (m : ModSt) : Except Oops (RetCode × ModSt) :=
  match kmalloc env .marktblHead .marktblHead m with
  | (false, m) => .ok (.error, setTables m { m.tables with gMarktblHead := .null })
  | (true, m) =>
    match kmalloc env .marktblHt .marktblHt m with
    | (false, m) => do
      let m ← free .marktblHead m
      return (.error, setTables m { m.tables with gMarktblHead := .dangling })
    | (true, m) =>
      if allotted sizeofHlistHead m.tables.maxIpCnt < m.tables.maxIpCnt then .error .overrun
      else
        .ok (.ok, setTables m (m.tables.setHead
          { elemNum := 0, size := m.tables.maxIpCnt
            ht := List.replicate m.tables.maxIpCnt [] }))

def qosMarktblHashtblExit (m : ModSt) : Except Oops ModSt :=
  match m.tables.gMarktblHead with
  | .null => .ok m
  | _ => do
    let m ← marktblHashClean m
    let m ← free .marktblHt m
    let m ← free .marktblHead m
    return setTables m { m.tables with gMarktblHead := .null }

def qosRuletblInit (env : Env) (m : ModSt) : RetCode × ModSt :=
  match kmalloc env .ruletbl .ruletbl m with
  | (false, m) => (.error, setTables m { m.tables with gRuletbl := .null })
  | (true, m) =>
    (.ok, setTables m (m.tables.setRules
      (List.replicate (allotted sizeofRuletblNode m.tables.maxRuleCnt) .zero)))

def qosRuletblExit (m : ModSt) : Except Oops ModSt :=
  match m.tables.gRuletbl with
  | .null => .ok m
  | _ => do
    let m ← free .ruletbl m
    return setTables m { m.tables with gRuletbl := .null }

/-! ## Entry points -/

def conntrackDestroy (env : Env) (ipAddr : Be32) (m : ModSt) : Except Oops ModSt := do
  let markNode ← marktblHashGet ipAddr m.tables
  match markNode with
  | none => return m
  | some node =>
    let m ← onTables (modifyNode ipAddr fun n => { n with count := atomicDec n.count }) m
    if atomicDec node.count ≤ 0 then
      let id := node.id
      let (_, mark, m) ← qosMarktblHashtblDel ipAddr m
      let rn ← ruleAt id m.tables
      if privMode = rn.mode ∨ 0 = rn.count then
        onTables (fun s => do
          let s ← modifyRule id (fun rn => { rn with mark := 0 }) s
          let rn ← ruleAt id s
          let s ← qmarkTcDelRule env rn mark s
          freeMark mark s) m
      else return m
    else return m

def qmarkConntrackEvent (env : Env) (events : Nat) (ct : Option NfConn) (m : ModSt) :
    Except Oops ModSt :=
  match ct with
  | none => .ok m
  | some ct =>
    if ct.tracked then
      if events &&& ipctDestroy ≠ 0 then conntrackDestroy env ct.ipAddr m
      else if events &&& ipctMark ≠ 0 then onTables (conntrackMark ct.ipAddr) m
      else .ok m
    else .ok m

def qmarkFlushRule (env : Env) (m : ModSt) : Except Oops ModSt := do
  let m ← qosRuletblExit m
  return (qosRuletblInit env m).2

def qmarkDelHash (srcIp : Be32) (m : ModSt) : Except Oops ModSt := do
  let markNode ← marktblHashGet srcIp m.tables
  match markNode with
  | none => return m
  | some node =>
    let m ← onTables (modifyNode srcIp fun n => { n with count := atomicDec n.count }) m
    if atomicDec node.count ≤ 0 then
      let id := node.id
      let (_, mark, m) ← qosMarktblHashtblDel srcIp m
      let rn ← ruleAt id m.tables
      if privMode = rn.mode ∨ 0 = rn.count then
        onTables (fun s => do
          let s ← modifyRule id (fun rn => { rn with mark := 0 }) s
          freeMark mark s) m
      else return m
    else return m

def qmarkFlushHash (env : Env) (m : ModSt) : Except Oops ModSt := do
  let m ← qosMarktblHashtblExit m
  let (_, m) ← qosMarktblHashtblInit env m
  return m

def allocMarkAutoAdd (env : Env) (srcIp : Be32) (id mark : Nat) (m : ModSt) :
    Except Oops ModSt := do
  let (ret, m) ← qosMarktblHashtblAdd env srcIp id mark m
  onTables (fun s => do
    if ret ≠ .ok then
      let rn ← ruleAt id s
      if privMode = rn.mode ∨ 0 = rn.count then
        let s ← modifyRule id (fun rn => { rn with mark := 0 }) s
        qmarkFreeMark mark s
      else return s
    else
      let rn ← ruleAt id s
      qmarkTcAddRule env rn mark s) m

def qmarkAllocMarkAuto (env : Env) (srcIp : Be32) (id : Nat) (m : ModSt) : Except Oops ModSt := do
  if m.tables.resetFlag = true then return m
  else
    let rn ← ruleAt id m.tables
    if privMode = rn.mode then
      let (ret, mark, s) ← qmarkAllocMark m.tables
      if ret ≠ .ok then return setTables m s
      else allocMarkAutoAdd env srcIp id mark (setTables m s)
    else
      if 0 = rn.count then
        let (ret, mark, s) ← qmarkAllocMark m.tables
        if ret ≠ .ok then return setTables m s
        else
          let s ← modifyRule id (fun rn => { rn with mark := mark }) s
          allocMarkAutoAdd env srcIp id mark (setTables m s)
      else allocMarkAutoAdd env srcIp id rn.mark m

def qmarkSetSpec (env : Env) (ipSpec ruleSpec : Nat) (m : ModSt) : Except Oops ModSt := do
  let m ← qosMarktblHashtblExit m
  let m ← qosRuletblExit m
  let m ← markBitmapExit m
  let m := setTables m { m.tables with maxRuleCnt := ruleSpec, maxIpCnt := ipSpec }
  let m := (markBitmapInit env ipSpec m).2
  let m := (qosRuletblInit env m).2
  let (_, m) ← qosMarktblHashtblInit env m
  return m

def qmarkReset (env : Env) (flag : Nat) (m : ModSt) : Except Oops ModSt :=
  if 0 = flag then .ok (setTables m { m.tables with resetFlag := false })
  else do
    let m ← onTables flushMark (setTables m { m.tables with resetFlag := true })
    let m ← qmarkFlushHash env m
    onTables clearCounts m

/-! ## Operations -/

def qmarkHandle (env : Env) (skb : SkBuff) (info : TgInfo) (m : ModSt) : Except Oops ModSt := do
  let (_, mark) ← qmarkFindHash (info.ipAddr skb) m.tables
  if mark = 0 then qmarkAllocMarkAuto env (info.ipAddr skb) info.id m else return m

/-- The commands that allocate or free; the others touch the tables only. -/
def qmarkCdevIoctl (env : Env) (cmd : QmarkIoc) (m : ModSt) : Except Oops ModSt :=
  match cmd with
  | .ruleFlush => qmarkFlushRule env m
  | .hashAdd qh =>
    if env.copyFromUser < 0 ∨ qh.ip = 0 then .ok m
    else do
      let (_, m) ← qosMarktblHashtblAdd env qh.ip qh.id qh.mark m
      return m
  | .hashDel qh => if env.copyFromUser < 0 ∨ qh.ip = 0 then .ok m else qmarkDelHash qh.ip m
  | .hashFlush => qmarkFlushHash env m
  | .reset mark => if env.copyFromUser < 0 then .ok m else qmarkReset env mark m
  | .specSet maxIpCnt maxRuleCnt =>
    if env.copyFromUser < 0 then .ok m else qmarkSetSpec env maxIpCnt maxRuleCnt m
  | cmd => onTables (fun s => do
    let (_, s) ← Kmod.qmarkCdevIoctl env cmd s
    return s) m

def opStep (l : Env × Op) (m : ModSt) : Except Oops ModSt :=
  match l.2 with
  | .ioctl cmd => qmarkCdevIoctl l.1 cmd m
  | .packet skb info => qmarkHandle l.1 skb info m
  | .conntrack events ct => qmarkConntrackEvent l.1 events ct m

/-! ## Loading and unloading -/

/-- The result of `device_create`, which is compared with NULL only. -/
inductive DeviceResult where
  | null
  | err
  | created
  deriving DecidableEq, Repr

/-- The results of the calls that loading makes outside the module, whether they are not
    negative; `allocChrdevRegion` gives the major number. -/
structure Loading where
  sockCreateKern : Bool
  setsockoptSndbuf : Bool
  setsockoptRcvbuf : Bool
  kernelBind : Bool
  kernelGetsockname : Bool
  addrLen : Bool
  nlFamily : Bool
  registerChrdevRegion : Bool
  allocChrdevRegion : Option Nat
  cdevAlloc : Bool
  cdevAdd : Bool
  classCreate : Bool
  deviceCreate : DeviceResult
  registerNotifier : Bool

/-- The globals as the linker leaves them. -/
def ModSt.static : ModSt :=
  { tables := St.static, qmarkSock := false, qmarkCdevMajor := 0, qmarkCdev := false,
    qmarkClass := .null, held := 0 }

def qmarkTcSockExit (m : ModSt) : Except Oops ModSt :=
  if m.qmarkSock then do
    let m ← free .sock m
    return { m with qmarkSock := false }
  else .ok m

/-- After `sock_create_kern` every failure leads to `sock_exit`. -/
def qmarkTcSockInit (l : Loading) (m : ModSt) : Except Oops (RetCode × ModSt) :=
  if !l.sockCreateKern then do
    let m ← qmarkTcSockExit m
    return (.error, m)
  else
    let m := { acquire .sock m with qmarkSock := true }
    if l.setsockoptSndbuf && l.setsockoptRcvbuf && l.kernelBind && l.kernelGetsockname &&
        l.addrLen && l.nlFamily then .ok (.ok, m)
    else do
      let m ← qmarkTcSockExit m
      return (.error, m)

/-- The label `alloc_cdev_err`. -/
def allocCdevErr (major : Nat) (m : ModSt) : Except Oops (RetCode × ModSt) := do
  let m ← free (.chrdevRegion major) m
  return (.error, m)

/-- The label `add_cdev_err`. -/
def addCdevErr (major : Nat) (m : ModSt) : Except Oops (RetCode × ModSt) := do
  let m ← free .cdev m
  allocCdevErr major m

/-- The label `create_device_err`. -/
def createDeviceErr (major : Nat) (m : ModSt) : Except Oops (RetCode × ModSt) := do
  let m ← free .devClass m
  addCdevErr major m

/-- `qmark_dev_init` once it has a region. -/
def qmarkDevInitFrom (l : Loading) (major : Nat) (m : ModSt) : Except Oops (RetCode × ModSt) :=
  if !l.cdevAlloc then allocCdevErr major { m with qmarkCdev := false }
  else
    let m := { acquire .cdev m with qmarkCdev := true }
    if !l.cdevAdd then addCdevErr major m
    else if !l.classCreate then addCdevErr major { m with qmarkClass := .err }
    else
      let m := { acquire .devClass m with qmarkClass := .valid }
      match l.deviceCreate with
      | .null => createDeviceErr major m
      | .err => .ok (.ok, m)
      | .created => .ok (.ok, acquire .device m)

def qmarkDevInit (l : Loading) (m : ModSt) : Except Oops (RetCode × ModSt) :=
  if m.qmarkCdevMajor ≠ 0 then
    if !l.registerChrdevRegion then .ok (.error, m)
    else qmarkDevInitFrom l m.qmarkCdevMajor (acquire (.chrdevRegion m.qmarkCdevMajor) m)
  else
    match l.allocChrdevRegion with
    | none => .ok (.error, m)
    | some major =>
      qmarkDevInitFrom l major { acquire (.chrdevRegion major) m with qmarkCdevMajor := major }

/-- `device_destroy` looks the device up and does nothing when there is none. -/
def deviceDestroy (m : ModSt) : ModSt := { m with held := m.held.erase .device }

/-- `qmark_class` in `qmark_dev_exit`. -/
def qmarkClassExit (m : ModSt) : Except Oops ModSt :=
  match m.qmarkClass with
  | .null => .ok m
  | .err => .error .nullDeref
  | .valid => do
    let m ← free .devClass (deviceDestroy m)
    return { m with qmarkClass := .null }

def qmarkDevExit (m : ModSt) : Except Oops ModSt := do
  let m ← qmarkClassExit m
  if m.qmarkCdev then
    let m ← free .cdev m
    let m ← free (.chrdevRegion m.qmarkCdevMajor) m
    return { m with qmarkCdev := false, qmarkCdevMajor := 0 }
  else return m

/-- The labels of `qos_marktbl_init`, from the last one to fall through to. -/
def sockExit (m : ModSt) : Except Oops (RetCode × ModSt) := do
  let m ← markBitmapExit m
  return (.error, m)

def devExit (m : ModSt) : Except Oops (RetCode × ModSt) := do
  let m ← qmarkTcSockExit m
  sockExit m

def ruletblExit (m : ModSt) : Except Oops (RetCode × ModSt) := do
  let m ← qmarkDevExit m
  devExit m

def marktblExit (m : ModSt) : Except Oops (RetCode × ModSt) := do
  let m ← qosRuletblExit m
  ruletblExit m

def ctnotifierExit (m : ModSt) : Except Oops (RetCode × ModSt) := do
  let m ← qosMarktblHashtblExit m
  marktblExit m

/-- `qos_marktbl_init` from `qos_ruletbl_init` on. -/
def initTables (l : Loading) (env : Env) (m : ModSt) : Except Oops (RetCode × ModSt) := do
  let (ret, m) := qosRuletblInit env m
  if ret ≠ .ok then ruletblExit m
  else
    let (ret, m) ← qosMarktblHashtblInit env m
    if ret ≠ .ok then marktblExit m
    else if !l.registerNotifier then ctnotifierExit m
    else return (.ok, acquire .notifier m)

/-- `qos_marktbl_init` from `qmark_tc_sock_init` on. -/
def initDevices (l : Loading) (env : Env) (m : ModSt) : Except Oops (RetCode × ModSt) := do
  let (ret, m) ← qmarkTcSockInit l m
  if ret ≠ .ok then sockExit m
  else
    let (ret, m) ← qmarkDevInit l m
    if ret ≠ .ok then devExit m else initTables l env m

/-- Only the sign of the code matters to the caller. -/
def qosMarktblInit (l : Loading) (env : Env) : Except Oops (RetCode × ModSt) :=
  let (ret, m) := markBitmapInit env ModSt.static.tables.maxIpCnt ModSt.static
  if ret ≠ .ok then .ok (ret, m) else initDevices l env m

def qosMarktblExit (m : ModSt) : Except Oops ModSt := do
  let m ← free .notifier m
  let m ← qosMarktblHashtblExit m
  let m ← qosRuletblExit m
  let m ← qmarkDevExit m
  let m ← qmarkTcSockExit m
  markBitmapExit m

end Held

end IpQos.Kmod
