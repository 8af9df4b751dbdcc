import IpQos.Kmod.Marktbl
import IpQos.Kmod.Tc

/-! # Entry points of the mark table module

The exported functions, the conntrack event handler and the module
initialisation of `kmod/qos_marktbl_main.c`, each as one atomic step on the
tables. -/

namespace IpQos.Kmod

/-! ## conntrack event handle -/

def afInet : Nat := 2
def ipctMark : Nat := 1 <<< 7
def ipctDestroy : Nat := 1 <<< 2

structure Tuple where
  srcIp : Be32
  dstIp : Be32
  deriving DecidableEq, Repr

/-- The fields of a `struct nf_conn` that the handler reads. -/
structure NfConn where
  l3num : Nat
  untracked : Bool
  mark : Nat
  original : Tuple
  reply : Tuple
  deriving DecidableEq, Repr

/-- The address of the LAN side as the handler works it out. -/
def NfConn.ipAddr (ct : NfConn) : Be32 :=
  if ct.original.dstIp = ct.reply.srcIp then ct.original.srcIp else ct.reply.srcIp

/-- The connections the handler looks at. -/
def NfConn.tracked (ct : NfConn) : Bool :=
  ct.l3num = afInet ∧ ct.untracked = false ∧ ct.mark &&& 0xfff800 ≠ 0

/-- The branch for `IPCT_DESTROY`. -/
def conntrackDestroy (env : Env) (ipAddr : Be32) (s : St) : Except Oops St := do
  let markNode ← marktblHashGet ipAddr s
  match markNode with
  | none => return s
  | some node =>
    let s ← modifyNode ipAddr (fun n => { n with count := atomicDec n.count }) s
    if atomicDec node.count ≤ 0 then
      let id := node.id
      let (_, mark, s) ← qosMarktblHashtblDel ipAddr s
      let rn ← ruleAt id s
      if privMode = rn.mode ∨ 0 = rn.count then
        let s ← modifyRule id (fun rn => { rn with mark := 0 }) s
        let rn ← ruleAt id s
        let s ← qmarkTcDelRule env rn mark s
        freeMark mark s
      else return s
    else return s

/-- The branch for `IPCT_MARK`. -/
def conntrackMark (ipAddr : Be32) (s : St) : Except Oops St := do
  let markNode ← marktblHashGet ipAddr s
  match markNode with
  | none => return s
  | some _ => modifyNode ipAddr (fun n => { n with count := atomicInc n.count }) s

/-- Always `NOTIFY_DONE`. -/
def qmarkConntrackEvent (env : Env) (events : Nat) (ct : Option NfConn) (s : St) :
    Except Oops St :=
  match ct with
  | none => .ok s
  | some ct =>
    if ct.tracked then
      if events &&& ipctDestroy ≠ 0 then conntrackDestroy env ct.ipAddr s
      else if events &&& ipctMark ≠ 0 then conntrackMark ct.ipAddr s
      else .ok s
    else .ok s

/-! ## Module init -/

/-- The globals before `qos_marktbl_init`. -/
def St.static : St :=
  { gMarktblHead := .null, gRuletbl := .null, markBitmap := .null, resetFlag := false,
    maxIpCnt := tcMaxIpCnt, maxRuleCnt := maxRuleCntDefault,
    qmarkLanDev := "eth0", qmarkWanDev := "agl0", sent := [], freed := [] }

/-- `qos_marktbl_init` with every other registration succeeding: the tables are
    allocated one after the other and released again when one fails. -/
def qosMarktblInit (env : Env) : RetCode × St :=
  let s := St.static
  match markBitmapInit env s.maxIpCnt s with
  | (.ok, s) =>
    match qosRuletblInit env s with
    | (.ok, s) =>
      match qosMarktblHashtblInit env s with
      | .ok (.ok, s) => (.ok, s)
      | .ok (ret, s) => (ret, markBitmapExit (qosRuletblExit s))
      -- 4096 buckets are no overrun
      | .error _ => (.error, s)
    | (ret, s) => (ret, markBitmapExit s)
  | (ret, s) => (ret, s)

/-! ## API -/

def qmarkAddRule (id mode devid rate rateMate rateMin rateMinMate : Nat) (s : St) :
    Except Oops St :=
  modifyRule id (fun rn =>
    { rn with on := true, mode, devid, rate, rateMate, rateMin, rateMinMate }) s

def qmarkDelRule (id : Nat) (s : St) : Except Oops St := do
  let s ← modifyRule id (fun _ => .zero) s
  modifyRule id (fun rn => { rn with on := false }) s

/-- The loop that prints the rule table. -/
def printRules (s : St) : Except Oops Unit := walkTable s.gRuletbl s.maxRuleCnt

def qmarkListRule (s : St) : Except Oops Unit := printRules s

def qmarkFlushRule (env : Env) (s : St) : St := (qosRuletblInit env (qosRuletblExit s)).2

def qmarkFindHash (srcIp : Be32) (s : St) : Except Oops (RetCode × Nat) :=
  qosMarktblHashtblGet srcIp s

def qmarkAddHash (env : Env) (srcIp : Be32) (id mark : Nat) (s : St) :
    Except Oops (RetCode × St) :=
  qosMarktblHashtblAdd env srcIp id mark s

/-- `mark` is the caller's variable, written only when the entry is removed. -/
def qmarkDelHash (srcIp : Be32) (mark : Nat) (s : St) : Except Oops (RetCode × Nat × St) := do
  let markNode ← marktblHashGet srcIp s
  match markNode with
  | none => return (.error, mark, s)
  | some node =>
    let s ← modifyNode srcIp (fun n => { n with count := atomicDec n.count }) s
    if atomicDec node.count ≤ 0 then
      let id := node.id
      let (_, mark, s) ← qosMarktblHashtblDel srcIp s
      let rn ← ruleAt id s
      if privMode = rn.mode ∨ 0 = rn.count then
        let s ← modifyRule id (fun rn => { rn with mark := 0 }) s
        let s ← freeMark mark s
        return (.ok, mark, s)
      else return (.ok, mark, s)
    else return (.error, mark, s)

def qmarkFlushHash (env : Env) (s : St) : Except Oops St := do
  let s ← qosMarktblHashtblExit s
  let (_, s) ← qosMarktblHashtblInit env s
  return s

def qmarkListHash (s : St) : Except Oops Unit := marktblHashList s

/-- Returns the code, the value of `*mark`, and the state. -/
def qmarkAllocMark (s : St) : Except Oops (RetCode × Nat × St) := do
  let (mark, s) ← allocMark s
  if 0 = mark then return (.error, mark, s) else return (.ok, mark, s)

def qmarkFreeMark (mark : Nat) (s : St) : Except Oops St := freeMark mark s

def qmarkFlushMark (s : St) : Except Oops St := flushMark s

/-- The part of `qmark_alloc_mark_auto` after `*mark` is set. -/
def allocMarkAutoAdd (env : Env) (srcIp : Be32) (id mark : Nat) (s : St) :
    Except Oops (RetCode × Nat × St) := do
  let (ret, s) ← qmarkAddHash env srcIp id mark s
  if ret ≠ .ok then
    let rn ← ruleAt id s
    if privMode = rn.mode ∨ 0 = rn.count then
      let s ← modifyRule id (fun rn => { rn with mark := 0 }) s
      let s ← qmarkFreeMark mark s
      return (.error, mark, s)
    else return (.error, mark, s)
  else
    let rn ← ruleAt id s
    let s ← qmarkTcAddRule env rn mark s
    return (.ok, mark, s)

/-- `mark` is the caller's variable `*mark`; the result holds its new value. -/
def qmarkAllocMarkAuto (env : Env) (srcIp : Be32) (id mark : Nat) (s : St) :
    Except Oops (RetCode × Nat × St) := do
  if s.resetFlag = true then return (.error, mark, s)
  else
    let rn ← ruleAt id s
    if privMode = rn.mode then
      -- private mode, need to allocate a new mark
      let (ret, mark, s) ← qmarkAllocMark s
      if ret ≠ .ok then return (.error, mark, s)
      else allocMarkAutoAdd env srcIp id mark s
    else
      -- share mode
      if 0 = rn.count then
        let (ret, mark, s) ← qmarkAllocMark s
        if ret ≠ .ok then return (.error, mark, s)
        else
          let s ← modifyRule id (fun rn => { rn with mark := mark }) s
          allocMarkAutoAdd env srcIp id mark s
      else allocMarkAutoAdd env srcIp id rn.mark s

def qmarkSetSpec (env : Env) (ipSpec ruleSpec : Nat) (s : St) : Except Oops St := do
  let s ← qosMarktblHashtblExit s
  let s := qosRuletblExit s
  let s := markBitmapExit s
  let s := { s with maxRuleCnt := ruleSpec, maxIpCnt := ipSpec }
  let s := (markBitmapInit env ipSpec s).2
  let s := (qosRuletblInit env s).2
  let (_, s) ← qosMarktblHashtblInit env s
  return s

/-- The loop over `g_ruletbl[i].count` for `i < max_rule_cnt`. -/
def clearCounts (s : St) : Except Oops St :=
  if s.maxRuleCnt = 0 then .ok s
  else do
    let tbl ← s.gRuletbl.deref
    if tbl.length < s.maxRuleCnt then .error .overrun
    else return s.setRules (tbl.map fun rn => { rn with count := 0 })

/-- The section of `qmark_reset` under `qmark_op_lock`.  The call of
    `qmark_flush_hash` takes that lock a second time. -/
def resetSection (env : Env) (s : St) : Except Oops St := do
  let s ← flushMark s
  let s ← qmarkFlushHash env s
  clearCounts s

def qmarkReset (env : Env) (flag : Nat) (s : St) : Except Oops St :=
  if 0 = flag then .ok { s with resetFlag := false }
  else resetSection env { s with resetFlag := true }

/-- The loop that prints the marks in use. -/
def printMarks (s : St) : Except Oops Unit := walkTable s.markBitmap s.maxIpCnt

def qmarkDump (s : St) : Except Oops Unit := do
  printRules s
  marktblHashList s
  printMarks s

end IpQos.Kmod
