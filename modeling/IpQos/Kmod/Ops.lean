import IpQos.Kmod.Api

/-! # Operations on the module

The `qmark` iptables target (`xt_kmod/xt_qmark.c`), the ioctl dispatcher
(`kmod/qos_marktbl_ioctl.c`), and the one type of everything that can happen to
the module: ioctls, packets and conntrack events. -/

namespace IpQos.Kmod

/-! ## The qmark target -/

/-- The fields of a packet that the target reads and writes. -/
structure SkBuff where
  mark : Nat
  saddr : Be32
  daddr : Be32
  deriving DecidableEq, Repr

/-- `struct xt_qmark_tginfo` -/
structure TgInfo where
  mask : Nat
  id : Nat
  dir : Nat
  deriving DecidableEq, Repr

def TgInfo.ipAddr (info : TgInfo) (skb : SkBuff) : Be32 :=
  if info.dir = 0 then skb.saddr else skb.daddr

/-- `(skb->mark & ~mask) ^ mark` -/
def setMark (skbMark mask mark : Nat) : Nat := (skbMark &&& (0xffffffff ^^^ mask)) ^^^ mark

/-- The result code of the lookup is not tested, only the mark it leaves. -/
def qmarkHandle (env : Env) (skb : SkBuff) (info : TgInfo) (s : St) :
    Except Oops (SkBuff × St) := do
  let (_, mark) ← qmarkFindHash (info.ipAddr skb) s
  if mark = 0 then
    let (ret, mark, s) ← qmarkAllocMarkAuto env (info.ipAddr skb) info.id mark s
    if ret ≠ .ok then return (skb, s)
    else return ({ skb with mark := setMark skb.mark info.mask mark }, s)
  else return ({ skb with mark := setMark skb.mark info.mask mark }, s)

/-! ## ioctl -/

structure QmarkRule where
  id : Nat
  mode : Nat
  devid : Nat
  rate : Nat
  rateMate : Nat
  rateMin : Nat
  rateMinMate : Nat
  deriving DecidableEq, Repr

structure QmarkHash where
  ip : Be32
  id : Nat
  mark : Nat
  deriving DecidableEq, Repr

/-- The commands of `enum qmark_ioc_t`, with the argument as `copy_from_user`
    leaves it in the local variable. -/
inductive QmarkIoc where
  | ruleAdd (qr : QmarkRule)
  | ruleDel (qr : QmarkRule)
  | ruleLst
  | ruleFlush
  | hashAdd (qh : QmarkHash)
  | hashDel (qh : QmarkHash)
  | hashChk (qh : QmarkHash)
  | hashLst
  | hashFlush
  | markAlo
  | markFree (mark : Nat)
  | markFlush
  | dump
  | reset (mark : Nat)
  | netdevSet (lanDev wanDev : String)
  | specSet (maxIpCnt maxRuleCnt : Nat)
  | tcAdd
  | tcDel
  deriving DecidableEq, Repr

def einval : Int := -22

/-- What an ioctl returns, with the mark it copies back or prints. -/
structure Reply where
  ret : Int
  mark : Nat
  deriving DecidableEq, Repr

def Reply.invalid : Reply := { ret := einval, mark := 0 }

def Reply.done : Reply := { ret := 0, mark := 0 }

/-- `ret = copy_from_user(..); if (ret < 0) return -EINVAL;` in front of a command. -/
def afterCopy (env : Env) (s : St) (body : Except Oops (Reply × St)) :
    Except Oops (Reply × St) :=
  if env.copyFromUser < 0 then .ok (.invalid, s) else body

def qmarkCdevIoctl (env : Env) (cmd : QmarkIoc) (s : St) : Except Oops (Reply × St) :=
  match cmd with
  | .ruleAdd qr => afterCopy env s do
    let s ← qmarkAddRule qr.id qr.mode qr.devid qr.rate qr.rateMate qr.rateMin qr.rateMinMate s
    return (.done, s)
  | .ruleDel qr => afterCopy env s do
    let s ← qmarkDelRule qr.id s
    return (.done, s)
  | .ruleLst => do
    qmarkListRule s
    return (.done, s)
  | .ruleFlush => .ok (.done, qmarkFlushRule env s)
  | .hashAdd qh => afterCopy env s do
    if qh.ip = 0 then return (.invalid, s)
    else
      let (ret, s) ← qmarkAddHash env qh.ip qh.id qh.mark s
      if ret.toInt < 0 then return (.invalid, s) else return (.done, s)
  | .hashDel qh => afterCopy env s do
    if qh.ip = 0 then return (.invalid, s)
    else
      let (ret, mark, s) ← qmarkDelHash qh.ip 0 s
      if ret.toInt < 0 then return (.invalid, s) else return ({ ret := 0, mark }, s)
  | .hashChk qh => afterCopy env s do
    if qh.ip = 0 then return (.invalid, s)
    else
      let (_, mark) ← qmarkFindHash qh.ip s
      if env.copyToUser < 0 then return (.invalid, s) else return ({ ret := 0, mark }, s)
  | .hashLst => do
    qmarkListHash s
    return (.done, s)
  | .hashFlush => do
    let s ← qmarkFlushHash env s
    return (.done, s)
  | .markAlo => do
    let (_, mark, s) ← qmarkAllocMark s
    if env.copyToUser < 0 then return (.invalid, s) else return ({ ret := 0, mark }, s)
  | .markFree mark => afterCopy env s do
    let s ← qmarkFreeMark mark s
    return (.done, s)
  | .markFlush => do
    let s ← qmarkFlushMark s
    return (.done, s)
  | .dump => do
    qmarkDump s
    return (.done, s)
  | .reset mark => afterCopy env s do
    let s ← qmarkReset env mark s
    return (.done, s)
  | .netdevSet lanDev wanDev =>
    afterCopy env s (.ok (.done, { s with qmarkLanDev := lanDev, qmarkWanDev := wanDev }))
  | .specSet maxIpCnt maxRuleCnt => afterCopy env s do
    let s ← qmarkSetSpec env maxIpCnt maxRuleCnt s
    return (.done, s)
  | .tcAdd => do
    let rn ← ruleAt 1 s
    let s ← qmarkTcAddRule env rn 0x800 s
    return (.done, s)
  | .tcDel => do
    let rn ← ruleAt 1 s
    let s ← qmarkTcDelRule env rn 0x800 s
    return (.done, s)

/-! ## Everything that happens to the module -/

inductive Op where
  | ioctl (cmd : QmarkIoc)
  | packet (skb : SkBuff) (info : TgInfo)
  | conntrack (events : Nat) (ct : Option NfConn)
  deriving DecidableEq, Repr

/-- What the caller of an operation sees of it. -/
inductive Outcome where
  | reply (r : Reply)
  | packet (skb : SkBuff)
  | done
  deriving DecidableEq, Repr

def exec (env : Env) (op : Op) (s : St) : Except Oops (Outcome × St) :=
  match op with
  | .ioctl cmd => do
    let (r, s) ← qmarkCdevIoctl env cmd s
    return (.reply r, s)
  | .packet skb info => do
    let (skb, s) ← qmarkHandle env skb info s
    return (.packet skb, s)
  | .conntrack events ct => do
    let s ← qmarkConntrackEvent env events ct s
    return (.done, s)

/-- An operation in its environment, as a step of the module alone. -/
def opStep (l : Env × Op) (s : St) : Except Oops St := do
  let (_, s) ← exec l.1 l.2 s
  return s

/-- Operations one after the other, each in its own environment. -/
def execAll : List (Env × Op) → St → Except Oops (List Outcome × St)
  | [], s => .ok ([], s)
  | (env, op) :: ops, s => do
    let (out, s) ← exec env op s
    let (outs, s) ← execAll ops s
    return (out :: outs, s)

end IpQos.Kmod
