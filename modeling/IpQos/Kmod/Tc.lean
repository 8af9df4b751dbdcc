import IpQos.Kmod.Htb

/-! # Traffic control requests

The request builders of `kmod/qos_marktbl_tc.c`.  Each of them walks over the
LAN and the WAN device, fills one request per device and hands it to rtnetlink;
`tcModify` is that walk, the builders differ in the request; working out the htb
options of a request may divide by zero. -/

namespace IpQos.Kmod

def prioFilter : Nat := 3
def ethPAll : Nat := 3
def fwMask : Nat := 0xfff800

def tcHMake (maj min : Nat) : Nat := (maj &&& 0xffff0000) ||| (min &&& 0xffff)

/-- The requests are fire and forget: a locked rtnetlink drops them. -/
def qmarkTcRtnlTalk (env : Env) (n : RtnlReq) (s : St) : RetCode × St :=
  if env.rtnlIsLocked n then (.error, s) else (.ok, { s with sent := n :: s.sent })

/-- The loop `for (i = 0; i < 2; i++)` over the LAN device (`i = 0`) and the
    WAN device.  It returns at the first device that does not exist, and it
    ignores the result of `qmark_tc_rtnl_talk`. -/
def tcModify (env : Env) (req : Nat → NetDevice → RtnlReq) (s : St) :
    Except Oops (RetCode × St) :=
  match env.devGetByName s.qmarkLanDev with
  | none => .ok (.error, s)
  | some lan => do
    let _ ← (req 0 lan).htbAttrs
    let s := (qmarkTcRtnlTalk env (req 0 lan) s).2
    match env.devGetByName s.qmarkWanDev with
    | none => return (.error, s)
    | some wan =>
      let _ ← (req 1 wan).htbAttrs
      return (.ok, (qmarkTcRtnlTalk env (req 1 wan) s).2)

/-! ## Class ids -/

/-- The minor number of the class of a mark: `mark_offset + 1` directly under the
    root class, `(devid+1)*TC_MAX_IP_CNT+mark_offset` under an interface class. -/
def classMinor (rn : RuletblNode) (mark : Nat) : Nat :=
  let markOffset := mark >>> markBase
  if 0 = rn.devid then u32 (markOffset + 1)
  else u32 ((rn.devid + 1) * tcMaxIpCnt + markOffset)

def classid (rn : RuletblNode) (mark : Nat) : Nat := (1 <<< 16) ||| classMinor rn mark

def parentClassid (rn : RuletblNode) : Nat :=
  if 0 = rn.devid then (1 <<< 16) ||| 1 else (1 <<< 16) ||| u32 (rn.devid + 1)

/-! ## Requests -/

/-- The LAN device (`i = 0`) carries the mate (downlink) rates. -/
def htbClassReq (cmd : RtmCmd) (exclCreate : Bool) (rn : RuletblNode) (mark : Nat)
    (i : Nat) (dev : NetDevice) : RtnlReq :=
  { nlmsgType := cmd, exclCreate, tcmIfindex := dev.ifindex,
    tcmHandle := classid rn mark, tcmParent := parentClassid rn, tcmInfo := 0, kind := "htb",
    options :=
      if cmd = .newTclass then
        if i = 0 then .htb rn.rateMinMate rn.rateMate dev.mtu
        else .htb rn.rateMin rn.rate dev.mtu
      else .none }

def pfifoQdiscReq (cmd : RtmCmd) (exclCreate : Bool) (rn : RuletblNode) (mark : Nat)
    (_ : Nat) (dev : NetDevice) : RtnlReq :=
  { nlmsgType := cmd, exclCreate, tcmIfindex := dev.ifindex,
    tcmHandle := u32 (classMinor rn mark <<< 16), tcmParent := classid rn mark, tcmInfo := 0,
    kind := "pfifo", options := if cmd = .newQdisc then .pfifo 100 else .none }

def fwFilterReq (env : Env) (cmd : RtmCmd) (exclCreate : Bool) (rn : RuletblNode) (mark : Nat)
    (_ : Nat) (dev : NetDevice) : RtnlReq :=
  let protocol := if cmd = .newTfilter ∧ exclCreate then env.htons ethPAll else 0
  { nlmsgType := cmd, exclCreate, tcmIfindex := dev.ifindex,
    tcmHandle := mark, tcmParent := 1 <<< 16, tcmInfo := tcHMake (prioFilter <<< 16) protocol,
    kind := "fw", options := .fw fwMask (classid rn mark) }

/-! ## Request builders -/

def tcHtbClassModify (env : Env) (cmd : RtmCmd) (exclCreate : Bool) (rn : RuletblNode)
    (mark : Nat) (s : St) : Except Oops (RetCode × St) :=
  tcModify env (htbClassReq cmd exclCreate rn mark) s

def tcPfifoQdiscModify (env : Env) (cmd : RtmCmd) (exclCreate : Bool) (rn : RuletblNode)
    (mark : Nat) (s : St) : Except Oops (RetCode × St) :=
  tcModify env (pfifoQdiscReq cmd exclCreate rn mark) s

def tcFwFilterModify (env : Env) (cmd : RtmCmd) (exclCreate : Bool) (rn : RuletblNode)
    (mark : Nat) (s : St) : Except Oops (RetCode × St) :=
  tcModify env (fwFilterReq env cmd exclCreate rn mark) s

def qmarkTcAddRule (env : Env) (rn : RuletblNode) (mark : Nat) (s : St) : Except Oops St := do
  let (_, s) ← tcHtbClassModify env .newTclass true rn mark s
  let (_, s) ← tcPfifoQdiscModify env .newQdisc true rn mark s
  let (_, s) ← tcFwFilterModify env .newTfilter true rn mark s
  return s

/-- The qdisc goes with its class. -/
def qmarkTcDelRule (env : Env) (rn : RuletblNode) (mark : Nat) (s : St) : Except Oops St := do
  let (_, s) ← tcFwFilterModify env .delTfilter false rn mark s
  let (_, s) ← tcHtbClassModify env .delTclass false rn mark s
  return s

/-! ## What reaches rtnetlink

The builders touch nothing but `sent`; these are the requests they add to it. -/

def delivered (env : Env) (n : RtnlReq) : List RtnlReq :=
  if env.rtnlIsLocked n then [] else [n]

/-- The requests of one walk over the two devices, latest first. -/
def walked (env : Env) (lanDev wanDev : String) (req : Nat → NetDevice → RtnlReq) :
    List RtnlReq :=
  match env.devGetByName lanDev with
  | none => []
  | some lan =>
    match env.devGetByName wanDev with
    | none => delivered env (req 0 lan)
    | some wan => delivered env (req 1 wan) ++ delivered env (req 0 lan)

def addRequests (env : Env) (lanDev wanDev : String) (rn : RuletblNode) (mark : Nat) :
    List RtnlReq :=
  walked env lanDev wanDev (fwFilterReq env .newTfilter true rn mark) ++
    (walked env lanDev wanDev (pfifoQdiscReq .newQdisc true rn mark) ++
      walked env lanDev wanDev (htbClassReq .newTclass true rn mark))

def delRequests (env : Env) (lanDev wanDev : String) (rn : RuletblNode) (mark : Nat) :
    List RtnlReq :=
  walked env lanDev wanDev (htbClassReq .delTclass false rn mark) ++
    walked env lanDev wanDev (fwFilterReq env .delTfilter false rn mark)

theorem qmarkTcRtnlTalk_eq (env : Env) (n : RtnlReq) (s : St) :
    (qmarkTcRtnlTalk env n s).2 = { s with sent := delivered env n ++ s.sent } := by
  unfold qmarkTcRtnlTalk delivered
  split <;> rfl

end IpQos.Kmod
