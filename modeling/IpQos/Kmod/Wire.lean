import IpQos.Kmod.Htb
import IpQos.Kmod.Netlink
import IpQos.Kmod.Tc
import IpQos.Lib.Records
import IpQos.Lib.Run

/-! # Requests as bytes

The builders of `kmod/qos_marktbl_tc.c` on the memory of a `struct rtnl_req`, and what
`sock_sendmsg` is handed.  `IpQos.Kmod.Tc` has the same builders as records. -/

namespace IpQos.Kmod

open IpQos.Lib (ByteOrder runAll slice walk)

/-! ## Constants of the kernel headers -/

def RtmCmd.toNat : RtmCmd → Nat
  | .newTclass => 40
  | .delTclass => 41
  | .newQdisc => 36
  | .newTfilter => 44
  | .delTfilter => 45

def nlmFRequest : Nat := 0x1
def nlmFAck : Nat := 0x4
def nlmFExcl : Nat := 0x200
def nlmFCreate : Nat := 0x400

def tcaKind : Nat := 1
def tcaHtbParms : Nat := 1
def tcaHtbCtab : Nat := 3
def tcaHtbRtab : Nat := 4
def tcaFwClassid : Nat := 1
def tcaFwMask : Nat := 5

/-! ## Fields of the header -/

/-- The fields of `struct nlmsghdr` and `struct tcmsg` that the builders store. -/
inductive ReqField where
  | nlmsgType
  | nlmsgFlags
  | tcmFamily
  | tcmIfindex
  | tcmHandle
  | tcmParent
  | tcmInfo
  deriving DecidableEq, Repr

def ReqField.off : ReqField → Nat
  | .nlmsgType => 4
  | .nlmsgFlags => 6
  | .tcmFamily => 16
  | .tcmIfindex => 20
  | .tcmHandle => 24
  | .tcmParent => 28
  | .tcmInfo => 32

def ReqField.width : ReqField → Nat
  | .tcmFamily => 1
  | .nlmsgType | .nlmsgFlags => 2
  | .tcmIfindex | .tcmHandle | .tcmParent | .tcmInfo => 4

def storeField (o : ByteOrder) (f : ReqField) (n : Nat) (req : List UInt8) :
    Except Oops (List UInt8) := storeBytes f.off (o.write f.width n) req

def readField (o : ByteOrder) (req : List UInt8) (f : ReqField) : Nat :=
  o.read (slice req f.off f.width)

/-- Assignments to fields, one after the other. -/
def storeFields (o : ByteOrder) : List (ReqField × Nat) → List UInt8 → Except Oops (List UInt8)
  | [], req => .ok req
  | (f, n) :: fields, req => do
    let req ← storeField o f n req
    storeFields o fields req

/-- `NLM_F_REQUEST | flags` -/
def requestFlags (exclCreate : Bool) : Nat :=
  nlmFRequest ||| if exclCreate then nlmFExcl ||| nlmFCreate else 0

/-! ## Options -/

/-- A string with its terminating zero, as many bytes as `alen` says. -/
def cString (s : String) : List UInt8 := s.toList.map (fun c => UInt8.ofNat c.toNat) ++ [0]

/-- The fields of `struct tc_ratespec`; `cell_align` is a `short`. -/
def TcRatespec.fields (r : TcRatespec) : List (Nat × Nat) :=
  [(1, r.cellLog), (1, r.linklayer), (2, r.overhead), (2, (r.cellAlign % 2 ^ 16).toNat), (2, r.mpu),
    (4, r.rate)]

def TcHtbOpt.fields (opt : TcHtbOpt) : List (Nat × Nat) :=
  opt.rate.fields ++ opt.ceil.fields ++ [(4, opt.buffer), (4, opt.cbuffer)]

/-- `struct tc_htb_opt`; `quantum`, `level` and `prio` stay 0. -/
def TcHtbOpt.bytes (o : ByteOrder) (opt : TcHtbOpt) : List UInt8 :=
  o.writeRecord (opt.fields ++ [(4, 0), (4, 0), (4, 0)])

def kindCalls (kind : String) : AttrCalls := .plain ⟨4132, tcaKind, cString kind⟩

/-- The attributes of `tc_htb_opt_parse`. -/
def htbCalls (o : ByteOrder) (attrs : HtbAttrs) : AttrCalls :=
  .nest 1024 tcaOptions
    [⟨2024, tcaHtbParms, attrs.opt.bytes o⟩, ⟨3024, tcaHtbRtab, o.writeTable 4 attrs.rtab⟩,
      ⟨4024, tcaHtbCtab, o.writeTable 4 attrs.ctab⟩]

/-- `struct tc_fifo_qopt` is its `limit`. -/
def pfifoCalls (o : ByteOrder) (limit : Nat) : AttrCalls :=
  .plain ⟨1024, tcaOptions, o.write 4 limit⟩

def fwCalls (o : ByteOrder) (mask flowid : Nat) : AttrCalls :=
  .nest 4096 tcaOptions
    [⟨16384, tcaFwMask, o.write 4 mask⟩, ⟨4096, tcaFwClassid, o.write 4 flowid⟩]

/-! ## Builders -/

/-- The calls on a request; `tail` is set before it is used. -/
def appendAttrs (o : ByteOrder) (calls : List AttrCalls) (req : List UInt8) :
    Except Oops (List UInt8) := do
  let b ← runAll (buildStep o) (calls.flatMap AttrCalls.steps) { req, tail := 0 }
  return b.req

/-- The assignments every builder starts with; `AF_UNSPEC` is 0. -/
def openReq (cmd : RtmCmd) (exclCreate : Bool) : List (ReqField × Nat) :=
  [(.nlmsgFlags, requestFlags exclCreate), (.nlmsgType, cmd.toNat), (.tcmFamily, 0)]

/-- A builder's loop body up to `qmark_tc_rtnl_talk`, for the device of that round. -/
abbrev ReqBuilder := Nat → NetDevice → Except Oops (List UInt8)

/-- The assignments of `tc_htb_class_modify` after those. -/
def htbClassFields (rn : RuletblNode) (mark : Nat) (dev : NetDevice) : List (ReqField × Nat) :=
  [(.tcmHandle, classid rn mark), (.tcmParent, parentClassid rn), (.tcmIfindex, dev.ifindex)]

def htbClassBytes (o : ByteOrder) (cmd : RtmCmd) (exclCreate : Bool) (rn : RuletblNode)
    (mark : Nat) : ReqBuilder := fun i dev => do
  let req ← storeFields o (openReq cmd exclCreate ++ htbClassFields rn mark dev) (clearedReq o)
  let req ← appendAttrs o [kindCalls "htb"] req
  if cmd = .newTclass then
    let attrs ←
      if i = 0 then tcHtbOptParse rn.rateMinMate rn.rateMate dev.mtu
      else tcHtbOptParse rn.rateMin rn.rate dev.mtu
    appendAttrs o [htbCalls o attrs] req
  else return req

def pfifoQdiscFields (rn : RuletblNode) (mark : Nat) (dev : NetDevice) : List (ReqField × Nat) :=
  [(.tcmHandle, u32 (classMinor rn mark <<< 16)), (.tcmParent, classid rn mark),
    (.tcmIfindex, dev.ifindex)]

def pfifoQdiscBytes (o : ByteOrder) (cmd : RtmCmd) (exclCreate : Bool) (rn : RuletblNode)
    (mark : Nat) : ReqBuilder := fun _ dev => do
  let req ← storeFields o (openReq cmd exclCreate ++ pfifoQdiscFields rn mark dev) (clearedReq o)
  let req ← appendAttrs o [kindCalls "pfifo"] req
  if cmd = .newQdisc then appendAttrs o [pfifoCalls o 100] req else return req

def fwFilterFields (mark protocol : Nat) : List (ReqField × Nat) :=
  [(.tcmParent, 1 <<< 16), (.tcmInfo, tcHMake (prioFilter <<< 16) protocol), (.tcmHandle, mark)]

/-- Looks its device up after the attributes are in place; nothing before that can fail. -/
def fwFilterBytes (o : ByteOrder) (htons : Nat → Nat) (cmd : RtmCmd) (exclCreate : Bool)
    (rn : RuletblNode) (mark : Nat) : ReqBuilder := fun _ dev => do
  let protocol := if cmd = .newTfilter ∧ exclCreate then htons ethPAll else 0
  let req ← storeFields o (openReq cmd exclCreate ++ fwFilterFields mark protocol) (clearedReq o)
  let req ← appendAttrs o [kindCalls "fw", fwCalls o fwMask (classid rn mark)] req
  storeField o .tcmIfindex dev.ifindex req

/-! ## Sending -/

/-- The devices, and the messages handed to `sock_sendmsg`, latest first. -/
structure WireSt where
  qmarkLanDev : String
  qmarkWanDev : String
  wire : List (List UInt8)
  deriving DecidableEq, Repr

/-- `n->nlmsg_flags |= NLM_F_ACK;`, and `nlmsg_len` bytes of the request. -/
def ackedMessage (o : ByteOrder) (req : List UInt8) : Except Oops (List UInt8) := do
  let req ← storeField o .nlmsgFlags (readField o req .nlmsgFlags ||| nlmFAck) req
  return req.take (nlmsgLen o req)

def rtnlTalkBytes (o : ByteOrder) (locked : List UInt8 → Bool) (req : List UInt8) (w : WireSt) :
    Except Oops WireSt := do
  let msg ← ackedMessage o req
  return if locked msg then w else { w with wire := msg :: w.wire }

/-- The loop over the LAN and the WAN device. -/
def tcModifyBytes (o : ByteOrder) (env : Env) (locked : List UInt8 → Bool) (build : ReqBuilder)
    (w : WireSt) : Except Oops WireSt :=
  match env.devGetByName w.qmarkLanDev with
  | none => .ok w
  | some lan => do
    let req ← build 0 lan
    let w ← rtnlTalkBytes o locked req w
    match env.devGetByName w.qmarkWanDev with
    | none => return w
    | some wan => do
      let req ← build 1 wan
      rtnlTalkBytes o locked req w

/-- A call of the two functions the module uses. -/
inductive TcCall where
  | addRule (rn : RuletblNode) (mark : Nat)
  | delRule (rn : RuletblNode) (mark : Nat)

def TcCall.mark : TcCall → Nat
  | .addRule _ mark => mark
  | .delRule _ mark => mark

def TcCall.runBytes (o : ByteOrder) (env : Env) (locked : List UInt8 → Bool) (call : TcCall)
    (w : WireSt) : Except Oops WireSt :=
  match call with
  | .addRule rn mark => do
    let w ← tcModifyBytes o env locked (htbClassBytes o .newTclass true rn mark) w
    let w ← tcModifyBytes o env locked (pfifoQdiscBytes o .newQdisc true rn mark) w
    tcModifyBytes o env locked (fwFilterBytes o env.htons .newTfilter true rn mark) w
  | .delRule rn mark => do
    let w ← tcModifyBytes o env locked (fwFilterBytes o env.htons .delTfilter false rn mark) w
    tcModifyBytes o env locked (htbClassBytes o .delTclass false rn mark) w

/-- The same call on the records. -/
def TcCall.run (env : Env) (call : TcCall) (s : St) : Except Oops St :=
  match call with
  | .addRule rn mark => qmarkTcAddRule env rn mark s
  | .delRule rn mark => qmarkTcDelRule env rn mark s

/-! ## Receiving

What rtnetlink makes of a message: the header, the kind, and the options of that kind. -/

inductive WireOptions where
  | none
  | htb (attrs : HtbAttrs)
  | pfifo (limit : Nat)
  | fw (mask classid : Nat)
  deriving DecidableEq, Repr

structure WireMessage where
  cmd : RtmCmd
  flags : Nat
  ifindex : Nat
  handle : Nat
  parent : Nat
  info : Nat
  kind : String
  options : WireOptions
  deriving DecidableEq, Repr

def RtmCmd.ofNat? (n : Nat) : Option RtmCmd :=
  [.newTclass, .delTclass, .newQdisc, .newTfilter, .delTfilter].find? fun cmd => cmd.toNat == n

/-- The string in an attribute. -/
def stringOf (value : List UInt8) : String :=
  String.ofList ((value.takeWhile (· ≠ 0)).map fun b => Char.ofNat b.toNat)

def TcRatespec.ofFields : List Nat → Option TcRatespec
  | [cellLog, linklayer, overhead, cellAlign, mpu, rate] =>
    some { cellLog, linklayer, overhead, cellAlign := Int.bmod cellAlign (2 ^ 16), mpu, rate }
  | _ => none

/-- The widths of `struct tc_ratespec`. -/
def ratespecWidths : List Nat := [1, 1, 2, 2, 2, 4]

def TcHtbOpt.ofFields (fields : List Nat) : Option TcHtbOpt := do
  let rate ← TcRatespec.ofFields (fields.take 6)
  let ceil ← TcRatespec.ofFields ((fields.drop 6).take 6)
  match fields.drop 12 with
  | [buffer, cbuffer] => some { rate, ceil, buffer, cbuffer }
  | _ => none

def TcHtbOpt.ofBytes (o : ByteOrder) (value : List UInt8) : Option TcHtbOpt :=
  TcHtbOpt.ofFields (o.readRecord (ratespecWidths ++ ratespecWidths ++ [4, 4]) value)

/-- The attribute of a type in a nest. -/
def nestGet (attrs : List (Nat × List UInt8)) (type : Nat) : Option (List UInt8) :=
  (attrs.find? fun attr => attr.1 == type).map Prod.snd

def readOptionsOf (o : ByteOrder) (kind : String) (value : List UInt8) : Option WireOptions :=
  if kind = "htb" then do
    let attrs ← walk o value
    let opt ← TcHtbOpt.ofBytes o (← nestGet attrs tcaHtbParms)
    let rtab := o.readTable 4 256 (← nestGet attrs tcaHtbRtab)
    let ctab := o.readTable 4 256 (← nestGet attrs tcaHtbCtab)
    return .htb { opt, rtab, ctab }
  else if kind = "pfifo" then some (.pfifo (o.read value))
  else if kind = "fw" then do
    let attrs ← walk o value
    let mask ← nestGet attrs tcaFwMask
    let classid ← nestGet attrs tcaFwClassid
    return .fw (o.read mask) (o.read classid)
  else none

def readOptions (o : ByteOrder) (kind : String) : Option (List UInt8) → Option WireOptions
  | none => some .none
  | some value => readOptionsOf o kind value

/-- A message from its header and its attributes. -/
def WireMessage.ofParts (o : ByteOrder) (field : ReqField → Nat)
    (attrs : List (Nat × List UInt8)) : Option WireMessage := do
  let cmd ← RtmCmd.ofNat? (field .nlmsgType)
  let kind ← nestGet attrs tcaKind
  let options ← readOptions o (stringOf kind) (nestGet attrs tcaOptions)
  return { cmd, flags := field .nlmsgFlags, ifindex := field .tcmIfindex,
           handle := field .tcmHandle, parent := field .tcmParent, info := field .tcmInfo,
           kind := stringOf kind, options }

/-- A message is complete: its length field says how many bytes it has. -/
def readMessage (o : ByteOrder) (msg : List UInt8) : Option WireMessage := do
  if nlmsgLen o msg ≠ msg.length ∨ msg.length < attrsOffset then none
  else
    let attrs ← walk o (msg.drop attrsOffset)
    WireMessage.ofParts o (readField o msg) attrs

/-- The options of a record, the arguments of `tc_htb_opt_parse` worked out. -/
def TcaOptions.toWire : TcaOptions → Except Oops WireOptions
  | .none => .ok .none
  | .htb rate ceil mtu => do return .htb (← tcHtbOptParse rate ceil mtu)
  | .pfifo limit => .ok (.pfifo limit)
  | .fw mask classid => .ok (.fw mask classid)

/-- What a record of `IpQos.Kmod.Tc` says, as a message says it. -/
def RtnlReq.toWire (n : RtnlReq) : Except Oops WireMessage := do
  let options ← n.options.toWire
  return { cmd := n.nlmsgType, flags := requestFlags n.exclCreate ||| nlmFAck,
           ifindex := n.tcmIfindex, handle := n.tcmHandle, parent := n.tcmParent,
           info := n.tcmInfo, kind := n.kind, options }

end IpQos.Kmod
