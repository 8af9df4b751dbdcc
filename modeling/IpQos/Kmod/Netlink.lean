import IpQos.Kmod.Types
import IpQos.Lib.Attributes
import IpQos.Lib.Memory

/-! # Requests in memory

`qmark_tc_addattr` of `kmod/qos_marktbl_tc.c` and the way the builders nest attributes.
A `struct rtnl_req` is its bytes: the header, the `struct tcmsg` and the buffer.  The
lengths are `uint32_t` and `unsigned short`; the macros are those of the kernel headers
with an alignment and an attribute header of 4 bytes each. -/

namespace IpQos.Kmod

open IpQos.Lib (Attr ByteOrder patch roundUp slice)

def tcaOptions : Nat := 2

/-- `sizeof(struct rtnl_req)`: 16 bytes of header, 20 of `struct tcmsg`, and `TCA_BUF_MAX`. -/
def sizeofRtnlReq : Nat := 16 + 20 + 4096

/-- `NLMSG_LENGTH(sizeof(struct tcmsg))` -/
def attrsOffset : Nat := 36

/-- `NLMSG_ALIGN` and `RTA_ALIGN` -/
def nlAlign (len : Nat) : Nat := u32 (roundUp (u32 len))

/-- `RTA_LENGTH` -/
def rtaLength (alen : Nat) : Nat := u32 (4 + alen)

def storeBytes (off : Nat) (bytes req : List UInt8) : Except Oops (List UInt8) :=
  if off + bytes.length ≤ req.length then .ok (patch req off bytes) else .error .outOfBounds

/-- `n->nlmsg_len`, the first field of the header. -/
def nlmsgLen (o : ByteOrder) (req : List UInt8) : Nat := o.read (slice req 0 4)

/-- `NLMSG_TAIL(n)`, as an offset into the request. -/
def nlmsgTail (o : ByteOrder) (req : List UInt8) : Nat := nlAlign (nlmsgLen o req)

/-- `NLMSG_ALIGN(n->nlmsg_len) + RTA_ALIGN(len) > maxlen`, a comparison of unsigned numbers. -/
def exceedsBound (o : ByteOrder) (maxlen : Int32) (alen : Nat) (req : List UInt8) : Bool :=
  u32 (nlAlign (nlmsgLen o req) + nlAlign (rtaLength alen)) > maxlen.toUInt32.toNat

/-- `data` has `alen` bytes.  `rta_len` is the first field of a `struct rtattr`. -/
def qmarkTcAddattr (o : ByteOrder) (maxlen : Int32) (type : Nat) (data : List UInt8)
    (req : List UInt8) : Except Oops (RetCode × List UInt8) := do
  let len := rtaLength data.length
  if exceedsBound o maxlen data.length req then return (.error, req)
  else
    let rta := nlmsgTail o req
    let req ← storeBytes (rta + 2) (o.write 2 type) req
    let req ← storeBytes rta (o.write 2 len) req
    let req ← storeBytes (rta + 4) data req
    let req ← storeBytes 0 (o.write 4 (u32 (nlAlign (nlmsgLen o req) + nlAlign len))) req
    return (.ok, req)

/-! ## Builders -/

/-- What a builder does to its request: `tail = NLMSG_TAIL(n)`, a call of `qmark_tc_addattr`
    whose result it ignores, and `tail->rta_len = NLMSG_TAIL(n) - tail`. -/
inductive BuildStep where
  | setTail
  | addattr (maxlen : Int32) (type : Nat) (data : List UInt8)
  | patchTail

/-- A request under construction, with the builder's variable `tail`. -/
structure BuildSt where
  req : List UInt8
  tail : Nat

def buildStep (o : ByteOrder) (step : BuildStep) (b : BuildSt) : Except Oops BuildSt :=
  match step with
  | .setTail => return { b with tail := nlmsgTail o b.req }
  | .addattr maxlen type data => do
    let (_, req) ← qmarkTcAddattr o maxlen type data b.req
    return { b with req := req }
  | .patchTail => do
    let req ← storeBytes b.tail (o.write 2 (nlmsgTail o b.req - b.tail)) b.req
    return { b with req := req }

/-- One call of `qmark_tc_addattr`. -/
structure AddattrCall where
  maxlen : Int32
  type : Nat
  data : List UInt8

/-- An attribute as a builder appends it.  A nest is an empty attribute, the attributes
    inside it, and its length put right. -/
inductive AttrCalls where
  | plain (call : AddattrCall)
  | nest (maxlen : Int32) (type : Nat) (children : List AddattrCall)

def AddattrCall.step (call : AddattrCall) : BuildStep := .addattr call.maxlen call.type call.data

def AttrCalls.steps : AttrCalls → List BuildStep
  | .plain call => [call.step]
  | .nest maxlen type children =>
    .setTail :: .addattr maxlen type [] :: (children.map AddattrCall.step ++ [.patchTail])

/-- The attribute that the calls are to append. -/
def AttrCalls.attr : AttrCalls → Attr
  | .plain call => .plain call.type call.data
  | .nest _ type children => .nest type (children.map fun call => (call.type, call.data))

/-- The attributes of a request, from the end of `struct tcmsg` to `nlmsg_len`. -/
def attrsRegion (o : ByteOrder) (req : List UInt8) : List UInt8 :=
  slice req attrsOffset (nlmsgLen o req - attrsOffset)

/-- A request cleared by `memset`, with its `nlmsg_len` set. -/
def clearedReq (o : ByteOrder) : List UInt8 :=
  patch (List.replicate sizeofRtnlReq 0) 0 (o.write 4 attrsOffset)

end IpQos.Kmod
