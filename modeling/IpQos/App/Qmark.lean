import IpQos.Kmod.UserCopy

/-! # The command line tool

The option loop of `app/qmark.c`, as far as it names addresses.  The tool and the module
share the memory of a `qmark_hash_t`; the tool fills its `ip` as a machine word, the module
compares it with the four bytes of a packet. -/

namespace IpQos.App

open IpQos.Kmod (Be32 u32 be32OfMemory)
open IpQos.Lib (ByteOrder)

/-- An address `a.b.c.d` as `sscanf` leaves it in `ip[4]`. -/
structure DottedQuad where
  a : UInt8
  b : UInt8
  c : UInt8
  d : UInt8
  deriving DecidableEq, Repr

def DottedQuad.bytes (q : DottedQuad) : List UInt8 := [q.a, q.b, q.c, q.d]

/-- `iph->saddr` of a packet from the address. -/
def DottedQuad.saddr (q : DottedQuad) : Be32 := be32OfMemory q.bytes

/-- The local variable `qh`. -/
structure QmarkHash where
  ip : Nat
  id : Nat
  mark : Nat
  deriving DecidableEq, Repr

/-- `for (i = 0; i < 4; i++) qh.ip += (ip[i] << ((3-i) << 3));` -/
def addIp (ip : Nat) (q : DottedQuad) : Nat :=
  (List.range 4).foldl
    (fun ip i => u32 (ip + (q.bytes.getD i 0).toNat <<< ((3 - i) <<< 3))) ip

/-- The options that touch `qh`, and those that do not.  `found` is the mark which the
    module copies back. -/
inductive QmarkOpt where
  | addHash (ip : DottedQuad) (mark id : Nat)
  | delHash (ip : DottedQuad)
  | checkHash (ip : DottedQuad) (found : Nat)
  | other
  deriving DecidableEq, Repr

inductive HashCmd where
  | add
  | del
  | chk
  deriving DecidableEq, Repr

/-- An `ioctl` of the loop; `own` is the address of its option. -/
structure HashIoctl where
  cmd : HashCmd
  own : DottedQuad
  qh : QmarkHash
  deriving DecidableEq, Repr

/-- The `getopt_long` loop; a failed ioctl does not end it. -/
def optLoop : List QmarkOpt → QmarkHash → List HashIoctl
  | [], _ => []
  | .addHash ip mark id :: opts, qh =>
    let qh := { ip := addIp qh.ip ip, id, mark }
    ⟨.add, ip, qh⟩ :: optLoop opts qh
  | .delHash ip :: opts, qh =>
    let qh := { qh with ip := addIp qh.ip ip }
    ⟨.del, ip, qh⟩ :: optLoop opts qh
  | .checkHash ip found :: opts, qh =>
    let qh := { qh with ip := addIp qh.ip ip }
    ⟨.chk, ip, qh⟩ :: optLoop opts { qh with mark := found }
  | .other :: opts, qh => optLoop opts qh

/-- The hash ioctls of one invocation. -/
def qmarkMain (opts : List QmarkOpt) : List HashIoctl :=
  optLoop opts { ip := 0, id := 0, mark := 0 }

/-- The argument as the module reads it from the same memory. -/
def QmarkHash.toKernel (o : ByteOrder) (qh : QmarkHash) : Kmod.QmarkHash :=
  { ip := be32OfMemory (o.write 4 qh.ip), id := qh.id, mark := qh.mark }

def HashIoctl.toIoc (o : ByteOrder) (call : HashIoctl) : Kmod.QmarkIoc :=
  match call.cmd with
  | .add => .hashAdd (call.qh.toKernel o)
  | .del => .hashDel (call.qh.toKernel o)
  | .chk => .hashChk (call.qh.toKernel o)

end IpQos.App
