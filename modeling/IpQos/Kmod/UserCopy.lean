import IpQos.Kmod.Ops
import IpQos.Lib.Bytes

/-! # Arguments in user memory

The arguments of the ioctls as bytes: their layout, and what `copy_from_user` leaves of
them when it cannot read all of them. -/

namespace IpQos.Kmod

open IpQos.Lib (ByteOrder)

/-- The four bytes of an address in memory, as the number the module knows it by. -/
def be32OfMemory (bytes : List UInt8) : Be32 := UInt32.ofNat (ByteOrder.big.read bytes)

/-- The commands of `qmark_cdev_ioctl` that read an argument. -/
inductive ArgCmd where
  | ruleAdd
  | ruleDel
  | hashAdd
  | hashDel
  | hashChk
  | markFree
  | reset
  | netdevSet
  | specSet
  deriving DecidableEq, Repr

/-- `sizeof` of the argument. -/
def ArgCmd.size : ArgCmd → Nat
  | .ruleAdd | .ruleDel => 28
  | .hashAdd | .hashDel | .hashChk => 12
  | .markFree | .reset => 4
  | .netdevSet => 32
  | .specSet => 8

/-- The `k`-th `uint32_t` of a structure. -/
def wordAt (o : ByteOrder) (bytes : List UInt8) (k : Nat) : Nat :=
  o.read ((bytes.drop (4 * k)).take 4)

/-- A `char[16]` as a string. -/
def charsAt (bytes : List UInt8) (start : Nat) : String :=
  String.ofList ((((bytes.drop start).take 16).takeWhile (· ≠ 0)).map fun b => Char.ofNat b.toNat)

def ruleOfMemory (o : ByteOrder) (bytes : List UInt8) : QmarkRule :=
  { id := wordAt o bytes 0, mode := wordAt o bytes 1, devid := wordAt o bytes 2,
    rate := wordAt o bytes 3, rateMate := wordAt o bytes 4, rateMin := wordAt o bytes 5,
    rateMinMate := wordAt o bytes 6 }

def hashOfMemory (o : ByteOrder) (bytes : List UInt8) : QmarkHash :=
  { ip := be32OfMemory (bytes.take 4), id := wordAt o bytes 1, mark := wordAt o bytes 2 }

/-- The command on the structure that has these bytes. -/
def ArgCmd.decode (o : ByteOrder) (bytes : List UInt8) : ArgCmd → QmarkIoc
  | .ruleAdd => .ruleAdd (ruleOfMemory o bytes)
  | .ruleDel => .ruleDel (ruleOfMemory o bytes)
  | .hashAdd => .hashAdd (hashOfMemory o bytes)
  | .hashDel => .hashDel (hashOfMemory o bytes)
  | .hashChk => .hashChk (hashOfMemory o bytes)
  | .markFree => .markFree (wordAt o bytes 0)
  | .reset => .reset (wordAt o bytes 0)
  | .netdevSet => .netdevSet (charsAt bytes 0) (charsAt bytes 16)
  | .specSet => .specSet (wordAt o bytes 0) (wordAt o bytes 1)

/-- What `copy_from_user` leaves in the local variable when the last `left` bytes of the
    argument cannot be read: it clears the rest. -/
def copied (arg : List UInt8) (left : Nat) : List UInt8 :=
  arg.take (arg.length - left) ++ List.replicate left 0

end IpQos.Kmod
