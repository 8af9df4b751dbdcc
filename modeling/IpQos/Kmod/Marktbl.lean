import IpQos.Kmod.Types
import IpQos.Lib.Chain

/-! # The mark bitmap, the hash table and the rule table

The static helpers of `kmod/qos_marktbl_main.c`, in the order of the source.
Every function takes the module state and returns the new one, or the fault that
stops it.  Taking and releasing the spinlocks has no effect on the tables and
is left out here. -/

namespace IpQos.Kmod

open IpQos.Lib (modifyFirst)

/-! ## Allocations

The byte count of a `kmalloc` is a product on `uint32_t`; a table of which it wraps
is smaller than its size says. -/

/-- `sizeof(unsigned long)` in bits, on a 32-bit CPU. -/
def bitsPerLong : Nat := 32

def sizeofHlistHead : Nat := 4

def sizeofRuletblNode : Nat := 36

/-- How many elements the memory of `kmalloc(size * cnt)` holds. -/
def allotted (size cnt : Nat) : Nat := u32 (size * cnt) / size

/-- How many of `cnt` bits `BITS_TO_LONGS(cnt)` longs hold. -/
def allottedBits (cnt : Nat) : Nat := min cnt (u32 (cnt + 31) / bitsPerLong * bitsPerLong)

theorem allotted_of_small {size cnt : Nat} (pos : 0 < size) (small : size * cnt < 2 ^ 32) :
    allotted size cnt = cnt := by
  rw [allotted, u32, Nat.mod_eq_of_lt small, Nat.mul_div_cancel_left cnt pos]

theorem allotted_le (size cnt : Nat) : allotted size cnt ≤ cnt :=
  Nat.div_le_of_le_mul (Nat.mod_le _ _)

theorem allottedBits_of_small {cnt : Nat} (small : cnt + 31 < 2 ^ 32) :
    allottedBits cnt = cnt := by
  unfold allottedBits u32 bitsPerLong
  omega

theorem allottedBits_le (cnt : Nat) : allottedBits cnt ≤ cnt := Nat.min_le_left ..

/-! ## Array accesses -/

/-- `size` is the number of bits the globals promise. -/
def readBit (size : Nat) (bm : List Bool) (i : Nat) : Except Oops Bool :=
  match bm[i]? with
  | some b => .ok b
  | none => .error (.beyond i size)

def writeBit (size : Nat) (bm : List Bool) (i : Nat) (b : Bool) : Except Oops (List Bool) :=
  if i < bm.length then .ok (bm.set i b) else .error (.beyond i size)

/-- `g_ruletbl[id-1]`, with the subtraction on `uint32_t`. -/
def ruleAt (id : Nat) (s : St) : Except Oops RuletblNode := do
  let tbl ← s.gRuletbl.deref
  match tbl[subU32 id 1]? with
  | some rn => .ok rn
  | none => .error (.beyond (subU32 id 1) s.maxRuleCnt)

/-- An assignment to fields of `g_ruletbl[id-1]`. -/
def modifyRule (id : Nat) (f : RuletblNode → RuletblNode) (s : St) : Except Oops St := do
  let tbl ← s.gRuletbl.deref
  if subU32 id 1 < tbl.length then
    .ok (s.setRules (tbl.modify (subU32 id 1) f))
  else .error (.beyond (subU32 id 1) s.maxRuleCnt)

/-- A loop over the first `cnt` elements of a table. -/
def walkTable {α : Type} (p : Ptr (List α)) (cnt : Nat) : Except Oops Unit :=
  if cnt = 0 then .ok ()
  else do
    let tbl ← p.deref
    if tbl.length < cnt then .error .overrun else return ()

/-! ## Mark bitmap operation -/

def elemOverLimit (s : St) : Except Oops Bool := do
  let head ← s.gMarktblHead.deref
  return u32 (head.elemNum + 1) > s.maxIpCnt

def markBitmapInit (env : Env) (cnt : Nat) (s : St) : RetCode × St :=
  if env.kmalloc .markBitmap then (.ok, s.setBits (List.replicate (allottedBits cnt) false))
  else (.allocFail, { s with markBitmap := .null })

def markBitmapExit (s : St) : St := { s with markBitmap := .null }

/-- The first clear bit below `size`, or `size`. -/
def findFirstZeroBit (bm : List Bool) (size : Nat) : Nat := (bm.take size).findIdx (!·)

/-- Returns 0 when the bitmap is full. -/
def allocMark (s : St) : Except Oops (Nat × St) := do
  let bm ← s.markBitmap.deref
  let firstZeroBit := findFirstZeroBit bm s.maxIpCnt
  if firstZeroBit ≥ s.maxIpCnt then return (0, s)
  else
    let bm ← writeBit s.maxIpCnt bm firstZeroBit true
    let markOffset := u32 (firstZeroBit + 1)
    let mark := u32 (markOffset <<< markBase)
    return (mark, s.setBits bm)

def freeMark (mark : Nat) (s : St) : Except Oops St := do
  let markOffset := mark >>> markBase
  let bm ← s.markBitmap.deref
  let bm ← writeBit s.maxIpCnt bm (subU32 markOffset 1) false
  return { s.setBits bm with freed := mark :: s.freed }

def testMark (mark : Nat) (s : St) : Except Oops Bool := do
  let markOffset := mark >>> markBase
  let bm ← s.markBitmap.deref
  readBit s.maxIpCnt bm (subU32 markOffset 1)

/-- `bitmap_zero` works out as many longs as were allocated. -/
def flushMark (s : St) : Except Oops St := do
  let bm ← s.markBitmap.deref
  return s.setBits (bm.map fun _ => false)

/-! ## Hash related function -/

/-- `key[0] + (key[1] << 8) + (key[2] << 16) + (key[3] << 24)` -/
def hashWord (k0 k1 k2 k3 : UInt8) : UInt32 :=
  k0.toUInt32 + (k1.toUInt32 <<< 8) + (k2.toUInt32 <<< 16) + (k3.toUInt32 <<< 24)

/-- The loop `while (len >= 8)`: the state is `a`, `b` and the bytes from `key` on. -/
def hashLoop (a b : UInt32) : List UInt8 → UInt32 × UInt32 × List UInt8
  | _ :: _ :: _ :: _ :: k0 :: k1 :: k2 :: k3 :: rest =>
    let a := a + b
    let a := a + ~~~(a <<< 15)
    let a := a ^^^ (a >>> 10)
    let b := k0.toUInt32
    let a := a + (a <<< 3)
    let b := b + (k1.toUInt32 <<< 8)
    let a := a ^^^ (a >>> 6)
    let b := b + (k2.toUInt32 <<< 16)
    let a := a + ~~~(a <<< 11)
    let b := b + (k3.toUInt32 <<< 24)
    let a := a ^^^ (a >>> 16)
    hashLoop a b (k0 :: k1 :: k2 :: k3 :: rest)
  | key => (a, b, key)

/-- The `switch (len)` that falls through.  `key` is not advanced by the
    `len >= 4` block before it, so the tail bytes are those of the last word. -/
def hashTail (a : UInt32) (len : Nat) (key : List UInt8) : UInt32 :=
  let byte (i : Nat) : UInt32 := (key.getD i 0).toUInt32
  let a := if len = 3 then a + (byte 2 <<< 16) else a
  let a := if len = 3 ∨ len = 2 then a ^^^ (byte 1 <<< 8) else a
  if len = 3 ∨ len = 2 ∨ len = 1 then a + byte 0 else a

def hashFn (key : List UInt8) : UInt32 :=
  let b := match key with
    | k0 :: k1 :: k2 :: k3 :: _ => hashWord k0 k1 k2 k3
    | _ => 0
  let (a, b, key) := hashLoop (UInt32.ofNat key.length) b key
  if key.length ≥ 4 then
    let a := a + b
    let a := a + ~~~(a <<< 15)
    let a := a ^^^ (a >>> 10)
    let a := a + (a <<< 3)
    let a := a ^^^ (a >>> 6)
    let a := a + ~~~(a <<< 11)
    let a := a ^^^ (a >>> 16)
    hashTail a (key.length - 4) key
  else hashTail a key.length key

/-- The bytes of a `marktbl_node_key_t` in memory. -/
def keyBytes (key : Be32) : List UInt8 :=
  [(key >>> 24).toUInt8, (key >>> 16).toUInt8, (key >>> 8).toUInt8, key.toUInt8]

/-- `hash % head->size` once `size` is not 0. -/
def slotOf (size : Nat) (key : Be32) : Nat := (hashFn (keyBytes key)).toNat % size

def hashIndex (head : MarktblHead) (key : Be32) : Except Oops Nat :=
  if head.size = 0 then .error .remainderByZero else .ok (slotOf head.size key)

def bucket (head : MarktblHead) (i : Nat) : Except Oops (List MarktblNode) :=
  match head.ht[i]? with
  | some chain => .ok chain
  | none => .error .outOfBounds

def marktblHashCmp (key : Be32) (node : MarktblNode) : Bool := node.srcIp = key

def marktblHashGet (key : Be32) (s : St) : Except Oops (Option MarktblNode) := do
  let head ← s.gMarktblHead.deref
  let i ← hashIndex head key
  let chain ← bucket head i
  return chain.find? (marktblHashCmp key)

/-- A write through the `marktbl_node_t *` that `marktbl_hash_get` found for `key`. -/
def modifyNode (key : Be32) (f : MarktblNode → MarktblNode) (s : St) : Except Oops St := do
  let head ← s.gMarktblHead.deref
  let i ← hashIndex head key
  let _ ← bucket head i
  return s.setHead { head with ht := head.ht.modify i (modifyFirst (marktblHashCmp key) f) }

def marktblHashAdd (env : Env) (key : Be32) (id mark : Nat) (s : St) :
    Except Oops (RetCode × St) := do
  let limited ← elemOverLimit s
  if limited then return (.overMax, s)
  else
    let markNode : Ptr MarktblNode := .null
    let head ← s.gMarktblHead.deref
    let i ← hashIndex head key
    let chain ← bucket head i
    match chain.find? (marktblHashCmp key) with
    | some _ =>
      -- atomic_inc(&mark_node->count), where the loop variable is entry
      let _ ← markNode.deref
      return (.ok, s)
    | none =>
      if env.kmalloc .marktblNode then
        let node : MarktblNode := { srcIp := key, id, mark, count := 0 }
        let s ← modifyRule id (fun rn => { rn with count := atomicInc rn.count }) s
        return (.ok, s.setHead
          { head with elemNum := u32 (head.elemNum + 1), ht := head.ht.modify i (node :: ·) })
      else return (.allocFail, s)

/-- Unlinks the entry of `key` and hands it to the caller. -/
def marktblHashRemove (key : Be32) (s : St) :
    Except Oops (RetCode × Option MarktblNode × St) := do
  let head ← s.gMarktblHead.deref
  let i ← hashIndex head key
  let chain ← bucket head i
  match chain.find? (marktblHashCmp key) with
  | some entry =>
    if entry.count > 0 then return (.countNozero, none, s)
    else
      let s := s.setHead
        { head with
          elemNum := subU32 head.elemNum 1
          ht := head.ht.modify i (·.eraseP (marktblHashCmp key)) }
      let s ← modifyRule entry.id (fun rn => { rn with count := atomicDec rn.count }) s
      return (.ok, some entry, s)
  | none => return (.noExist, none, s)

def marktblHashClean (s : St) : Except Oops St := do
  let head ← s.gMarktblHead.deref
  return s.setHead
    { head with
      elemNum := subU32 head.elemNum head.ht.flatten.length
      ht := head.ht.map fun _ => [] }

/-- Printing reads every bucket, and every entry in it. -/
def marktblHashList (s : St) : Except Oops Unit := do
  let _ ← s.gMarktblHead.deref
  return ()

/-! ## qos mark table operation -/

def qosMarktblHashtblAdd (env : Env) (srcIp : Be32) (id mark : Nat) (s : St) :
    Except Oops (RetCode × St) := do
  let allocated ← testMark mark s
  if !allocated then return (.error, s)
  else marktblHashAdd env srcIp id mark s

def qosMarktblHashtblDel (srcIp : Be32) (s : St) : Except Oops (RetCode × Nat × St) := do
  let (ret, markNode, s) ← marktblHashRemove srcIp s
  match ret, markNode with
  | .ok, some node => return (ret, node.mark, s)
  | _, _ => return (ret, 0, s)

def qosMarktblHashtblGet (srcIp : Be32) (s : St) : Except Oops (RetCode × Nat) := do
  let markNode ← marktblHashGet srcIp s
  match markNode with
  | some node => return (.ok, node.mark)
  | none => return (.noExist, 0)

/-- When the bucket array cannot be allocated the head is freed and the global
    keeps pointing to it. -/
def qosMarktblHashtblInit (env : Env) (s : St) : Except Oops (RetCode × St) :=
  if env.kmalloc .marktblHead then
    if env.kmalloc .marktblHt then
      -- INIT_HLIST_HEAD goes through `htsize` buckets, allocated or not
      if allotted sizeofHlistHead s.maxIpCnt < s.maxIpCnt then .error .overrun
      else
        .ok (.ok, s.setHead
          { elemNum := 0, size := s.maxIpCnt, ht := List.replicate s.maxIpCnt [] })
    else .ok (.error, { s with gMarktblHead := .dangling })
  else .ok (.error, { s with gMarktblHead := .null })

def qosMarktblHashtblExit (s : St) : Except Oops St :=
  match s.gMarktblHead with
  | .null => .ok s
  | _ => do
    let s ← marktblHashClean s
    return { s with gMarktblHead := .null }

def qosRuletblInit (env : Env) (s : St) : RetCode × St :=
  if env.kmalloc .ruletbl then
    (.ok, s.setRules (List.replicate (allotted sizeofRuletblNode s.maxRuleCnt) .zero))
  else (.error, { s with gRuletbl := .null })

def qosRuletblExit (s : St) : St := { s with gRuletbl := .null }

end IpQos.Kmod
