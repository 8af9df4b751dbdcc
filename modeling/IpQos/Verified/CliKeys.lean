import IpQos.App.Qmark
import Mathlib.Data.List.Chain

/-! # Addresses on the command line

Whether a hash option of the tool means the address it was given: the key that reaches the
module, on a CPU of either byte order, against the key of a packet from that address.  The
sum of an option starts from the `ip` of the options before it, and the shifts build the
big-endian number of an address. -/

namespace IpQos.Verified

open IpQos.App IpQos.Kmod
open IpQos.Lib (ByteOrder)

variable {o : ByteOrder} {ip : Nat} {q : DottedQuad} {opts : List QmarkOpt}

/-! ## The key of one option -/

/-- `a.b.c.d` as the shifts build it. -/
def DottedQuad.number (q : DottedQuad) : Nat := ByteOrder.big.read q.bytes

theorem DottedQuad.number_eq (q : DottedQuad) :
    DottedQuad.number q =
      q.a.toNat * 2 ^ 24 + q.b.toNat * 2 ^ 16 + q.c.toNat * 2 ^ 8 + q.d.toNat := by
  simp [DottedQuad.number, ByteOrder.read, ByteOrder.leastFirst, DottedQuad.bytes, Nat.ofDigits]
  omega

theorem addIp_eq (ip : Nat) (q : DottedQuad) :
    addIp ip q = (ip + DottedQuad.number q) % 2 ^ 32 := by
  have sum : addIp ip q = u32 (u32 (u32 (u32 (ip + q.a.toNat <<< 24) + q.b.toNat <<< 16) +
      q.c.toNat <<< 8) + q.d.toNat <<< 0) := rfl
  rw [sum, DottedQuad.number_eq]
  simp only [u32, Nat.shiftLeft_eq]
  omega

theorem read_bytes_lt (o : ByteOrder) (q : DottedQuad) : o.read q.bytes < 2 ^ 32 :=
  Nat.lt_of_lt_of_eq (ByteOrder.read_lt o q.bytes) (by simp [DottedQuad.bytes])

/-- The memory of the machine word `ip` is the address of a packet exactly if the CPU reads
    `ip` from the packet. -/
theorem key_eq_iff (o : ByteOrder) (small : ip < 2 ^ 32) (q : DottedQuad) :
    be32OfMemory (o.write 4 ip) = q.saddr ↔ ip = o.read q.bytes := by
  have len : (o.write 4 ip).length = q.bytes.length := by
    rw [ByteOrder.write, ByteOrder.length_leastFirst, ByteOrder.length_lowBytes]
    rfl
  have bound : ByteOrder.big.read (o.write 4 ip) < 2 ^ 32 := by
    have lt := ByteOrder.read_lt .big (o.write 4 ip)
    rw [len] at lt
    exact Nat.lt_of_lt_of_eq lt (by simp [DottedQuad.bytes])
  rw [← ByteOrder.write_eq_iff (w := 4) rfl (Nat.lt_of_lt_of_eq small (by simp))]
  constructor
  · intro same
    refine ByteOrder.read_inj (o := .big) len ?_
    have numbers := congrArg UInt32.toNat same
    simp only [be32OfMemory, DottedQuad.saddr] at numbers
    rwa [UInt32.toNat_ofNat_of_lt' bound, UInt32.toNat_ofNat_of_lt' (read_bytes_lt _ q)] at numbers
  · intro same
    rw [same]
    rfl

/-! ## The key of every option -/

/-- The address a hash ioctl is about. -/
def address : QmarkIoc → Option Be32
  | .hashAdd qh => some qh.ip
  | .hashDel qh => some qh.ip
  | .hashChk qh => some qh.ip
  | _ => none

/-- What the ioctl of an option names is what the packets of its address carry. -/
def NamesOwn (o : ByteOrder) (call : HashIoctl) : Prop :=
  address (call.toIoc o) = some call.own.saddr

theorem address_toIoc (o : ByteOrder) (call : HashIoctl) :
    address (call.toIoc o) = some (be32OfMemory (o.write 4 call.qh.ip)) := by
  unfold HashIoctl.toIoc
  cases call.cmd <;> rfl

/-- The addresses of an invocation, in order. -/
def addressed : List QmarkOpt → List DottedQuad
  | [] => []
  | .addHash ip _ _ :: opts => ip :: addressed opts
  | .delHash ip :: opts => ip :: addressed opts
  | .checkHash ip _ :: opts => ip :: addressed opts
  | .other :: opts => addressed opts

/-- From a sum of `ip` on, every sum is what the CPU reads from the address just added. -/
def Follows (o : ByteOrder) : Nat → List DottedQuad → Prop
  | _, [] => True
  | ip, q :: quads =>
    (ip + DottedQuad.number q) % 2 ^ 32 = o.read q.bytes ∧ Follows o (o.read q.bytes) quads

theorem own_then_follows {cmd : HashCmd} {qh : App.QmarkHash} {calls : List HashIoctl}
    {quads : List DottedQuad} (summed : qh.ip = addIp ip q)
    (rest : (∀ call ∈ calls, NamesOwn o call) ↔ Follows o qh.ip quads) :
    (∀ call ∈ ⟨cmd, q, qh⟩ :: calls, NamesOwn o call) ↔ Follows o ip (q :: quads) := by
  have small : qh.ip < 2 ^ 32 := by
    rw [summed, addIp_eq]
    exact Nat.mod_lt _ (by decide)
  have first : NamesOwn o ⟨cmd, q, qh⟩ ↔ qh.ip = o.read q.bytes := by
    rw [NamesOwn, address_toIoc, Option.some.injEq]
    exact key_eq_iff o small q
  rw [List.forall_mem_cons, first, rest, Follows, ← addIp_eq, ← summed]
  constructor
  · rintro ⟨own, follows⟩
    exact ⟨own, own ▸ follows⟩
  · rintro ⟨own, follows⟩
    exact ⟨own, own.symm ▸ follows⟩

theorem optLoop_namesOwn (o : ByteOrder) (opts : List QmarkOpt) (qh : App.QmarkHash) :
    (∀ call ∈ optLoop opts qh, NamesOwn o call) ↔ Follows o qh.ip (addressed opts) := by
  induction opts generalizing qh with
  | nil => simp [optLoop, addressed, Follows]
  | cons opt opts ih =>
    cases opt with
    | addHash q mark id => exact own_then_follows rfl (ih _)
    | delHash q => exact own_then_follows rfl (ih _)
    | checkHash q found => exact own_then_follows rfl (ih _)
    | other => exact ih qh

/-! ## Both byte orders -/

def DottedQuad.reverse (q : DottedQuad) : DottedQuad := ⟨q.d, q.c, q.b, q.a⟩

/-- Big endian: every address but the last is 0.0.0.0.  Little endian: the first address is
    a palindrome, and each further one makes up for what the one before it left behind. -/
def OwnKeys : ByteOrder → List DottedQuad → Prop
  | .big, quads => ∀ q ∈ quads.dropLast, q = ⟨0, 0, 0, 0⟩
  | .little, quads => (∀ q ∈ quads.head?, DottedQuad.reverse q = q) ∧
    quads.IsChain fun p q =>
      (DottedQuad.number (DottedQuad.reverse p) + DottedQuad.number q) % 2 ^ 32 =
        DottedQuad.number (DottedQuad.reverse q)

theorem number_inj {p q : DottedQuad} (same : DottedQuad.number p = DottedQuad.number q) :
    p = q := by
  have bytes : p.bytes = q.bytes := ByteOrder.read_inj rfl same
  cases p with
  | mk a b c d =>
    cases q with
    | mk a' b' c' d' =>
      simp only [DottedQuad.bytes, List.cons.injEq, and_true] at bytes
      obtain ⟨rfl, rfl, rfl, rfl⟩ := bytes
      rfl

theorem number_lt (q : DottedQuad) : DottedQuad.number q < 2 ^ 32 := read_bytes_lt .big q

theorem number_eq_zero (q : DottedQuad) : DottedQuad.number q = 0 ↔ q = ⟨0, 0, 0, 0⟩ := by
  have zero : DottedQuad.number ⟨0, 0, 0, 0⟩ = 0 := by
    rw [DottedQuad.number_eq]
    rfl
  constructor
  · intro none
    exact number_inj (none.trans zero.symm)
  · rintro rfl
    exact zero

theorem follows_big {ip : Nat} (small : ip < 2 ^ 32) (quads : List DottedQuad) :
    Follows .big ip quads ↔ (quads ≠ [] → ip = 0) ∧ OwnKeys .big quads := by
  induction quads generalizing ip with
  | nil => simp [Follows, OwnKeys]
  | cons q quads ih =>
    have bound := number_lt q
    have read : ByteOrder.big.read q.bytes = DottedQuad.number q := rfl
    have first : (ip + DottedQuad.number q) % 2 ^ 32 = DottedQuad.number q ↔ ip = 0 := by omega
    rw [Follows, read, first, ih bound]
    cases quads with
    | nil => simp [OwnKeys]
    | cons p quads => simp [OwnKeys, number_eq_zero]

theorem read_little (q : DottedQuad) :
    ByteOrder.little.read q.bytes = DottedQuad.number (DottedQuad.reverse q) := rfl

theorem follows_little (ip : Nat) (q : DottedQuad) (quads : List DottedQuad) :
    Follows .little ip (q :: quads) ↔
      (ip + DottedQuad.number q) % 2 ^ 32 = DottedQuad.number (DottedQuad.reverse q) ∧
        (q :: quads).IsChain fun p q =>
          (DottedQuad.number (DottedQuad.reverse p) + DottedQuad.number q) % 2 ^ 32 =
            DottedQuad.number (DottedQuad.reverse q) := by
  induction quads generalizing ip q with
  | nil =>
    rw [Follows, read_little]
    simp [Follows]
  | cons p quads ih => rw [Follows, read_little, ih, List.isChain_cons_cons]

theorem follows_zero_iff (o : ByteOrder) (quads : List DottedQuad) :
    Follows o 0 quads ↔ OwnKeys o quads := by
  cases o with
  | big =>
    have zero_small : 0 < 2 ^ 32 := by decide
    simp [follows_big zero_small quads]
  | little =>
    cases quads with
    | nil => simp [Follows, OwnKeys]
    | cons q quads =>
      have palindrome : (0 + DottedQuad.number q) % 2 ^ 32 =
          DottedQuad.number (DottedQuad.reverse q) ↔ DottedQuad.reverse q = q := by
        rw [Nat.zero_add, Nat.mod_eq_of_lt (number_lt q)]
        exact ⟨fun same => (number_inj same).symm, fun same => congrArg _ same.symm⟩
      rw [follows_little, palindrome, OwnKeys]
      simp

/-- Every hash option of an invocation means its own address exactly if the addresses are
    such that the sums of all of them come out right. -/
theorem options_name_own_iff (o : ByteOrder) (opts : List QmarkOpt) :
    (∀ call ∈ qmarkMain opts, address (call.toIoc o) = some call.own.saddr) ↔
      OwnKeys o (addressed opts) :=
  (optLoop_namesOwn o opts _).trans (follows_zero_iff o (addressed opts))

/-- A little-endian CPU looks up 2.1.168.192; a big-endian one deletes 20.0.0.3. -/
theorem options_miss_own :
    (∃ call ∈ qmarkMain [.checkHash ⟨192, 168, 1, 2⟩ 0],
      address (call.toIoc .little) ≠ some call.own.saddr) ∧
    ∃ call ∈ qmarkMain [.delHash ⟨10, 0, 0, 1⟩, .delHash ⟨10, 0, 0, 2⟩],
      address (call.toIoc .big) ≠ some call.own.saddr := by
  decide +kernel

end IpQos.Verified
