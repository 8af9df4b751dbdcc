import Mathlib.Data.Nat.Digits.Defs

/-! # Byte orders

Numbers in memory: the bytes in which a CPU of either byte order stores a number, and
the number it reads from bytes. -/

namespace IpQos.Lib

inductive ByteOrder where
  | little
  | big
  deriving DecidableEq, Repr

namespace ByteOrder

variable {o : ByteOrder} {w n : Nat} {bytes : List UInt8}

/-- Bytes in memory order, rearranged to have the least significant one first. -/
def leastFirst : ByteOrder → List UInt8 → List UInt8
  | .little, bytes => bytes
  | .big, bytes => bytes.reverse

def read (o : ByteOrder) (bytes : List UInt8) : Nat :=
  Nat.ofDigits 256 ((o.leastFirst bytes).map UInt8.toNat)

/-- The `w` lowest bytes of a number, the least significant one first. -/
def lowBytes : Nat → Nat → List UInt8
  | 0, _ => []
  | w + 1, n => UInt8.ofNat n :: lowBytes w (n / 256)

def write (o : ByteOrder) (w n : Nat) : List UInt8 := o.leastFirst (lowBytes w n)

@[simp] theorem leastFirst_leastFirst (o : ByteOrder) (bytes : List UInt8) :
    o.leastFirst (o.leastFirst bytes) = bytes := by
  cases o with
  | little => rfl
  | big => exact bytes.reverse_reverse

@[simp] theorem length_leastFirst (o : ByteOrder) (bytes : List UInt8) :
    (o.leastFirst bytes).length = bytes.length := by
  cases o with
  | little => rfl
  | big => exact List.length_reverse

@[simp] theorem length_lowBytes (w n : Nat) : (lowBytes w n).length = w := by
  induction w generalizing n with
  | zero => rfl
  | succ w ih => rw [lowBytes, List.length_cons, ih]

theorem ofDigits_lowBytes (w n : Nat) :
    Nat.ofDigits 256 ((lowBytes w n).map UInt8.toNat) = n % 256 ^ w := by
  induction w generalizing n with
  | zero => rw [lowBytes, List.map_nil, Nat.ofDigits_nil, Nat.pow_zero, Nat.mod_one]
  | succ w ih =>
    have lowest : n % 256 ^ (w + 1) = n % 256 + 256 * (n / 256 % 256 ^ w) := by
      rw [Nat.pow_succ', Nat.mod_mul]
    rw [lowBytes, List.map_cons, Nat.ofDigits_cons, ih, lowest, UInt8.toNat_ofNat']

theorem read_write (o : ByteOrder) (w n : Nat) : o.read (o.write w n) = n % 256 ^ w := by
  rw [read, write, leastFirst_leastFirst, ofDigits_lowBytes]

theorem read_write_of_lt (o : ByteOrder) (small : n < 256 ^ w) : o.read (o.write w n) = n := by
  rw [read_write, Nat.mod_eq_of_lt small]

@[simp] theorem length_write (o : ByteOrder) (w n : Nat) : (o.write w n).length = w := by
  rw [write, length_leastFirst, length_lowBytes]

/-- Bytes of the same number are the same bytes. -/
theorem read_inj {other : List UInt8} (len : bytes.length = other.length)
    (same : o.read bytes = o.read other) : bytes = other := by
  have digits : (o.leastFirst bytes).map UInt8.toNat = (o.leastFirst other).map UInt8.toNat := by
    refine Nat.ofDigits_inj_of_len_eq (by decide) (by simp [len]) ?_ ?_ same
    · intro digit member
      obtain ⟨b, _, rfl⟩ := List.mem_map.mp member
      exact b.toNat_lt
    · intro digit member
      obtain ⟨b, _, rfl⟩ := List.mem_map.mp member
      exact b.toNat_lt
  have arranged := (List.map_inj_right fun _ _ => UInt8.toNat_inj.mp).mp digits
  rw [← o.leastFirst_leastFirst bytes, arranged, leastFirst_leastFirst]

theorem read_lt (o : ByteOrder) (bytes : List UInt8) : o.read bytes < 256 ^ bytes.length := by
  have bound := Nat.ofDigits_lt_base_pow_length (b := 256)
    (l := (o.leastFirst bytes).map UInt8.toNat) (by decide) ?_
  · rwa [List.length_map, length_leastFirst] at bound
  · intro digit member
    obtain ⟨b, _, rfl⟩ := List.mem_map.mp member
    exact b.toNat_lt

/-- A number is stored in given bytes exactly if it is read from them. -/
theorem write_eq_iff (len : bytes.length = w) (small : n < 256 ^ w) :
    o.write w n = bytes ↔ n = o.read bytes := by
  have image := o.read_write_of_lt small
  constructor
  · rintro rfl
    exact image.symm
  · intro same
    refine read_inj ?_ (image.trans same)
    rw [len, length_write]

end ByteOrder

end IpQos.Lib
