import Mathlib.Tactic.TypeStar

/-! # Blocks of memory

A block is a list of cells.  `slice` reads a part of it, `patch` overwrites one; a part
that does not meet the cells written reads as before. -/

namespace IpQos.Lib

variable {α : Type*}

/-- The `n` cells from `at` on. -/
def slice (mem : List α) (off n : Nat) : List α := (mem.drop off).take n

def patch (mem : List α) (off : Nat) (cells : List α) : List α :=
  mem.take off ++ cells ++ mem.drop (off + cells.length)

variable {mem cells : List α} {off a n : Nat}

theorem length_slice (inside : a + n ≤ mem.length) : (slice mem a n).length = n := by
  rw [slice, List.length_take, List.length_drop]
  omega

theorem length_patch (inside : off + cells.length ≤ mem.length) :
    (patch mem off cells).length = mem.length := by
  simp only [patch, List.length_append, List.length_take, List.length_drop]
  omega

theorem take_patch (inside : off + cells.length ≤ mem.length) :
    (patch mem off cells).take off = mem.take off := by
  rw [patch, List.append_assoc, List.take_append_of_le_length, List.take_take, Nat.min_self]
  rw [List.length_take]
  omega

theorem drop_patch (inside : off + cells.length ≤ mem.length) :
    (patch mem off cells).drop off = cells ++ mem.drop (off + cells.length) := by
  rw [patch, List.append_assoc, List.drop_append_of_le_length, List.drop_take_self,
    List.nil_append]
  rw [List.length_take]
  omega

theorem slice_patch_self (inside : off + cells.length ≤ mem.length) (all : cells.length = n) :
    slice (patch mem off cells) off n = cells := by
  rw [slice, drop_patch inside, List.take_left' all]

theorem slice_patch_before (inside : off + cells.length ≤ mem.length) (before : a + n ≤ off) :
    slice (patch mem off cells) a n = slice mem a n := by
  have same := congrArg (fun part => (part.take (a + n)).drop a) (take_patch inside)
  simp only [List.take_take, Nat.min_eq_left before] at same
  rwa [List.drop_take, List.drop_take, Nat.add_sub_cancel_left] at same

theorem slice_patch_after (inside : off + cells.length ≤ mem.length)
    (after : off + cells.length ≤ a) : slice (patch mem off cells) a n = slice mem a n := by
  obtain ⟨k, rfl⟩ := Nat.exists_eq_add_of_le after
  have same : (patch mem off cells).drop (off + cells.length) = mem.drop (off + cells.length) := by
    rw [← List.drop_drop, drop_patch inside, List.drop_left]
  rw [slice, ← List.drop_drop, same, List.drop_drop, slice]

/-- Adjacent parts. -/
theorem slice_append (mem : List α) (a n k : Nat) :
    slice mem a (n + k) = slice mem a n ++ slice mem (a + n) k := by
  rw [slice, List.take_add, List.drop_drop]
  rfl

end IpQos.Lib
