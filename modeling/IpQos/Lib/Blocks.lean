import Mathlib.Tactic.TypeStar

/-! # Lists of blocks

A list that consists of one block for each index of another list, in that order.  Where
every element belongs to one index and all blocks have the same length, the index tells
where its block begins. -/

namespace IpQos.Lib

variable {ι α : Type*}

/-- `Blocks Block is l`: the list `l` is one block for each of `is`. -/
inductive Blocks (Block : ι → List α → Prop) : List ι → List α → Prop where
  | nil : Blocks Block [] []
  | cons {i : ι} {is : List ι} {b l : List α} (first : Block i b) (rest : Blocks Block is l) :
      Blocks Block (i :: is) (b ++ l)

/-- The first element with a property begins at the same place in either split. -/
theorem length_before_eq {p : α → Bool} {l₁ l₂ m₁ m₂ : List α} {a b : α}
    (same : l₁ ++ a :: l₂ = m₁ ++ b :: m₂) (outside : ∀ x ∈ l₁, p x = false) (at_a : p a = true)
    (outside' : ∀ x ∈ m₁, p x = false) (at_b : p b = true) : l₁.length = m₁.length := by
  have before : ∀ (l r : List α) (c : α), (∀ x ∈ l, p x = false) → p c = true →
      (l ++ c :: r).findIdx p = l.length := by
    intro l r c clear here
    induction l with
    | nil => simp [List.findIdx_cons, here]
    | cons x l ih =>
      have head := clear x List.mem_cons_self
      have tail := ih fun y member => clear y (List.mem_cons_of_mem x member)
      simp [List.findIdx_cons, head, tail]
  rw [← before l₁ l₂ a outside at_a, same, before m₁ m₂ b outside' at_b]

namespace Blocks

variable {Block : ι → List α → Prop} {is js : List ι} {i : ι} {l : List α}

theorem split (blocks : Blocks Block (is ++ js) l) :
    ∃ l₁ l₂, l = l₁ ++ l₂ ∧ Blocks Block is l₁ ∧ Blocks Block js l₂ := by
  induction is generalizing l with
  | nil => exact ⟨[], l, rfl, .nil, blocks⟩
  | cons i is ih =>
    cases blocks with
    | @cons _ _ b _ first rest =>
      obtain ⟨l₁, l₂, rfl, left, right⟩ := ih rest
      exact ⟨b ++ l₁, l₂, (List.append_assoc b l₁ l₂).symm, .cons first left, right⟩

theorem mem (blocks : Blocks Block is l) {x : α} (member : x ∈ l) :
    ∃ i ∈ is, ∃ b, Block i b ∧ x ∈ b := by
  induction blocks with
  | nil => exact absurd member List.not_mem_nil
  | @cons i is b l first rest ih =>
    rcases List.mem_append.mp member with here | there
    · exact ⟨i, List.mem_cons_self, b, first, here⟩
    · obtain ⟨j, inRest, found⟩ := ih there
      exact ⟨j, List.mem_cons_of_mem i inRest, found⟩

theorem length {k : Nat} (size : ∀ i b, Block i b → b.length = k) (blocks : Blocks Block is l) :
    l.length = k * is.length := by
  induction blocks with
  | nil => rfl
  | cons first rest ih =>
    rw [List.length_append, size _ _ first, ih, List.length_cons, Nat.mul_succ, Nat.add_comm]

/-- A block begins after the blocks of the indices before it, whatever follows the list. -/
theorem position {owner : α → Option ι} [DecidableEq ι] {k : Nat}
    (owned : ∀ i b, Block i b → ∀ x ∈ b, owner x = some i)
    (size : ∀ i b, Block i b → b.length = k) (pos : 0 < k)
    (blocks : Blocks Block (is ++ i :: js) l) (fresh : i ∉ is) {tail l₁ l₂ : List α} {a : α}
    (same : l ++ tail = l₁ ++ a :: l₂) (here : owner a = some i)
    (outside : ∀ x ∈ l₁, owner x ≠ some i) : l₁.length = k * is.length := by
  obtain ⟨before, rest, rfl, left, right⟩ := blocks.split
  cases right with
  | @cons _ _ b l first after =>
    -- the block is not empty, so it has a first element
    match b with
    | [] => exact absurd (size i [] first) (Nat.ne_of_lt pos)
    | x :: b =>
      have begins : before ++ x :: (b ++ l ++ tail) = l₁ ++ a :: l₂ := by simpa using same
      rw [← left.length size]
      symm
      apply length_before_eq (p := fun e => decide (owner e = some i)) begins
      · intro y member
        obtain ⟨j, inIs, c, block, inBlock⟩ := left.mem member
        have other : j ≠ i := fun eq => fresh (eq ▸ inIs)
        rw [owned j c block y inBlock]
        simpa using other
      · simp [owned i _ first x List.mem_cons_self]
      · intro y member
        simpa using outside y member
      · simp [here]

end Blocks

end IpQos.Lib
