import Mathlib.Data.Multiset.Filter
import Mathlib.Data.Multiset.MapFold
import Mathlib.Algebra.Order.Group.Multiset
import Mathlib.Data.List.Nodup

/-! # Chained hash tables

A bucket array is a list of chains.  The results speak about the multiset of all
entries: what one bucket operation does to it, and that in a well-formed table
looking a key up in its bucket is looking it up in the whole table. -/

namespace IpQos.Lib

variable {α κ : Type*}

/-- What holds of every element survives a change of one of them that keeps it. -/
theorem forall_mem_modify {P : α → Prop} {f : α → α} {l : List α} (i : Nat)
    (old : ∀ a ∈ l, P a) (keeps : ∀ a, P a → P (f a)) : ∀ a ∈ l.modify i f, P a := by
  intro a member
  obtain ⟨j, at_j⟩ := List.mem_iff_getElem?.mp member
  rw [List.getElem?_modify] at at_j
  obtain ⟨before, at_before, rfl⟩ := Option.map_eq_some_iff.mp at_j
  have held := old before (List.mem_of_getElem? at_before)
  split
  · exact keeps before held
  · exact held

/-- Apply `f` to the first element of a chain that satisfies `p`. -/
def modifyFirst (p : α → Bool) (f : α → α) : List α → List α
  | [] => []
  | a :: chain => if p a then f a :: chain else a :: modifyFirst p f chain

/-- Everything the buckets hold. -/
def contents (ht : List (List α)) : Multiset α := (ht.flatten : List α)

/-! ## Chains -/

theorem eraseP_coe_eq_cons {p : α → Bool} {a : α} {chain : List α}
    (found : chain.find? p = some a) :
    (chain : Multiset α) = a ::ₘ (chain.eraseP p : List α) := by
  induction chain with
  | nil => cases found
  | cons b chain ih =>
    cases test : p b with
    | true =>
      simp only [List.find?_cons, test, Option.some.injEq] at found
      subst b
      simp [test]
    | false =>
      simp only [List.find?_cons, test] at found
      rw [List.eraseP_cons_of_neg (by simp [test]), ← Multiset.cons_coe, ih found,
        Multiset.cons_swap, Multiset.cons_coe b]

theorem modifyFirst_coe_eq_cons {p : α → Bool} {f : α → α} {a : α} {chain : List α}
    (found : chain.find? p = some a) :
    (modifyFirst p f chain : Multiset α) = f a ::ₘ (chain.eraseP p : List α) := by
  induction chain with
  | nil => cases found
  | cons b chain ih =>
    cases test : p b with
    | true =>
      simp only [List.find?_cons, test, Option.some.injEq] at found
      subst b
      simp [modifyFirst, test]
    | false =>
      simp only [List.find?_cons, test] at found
      simp only [modifyFirst, test, Bool.false_eq_true, ↓reduceIte]
      rw [List.eraseP_cons_of_neg (by simp [test]), ← Multiset.cons_coe, ih found,
        Multiset.cons_swap, Multiset.cons_coe b]

/-- Changing the first match changes what is found. -/
theorem find?_modifyFirst {p : α → Bool} {f : α → α} (keeps : ∀ a, p (f a) = p a)
    (chain : List α) : (modifyFirst p f chain).find? p = (chain.find? p).map f := by
  induction chain with
  | nil => rfl
  | cons a chain ih =>
    unfold modifyFirst
    cases test : p a with
    | true =>
      rw [if_pos rfl, List.find?_cons_of_pos test, List.find?_cons_of_pos ((keeps a).trans test)]
      rfl
    | false =>
      have miss : ¬ p a = true := by simp [test]
      rw [if_neg Bool.false_ne_true, List.find?_cons_of_neg miss, List.find?_cons_of_neg miss, ih]

/-! ## Buckets -/

/-- One bucket set apart: whatever an operation puts in its place, the other
    buckets contribute the same entries. -/
theorem contents_modify {ht : List (List α)} {i : Nat} {chain : List α}
    (bucket : ht[i]? = some chain) :
    ∃ others : Multiset α, contents ht = (chain : Multiset α) + others ∧
      ∀ f : List α → List α, contents (ht.modify i f) = (f chain : Multiset α) + others := by
  obtain ⟨inRange, rfl⟩ := List.getElem?_eq_some_iff.mp bucket
  refine ⟨((ht.take i).flatten : List α) + ((ht.drop (i + 1)).flatten : List α), ?_, ?_⟩
  · have split := congrArg List.flatten (List.take_append_drop i ht)
    rw [List.drop_eq_getElem_cons inRange] at split
    simp only [List.flatten_append, List.flatten_cons] at split
    unfold contents
    rw [← split, ← Multiset.coe_add, ← Multiset.coe_add, add_left_comm]
  · intro f
    unfold contents
    rw [List.modify_eq_take_cons_drop inRange]
    simp only [List.flatten_append, List.flatten_cons]
    rw [← Multiset.coe_add, ← Multiset.coe_add, add_left_comm]

theorem contents_push {ht : List (List α)} {i : Nat} {chain : List α} (a : α)
    (bucket : ht[i]? = some chain) : contents (ht.modify i (a :: ·)) = a ::ₘ contents ht := by
  obtain ⟨others, before, after⟩ := contents_modify bucket
  rw [after, before, ← Multiset.cons_coe, Multiset.cons_add]

theorem contents_eraseP {ht : List (List α)} {i : Nat} {chain : List α} {p : α → Bool} {a : α}
    (bucket : ht[i]? = some chain) (found : chain.find? p = some a) :
    contents ht = a ::ₘ contents (ht.modify i (·.eraseP p)) := by
  obtain ⟨others, before, after⟩ := contents_modify bucket
  rw [after, before, eraseP_coe_eq_cons found, Multiset.cons_add]

theorem contents_modifyFirst {ht : List (List α)} {i : Nat} {chain : List α} {p : α → Bool}
    {f : α → α} {a : α} (bucket : ht[i]? = some chain) (found : chain.find? p = some a) :
    ∃ rest : Multiset α, contents ht = a ::ₘ rest ∧
      contents (ht.modify i (modifyFirst p f)) = f a ::ₘ rest ∧
      contents (ht.modify i (·.eraseP p)) = rest := by
  obtain ⟨others, before, after⟩ := contents_modify bucket
  refine ⟨(chain.eraseP p : List α) + others, ?_, ?_, after _⟩
  · rw [before, eraseP_coe_eq_cons found, Multiset.cons_add]
  · rw [after, modifyFirst_coe_eq_cons found, Multiset.cons_add]

@[simp] theorem contents_replicate_nil (n : Nat) :
    contents (List.replicate n ([] : List α)) = 0 := by
  simp [contents]

/-! ## Well-formed tables -/

/-- Every entry sits in the bucket of its key, and no key occurs twice. -/
structure Placed (key : α → κ) (slot : κ → Nat) (ht : List (List α)) : Prop where
  slotted : ∀ (i : Nat) (chain : List α), ht[i]? = some chain → ∀ a ∈ chain, slot (key a) = i
  nodup : ((contents ht).map key).Nodup

theorem mem_contents {ht : List (List α)} {a : α} :
    a ∈ contents ht ↔ ∃ (i : Nat) (chain : List α), ht[i]? = some chain ∧ a ∈ chain := by
  simp only [contents, Multiset.mem_coe, List.mem_flatten]
  constructor
  · rintro ⟨chain, bucket, member⟩
    obtain ⟨i, at_i⟩ := List.mem_iff_getElem?.mp bucket
    exact ⟨i, chain, at_i, member⟩
  · rintro ⟨i, chain, bucket, member⟩
    exact ⟨chain, List.mem_of_getElem? bucket, member⟩

theorem eq_of_key_eq {key : α → κ} {entries : Multiset α} (nodup : (entries.map key).Nodup)
    {a b : α} (ha : a ∈ entries) (hb : b ∈ entries) (same : key a = key b) : a = b :=
  Multiset.inj_on_of_nodup_map nodup a ha b hb same

namespace Placed

variable {key : α → κ} {slot : κ → Nat} {ht : List (List α)}

/-- Looking a key up in its own bucket is looking it up in the table. -/
theorem find_iff [DecidableEq κ] (placed : Placed key slot ht) {k : κ} {chain : List α}
    (bucket : ht[slot k]? = some chain) {a : α} :
    chain.find? (fun b => key b = k) = some a ↔ a ∈ contents ht ∧ key a = k := by
  constructor
  · intro found
    exact ⟨mem_contents.mpr ⟨_, chain, bucket, List.mem_of_find?_eq_some found⟩,
      by simpa using List.find?_some found⟩
  · rintro ⟨member, rfl⟩
    obtain ⟨i, other, at_i, inChain⟩ := mem_contents.mp member
    have home : slot (key a) = i := placed.slotted i other at_i a inChain
    subst i
    obtain rfl : chain = other := Option.some.inj (bucket.symm.trans at_i)
    obtain ⟨b, found⟩ : ∃ b, chain.find? (fun b => key b = key a) = some b := by
      rw [← Option.isSome_iff_exists, List.find?_isSome]
      exact ⟨a, inChain, by simp⟩
    have inTable := mem_contents.mpr ⟨_, chain, bucket, List.mem_of_find?_eq_some found⟩
    have sameKey : key b = key a := by simpa using List.find?_some found
    rw [found, eq_of_key_eq placed.nodup inTable member sameKey]

theorem find_none_iff [DecidableEq κ] (placed : Placed key slot ht) {k : κ} {chain : List α}
    (bucket : ht[slot k]? = some chain) :
    chain.find? (fun b => key b = k) = none ↔ ∀ a ∈ contents ht, key a ≠ k := by
  constructor
  · intro missing a member same
    rw [(placed.find_iff bucket).mpr ⟨member, same⟩] at missing
    cases missing
  · intro fresh
    cases found : chain.find? (fun b => key b = k) with
    | none => rfl
    | some a =>
      obtain ⟨member, same⟩ := (placed.find_iff bucket).mp found
      exact absurd same (fresh a member)

theorem push (placed : Placed key slot ht) {a : α} {chain : List α}
    (bucket : ht[slot (key a)]? = some chain) (fresh : ∀ b ∈ contents ht, key b ≠ key a) :
    Placed key slot (ht.modify (slot (key a)) (a :: ·)) where
  slotted := by
    intro i other at_i b member
    rw [List.getElem?_modify] at at_i
    obtain ⟨old, at_old, rfl⟩ := Option.map_eq_some_iff.mp at_i
    split at member
    · rename_i here
      cases List.mem_cons.mp member with
      | inl new => exact new ▸ here
      | inr old_member => exact placed.slotted i old at_old b old_member
    · exact placed.slotted i old at_old b member
  nodup := by
    rw [contents_push a bucket, Multiset.map_cons, Multiset.nodup_cons]
    refine ⟨?_, placed.nodup⟩
    intro member
    obtain ⟨b, inTable, same⟩ := Multiset.mem_map.mp member
    exact fresh b inTable same

theorem eraseP (placed : Placed key slot ht) {p : α → Bool} {i : Nat} {chain : List α} {a : α}
    (bucket : ht[i]? = some chain) (found : chain.find? p = some a) :
    Placed key slot (ht.modify i (·.eraseP p)) where
  slotted := by
    intro j other at_j b member
    rw [List.getElem?_modify] at at_j
    obtain ⟨old, at_old, rfl⟩ := Option.map_eq_some_iff.mp at_j
    split at member
    · exact placed.slotted j old at_old b (List.mem_of_mem_eraseP member)
    · exact placed.slotted j old at_old b member
  nodup := by
    have nodup := placed.nodup
    rw [contents_eraseP bucket found, Multiset.map_cons, Multiset.nodup_cons] at nodup
    exact nodup.2

theorem mem_modifyFirst {p : α → Bool} {f : α → α} {chain : List α} {b : α}
    (member : b ∈ modifyFirst p f chain) : b ∈ chain ∨ ∃ a ∈ chain, b = f a := by
  induction chain with
  | nil => cases member
  | cons a chain ih =>
    unfold modifyFirst at member
    split at member
    · cases List.mem_cons.mp member with
      | inl changed => exact .inr ⟨a, List.mem_cons_self, changed⟩
      | inr inTail => exact .inl (List.mem_cons_of_mem a inTail)
    · cases List.mem_cons.mp member with
      | inl same => exact .inl (same ▸ List.mem_cons_self)
      | inr inTail =>
        rcases ih inTail with old | ⟨c, inChain, changed⟩
        · exact .inl (List.mem_cons_of_mem a old)
        · exact .inr ⟨c, List.mem_cons_of_mem a inChain, changed⟩

/-- Changing an entry without touching its key. -/
theorem modifyFirst (placed : Placed key slot ht) {p : α → Bool} {f : α → α} {i : Nat}
    {chain : List α} {a : α} (bucket : ht[i]? = some chain) (found : chain.find? p = some a)
    (keeps : ∀ b, key (f b) = key b) :
    Placed key slot (ht.modify i (modifyFirst p f)) where
  slotted := by
    intro j other at_j b member
    rw [List.getElem?_modify] at at_j
    obtain ⟨old, at_old, rfl⟩ := Option.map_eq_some_iff.mp at_j
    split at member
    · rcases mem_modifyFirst member with same | ⟨c, inChain, rfl⟩
      · exact placed.slotted j old at_old b same
      · rw [keeps]
        exact placed.slotted j old at_old c inChain
    · exact placed.slotted j old at_old b member
  nodup := by
    obtain ⟨rest, before, after, _⟩ := contents_modifyFirst (f := f) bucket found
    have nodup := placed.nodup
    rw [before, Multiset.map_cons] at nodup
    rw [after, Multiset.map_cons, keeps]
    exact nodup

theorem replicate_nil (key : α → κ) (slot : κ → Nat) (n : Nat) :
    Placed key slot (List.replicate n []) where
  slotted := by
    intro i chain at_i a member
    rw [List.getElem?_replicate] at at_i
    split at at_i
    · cases at_i; cases member
    · cases at_i
  nodup := by simp

end Placed

end IpQos.Lib
