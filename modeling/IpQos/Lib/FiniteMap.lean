import Mathlib.Data.Finmap
import IpQos.Lib.Chain

/-! # Chained tables as finite maps

A well-formed table is a finite map from keys to entries.  The operations on one bucket
are the operations of the map, and a lookup in the bucket is a lookup in the map. -/

namespace IpQos.Lib

variable {α κ : Type*} [DecidableEq κ]

theorem keys_insert (m : Finmap fun _ : κ => α) (k : κ) (a : α) :
    (m.insert k a).keys = insert k m.keys := by
  ext other
  rw [Finmap.mem_keys, Finmap.mem_insert, Finset.mem_insert, Finmap.mem_keys]

theorem keys_insert_of_lookup {m : Finmap fun _ : κ => α} {k : κ} {a : α}
    (present : m.lookup k = some a) (b : α) : (m.insert k b).keys = m.keys := by
  rw [keys_insert, Finset.insert_eq_self, Finmap.mem_keys]
  exact Finmap.mem_of_lookup_eq_some present

theorem card_keys_insert {m : Finmap fun _ : κ => α} {k : κ} (absent : m.lookup k = none) (a : α) :
    (m.insert k a).keys.card = m.keys.card + 1 := by
  rw [keys_insert, Finset.card_insert_of_notMem]
  rwa [Finmap.mem_keys, ← Finmap.lookup_eq_none]

theorem card_keys_erase {m : Finmap fun _ : κ => α} {k : κ} {a : α}
    (present : m.lookup k = some a) : (m.erase k).keys.card = m.keys.card - 1 := by
  rw [Finmap.keys_erase, Finset.card_erase_of_mem]
  rw [Finmap.mem_keys]
  exact Finmap.mem_of_lookup_eq_some present

theorem card_keys_pos {m : Finmap fun _ : κ => α} {k : κ} {a : α}
    (present : m.lookup k = some a) : 0 < m.keys.card := by
  rw [Finset.card_pos]
  exact ⟨k, Finmap.mem_keys.mpr (Finmap.mem_of_lookup_eq_some present)⟩

/-- The table is well-formed and holds exactly the entries of the map. -/
structure Holds (key : α → κ) (slot : κ → Nat) (ht : List (List α))
    (m : Finmap fun _ : κ => α) : Prop where
  placed : Placed key slot ht
  lookup_iff : ∀ k a, m.lookup k = some a ↔ a ∈ contents ht ∧ key a = k

namespace Holds

variable {key : α → κ} {slot : κ → Nat} {ht : List (List α)} {m : Finmap fun _ : κ => α}
  {k : κ} {a : α} {chain : List α}

/-- Searching the bucket of a key is looking it up. -/
theorem find_eq (holds : Holds key slot ht m) (bucket : ht[slot k]? = some chain) :
    chain.find? (fun b => key b = k) = m.lookup k := by
  cases present : m.lookup k with
  | some a =>
    exact (holds.placed.find_iff bucket).mpr ((holds.lookup_iff k a).mp present)
  | none =>
    rw [holds.placed.find_none_iff bucket]
    intro a member same
    rw [(holds.lookup_iff k a).mpr ⟨member, same⟩] at present
    cases present

theorem fresh (holds : Holds key slot ht m) (absent : m.lookup k = none) :
    ∀ b ∈ contents ht, key b ≠ k := by
  intro b member same
  rw [(holds.lookup_iff k b).mpr ⟨member, same⟩] at absent
  cases absent

/-- The table has as many entries as the map. -/
theorem card_contents (holds : Holds key slot ht m) : (contents ht).card = m.keys.card := by
  have sameKeys : (contents ht).map key = m.keys.val := by
    rw [Multiset.Nodup.ext holds.placed.nodup m.keys.nodup]
    intro k
    rw [Finset.mem_val, Finmap.mem_keys, Finmap.mem_iff, Multiset.mem_map]
    constructor
    · rintro ⟨a, member, same⟩
      exact ⟨a, (holds.lookup_iff k a).mpr ⟨member, same⟩⟩
    · rintro ⟨a, present⟩
      exact ⟨a, (holds.lookup_iff k a).mp present⟩
  rw [← Multiset.card_map key, sameKeys, Finset.card_val]

theorem replicate_nil (key : α → κ) (slot : κ → Nat) (n : Nat) :
    Holds key slot (List.replicate n []) ∅ where
  placed := Placed.replicate_nil key slot n
  lookup_iff := by
    intro k a
    rw [contents_replicate_nil]
    constructor
    · intro present
      cases present
    · rintro ⟨member, _⟩
      cases member

theorem push (holds : Holds key slot ht m) (bucket : ht[slot (key a)]? = some chain)
    (absent : m.lookup (key a) = none) :
    Holds key slot (ht.modify (slot (key a)) (a :: ·)) (m.insert (key a) a) where
  placed := holds.placed.push bucket (holds.fresh absent)
  lookup_iff := by
    intro k b
    rw [contents_push a bucket, Multiset.mem_cons]
    by_cases here : k = key a
    · subst k
      rw [Finmap.lookup_insert, Option.some.injEq]
      constructor
      · rintro rfl
        exact ⟨.inl rfl, rfl⟩
      · rintro ⟨new | old, same⟩
        · exact new.symm
        · exact absurd same (holds.fresh absent b old)
    · rw [Finmap.lookup_insert_of_ne m here, holds.lookup_iff]
      constructor
      · rintro ⟨member, same⟩
        exact ⟨.inr member, same⟩
      · rintro ⟨rfl | old, same⟩
        · exact absurd same.symm here
        · exact ⟨old, same⟩

/-- What is left of the entries once one of them is set apart: those of the other keys. -/
theorem mem_rest_iff (holds : Holds key slot ht m) {rest : Multiset α}
    (split : contents ht = a ::ₘ rest) (b : α) :
    b ∈ rest ↔ b ∈ contents ht ∧ key b ≠ key a := by
  have nodup := holds.placed.nodup
  rw [split, Multiset.map_cons, Multiset.nodup_cons] at nodup
  rw [split, Multiset.mem_cons]
  constructor
  · intro member
    refine ⟨.inr member, ?_⟩
    intro same
    exact nodup.1 (same ▸ Multiset.mem_map_of_mem key member)
  · rintro ⟨rfl | member, other⟩
    · exact absurd rfl other
    · exact member

theorem eraseP (holds : Holds key slot ht m) (bucket : ht[slot k]? = some chain)
    (present : m.lookup k = some a) :
    Holds key slot (ht.modify (slot k) (·.eraseP fun b => key b = k)) (m.erase k) := by
  obtain ⟨_, rfl⟩ := (holds.lookup_iff k a).mp present
  have found := (holds.find_eq bucket).trans present
  have split := contents_eraseP bucket found
  refine ⟨holds.placed.eraseP bucket found, ?_⟩
  intro k b
  rw [holds.mem_rest_iff split]
  by_cases here : k = key a
  · subst k
    rw [Finmap.lookup_erase]
    constructor
    · intro absent
      cases absent
    · rintro ⟨⟨_, other⟩, same⟩
      exact absurd same other
  · rw [Finmap.lookup_erase_ne here, holds.lookup_iff]
    constructor
    · rintro ⟨member, rfl⟩
      exact ⟨⟨member, here⟩, rfl⟩
    · rintro ⟨⟨member, _⟩, same⟩
      exact ⟨member, same⟩

/-- Changing an entry without touching its key. -/
theorem modifyFirst (holds : Holds key slot ht m) {f : α → α}
    (bucket : ht[slot k]? = some chain) (present : m.lookup k = some a)
    (keeps : ∀ b, key (f b) = key b) :
    Holds key slot (ht.modify (slot k) (modifyFirst (fun b => key b = k) f))
      (m.insert k (f a)) := by
  obtain ⟨_, rfl⟩ := (holds.lookup_iff k a).mp present
  have found := (holds.find_eq bucket).trans present
  -- the contents differ in the one element
  obtain ⟨rest, before, after, _⟩ := contents_modifyFirst (f := f) bucket found
  refine ⟨holds.placed.modifyFirst bucket found keeps, ?_⟩
  intro k b
  rw [after, Multiset.mem_cons, holds.mem_rest_iff before]
  by_cases here : k = key a
  · subst k
    rw [Finmap.lookup_insert, Option.some.injEq]
    constructor
    · rintro rfl
      exact ⟨.inl rfl, keeps a⟩
    · rintro ⟨changed | ⟨_, other⟩, same⟩
      · exact changed.symm
      · exact absurd same other
  · rw [Finmap.lookup_insert_of_ne m here, holds.lookup_iff]
    constructor
    · rintro ⟨member, rfl⟩
      exact ⟨.inr ⟨member, here⟩, rfl⟩
    · rintro ⟨rfl | ⟨member, _⟩, same⟩
      · exact absurd (same.symm.trans (keeps a)) here
      · exact ⟨member, same⟩

end Holds

end IpQos.Lib
