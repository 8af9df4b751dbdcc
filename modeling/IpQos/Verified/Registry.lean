import IpQos.Kmod.Types
import IpQos.Lib.Chain
import Mathlib.Logic.Function.Basic
import Mathlib.Data.Set.Insert
import Mathlib.Data.Finset.Card
import Mathlib.Tactic.Tauto

/-! # The registry of marks

What the three tables are for: a registry that says which IP belongs to which
rule and under which mark.  `Registry` is the state without pointers, buckets
and array bounds; a mark that is set in the bitmap without belonging to an entry
is *held* by an operation that has not finished.

`Consistent held t` is the invariant of the whole development.  The lemmas below
it are the steps of the registry: reserve a mark, store it in a rule, attach an
entry, change a reference count, detach an entry, release a mark.  Every
operation of the module is a sequence of these steps. -/

namespace IpQos.Verified

open IpQos.Kmod

@[ext]
structure Registry where
  entries : Multiset MarktblNode
  bit : Nat → Bool
  /-- The rule table by rule id, counted from 1. -/
  rule : Nat → RuletblNode
  ipCnt : Nat
  ruleCnt : Nat
  resetFlag : Bool
  lanDev : String
  wanDev : String
  sent : List RtnlReq
  freed : List Nat

/-- The mark of bit `b`. -/
def markOf (b : Nat) : Nat := (b + 1) <<< markBase

theorem markOf_eq (b : Nat) : markOf b = (b + 1) * 2048 := by
  simp [markOf, markBase, Nat.shiftLeft_eq]

theorem markOf_inj {b c : Nat} : markOf b = markOf c ↔ b = c := by
  simp only [markOf_eq]
  omega

namespace Registry

/-! ## The steps -/

def ValidId (t : Registry) (id : Nat) : Prop := 1 ≤ id ∧ id ≤ t.ruleCnt

def Private (t : Registry) (id : Nat) : Prop := (t.rule id).mode = privMode

def Fresh (t : Registry) (ip : Be32) : Prop := ∀ e ∈ t.entries, e.srcIp ≠ ip

instance (t : Registry) (id : Nat) : Decidable (t.ValidId id) :=
  inferInstanceAs (Decidable (_ ∧ _))

instance (t : Registry) (id : Nat) : Decidable (t.Private id) :=
  inferInstanceAs (Decidable (_ = _))

instance (t : Registry) (ip : Be32) : Decidable (t.Fresh ip) :=
  inferInstanceAs (Decidable (∀ e ∈ t.entries, _))

/-- The number of entries of a rule. -/
def members (t : Registry) (id : Nat) : Nat := t.entries.countP (·.id = id)

def setBit (t : Registry) (b : Nat) (v : Bool) : Registry :=
  { t with bit := Function.update t.bit b v }

def setRule (t : Registry) (id : Nat) (rn : RuletblNode) : Registry :=
  { t with rule := Function.update t.rule id rn }

def setMark (t : Registry) (id mark : Nat) : Registry :=
  t.setRule id { t.rule id with mark := mark }

def attach (t : Registry) (ip : Be32) (id mark : Nat) : Registry :=
  { t.setRule id { t.rule id with count := atomicInc (t.rule id).count } with
    entries := { srcIp := ip, id, mark, count := 0 } ::ₘ t.entries }

/-- The state after `e` left, `rest` being the other entries. -/
def detach (t : Registry) (e : MarktblNode) (rest : Multiset MarktblNode) : Registry :=
  { t.setRule e.id { t.rule e.id with count := atomicDec (t.rule e.id).count } with
    entries := rest }

/-- `e` stays with another reference count. -/
def touch (t : Registry) (e : MarktblNode) (rest : Multiset MarktblNode) (c : Int) : Registry :=
  { t with entries := { e with count := c } ::ₘ rest }

def freeBit (t : Registry) (b : Nat) : Registry :=
  { t.setBit b false with freed := markOf b :: t.freed }

def send (t : Registry) (reqs : List RtnlReq) : Registry := { t with sent := reqs ++ t.sent }

/-- Both tables emptied, the rules kept. -/
def clear (t : Registry) : Registry :=
  { t with entries := 0, bit := fun _ => false, rule := fun id => { t.rule id with count := 0 } }

/-- All three tables new and empty, with new sizes. -/
def respec (t : Registry) (ipCnt ruleCnt : Nat) : Registry :=
  { t with entries := 0, bit := fun _ => false, rule := fun _ => .zero, ipCnt, ruleCnt }

/-- The fields of a rule that administration sets. -/
def config (t : Registry) (id : Nat) : RuletblNode := { t.rule id with mark := 0, count := 0 }

/-- The entries of rule `id` suit the record `rn`: in private mode no mark is used
    twice, in share mode they carry the mark of the record. -/
structure Fits (t : Registry) (id : Nat) (rn : RuletblNode) : Prop where
  solo : rn.mode = privMode → ∀ e ∈ t.entries, ∀ e' ∈ t.entries, e.id = id → e'.id = id →
    e.mark = e'.mark → e.srcIp = e'.srcIp
  joint : rn.mode ≠ privMode → ∀ e ∈ t.entries, e.id = id → rn.mark = e.mark

/-! ## What the steps leave alone -/

section Frame

variable (t : Registry) (id mark b : Nat) (rn : RuletblNode) (v : Bool) (ip : Be32)
  (e : MarktblNode) (rest : Multiset MarktblNode) (reqs : List RtnlReq)

@[simp] theorem setRule_entries : (t.setRule id rn).entries = t.entries := rfl
@[simp] theorem setRule_bit : (t.setRule id rn).bit = t.bit := rfl
@[simp] theorem setRule_ipCnt : (t.setRule id rn).ipCnt = t.ipCnt := rfl
@[simp] theorem setRule_ruleCnt : (t.setRule id rn).ruleCnt = t.ruleCnt := rfl
@[simp] theorem setRule_rule_self : (t.setRule id rn).rule id = rn := Function.update_self ..
@[simp] theorem setRule_rule_of_ne {id' : Nat} (ne : id' ≠ id) :
    (t.setRule id rn).rule id' = t.rule id' := Function.update_of_ne ne ..
@[simp] theorem members_setRule : (t.setRule id rn).members = t.members := rfl
@[simp] theorem setBit_bit_self : (t.setBit b v).bit b = v := Function.update_self ..
@[simp] theorem setBit_bit_of_ne {c : Nat} (ne : c ≠ b) : (t.setBit b v).bit c = t.bit c :=
  Function.update_of_ne ne ..
@[simp] theorem attach_bit : (t.attach ip id mark).bit = t.bit := rfl
@[simp] theorem attach_ipCnt : (t.attach ip id mark).ipCnt = t.ipCnt := rfl
@[simp] theorem attach_entries : (t.attach ip id mark).entries =
    { srcIp := ip, id, mark, count := 0 } ::ₘ t.entries := rfl
@[simp] theorem attach_rule_self : (t.attach ip id mark).rule id =
    { t.rule id with count := atomicInc (t.rule id).count } := Function.update_self ..
@[simp] theorem attach_rule_of_ne {id' : Nat} (ne : id' ≠ id) :
    (t.attach ip id mark).rule id' = t.rule id' := Function.update_of_ne ne ..
@[simp] theorem detach_bit : (t.detach e rest).bit = t.bit := rfl
@[simp] theorem detach_ipCnt : (t.detach e rest).ipCnt = t.ipCnt := rfl
@[simp] theorem detach_entries : (t.detach e rest).entries = rest := rfl
@[simp] theorem detach_rule_self : (t.detach e rest).rule e.id =
    { t.rule e.id with count := atomicDec (t.rule e.id).count } := Function.update_self ..
@[simp] theorem detach_rule_of_ne {id' : Nat} (ne : id' ≠ e.id) :
    (t.detach e rest).rule id' = t.rule id' := Function.update_of_ne ne ..

/-- Attaching and detaching keep the mode of every rule. -/
@[simp] theorem private_attach (id' : Nat) :
    (t.attach ip id mark).Private id' ↔ t.Private id' := by
  by_cases here : id' = id
  · subst id'
    simp [Private]
  · simp [Private, here]

@[simp] theorem private_detach (id' : Nat) :
    (t.detach e rest).Private id' ↔ t.Private id' := by
  by_cases here : id' = e.id
  · subst id'
    simp [Private]
  · simp [Private, here]

@[simp] theorem private_setMark (id' : Nat) :
    (t.setMark id mark).Private id' ↔ t.Private id' := by
  by_cases here : id' = id
  · subst id'
    simp [Private, setMark]
  · simp [Private, setMark, here]

@[simp] theorem setMark_count (id' : Nat) :
    ((t.setMark id mark).rule id').count = (t.rule id').count := by
  by_cases here : id' = id
  · subst id'
    simp [setMark]
  · simp [setMark, here]

@[simp] theorem setMark_mark_self : ((t.setMark id mark).rule id).mark = mark := by
  simp [setMark]

@[simp] theorem config_attach : (t.attach ip id mark).config = t.config := by
  funext id'
  by_cases here : id' = id
  · subst id'
    simp [config]
  · simp [config, here]

@[simp] theorem config_detach : (t.detach e rest).config = t.config := by
  funext id'
  by_cases here : id' = e.id
  · subst id'
    simp [config]
  · simp [config, here]

@[simp] theorem config_setMark : (t.setMark id mark).config = t.config := by
  funext id'
  by_cases here : id' = id
  · subst id'
    simp [config, setMark]
  · simp [config, setMark, here]

@[simp] theorem attach_mark (id' : Nat) :
    ((t.attach ip id mark).rule id').mark = (t.rule id').mark := by
  by_cases here : id' = id
  · subst id'
    simp
  · simp [here]

@[simp] theorem detach_mark (id' : Nat) :
    ((t.detach e rest).rule id').mark = (t.rule id').mark := by
  by_cases here : id' = e.id
  · subst id'
    simp
  · simp [here]

end Frame

end Registry

open Registry

/-! ## The invariant -/

/-- `held` are the bits reserved by operations that are still under way. -/
structure Consistent (held : Set Nat) (t : Registry) : Prop where
  nodup : (t.entries.map (·.srcIp)).Nodup
  room : t.entries.card ≤ t.ipCnt
  ipCnt_pos : 1 ≤ t.ipCnt
  ipCnt_lt : t.ipCnt < 2 ^ 21
  validIds : ∀ e ∈ t.entries, t.ValidId e.id
  held_lt : ∀ b ∈ held, b < t.ipCnt
  bit_iff : ∀ b < t.ipCnt, t.bit b = true ↔ b ∈ held ∨ ∃ e ∈ t.entries, e.mark = markOf b
  marked : ∀ e ∈ t.entries, ∃ b < t.ipCnt, e.mark = markOf b ∧ b ∉ held
  apart : ∀ e ∈ t.entries, ∀ e' ∈ t.entries, e.srcIp ≠ e'.srcIp → e.mark = e'.mark →
    e.id = e'.id ∧ ¬ t.Private e.id
  counted : ∀ id, t.ValidId id → (t.rule id).count = t.members id
  shared : ∀ e ∈ t.entries, ¬ t.Private e.id → (t.rule e.id).mark = e.mark

/-! ## One entry and the rest -/

section

variable {t : Registry} {e : MarktblNode} {rest : Multiset MarktblNode}

/-- Addresses are keys, so the rest of the table is about other addresses. -/
theorem Registry.rest_elsewhere (split : t.entries = e ::ₘ rest)
    (nodup : (t.entries.map (·.srcIp)).Nodup) : ∀ e' ∈ rest, e'.srcIp ≠ e.srcIp := by
  rw [split, Multiset.map_cons, Multiset.nodup_cons] at nodup
  intro e' member same
  exact nodup.1 (same ▸ Multiset.mem_map_of_mem (fun n : MarktblNode => n.srcIp) member)

/-- A new reference count changes nothing else of an entry. -/
theorem Registry.touch_keeps (split : t.entries = e ::ₘ rest) (c : Int) :
    ∀ a ∈ t.entries, ∃ a' ∈ (t.touch e rest c).entries,
      a'.srcIp = a.srcIp ∧ a'.id = a.id ∧ a'.mark = a.mark := by
  intro a member
  rw [split] at member
  cases Multiset.mem_cons.mp member with
  | inl touched => exact ⟨_, Multiset.mem_cons_self _ rest, by simp [touched]⟩
  | inr other => exact ⟨a, Multiset.mem_cons_of_mem other, rfl, rfl, rfl⟩

theorem Registry.touch_sub (split : t.entries = e ::ₘ rest) (c : Int) :
    ∀ a' ∈ (t.touch e rest c).entries, ∃ a ∈ t.entries,
      a'.srcIp = a.srcIp ∧ a'.id = a.id ∧ a'.mark = a.mark := by
  intro a' member
  rw [split]
  cases Multiset.mem_cons.mp member with
  | inl touched => exact ⟨e, Multiset.mem_cons_self e rest, by simp [touched]⟩
  | inr other => exact ⟨a', Multiset.mem_cons_of_mem other, rfl, rfl, rfl⟩

end

/-! ## Counting -/

theorem Registry.members_attach (t : Registry) (ip : Be32) (id mark id' : Nat) :
    (t.attach ip id mark).members id' = t.members id' + if id = id' then 1 else 0 := by
  simp [members, Multiset.countP_cons]

theorem Registry.members_cons {t : Registry} {e : MarktblNode} {rest : Multiset MarktblNode}
    (split : t.entries = e ::ₘ rest) (id : Nat) :
    t.members id = (t.detach e rest).members id + if e.id = id then 1 else 0 := by
  simp [members, split, Multiset.countP_cons]

theorem Registry.members_eq_zero {t : Registry} {id : Nat} :
    t.members id = 0 ↔ ∀ e ∈ t.entries, e.id ≠ id := by
  simp [members, Multiset.countP_eq_zero]

theorem Registry.members_le_card (t : Registry) (id : Nat) : t.members id ≤ t.entries.card :=
  Multiset.countP_le_card _ _

theorem bmod_id {c : Int} (lower : -(2 ^ 31) ≤ c) (upper : c < 2 ^ 31) :
    c.bmod (2 ^ 32) = c := by
  apply Int.bmod_eq_of_le <;> omega

theorem atomicInc_eq {c : Int} (lower : 0 ≤ c) (upper : c < 2 ^ 31 - 1) :
    atomicInc c = c + 1 :=
  bmod_id (by omega) (by omega)

theorem atomicDec_eq {c : Int} (lower : 0 ≤ c) (upper : c < 2 ^ 31) : atomicDec c = c - 1 :=
  bmod_id (by omega) (by omega)

/-- Two entries of one address are one entry. -/
theorem Consistent.eq_of_srcIp {held : Set Nat} {t : Registry} (inv : Consistent held t)
    {e e' : MarktblNode} (he : e ∈ t.entries) (he' : e' ∈ t.entries) (same : e.srcIp = e'.srcIp) :
    e = e' :=
  Lib.eq_of_key_eq inv.nodup he he' same

/-! ## The steps keep the invariant -/

namespace Consistent

variable {held : Set Nat} {t : Registry}

theorem count_eq_zero_iff (inv : Consistent held t) {id : Nat} (valid : t.ValidId id) :
    (t.rule id).count = 0 ↔ ∀ e ∈ t.entries, e.id ≠ id := by
  rw [inv.counted id valid, ← members_eq_zero]
  exact Int.ofNat_eq_zero

theorem members_lt (inv : Consistent held t) (id : Nat) : t.members id < 2 ^ 21 := by
  have := t.members_le_card id
  have := inv.room
  have := inv.ipCnt_lt
  omega

/-- Fields that no table invariant speaks about. -/
theorem congr (inv : Consistent held t) {t' : Registry} (entries : t'.entries = t.entries)
    (bit : t'.bit = t.bit) (rule : t'.rule = t.rule) (ipCnt : t'.ipCnt = t.ipCnt)
    (ruleCnt : t'.ruleCnt = t.ruleCnt) : Consistent held t' := by
  obtain ⟨nodup, room, ipCnt_pos, ipCnt_lt, validIds, held_lt, bit_iff, marked, apart, counted,
    shared⟩ := inv
  constructor <;>
    simp only [Registry.ValidId, Registry.Private, Registry.members, entries, bit, rule, ipCnt,
      ruleCnt] at * <;> assumption

theorem reserve (inv : Consistent held t) {b : Nat} (inRange : b < t.ipCnt)
    (clear : t.bit b = false) : Consistent (insert b held) (t.setBit b true) where
  nodup := inv.nodup
  room := inv.room
  ipCnt_pos := inv.ipCnt_pos
  ipCnt_lt := inv.ipCnt_lt
  validIds := inv.validIds
  held_lt := by
    rintro c (rfl | member)
    · exact inRange
    · exact inv.held_lt c member
  bit_iff := by
    intro c bound
    by_cases same : c = b
    · subst c
      simp [setBit]
    · have old := inv.bit_iff c bound
      simp only [setBit, Function.update_of_ne same, Set.mem_insert_iff, same, false_or]
      exact old
  marked := by
    intro e member
    obtain ⟨c, bound, mark, notHeld⟩ := inv.marked e member
    refine ⟨c, bound, mark, ?_⟩
    -- the mark of an entry has its bit set, so it is another one
    rintro (rfl | isHeld)
    · have isSet := (inv.bit_iff c bound).mpr (.inr ⟨e, member, mark⟩)
      rw [clear] at isSet
      cases isSet
    · exact notHeld isHeld
  apart := inv.apart
  counted := inv.counted
  shared := inv.shared

theorem release (inv : Consistent held t) {b : Nat} (isHeld : b ∈ held) :
    Consistent (held \ {b}) (t.freeBit b) where
  nodup := inv.nodup
  room := inv.room
  ipCnt_pos := inv.ipCnt_pos
  ipCnt_lt := inv.ipCnt_lt
  validIds := inv.validIds
  held_lt := fun c member => inv.held_lt c member.1
  bit_iff := by
    intro c bound
    by_cases same : c = b
    · subst c
      -- a mark that is held has no entry
      have unmarked : ¬ ∃ e ∈ t.entries, e.mark = markOf b := by
        rintro ⟨e, member, mark⟩
        obtain ⟨d, _, markD, notHeld⟩ := inv.marked e member
        exact notHeld (markOf_inj.mp (mark.symm.trans markD) ▸ isHeld)
      simpa [freeBit, setBit] using unmarked
    · have old := inv.bit_iff c bound
      simp only [freeBit, setBit, Function.update_of_ne same, Set.mem_sdiff, Set.mem_singleton_iff,
        same, not_false_eq_true, and_true]
      exact old
  marked := by
    intro e member
    obtain ⟨c, bound, mark, notHeld⟩ := inv.marked e member
    exact ⟨c, bound, mark, fun still => notHeld still.1⟩
  apart := inv.apart
  counted := inv.counted
  shared := inv.shared

/-- A mark held by an operation belongs to no entry. -/
theorem unmarked (inv : Consistent held t) {b : Nat} (isHeld : b ∈ held) :
    ∀ e ∈ t.entries, e.mark ≠ markOf b := by
  intro e member mark
  obtain ⟨c, _, markC, notHeld⟩ := inv.marked e member
  exact notHeld (markOf_inj.mp (mark.symm.trans markC) ▸ isHeld)

theorem fits (inv : Consistent held t) {id : Nat} {rn : RuletblNode}
    (mode : rn.mode = privMode ↔ t.Private id)
    (mark : ¬ t.Private id → (∃ e ∈ t.entries, e.id = id) → rn.mark = (t.rule id).mark) :
    t.Fits id rn where
  solo := by
    intro isPrivate e he e' he' here _ sameMark
    by_contra ne
    have isShare := (inv.apart e he e' he' ne sameMark).2
    rw [here] at isShare
    exact isShare (mode.mp isPrivate)
  joint := by
    intro isShare e he here
    have share : ¬ t.Private id := fun isPrivate => isShare (mode.mpr isPrivate)
    have old := inv.shared e he (here ▸ share)
    rw [here] at old
    rw [mark share ⟨e, he, here⟩, old]

theorem fits_of_empty {id : Nat} (rn : RuletblNode) (empty : ∀ e ∈ t.entries, e.id ≠ id) :
    t.Fits id rn where
  solo := fun _ e he _ _ here => absurd here (empty e he)
  joint := fun _ e he here => absurd here (empty e he)

/-- A rewrite of a rule that keeps its count and suits its entries. -/
theorem setRule (inv : Consistent held t) {id : Nat} {rn : RuletblNode}
    (count : rn.count = (t.rule id).count) (fits : t.Fits id rn) :
    Consistent held (t.setRule id rn) where
  nodup := inv.nodup
  room := inv.room
  ipCnt_pos := inv.ipCnt_pos
  ipCnt_lt := inv.ipCnt_lt
  validIds := inv.validIds
  held_lt := inv.held_lt
  bit_iff := inv.bit_iff
  marked := inv.marked
  apart := by
    intro e he e' he' ne sameMark
    obtain ⟨sameId, isShare⟩ := inv.apart e he e' he' ne sameMark
    refine ⟨sameId, ?_⟩
    by_cases here : e.id = id
    · intro isPrivate
      rw [Private, here, setRule_rule_self] at isPrivate
      -- private now: no two entries of the rule may have had one mark
      exact ne (fits.solo isPrivate e he e' he' here (sameId ▸ here) sameMark)
    · simpa [Private, here] using isShare
  counted := by
    intro id' valid
    have old := inv.counted id' valid
    rw [members_setRule]
    by_cases here : id' = id
    · subst id'
      rw [setRule_rule_self, count, old]
    · rw [setRule_rule_of_ne _ _ _ here, old]
  shared := by
    intro e he isShare
    by_cases here : e.id = id
    · rw [Private, here, setRule_rule_self] at isShare
      rw [here, setRule_rule_self]
      exact fits.joint isShare e he here
    · rw [Private, setRule_rule_of_ne _ _ _ here] at isShare
      rw [setRule_rule_of_ne _ _ _ here]
      exact inv.shared e he isShare

/-- The mark field of a private rule, and of a rule without entries, is scratch. -/
theorem setMark (inv : Consistent held t) (id mark : Nat)
    (scratch : t.Private id ∨ ∀ e ∈ t.entries, e.id ≠ id) :
    Consistent held (t.setMark id mark) := by
  refine inv.setRule rfl ?_
  cases scratch with
  | inl isPrivate => exact inv.fits Iff.rfl fun isShare => absurd isPrivate isShare
  | inr empty => exact fits_of_empty _ empty

/-- One more entry whose mark is set, under the rule it belongs to. -/
theorem attach (inv : Consistent held t) {ip : Be32} {id b : Nat} (inRange : b < t.ipCnt)
    (below : t.entries.card < t.ipCnt) (valid : t.ValidId id) (fresh : t.Fresh ip)
    (isSet : t.bit b = true)
    (own : ∀ e ∈ t.entries, e.mark = markOf b → e.id = id ∧ ¬ t.Private id)
    (group : ¬ t.Private id → (t.rule id).mark = markOf b) :
    Consistent (held \ {b}) (t.attach ip id (markOf b)) where
  nodup := by
    rw [attach_entries, Multiset.map_cons, Multiset.nodup_cons]
    refine ⟨?_, inv.nodup⟩
    intro member
    obtain ⟨e, inTable, same⟩ := Multiset.mem_map.mp member
    exact fresh e inTable same
  room := by
    rw [attach_entries, Multiset.card_cons, attach_ipCnt]
    exact below
  ipCnt_pos := inv.ipCnt_pos
  ipCnt_lt := inv.ipCnt_lt
  validIds := by
    intro e member
    cases Multiset.mem_cons.mp member with
    | inl new => exact new ▸ valid
    | inr old => exact inv.validIds e old
  held_lt := fun c member => inv.held_lt c member.1
  bit_iff := by
    intro c bound
    rw [attach_bit]
    by_cases same : c = b
    · subst c
      simp [isSet]
    · simpa [markOf_inj, same, Ne.symm same] using inv.bit_iff c bound
  marked := by
    intro e member
    cases Multiset.mem_cons.mp member with
    | inl new => exact ⟨b, inRange, by rw [new], by simp⟩
    | inr old =>
      obtain ⟨c, bound, mark, notHeld⟩ := inv.marked e old
      exact ⟨c, bound, mark, fun still => notHeld still.1⟩
  apart := by
    intro e he e' he' ne sameMark
    rw [private_attach]
    cases Multiset.mem_cons.mp he with
    | inl new =>
      cases Multiset.mem_cons.mp he' with
      | inl new' => exact absurd (by rw [new, new']) ne
      | inr old' =>
        obtain ⟨sameId, isShare⟩ := own e' old' (by rw [← sameMark, new])
        subst e
        exact ⟨sameId.symm, isShare⟩
    | inr old =>
      cases Multiset.mem_cons.mp he' with
      | inl new' =>
        obtain ⟨sameId, isShare⟩ := own e old (by rw [sameMark, new'])
        subst e'
        exact ⟨sameId, sameId ▸ isShare⟩
      | inr old' => exact inv.apart e old e' old' ne sameMark
  counted := by
    intro id' valid'
    have old := inv.counted id' valid'
    rw [members_attach]
    by_cases here : id' = id
    · subst id'
      -- a rule has fewer members than the table has places: the counter does not wrap
      have bound := inv.members_lt id
      have stepped : atomicInc (t.rule id).count = (t.rule id).count + 1 :=
        atomicInc_eq (by omega) (by omega)
      rw [attach_rule_self, stepped, old, if_pos rfl]
      rfl
    · rw [attach_rule_of_ne _ _ _ _ here, old, if_neg (Ne.symm here)]
      rfl
  shared := by
    intro e member isShare
    rw [private_attach] at isShare
    rw [attach_mark]
    cases Multiset.mem_cons.mp member with
    | inl new =>
      subst e
      exact group isShare
    | inr old => exact inv.shared e old isShare

/-- A held mark becomes the mark of a new entry: of a private rule, or of a share
    rule without entries whose mark it has been made. -/
theorem attachHeld (inv : Consistent held t) (ip : Be32) {id b : Nat} (isHeld : b ∈ held)
    (below : t.entries.card < t.ipCnt) (valid : t.ValidId id) (fresh : t.Fresh ip)
    (first : t.Private id ∨ (t.rule id).mark = markOf b) :
    Consistent (held \ {b}) (t.attach ip id (markOf b)) := by
  have inRange := inv.held_lt b isHeld
  refine inv.attach inRange below valid fresh ((inv.bit_iff b inRange).mpr (.inl isHeld)) ?_ ?_
  · intro e member mark
    exact absurd mark (inv.unmarked isHeld e member)
  · intro isShare
    cases first with
    | inl isPrivate => exact absurd isPrivate isShare
    | inr group => exact group

/-- A share rule that has entries hands its mark to one more. -/
theorem attachMember (inv : Consistent held t) {ip : Be32} {id : Nat}
    (below : t.entries.card < t.ipCnt) (fresh : t.Fresh ip) (isShare : ¬ t.Private id)
    (joined : ∃ e ∈ t.entries, e.id = id) :
    Consistent held (t.attach ip id (t.rule id).mark) := by
  obtain ⟨first, member, rfl⟩ := joined
  have group := inv.shared first member isShare
  obtain ⟨b, inRange, mark, notHeld⟩ := inv.marked first member
  have isSet := (inv.bit_iff b inRange).mpr (.inr ⟨first, member, mark⟩)
  have own : ∀ e ∈ t.entries, e.mark = markOf b → e.id = first.id ∧ ¬ t.Private first.id := by
    intro e inTable same
    by_cases sameIp : e.srcIp = first.srcIp
    · rw [inv.eq_of_srcIp inTable member sameIp]
      exact ⟨rfl, isShare⟩
    · exact ⟨(inv.apart e inTable first member sameIp (same.trans mark.symm)).1, isShare⟩
  have after := inv.attach inRange below (inv.validIds first member) fresh isSet own
    fun _ => group.trans mark
  rw [Set.sdiff_singleton_eq_self notHeld] at after
  rwa [group, mark]

/-- The reference counts of the entries play no part. -/
theorem recount (inv : Consistent held t) (f : MarktblNode → Int) :
    Consistent held { t with entries := t.entries.map fun e => { e with count := f e } } where
  -- field by field: no clause reads the count of an entry
  nodup := by
    simpa [Multiset.map_map] using inv.nodup
  room := by
    simpa using inv.room
  ipCnt_pos := inv.ipCnt_pos
  ipCnt_lt := inv.ipCnt_lt
  validIds := by
    intro e member
    obtain ⟨old, inTable, rfl⟩ := Multiset.mem_map.mp member
    exact inv.validIds old inTable
  held_lt := inv.held_lt
  bit_iff := by
    intro b bound
    simpa using inv.bit_iff b bound
  marked := by
    intro e member
    obtain ⟨old, inTable, rfl⟩ := Multiset.mem_map.mp member
    exact inv.marked old inTable
  apart := by
    intro e he e' he'
    obtain ⟨old, inTable, rfl⟩ := Multiset.mem_map.mp he
    obtain ⟨old', inTable', rfl⟩ := Multiset.mem_map.mp he'
    exact inv.apart old inTable old' inTable'
  counted := by
    intro id valid
    have same : (t.entries.map fun e => { e with count := f e }).countP (·.id = id) =
        t.members id := by
      rw [Multiset.countP_map, ← Multiset.countP_eq_card_filter]
      rfl
    rw [members, same]
    exact inv.counted id valid
  shared := by
    intro e member
    obtain ⟨old, inTable, rfl⟩ := Multiset.mem_map.mp member
    exact inv.shared old inTable

theorem touch (inv : Consistent held t) {e : MarktblNode} {rest : Multiset MarktblNode}
    (split : t.entries = e ::ₘ rest) (c : Int) : Consistent held (t.touch e rest c) := by
  have others := Registry.rest_elsewhere split inv.nodup
  have after := inv.recount fun e' => if e'.srcIp = e.srcIp then c else e'.count
  have same : (rest.map fun e' : MarktblNode =>
      { e' with count := if e'.srcIp = e.srcIp then c else e'.count }) = rest := by
    conv_rhs => rw [← Multiset.map_id rest]
    refine Multiset.map_congr rfl fun e' member => ?_
    simp [others e' member]
  simpa [split, same, Registry.touch] using after

/-- The entry `e` leaves; what is left to show is what becomes of its mark. -/
theorem detach (inv : Consistent held t) {e : MarktblNode} {rest : Multiset MarktblNode}
    (split : t.entries = e ::ₘ rest) {held' : Set Nat} (held_lt : ∀ b ∈ held', b < t.ipCnt)
    (bit_iff : ∀ b < t.ipCnt,
      t.bit b = true ↔ b ∈ held' ∨ ∃ e' ∈ rest, e'.mark = markOf b)
    (marked : ∀ e' ∈ rest, ∃ b < t.ipCnt, e'.mark = markOf b ∧ b ∉ held') :
    Consistent held' (t.detach e rest) := by
  have inTable : ∀ e' ∈ rest, e' ∈ t.entries := by
    intro e' member
    rw [split]
    exact Multiset.mem_cons_of_mem member
  exact {
    nodup := by
      have nodup := inv.nodup
      rw [split, Multiset.map_cons, Multiset.nodup_cons] at nodup
      exact nodup.2
    room := by
      have room := inv.room
      rw [split, Multiset.card_cons] at room
      exact Nat.le_of_succ_le room
    ipCnt_pos := inv.ipCnt_pos
    ipCnt_lt := inv.ipCnt_lt
    validIds := fun e' member => inv.validIds e' (inTable e' member)
    held_lt := held_lt
    bit_iff := bit_iff
    marked := marked
    apart := by
      intro e' he' e'' he'' ne sameMark
      rw [private_detach]
      exact inv.apart e' (inTable e' he') e'' (inTable e'' he'') ne sameMark
    counted := by
      intro id valid
      have old := inv.counted id valid
      have bound := inv.members_lt id
      rw [members_cons split id] at old bound
      by_cases here : id = e.id
      · subst id
        rw [if_pos rfl] at old bound
        -- the count of the rule is that of its entries, so it does not underflow
        have stepped : atomicDec (t.rule e.id).count = (t.rule e.id).count - 1 :=
          atomicDec_eq (by omega) (by omega)
        rw [detach_rule_self]
        change atomicDec (t.rule e.id).count = _
        omega
      · rw [detach_rule_of_ne _ _ _ here, old, if_neg (Ne.symm here)]
        rfl
    shared := by
      intro e' member isShare
      rw [private_detach] at isShare
      rw [detach_mark]
      exact inv.shared e' (inTable e' member) isShare }

/-- The entries of a share rule carry one mark. -/
theorem group_mark (inv : Consistent held t) {e e' : MarktblNode} (he : e ∈ t.entries)
    (he' : e' ∈ t.entries) (isShare : ¬ t.Private e.id) (sameId : e'.id = e.id) :
    e'.mark = e.mark := by
  rw [← inv.shared e' he' (sameId ▸ isShare), ← inv.shared e he isShare, sameId]

/-- The mark of a private entry, and of the last entry of a rule, is used once. -/
theorem unshared (inv : Consistent held t) {e : MarktblNode} {rest : Multiset MarktblNode}
    (split : t.entries = e ::ₘ rest) (last : t.Private e.id ∨ ∀ e' ∈ rest, e'.id ≠ e.id) :
    ∀ e' ∈ rest, e'.mark ≠ e.mark := by
  intro e' member sameMark
  have here : e ∈ t.entries := split ▸ Multiset.mem_cons_self e rest
  have there : e' ∈ t.entries := split ▸ Multiset.mem_cons_of_mem member
  have ne := Registry.rest_elsewhere split inv.nodup e' member
  obtain ⟨sameId, isShare⟩ := inv.apart e' there e here ne sameMark
  cases last with
  | inl isPrivate => exact isShare (sameId ▸ isPrivate)
  | inr only => exact only e' member sameId

/-- An entry of a share rule leaves and others stay: they keep the mark. -/
theorem detachMember (inv : Consistent held t) {e : MarktblNode} {rest : Multiset MarktblNode}
    (split : t.entries = e ::ₘ rest) (isShare : ¬ t.Private e.id)
    (others : ∃ e' ∈ rest, e'.id = e.id) : Consistent held (t.detach e rest) := by
  obtain ⟨other, member, sameId⟩ := others
  have here : e ∈ t.entries := split ▸ Multiset.mem_cons_self e rest
  have there : other ∈ t.entries := split ▸ Multiset.mem_cons_of_mem member
  have sameMark := inv.group_mark here there isShare sameId
  refine inv.detach split inv.held_lt ?_ ?_
  · intro b bound
    rw [inv.bit_iff b bound, split]
    simp only [Multiset.mem_cons, exists_eq_or_imp]
    constructor
    · rintro (isHeld | mark | later)
      · exact .inl isHeld
      · exact .inr ⟨other, member, sameMark.trans mark⟩
      · exact .inr later
    · rintro (isHeld | later)
      · exact .inl isHeld
      · exact .inr (.inr later)
  · intro e' inRest
    exact inv.marked e' (split ▸ Multiset.mem_cons_of_mem inRest)

/-- The last user of a mark leaves: the mark is held by whoever removed it. -/
theorem detachLast (inv : Consistent held t) {e : MarktblNode} {rest : Multiset MarktblNode}
    {b : Nat} (split : t.entries = e ::ₘ rest) (mark : e.mark = markOf b)
    (last : t.Private e.id ∨ ∀ e' ∈ rest, e'.id ≠ e.id) :
    Consistent (insert b held) (t.detach e rest) := by
  have here : e ∈ t.entries := split ▸ Multiset.mem_cons_self e rest
  have inTable : ∀ e' ∈ rest, e' ∈ t.entries :=
    fun e' member => split ▸ Multiset.mem_cons_of_mem member
  -- nobody else carries the mark: the rule is private, or the group is empty now
  have alone : ∀ e' ∈ rest, e'.mark ≠ markOf b := mark ▸ inv.unshared split last
  obtain ⟨c, inRange, markC, notHeld⟩ := inv.marked e here
  obtain rfl : b = c := markOf_inj.mp (mark.symm.trans markC)
  refine inv.detach split ?_ ?_ ?_
  · rintro d (rfl | member)
    · exact inRange
    · exact inv.held_lt d member
  · intro d bound
    rw [inv.bit_iff d bound, split]
    simp only [Multiset.mem_cons, exists_eq_or_imp, Set.mem_insert_iff, mark, markOf_inj,
      eq_comm (a := b) (b := d)]
    tauto
  · intro e' member
    obtain ⟨d, bound, markD, notHeldD⟩ := inv.marked e' (inTable e' member)
    refine ⟨d, bound, markD, ?_⟩
    rintro (rfl | isHeld)
    · exact alone e' member markD
    · exact notHeldD isHeld

/-- With nothing registered and nothing held there is nothing to check. -/
theorem ofEmpty (entries : t.entries = 0) (bits : ∀ b < t.ipCnt, t.bit b = false)
    (counts : ∀ id, t.ValidId id → (t.rule id).count = 0) (ipCnt_pos : 1 ≤ t.ipCnt)
    (ipCnt_lt : t.ipCnt < 2 ^ 21) : Consistent ∅ t where
  nodup := by simp [entries]
  room := by simp [entries]
  ipCnt_pos := ipCnt_pos
  ipCnt_lt := ipCnt_lt
  validIds := by simp [entries]
  held_lt := by simp
  bit_iff := by
    intro b bound
    simp [entries, bits b bound]
  marked := by simp [entries]
  apart := by simp [entries]
  counted := by
    intro id valid
    simp [counts id valid, members, entries]
  shared := by simp [entries]

theorem clear (inv : Consistent held t) : Consistent ∅ t.clear :=
  ofEmpty rfl (fun _ _ => rfl) (fun _ _ => rfl) inv.ipCnt_pos inv.ipCnt_lt

theorem respec {ipCnt ruleCnt : Nat} (ipCnt_pos : 1 ≤ ipCnt) (ipCnt_lt : ipCnt < 2 ^ 21) :
    Consistent ∅ (t.respec ipCnt ruleCnt) :=
  ofEmpty rfl (fun _ _ => rfl) (fun _ _ => rfl) ipCnt_pos ipCnt_lt

/-! ## Capacity -/

/-- Every set bit belongs to an entry, so the bits do not run out before the entries. -/
theorem exists_clear_bit (inv : Consistent ∅ t) (below : t.entries.card < t.ipCnt) :
    ∃ b < t.ipCnt, t.bit b = false := by
  by_contra full
  have allSet : ∀ b < t.ipCnt, t.bit b = true := by
    intro b bound
    by_contra isClear
    exact full ⟨b, bound, by simpa using isClear⟩
  have covered : (Finset.range t.ipCnt).image markOf ⊆ (t.entries.map (·.mark)).toFinset := by
    intro mark member
    obtain ⟨b, bound, rfl⟩ := Finset.mem_image.mp member
    have isSet := allSet b (Finset.mem_range.mp bound)
    rcases (inv.bit_iff b (Finset.mem_range.mp bound)).mp isSet with isHeld | ⟨e, inTable, mark⟩
    · cases isHeld
    · exact Multiset.mem_toFinset.mpr (mark ▸ Multiset.mem_map_of_mem _ inTable)
  have injective : Function.Injective markOf := fun _ _ same => markOf_inj.mp same
  have tooMany := Finset.card_le_card covered
  rw [Finset.card_image_of_injective _ injective, Finset.card_range] at tooMany
  have fewer := Multiset.toFinset_card_le (t.entries.map (·.mark))
  rw [Multiset.card_map] at fewer
  omega

end Consistent

end IpQos.Verified
