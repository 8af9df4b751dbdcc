import IpQos.Verified.CallSteps
import IpQos.Verified.Operations

/-! # Calls in flight

Calls of `qmark_alloc_mark_auto` for different addresses, interleaved with each
other and with conntrack events.  The tables stay consistent when every mark that
a call has allocated and neither inserted nor freed counts as held by that call.

Two things can break this.  A call for a share rule may allocate although the rule
has a mark already or is about to get one (`Unrivalled`), and a DESTROY event may
free a mark that a call has read from the rule (`Unneeded`). -/

namespace IpQos.Verified

open IpQos.Kmod
open Registry

/-! ## Where a call stands -/

/-- The call is in flight and its address is not in the table yet. -/
def Pending (c : Call) : Prop :=
  match c.pc with
  | .find | .testReset | .tcAdd | .ret _ => False
  | _ => True

/-- The call has allocated the mark of a share rule that has no entry so far. -/
def Founding (c : Call) : Prop :=
  match c.pc with
  | .storeMark => True
  | .addHash | .retestMode | .retestCount | .clearMark => c.origin = .first
  | _ => False

/-- The call relies on the mark of a share rule that has entries. -/
def Borrowing (c : Call) : Prop :=
  match c.pc with
  | .loadMark => True
  | .addHash | .retestMode | .retestCount => c.origin = .group
  | _ => False

/-- The call got the mark `m` from `qmark_alloc_mark` and is still in flight. -/
def Obtained (c : Call) (m : Nat) : Prop :=
  InFlight c ∧ (c.origin = .priv ∨ c.origin = .first) ∧ c.mark = m

instance (c : Call) : Decidable (Pending c) :=
  match c with
  | ⟨_, _, pc, _, _⟩ =>
    match pc with
    | .find | .testReset | .tcAdd | .ret _ => .isFalse id
    | .testMode | .allocPriv | .testCount | .allocFirst | .storeMark | .loadMark | .addHash
    | .retestMode | .retestCount | .clearMark | .freeMark => .isTrue trivial

instance (c : Call) : Decidable (Founding c) :=
  match c with
  | ⟨_, _, pc, _, origin⟩ =>
    match pc with
    | .storeMark => .isTrue trivial
    | .addHash | .retestMode | .retestCount | .clearMark =>
      inferInstanceAs (Decidable (origin = .first))
    | .find | .testReset | .testMode | .allocPriv | .testCount | .allocFirst | .loadMark
    | .freeMark | .tcAdd | .ret _ => .isFalse id

instance (c : Call) : Decidable (Borrowing c) :=
  match c with
  | ⟨_, _, pc, _, origin⟩ =>
    match pc with
    | .loadMark => .isTrue trivial
    | .addHash | .retestMode | .retestCount => inferInstanceAs (Decidable (origin = .group))
    | .find | .testReset | .testMode | .allocPriv | .testCount | .allocFirst | .storeMark
    | .clearMark | .freeMark | .tcAdd | .ret _ => .isFalse id

instance (c : Call) (m : Nat) : Decidable (Obtained c m) :=
  inferInstanceAs (Decidable (_ ∧ _ ∧ _))

/-! ## What a call knows -/

section Knowledge

variable (t : Registry) (c : Call)

def Eligible : Prop := t.ValidId c.id ∧ t.Fresh c.srcIp

def Owned : Prop := ∃ b, c.mark = markOf b

/-- The rule is in share mode and has no entry. -/
def Founds : Prop := ¬ t.Private c.id ∧ ∀ e ∈ t.entries, e.id ≠ c.id

/-- The rule is in share mode and has entries. -/
def Borrows : Prop := ¬ t.Private c.id ∧ ∃ e ∈ t.entries, e.id = c.id

/-- What holds of a call at each of its steps. -/
def Sound : Prop :=
  match c.pc with
  | .find => False
  | .testReset => c.origin = .nowhere
  | .testMode => c.origin = .nowhere ∧ Eligible t c
  | .allocPriv => c.origin = .nowhere ∧ Eligible t c ∧ t.Private c.id
  | .testCount | .allocFirst => c.origin = .nowhere ∧ Eligible t c ∧ ¬ t.Private c.id
  | .storeMark => c.origin = .first ∧ Eligible t c ∧ Owned c ∧ Founds t c
  | .loadMark => c.origin = .nowhere ∧ Eligible t c ∧ Borrows t c
  | .addHash => Eligible t c ∧
    (c.origin = .priv ∧ Owned c ∧ t.Private c.id ∨
      c.origin = .first ∧ Owned c ∧ Founds t c ∧ (t.rule c.id).mark = c.mark ∨
      c.origin = .group ∧ Borrows t c ∧ (t.rule c.id).mark = c.mark)
  | .retestMode => Eligible t c ∧
    (c.origin = .priv ∧ Owned c ∧ t.Private c.id ∨ c.origin = .first ∧ Owned c ∧ Founds t c ∨
      c.origin = .group ∧ Borrows t c)
  | .retestCount => Eligible t c ∧
    (c.origin = .first ∧ Owned c ∧ Founds t c ∨ c.origin = .group ∧ Borrows t c)
  | .clearMark => Eligible t c ∧ Owned c ∧
    (c.origin = .priv ∧ t.Private c.id ∨ c.origin = .first ∧ Founds t c)
  | .freeMark => Eligible t c ∧ Owned c ∧ (c.origin = .priv ∨ c.origin = .first)
  | .tcAdd => t.ValidId c.id ∧
    (c.origin = .priv ∨ c.origin = .first → ∃ e ∈ t.entries, e.mark = c.mark)
  | .ret _ => True

end Knowledge

/-- What keeps two calls apart. -/
structure Apart (c d : Call) : Prop where
  ips : Pending c → Pending d → c.srcIp ≠ d.srcIp
  marks : Holding c → Holding d → c.mark ≠ d.mark
  founders : Founding c → Founding d → c.id ≠ d.id

/-- The bits of the marks that calls hold. -/
def heldBits {ι : Type} (call : ι → Call) : Set Nat :=
  {b | ∃ i, Holding (call i) ∧ (call i).mark = markOf b}

structure Flight {ι : Type} (t : Registry) (call : ι → Call) : Prop where
  consistent : Consistent (heldBits call) t
  calls : ∀ i, Sound t (call i)
  apart : ∀ i j, i ≠ j → Apart (call i) (call j)

section Facts

variable {t t' : Registry} {c c' d : Call}

theorem Sound.eligible (sound : Sound t c) (pending : Pending c) : Eligible t c := by
  unfold Sound at sound
  unfold Pending at pending
  cases pc : c.pc with
  | find | testReset | tcAdd | ret => simp [pc] at pending
  | testMode | addHash | retestMode | retestCount | clearMark | freeMark =>
    simp only [pc] at sound
    first | exact sound.1 | exact sound.2
  | allocPriv | testCount | allocFirst | storeMark | loadMark =>
    simp only [pc] at sound
    exact sound.2.1

theorem Sound.valid (sound : Sound t c) (flying : InFlight c) : t.ValidId c.id := by
  by_cases pending : Pending c
  · exact (sound.eligible pending).1
  · unfold Sound at sound
    unfold InFlight at flying
    unfold Pending at pending
    cases pc : c.pc with
    | tcAdd =>
      simp only [pc] at sound
      exact sound.1
    | find | testReset | ret => simp [pc] at flying
    | _ => simp [pc] at pending

theorem Sound.owned (sound : Sound t c) (holding : Holding c) : Owned c := by
  unfold Sound at sound
  unfold Holding at holding
  cases pc : c.pc with
  | storeMark =>
    simp only [pc] at sound
    exact sound.2.2.1
  | addHash | retestMode =>
    simp only [pc] at sound holding
    rcases sound.2 with ⟨_, owned, _⟩ | ⟨_, owned, _⟩ | ⟨origin, _⟩
    · exact owned
    · exact owned
    · simp [origin] at holding
  | retestCount =>
    simp only [pc] at sound holding
    rcases sound.2 with ⟨_, owned, _⟩ | ⟨origin, _⟩
    · exact owned
    · simp [origin] at holding
  | clearMark | freeMark =>
    simp only [pc] at sound
    exact sound.2.1
  | _ => simp [pc] at holding

theorem Sound.founds (sound : Sound t c) (founding : Founding c) : Founds t c := by
  unfold Sound at sound
  unfold Founding at founding
  cases pc : c.pc with
  | storeMark =>
    simp only [pc] at sound
    exact sound.2.2.2
  | addHash =>
    simp only [pc] at sound founding
    simp only [founding, reduceCtorEq, false_and, or_false, false_or, true_and] at sound
    exact sound.2.2.1
  | retestMode | retestCount | clearMark =>
    simp only [pc] at sound founding
    simp only [founding, reduceCtorEq, false_and, or_false, false_or, true_and] at sound
    exact sound.2.2
  | _ => simp [pc] at founding

theorem Sound.borrows (sound : Sound t c) (borrowing : Borrowing c) : Borrows t c := by
  unfold Sound at sound
  unfold Borrowing at borrowing
  cases pc : c.pc with
  | loadMark =>
    simp only [pc] at sound
    exact sound.2.2
  | addHash =>
    simp only [pc] at sound borrowing
    simp only [borrowing, reduceCtorEq, false_and, false_or, true_and] at sound
    exact sound.2.1
  | retestMode | retestCount =>
    simp only [pc] at sound borrowing
    simp only [borrowing, reduceCtorEq, false_and, false_or, true_and] at sound
    exact sound.2
  | _ => simp [pc] at borrowing

theorem Apart.symm (apart : Apart c d) : Apart d c where
  ips := fun pendingD pendingC same => apart.ips pendingC pendingD same.symm
  marks := fun holdingD holdingC same => apart.marks holdingC holdingD same.symm
  founders := fun foundingD foundingC same => apart.founders foundingC foundingD same.symm

theorem Apart.mono (apart : Apart c d) (srcIp : c'.srcIp = c.srcIp)
    (id : c'.id = c.id) (pending : Pending c' → Pending c) (founding : Founding c' → Founding c)
    (holding : Holding c' → Holding c ∧ c'.mark = c.mark) : Apart c' d where
  ips := fun pendingC pendingD => srcIp ▸ apart.ips (pending pendingC) pendingD
  marks := fun holdingC holdingD =>
    (holding holdingC).2 ▸ apart.marks (holding holdingC).1 holdingD
  founders := fun foundingC foundingD => id ▸ apart.founders (founding foundingC) foundingD

/-- What is known of a call survives what the others do to the registry. -/
theorem Sound.frame (sound : Sound t c) (ruleCnt : t'.ruleCnt = t.ruleCnt)
    (mode : t'.Private c.id ↔ t.Private c.id)
    (fresh : Pending c → t.Fresh c.srcIp → t'.Fresh c.srcIp)
    (founding : Founding c → (∀ e ∈ t.entries, e.id ≠ c.id) → ∀ e ∈ t'.entries, e.id ≠ c.id)
    (borrowing : Borrowing c → (∃ e ∈ t.entries, e.id = c.id) → ∃ e ∈ t'.entries, e.id = c.id)
    (mark : Founding c ∨ Borrowing c → (t'.rule c.id).mark = (t.rule c.id).mark)
    (shown : c.pc = .tcAdd → c.origin = .priv ∨ c.origin = .first →
      (∃ e ∈ t.entries, e.mark = c.mark) → ∃ e ∈ t'.entries, e.mark = c.mark) : Sound t' c := by
  have eligible (pending : Pending c) : Eligible t c → Eligible t' c := by
    rintro ⟨⟨pos, le⟩, isFresh⟩
    exact ⟨⟨pos, ruleCnt ▸ le⟩, fresh pending isFresh⟩
  have founds (isFounding : Founding c) : Founds t c → Founds t' c :=
    And.imp mode.not.mpr (founding isFounding)
  have borrows (isBorrowing : Borrowing c) : Borrows t c → Borrows t' c :=
    And.imp mode.not.mpr (borrowing isBorrowing)
  -- where the call stands decides which of the three it needs
  unfold Sound at sound ⊢
  unfold Pending at eligible
  unfold Founding at founds mark
  unfold Borrowing at borrows mark
  cases pc : c.pc with
  | find => simp only [pc] at sound
  | testReset =>
    simp only [pc] at sound ⊢
    exact sound
  | testMode =>
    simp only [pc] at sound eligible ⊢
    exact ⟨sound.1, eligible trivial sound.2⟩
  | allocPriv =>
    simp only [pc] at sound eligible ⊢
    exact ⟨sound.1, eligible trivial sound.2.1, mode.mpr sound.2.2⟩
  | testCount | allocFirst =>
    simp only [pc] at sound eligible ⊢
    exact ⟨sound.1, eligible trivial sound.2.1, mode.not.mpr sound.2.2⟩
  | storeMark =>
    simp only [pc] at sound eligible founds ⊢
    exact ⟨sound.1, eligible trivial sound.2.1, sound.2.2.1, founds trivial sound.2.2.2⟩
  | loadMark =>
    simp only [pc] at sound eligible borrows ⊢
    exact ⟨sound.1, eligible trivial sound.2.1, borrows trivial sound.2.2⟩
  | addHash =>
    simp only [pc] at sound eligible founds borrows mark ⊢
    refine ⟨eligible trivial sound.1, ?_⟩
    rcases sound.2 with ⟨origin, owned, isPrivate⟩ | ⟨origin, owned, isFounder, stored⟩ |
      ⟨origin, isBorrower, stored⟩
    · exact .inl ⟨origin, owned, mode.mpr isPrivate⟩
    · exact .inr (.inl ⟨origin, owned, founds origin isFounder,
        (mark (.inl origin)).trans stored⟩)
    · exact .inr (.inr ⟨origin, borrows origin isBorrower, (mark (.inr origin)).trans stored⟩)
  | retestMode =>
    simp only [pc] at sound eligible founds borrows ⊢
    refine ⟨eligible trivial sound.1, ?_⟩
    rcases sound.2 with ⟨origin, owned, isPrivate⟩ | ⟨origin, owned, isFounder⟩ |
      ⟨origin, isBorrower⟩
    · exact .inl ⟨origin, owned, mode.mpr isPrivate⟩
    · exact .inr (.inl ⟨origin, owned, founds origin isFounder⟩)
    · exact .inr (.inr ⟨origin, borrows origin isBorrower⟩)
  | retestCount =>
    simp only [pc] at sound eligible founds borrows ⊢
    refine ⟨eligible trivial sound.1, ?_⟩
    rcases sound.2 with ⟨origin, owned, isFounder⟩ | ⟨origin, isBorrower⟩
    · exact .inl ⟨origin, owned, founds origin isFounder⟩
    · exact .inr ⟨origin, borrows origin isBorrower⟩
  | clearMark =>
    simp only [pc] at sound eligible founds ⊢
    refine ⟨eligible trivial sound.1, sound.2.1, ?_⟩
    rcases sound.2.2 with ⟨origin, isPrivate⟩ | ⟨origin, isFounder⟩
    · exact .inl ⟨origin, mode.mpr isPrivate⟩
    · exact .inr ⟨origin, founds origin isFounder⟩
  | freeMark =>
    simp only [pc] at sound eligible ⊢
    exact ⟨eligible trivial sound.1, sound.2⟩
  | tcAdd =>
    simp only [pc] at sound ⊢
    refine ⟨⟨sound.1.1, ruleCnt ▸ sound.1.2⟩, ?_⟩
    intro origin
    exact shown pc origin (sound.2 origin)
  | ret code => trivial

/-- Steps that touch neither the entries nor the rules. -/
theorem Sound.congr (sound : Sound t c) (entries : t'.entries = t.entries)
    (rule : t'.rule = t.rule) (ruleCnt : t'.ruleCnt = t.ruleCnt) : Sound t' c := by
  apply sound.frame ruleCnt
  · rw [Private, rule, ← Private]
  · intro _ fresh
    rw [Fresh, entries]
    exact fresh
  · intro _ empty
    rw [entries]
    exact empty
  · intro _ joined
    rw [entries]
    exact joined
  · intro _
    rw [rule]
  · intro _ _ there
    rw [entries]
    exact there

end Facts

section Calls

variable {ι : Type} {t t' : Registry} {call : ι → Call} {i : ι} {c' : Call} {env : Env} {b : Nat}

theorem Flight.holding_bit (flight : Flight t call) (holding : Holding (call i))
    (mark : (call i).mark = markOf b) : b < t.ipCnt ∧ t.bit b = true := by
  have isHeld : b ∈ heldBits call := ⟨i, holding, mark⟩
  have inRange := flight.consistent.held_lt b isHeld
  exact ⟨inRange, (flight.consistent.bit_iff b inRange).mpr (.inl isHeld)⟩

theorem Flight.ready (flight : Flight t call) : Ready t (call i) where
  valid := (flight.calls i).valid
  nonzero := by
    intro pc
    have here := flight.calls i
    simp only [Sound, pc] at here
  marked := by
    rintro (pc | pc)
    · have here := flight.calls i
      simp only [Sound, pc] at here
      obtain ⟨_, ⟨origin, ⟨b, mark⟩, _⟩ | ⟨origin, ⟨b, mark⟩, _⟩ | ⟨_, borrows, stored⟩⟩ := here
      · exact ⟨b, (flight.holding_bit (by simp [Holding, pc, origin]) mark).1, mark⟩
      · exact ⟨b, (flight.holding_bit (by simp [Holding, pc, origin]) mark).1, mark⟩
      · obtain ⟨isShare, e, member, sameId⟩ := borrows
        rw [← sameId] at isShare stored
        obtain ⟨b, inRange, mark, _⟩ := flight.consistent.marked e member
        have group := flight.consistent.shared e member isShare
        exact ⟨b, inRange, stored.symm.trans (group.trans mark)⟩
    · have here := flight.calls i
      simp only [Sound, pc] at here
      obtain ⟨_, ⟨b, mark⟩, origin⟩ := here
      exact ⟨b, (flight.holding_bit (by simpa [Holding, pc] using origin) mark).1, mark⟩
  single := fun pc => .inl ((flight.calls i).eligible (by simp [Pending, pc])).2

/-- The count that a call reads tells whether its rule has entries. -/
theorem Flight.count_eq_zero_iff (flight : Flight t call) (flying : InFlight (call i)) :
    (t.rule (call i).id).count = 0 ↔ ∀ e ∈ t.entries, e.id ≠ (call i).id :=
  flight.consistent.count_eq_zero_iff ((flight.calls i).valid flying)

theorem Flight.count_ne_zero_iff (flight : Flight t call) (flying : InFlight (call i)) :
    (t.rule (call i).id).count ≠ 0 ↔ ∃ e ∈ t.entries, e.id = (call i).id := by
  rw [Ne, flight.count_eq_zero_iff flying]
  simp

/-- Nobody else knows a mark of the rule of a founder. -/
theorem Flight.others_elsewhere (flight : Flight t call) (founding : Founding (call i)) {j : ι}
    (ne : j ≠ i) (knows : Founding (call j) ∨ Borrowing (call j)) : (call j).id ≠ (call i).id := by
  intro sameId
  cases knows with
  | inl foundingJ => exact (flight.apart i j ne.symm).founders founding foundingJ sameId.symm
  | inr borrowing =>
    obtain ⟨_, e, member, id⟩ := (flight.calls j).borrows borrowing
    exact ((flight.calls i).founds founding).2 e member (id.trans sameId)

variable [DecidableEq ι]

/-! ## The marks held after a step -/

theorem heldBits_same (holding : Holding c' ↔ Holding (call i))
    (mark : Holding c' → c'.mark = (call i).mark) :
    heldBits (Function.update call i c') = heldBits call := by
  ext b
  constructor
  · rintro ⟨j, holds, markJ⟩
    by_cases same : j = i
    · subst j
      rw [Function.update_self] at holds markJ
      exact ⟨i, holding.mp holds, (mark holds).symm.trans markJ⟩
    · rw [Function.update_of_ne same] at holds markJ
      exact ⟨j, holds, markJ⟩
  · rintro ⟨j, holds, markJ⟩
    refine ⟨j, ?_⟩
    by_cases same : j = i
    · subst j
      rw [Function.update_self]
      exact ⟨holding.mpr holds, (mark (holding.mpr holds)).trans markJ⟩
    · rw [Function.update_of_ne same]
      exact ⟨holds, markJ⟩

theorem heldBits_gain (idle : ¬ Holding (call i)) (holding : Holding c')
    (mark : c'.mark = markOf b) :
    heldBits (Function.update call i c') = insert b (heldBits call) := by
  ext d
  constructor
  · rintro ⟨j, holds, markJ⟩
    by_cases same : j = i
    · subst j
      rw [Function.update_self, mark] at markJ
      exact .inl (markOf_inj.mp markJ).symm
    · rw [Function.update_of_ne same] at holds markJ
      exact .inr ⟨j, holds, markJ⟩
  · rintro (rfl | ⟨j, holds, markJ⟩)
    · refine ⟨i, ?_⟩
      rw [Function.update_self]
      exact ⟨holding, mark⟩
    · have ne : j ≠ i := by
        rintro rfl
        exact idle holds
      refine ⟨j, ?_⟩
      rw [Function.update_of_ne ne]
      exact ⟨holds, markJ⟩

theorem heldBits_loss (apart : ∀ j, j ≠ i → Apart (call i) (call j)) (holding : Holding (call i))
    (mark : (call i).mark = markOf b) (idle : ¬ Holding c') :
    heldBits (Function.update call i c') = heldBits call \ {b} := by
  ext d
  constructor
  · rintro ⟨j, holds, markJ⟩
    have ne : j ≠ i := by
      rintro rfl
      rw [Function.update_self] at holds
      exact idle holds
    rw [Function.update_of_ne ne] at holds markJ
    refine ⟨⟨j, holds, markJ⟩, ?_⟩
    rintro rfl
    exact (apart j ne).marks holding holds (mark.trans markJ.symm)
  · rintro ⟨⟨j, holds, markJ⟩, other⟩
    have ne : j ≠ i := by
      rintro rfl
      exact other (markOf_inj.mp (markJ.symm.trans mark))
    refine ⟨j, ?_⟩
    rw [Function.update_of_ne ne]
    exact ⟨holds, markJ⟩

theorem Flight.update (flight : Flight t call)
    (consistent : Consistent (heldBits (Function.update call i c')) t') (self : Sound t' c')
    (others : ∀ j, j ≠ i → Sound t' (call j)) (apart : ∀ j, j ≠ i → Apart c' (call j)) :
    Flight t' (Function.update call i c') := by
  refine ⟨consistent, ?_, ?_⟩
  · exact (Function.forall_update_iff call fun _ c => Sound t' c).mpr ⟨self, others⟩
  · -- two of the others are as far apart as before
    intro j k ne
    by_cases sameJ : j = i
    · subst j
      rw [Function.update_self, Function.update_of_ne ne.symm]
      exact apart k ne.symm
    · rw [Function.update_of_ne sameJ]
      by_cases sameK : k = i
      · subst k
        rw [Function.update_self]
        exact (apart j sameJ).symm
      · rw [Function.update_of_ne sameK]
        exact flight.apart j k ne

/-! ## One step of a call -/

/-- A call begins for a new address that no other call is about to insert. -/
def Launch (t : Registry) (call : ι → Call) (i : ι) : Prop :=
  (call i).pc = .testReset →
    Eligible t (call i) ∧ ∀ j, Pending (call j) → (call j).srcIp ≠ (call i).srcIp

/-- A call that allocates for a share rule finds the rule without entries, and no other call
    with a mark for it; or the bitmap is full. -/
def Unrivalled (t : Registry) (call : ι → Call) (i : ι) : Prop :=
  (call i).pc = .allocFirst →
    (∀ b < t.ipCnt, t.bit b = true) ∨
      (∀ e ∈ t.entries, e.id ≠ (call i).id) ∧ ∀ j, Founding (call j) → (call j).id ≠ (call i).id

/-- A step that only looks. -/
theorem Flight.look (flight : Flight t call) (self : Sound t c')
    (srcIp : c'.srcIp = (call i).srcIp) (id : c'.id = (call i).id)
    (pending : Pending c' → Pending (call i)) (founding : Founding c' → Founding (call i))
    (holding : Holding c' ↔ Holding (call i)) (mark : Holding c' → c'.mark = (call i).mark) :
    Flight t (Function.update call i c') := by
  apply flight.update _ self
  · exact fun j _ => flight.calls j
  · intro j ne
    apply (flight.apart i j ne.symm).mono srcIp id pending founding
    exact fun holds => ⟨holding.mp holds, mark holds⟩
  · rw [heldBits_same holding mark]
    exact flight.consistent

/-- A call begins. -/
theorem Flight.begin (flight : Flight t call) (pc : (call i).pc = .testReset)
    (launch : Launch t call i) : Flight t (Function.update call i ((call i).goto .testMode)) := by
  obtain ⟨eligible, alone⟩ := launch pc
  have origin := flight.calls i
  simp only [Sound, pc] at origin
  apply flight.update
  · rw [heldBits_same (by simp [Holding, pc]) (by simp)]
    exact flight.consistent
  · exact ⟨origin, eligible⟩
  · exact fun j _ => flight.calls j
  · intro j ne
    constructor
    · intro _ pendingJ same
      exact alone j pendingJ same.symm
    · simp [Holding]
    · simp [Founding]

/-- A call reserves a mark that nobody has. -/
theorem Flight.reserve (flight : Flight t call) (inRange : b < t.ipCnt)
    (isClear : t.bit b = false) (self : Sound t c') (srcIp : c'.srcIp = (call i).srcIp)
    (pending : Pending (call i)) (idle : ¬ Holding (call i))
    (holding : Holding c') (mark : c'.mark = markOf b)
    (founders : ∀ j, j ≠ i → Founding c' → Founding (call j) → c'.id ≠ (call j).id) :
    Flight (t.setBit b true) (Function.update call i c') := by
  apply flight.update
  · rw [heldBits_gain idle holding mark]
    exact flight.consistent.reserve inRange isClear
  · exact self.congr rfl rfl rfl
  · exact fun j _ => (flight.calls j).congr rfl rfl rfl
  · intro j ne
    refine ⟨?_, ?_, founders j ne⟩
    · intro _ pendingJ
      rw [srcIp]
      exact (flight.apart i j ne.symm).ips pending pendingJ
    · intro _ holdingJ same
      have isSet := (flight.holding_bit holdingJ (same.symm.trans mark)).2
      rw [isClear] at isSet
      cases isSet

/-- The mark of a rule is rewritten by a call that no other call depends on. -/
theorem Flight.setMark (flight : Flight t call) (mark : Nat)
    (scratch : t.Private (call i).id ∨ Founding (call i))
    (self : Sound (t.setMark (call i).id mark) c') (srcIp : c'.srcIp = (call i).srcIp)
    (id : c'.id = (call i).id) (pending : Pending c' → Pending (call i))
    (founding : Founding c' → Founding (call i)) (holding : Holding c' ↔ Holding (call i))
    (sameMark : Holding c' → c'.mark = (call i).mark) :
    Flight (t.setMark (call i).id mark) (Function.update call i c') := by
  apply flight.update _ self
  · intro j ne
    refine (flight.calls j).frame rfl (private_setMark ..) ?_ ?_ ?_ ?_ ?_
    · exact fun _ fresh => fresh
    · exact fun _ empty => empty
    · exact fun _ joined => joined
    · intro knows
      -- no other call relies on the mark of this rule
      have elsewhere : (call j).id ≠ (call i).id := by
        cases scratch with
        | inl isPrivate =>
          intro sameId
          rw [← sameId] at isPrivate
          cases knows with
          | inl foundingJ => exact ((flight.calls j).founds foundingJ).1 isPrivate
          | inr borrowing => exact ((flight.calls j).borrows borrowing).1 isPrivate
        | inr founder => exact flight.others_elsewhere founder ne knows
      rw [Registry.setMark, setRule_rule_of_ne _ _ _ elsewhere]
    · exact fun _ _ there => there
  · intro j ne
    apply (flight.apart i j ne.symm).mono srcIp id pending founding
    exact fun holds => ⟨holding.mp holds, sameMark holds⟩
  · rw [heldBits_same holding sameMark]
    apply flight.consistent.setMark
    exact scratch.imp_right fun founder => ((flight.calls i).founds founder).2

/-- A call inserts its entry. -/
theorem Flight.insert (flight : Flight t call) (pc : (call i).pc = .addHash)
    (mark : (call i).mark = markOf b) (below : t.entries.card < t.ipCnt) :
    Flight (t.attach (call i).srcIp (call i).id (markOf b))
      (Function.update call i ((call i).goto .tcAdd)) := by
  have sound := flight.calls i
  have pending : Pending (call i) := by simp [Pending, pc]
  obtain ⟨valid, fresh⟩ := sound.eligible pending
  have known := sound
  simp only [Sound, pc] at known
  obtain ⟨_, origins⟩ := known
  have idle : ¬ Holding ((call i).goto .tcAdd) := by simp [Holding]
  have apart : ∀ j, j ≠ i → Apart (call i) (call j) := fun j ne => flight.apart i j ne.symm
  apply flight.update
  · rcases origins with ⟨origin, _, isPrivate⟩ | ⟨origin, _, _, stored⟩ |
      ⟨origin, ⟨isShare, joined⟩, stored⟩
    · have holding : Holding (call i) := by simp [Holding, pc, origin]
      rw [heldBits_loss apart holding mark idle]
      exact flight.consistent.attachHeld _ ⟨i, holding, mark⟩ below valid fresh (.inl isPrivate)
    · have holding : Holding (call i) := by simp [Holding, pc, origin]
      rw [heldBits_loss apart holding mark idle]
      exact flight.consistent.attachHeld _ ⟨i, holding, mark⟩ below valid fresh
        (.inr (stored.trans mark))
    · have notHolding : ¬ Holding (call i) := by simp [Holding, pc, origin]
      rw [heldBits_same (iff_of_false idle notHolding) (fun holds => absurd holds idle),
        ← mark, ← stored]
      exact flight.consistent.attachMember below fresh isShare joined
  · refine ⟨valid, fun _ => ⟨_, Multiset.mem_cons_self _ _, mark.symm⟩⟩
  · intro j ne
    refine (flight.calls j).frame rfl (private_attach ..) ?_ ?_ ?_ ?_ ?_
    · intro pendingJ freshJ e member
      cases Multiset.mem_cons.mp member with
      | inl new =>
        rw [new]
        exact (apart j ne).ips pending pendingJ
      | inr old => exact freshJ e old
    · intro foundingJ empty e member
      cases Multiset.mem_cons.mp member with
      | inl new =>
        rw [new]
        intro sameId
        -- whoever inserts under the rule of a founder is the founder
        rcases origins with ⟨_, _, isPrivate⟩ | ⟨origin, _⟩ | ⟨_, ⟨_, e', member', id⟩, _⟩
        · exact ((flight.calls j).founds foundingJ).1 (sameId ▸ isPrivate)
        · exact (apart j ne).founders (by simp [Founding, pc, origin]) foundingJ sameId
        · exact empty e' member' (id.trans sameId)
      | inr old => exact empty e old
    · rintro _ ⟨e, member, id⟩
      exact ⟨e, Multiset.mem_cons_of_mem member, id⟩
    · exact fun _ => attach_mark ..
    · rintro _ _ ⟨e, member, markE⟩
      exact ⟨e, Multiset.mem_cons_of_mem member, markE⟩
  · intro j ne
    constructor
    · simp [Pending]
    · exact fun holds => absurd holds idle
    · simp [Founding]

/-- A call gives its mark back. -/
theorem Flight.free (flight : Flight t call) (holding : Holding (call i))
    (mark : (call i).mark = markOf b) :
    Flight (t.freeBit b) (Function.update call i ((call i).goto (.ret .error))) := by
  have apart : ∀ j, j ≠ i → Apart (call i) (call j) := fun j ne => flight.apart i j ne.symm
  apply flight.update
  · rw [heldBits_loss apart holding mark (by simp [Holding])]
    exact flight.consistent.release ⟨i, holding, mark⟩
  · trivial
  · exact fun j _ => (flight.calls j).congr rfl rfl rfl
  · intro j ne
    constructor
    · simp [Pending]
    · simp [Holding]
    · simp [Founding]

theorem Flight.step (flight : Flight t call) (launch : Launch t call i)
    (unrivalled : Unrivalled t call i) (stepped : Stepped env t (call i) c' t') :
    Flight t' (Function.update call i c') := by
  have sound := flight.calls i
  have here := sound
  unfold Sound at here
  -- a call that only looks keeps its mark; the cases differ in what it has seen
  cases stepped with
  | found pc | missed pc => simp only [pc] at here
  | turnedOff pc flag =>
    refine flight.look trivial rfl rfl ?_ ?_ ?_ ?_
    · simp [Pending]
    · simp [Founding]
    · simp [Holding, pc]
    · simp
  | admitted pc flag => exact flight.begin pc launch
  | privBranch pc isPrivate =>
    simp only [pc] at here
    refine flight.look ⟨here.1, here.2, isPrivate⟩ rfl rfl ?_ ?_ ?_ ?_
    · simp [Pending, pc]
    · simp [Founding]
    · simp [Holding, pc]
    · simp
  | shareBranch pc isShare =>
    simp only [pc] at here
    refine flight.look ⟨here.1, here.2, isShare⟩ rfl rfl ?_ ?_ ?_ ?_
    · simp [Pending, pc]
    · simp [Founding]
    · simp [Holding, pc]
    · simp
  | exhausted pc full =>
    refine flight.look trivial rfl rfl ?_ ?_ ?_ ?_
    · simp [Pending]
    · simp [Founding]
    · rcases pc with pc | pc <;> simp [Holding, pc]
    · simp [Holding]
  | reservedPriv pc inRange isClear =>
    simp only [pc] at here
    obtain ⟨_, eligible, isPrivate⟩ := here
    refine flight.reserve inRange isClear ⟨eligible, .inl ⟨rfl, ⟨_, rfl⟩, isPrivate⟩⟩ rfl
      ?_ ?_ ?_ rfl ?_
    · simp [Pending, pc]
    · simp [Holding, pc]
    · simp [Holding]
    · simp [Founding]
  | reservedFirst pc inRange isClear =>
    simp only [pc] at here
    obtain ⟨_, eligible, isShare⟩ := here
    obtain ⟨empty, rivals⟩ : (∀ e ∈ t.entries, e.id ≠ (call i).id) ∧
        ∀ j, Founding (call j) → (call j).id ≠ (call i).id := by
      -- a full bitmap has no clear bit to hand out
      rcases unrivalled pc with full | alone
      · rw [full _ inRange] at isClear
        cases isClear
      · exact alone
    refine flight.reserve inRange isClear ⟨rfl, eligible, ⟨_, rfl⟩, isShare, empty⟩ rfl
      ?_ ?_ ?_ rfl ?_
    · simp [Pending, pc]
    · simp [Holding, pc]
    · simp [Holding]
    · intro j _ _ founding
      exact (rivals j founding).symm
  | countedNone pc count =>
    simp only [pc] at here
    refine flight.look here rfl rfl ?_ ?_ ?_ ?_
    · simp [Pending, pc]
    · simp [Founding]
    · simp [Holding, pc]
    · simp
  | countedSome pc count =>
    have joined := (flight.count_ne_zero_iff (by simp [InFlight, pc])).mp count
    simp only [pc] at here
    obtain ⟨origin, eligible, isShare⟩ := here
    refine flight.look ⟨origin, eligible, isShare, joined⟩ rfl rfl ?_ ?_ ?_ ?_
    · simp [Pending, pc]
    · simp [Founding]
    · simp [Holding, pc]
    · simp
  | stored pc =>
    simp only [pc] at here
    obtain ⟨origin, eligible, owned, isShare, empty⟩ := here
    refine flight.setMark _ (.inr (by simp [Founding, pc])) ⟨eligible, .inr (.inl ⟨origin, owned,
      ⟨(private_setMark ..).not.mpr isShare, empty⟩, setMark_mark_self ..⟩)⟩ rfl rfl ?_ ?_ ?_ ?_
    · simp [Pending, pc]
    · simp [Founding, pc]
    · simp [Holding, pc, origin]
    · simp
  | loaded pc =>
    simp only [pc] at here
    obtain ⟨_, eligible, borrows⟩ := here
    refine flight.look ⟨eligible, .inr (.inr ⟨rfl, borrows, rfl⟩)⟩ rfl rfl ?_ ?_ ?_ ?_
    · simp [Pending, pc]
    · simp [Founding]
    · simp [Holding, pc]
    · simp [Holding]
  | inserted pc mark inRange isSet below fresh => exact flight.insert pc mark below
  | refused pc mark inRange reason =>
    simp only [pc] at here
    obtain ⟨eligible, origins⟩ := here
    have self : Sound t ((call i).goto .retestMode) := by
      refine ⟨eligible, ?_⟩
      rcases origins with ⟨origin, owned, isPrivate⟩ | ⟨origin, owned, founds, _⟩ |
        ⟨origin, borrows, _⟩
      · exact .inl ⟨origin, owned, isPrivate⟩
      · exact .inr (.inl ⟨origin, owned, founds⟩)
      · exact .inr (.inr ⟨origin, borrows⟩)
    refine flight.look self rfl rfl ?_ ?_ ?_ ?_
    · simp [Pending, pc]
    · simp [Founding, pc]
    · simp [Holding, pc]
    · simp
  | retestedPriv pc isPrivate =>
    simp only [pc] at here
    -- the mode is what it was when the call took its branch
    obtain ⟨eligible, ⟨origin, owned, _⟩ | ⟨_, _, founds⟩ | ⟨_, borrows⟩⟩ := here
    · refine flight.look ⟨eligible, owned, .inl ⟨origin, isPrivate⟩⟩ rfl rfl ?_ ?_ ?_ ?_
      · simp [Pending, pc]
      · simp [Founding, pc]
      · simp [Holding, pc]
      · simp
    · exact absurd isPrivate founds.1
    · exact absurd isPrivate borrows.1
  | retestedShare pc isShare =>
    simp only [pc] at here
    have self : Sound t ((call i).goto .retestCount) := by
      obtain ⟨eligible, ⟨_, _, isPrivate⟩ | ⟨origin, owned, founds⟩ | ⟨origin, borrows⟩⟩ := here
      · exact absurd isPrivate isShare
      · exact ⟨eligible, .inl ⟨origin, owned, founds⟩⟩
      · exact ⟨eligible, .inr ⟨origin, borrows⟩⟩
    refine flight.look self rfl rfl ?_ ?_ ?_ ?_
    · simp [Pending, pc]
    · simp [Founding, pc]
    · simp [Holding, pc]
    · simp
  | recountedNone pc count =>
    have empty := (flight.count_eq_zero_iff (by simp [InFlight, pc])).mp count
    simp only [pc] at here
    -- a rule without entries cannot have lent its mark
    obtain ⟨eligible, ⟨origin, owned, founds⟩ | ⟨_, _, e, member, id⟩⟩ := here
    · refine flight.look ⟨eligible, owned, .inr ⟨origin, founds⟩⟩ rfl rfl ?_ ?_ ?_ ?_
      · simp [Pending, pc]
      · simp [Founding, pc]
      · simp [Holding, pc]
      · simp
    · exact absurd id (empty e member)
  | recountedSome pc count =>
    obtain ⟨e, member, id⟩ := (flight.count_ne_zero_iff (by simp [InFlight, pc])).mp count
    simp only [pc] at here
    -- a founder would have no entry beside it, so the call borrowed its mark
    obtain ⟨_, ⟨_, _, founds⟩ | ⟨origin, _⟩⟩ := here
    · exact absurd id (founds.2 e member)
    · refine flight.look trivial rfl rfl ?_ ?_ ?_ ?_
      · simp [Pending]
      · simp [Founding]
      · simp [Holding, pc, origin]
      · simp
  | cleared pc =>
    simp only [pc] at here
    obtain ⟨eligible, owned, origins⟩ := here
    have scratch : t.Private (call i).id ∨ Founding (call i) := by
      rcases origins with ⟨_, isPrivate⟩ | ⟨origin, _⟩
      · exact .inl isPrivate
      · exact .inr (by simpa [Founding, pc] using origin)
    have origin := origins.imp And.left And.left
    refine flight.setMark 0 scratch ⟨eligible, owned, origin⟩ rfl rfl ?_ ?_ ?_ ?_
    · simp [Pending, pc]
    · simp [Founding]
    · simp [Holding, pc]
    · simp
  | freed pc mark inRange =>
    simp only [pc] at here
    exact flight.free (by simpa [Holding, pc] using here.2.2) mark
  | shown pc =>
    have looked : Flight t (Function.update call i ((call i).goto (.ret .ok))) := by
      refine flight.look trivial rfl rfl ?_ ?_ ?_ ?_
      · simp [Pending]
      · simp [Founding]
      · simp [Holding, pc]
      · simp
    exact ⟨looked.consistent.send _, fun j => (looked.calls j).congr rfl rfl rfl, looked.apart⟩
  | returned pc =>
    rw [Function.update_eq_self]
    exact flight

end Calls

/-! ## One conntrack event -/

section Events

variable {held : Set Nat} {t t' : Registry} {env : Env} {ip : Be32} {events : Nat}
  {ct : Option NfConn} {reqs : RuletblNode → Nat → List RtnlReq}

theorem SameConfig.private_iff (same : SameConfig t t') (id : Nat) : t'.Private id ↔ t.Private id := by
  have config := congrFun same.config id
  have mode : (t'.rule id).mode = (t.rule id).mode := congrArg (·.mode) config
  rw [Private, mode, ← Private]

/-- The entry is the last of its mark, and the next DESTROY event for `ip` removes it. -/
def LastUse (t : Registry) (ip : Be32) (e : MarktblNode) : Prop :=
  e.srcIp = ip ∧ atomicDec e.count ≤ 0 ∧ (t.Private e.id ∨ t.members e.id = 1)

instance (t : Registry) (ip : Be32) (e : MarktblNode) : Decidable (LastUse t ip e) :=
  inferInstanceAs (Decidable (_ ∧ _ ∧ _))

theorem lastUse_of_split {e : MarktblNode} {rest : Multiset MarktblNode}
    (split : t.entries = e ::ₘ rest) (here : e.srcIp = ip) (idle : atomicDec e.count ≤ 0)
    (last : t.Private e.id ∨ ∀ e' ∈ rest, e'.id ≠ e.id) : LastUse t ip e := by
  refine ⟨here, idle, last.imp_right ?_⟩
  intro others
  have none : (t.detach e rest).members e.id = 0 := members_eq_zero.mpr others
  rw [members_cons split, none, if_pos rfl]

/-- A mark and a rule stay in the table unless the entry was the last use. -/
theorem Dropped.survives (inv : Consistent held t) (dropped : Dropped reqs ip t t') :
    ∀ e ∈ t.entries, (∃ e' ∈ t'.entries, e'.id = e.id ∧ e'.mark = e.mark) ∨ LastUse t ip e := by
  intro e member
  cases dropped with
  | unknown fresh => exact .inl ⟨e, member, rfl, rfl⟩
  | kept split here used =>
    obtain ⟨e', stays, _, same⟩ := Registry.touch_keeps split _ e member
    exact .inl ⟨e', stays, same⟩
  | @left e₁ rest split here idle isShare others =>
    left
    have here : e₁ ∈ t.entries := split ▸ Multiset.mem_cons_self e₁ rest
    rw [split] at member
    cases Multiset.mem_cons.mp member with
    | inl same =>
      obtain ⟨e', inRest, sameId⟩ := others
      have there : e' ∈ t.entries := split ▸ Multiset.mem_cons_of_mem inRest
      rw [same]
      -- another member of the group keeps the mark in the table
      exact ⟨e', inRest, sameId, inv.group_mark here there isShare sameId⟩
    | inr other => exact ⟨e, other, rfl, rfl⟩
  | @freed e₁ rest b split here idle last inRange mark =>
    have inTable := member
    rw [split] at member
    cases Multiset.mem_cons.mp member with
    | inl same =>
      rw [same]
      exact .inr (lastUse_of_split split here idle last)
    | inr other => exact .inl ⟨e, other, rfl, rfl⟩

/-- The mark of a rule is cleared with the last use of the mark. -/
theorem Dropped.rule_mark (dropped : Dropped reqs ip t t') (id : Nat) :
    (t'.rule id).mark = (t.rule id).mark ∨ ∃ e ∈ t.entries, e.id = id ∧ LastUse t ip e := by
  cases dropped with
  | unknown fresh => exact .inl rfl
  | kept split here used => exact .inl rfl
  | left split here idle isShare others => exact .inl (detach_mark ..)
  | @freed e rest b split here idle last inRange mark =>
    by_cases same : e.id = id
    · right
      exact ⟨e, split ▸ Multiset.mem_cons_self e rest, same, lastUse_of_split split here idle last⟩
    · left
      show (((t.detach e rest).setMark e.id 0).rule id).mark = _
      rw [Registry.setMark, setRule_rule_of_ne _ _ _ (Ne.symm same), detach_mark]

/-- Only the mark of a last use is freed. -/
theorem Dropped.frees (inv : Consistent held t) (dropped : Dropped reqs ip t t') :
    t'.freed = t.freed ∨ ∃ e ∈ t.entries, LastUse t ip e ∧
      ∃ b < t.ipCnt, e.mark = markOf b ∧ t'.freed = markOf b :: t.freed ∧
        ∀ e' ∈ t'.entries, e'.mark ≠ markOf b := by
  cases dropped with
  | unknown fresh => exact .inl rfl
  | kept split here used => exact .inl rfl
  | left split here idle isShare others => exact .inl rfl
  | @freed e rest b split here idle last inRange mark =>
    refine .inr ⟨e, split ▸ Multiset.mem_cons_self e rest,
      lastUse_of_split split here idle last, b, inRange, mark, rfl, ?_⟩
    intro e' inRest
    rw [← mark]
    exact inv.unshared split last e' inRest

variable {ι : Type} {call : ι → Call}

/-- The event does not free a mark that a call has borrowed or obtained. -/
def Unneeded (t : Registry) (call : ι → Call) (ip : Be32) : Prop :=
  ∀ e ∈ t.entries, LastUse t ip e →
    ∀ j, (Borrowing (call j) → (call j).id ≠ e.id) ∧ ¬ Obtained (call j) e.mark

theorem Flight.dropped (flight : Flight t call) (unneeded : Unneeded t call ip)
    (dropped : Dropped reqs ip t t') : Flight t' call := by
  refine ⟨dropped.consistent flight.consistent, ?_, flight.apart⟩
  intro j
  have sound := flight.calls j
  refine sound.frame dropped.sameConfig.ruleCnt (dropped.sameConfig.private_iff _) ?_ ?_ ?_ ?_ ?_
  · intro _ fresh e' member'
    obtain ⟨e, member, srcIp, _⟩ := dropped.entries_sub e' member'
    rw [srcIp]
    exact fresh e member
  · intro _ empty e' member'
    obtain ⟨e, member, _, id, _⟩ := dropped.entries_sub e' member'
    rw [id]
    exact empty e member
  · rintro borrowing ⟨e, member, id⟩
    -- the entry that keeps the mark alive is still there, or it was the last one
    rcases dropped.survives flight.consistent e member with ⟨e', member', id', _⟩ | last
    · exact ⟨e', member', id'.trans id⟩
    · exact absurd id.symm ((unneeded e member last j).1 borrowing)
  · intro knows
    rcases dropped.rule_mark (call j).id with same | ⟨e, member, id, last⟩
    · exact same
    · cases knows with
      | inl founding => exact absurd id ((sound.founds founding).2 e member)
      | inr borrowing => exact absurd id.symm ((unneeded e member last j).1 borrowing)
  · rintro pc origin ⟨e, member, mark⟩
    rcases dropped.survives flight.consistent e member with ⟨e', member', _, mark'⟩ | last
    · exact ⟨e', member', mark'.trans mark⟩
    · have obtained : Obtained (call j) e.mark := ⟨by simp [InFlight, pc], origin, mark.symm⟩
      exact absurd obtained (unneeded e member last j).2

theorem Flight.counted (flight : Flight t call) (counted : Counted ip t t') : Flight t' call := by
  refine ⟨counted.consistent flight.consistent, ?_, flight.apart⟩
  intro j
  cases counted with
  | unknown fresh => exact flight.calls j
  | @raised e₁ rest split here =>
    have survives := Registry.touch_keeps split (atomicInc e₁.count)
    have sub := Registry.touch_sub split (atomicInc e₁.count)
    refine (flight.calls j).frame rfl Iff.rfl ?_ ?_ ?_ (fun _ => rfl) ?_
    · intro _ fresh e' member'
      obtain ⟨e, member, srcIp, _⟩ := sub e' member'
      rw [srcIp]
      exact fresh e member
    · intro _ empty e' member'
      obtain ⟨e, member, _, id, _⟩ := sub e' member'
      rw [id]
      exact empty e member
    · rintro _ ⟨e, member, id⟩
      obtain ⟨e', member', _, id', _⟩ := survives e member
      exact ⟨e', member', id'.trans id⟩
    · rintro _ _ ⟨e, member, mark⟩
      obtain ⟨e', member', _, _, mark'⟩ := survives e member
      exact ⟨e', member', mark'.trans mark⟩

theorem Flight.notified (flight : Flight t call)
    (unneeded : ∀ ip, Destroys events ct ip → Unneeded t call ip)
    (notified : Notified env events ct t t') : Flight t' call := by
  cases notified with
  | ignored => exact flight
  | destroyed ip destroys dropped => exact flight.dropped (unneeded ip destroys) dropped
  | marked ip counted => exact flight.counted counted

end Events

end IpQos.Verified
