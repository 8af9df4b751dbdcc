import IpQos.Verified.CallSteps
import IpQos.Verified.Operations

/-! # First packets of one address that race

Calls of `qmark_handle` for one new address under one rule.  The first of them to
insert wins; what the others do afterwards depends on where they stand.  A loser
that comes to `marktbl_hash_add` while there is room goes through its NULL
`mark_node`, and one that allocated for a share rule leaves its mark behind. -/

namespace IpQos.Verified

open IpQos.Kmod
open IpQos.Lib (Run Allowed runAll)
open Registry

/-! ## The race on registries -/

/-- `m` is the mark of a bit that is set. -/
def MarkSet (t : Registry) (m : Nat) : Prop := ∃ b < t.ipCnt, m = markOf b ∧ t.bit b = true

/-- The call does not insert into a table that has the address, unless the table is full
    and the call has no mark of its own for a share rule. -/
def Timely (t : Registry) (c : Call) : Prop :=
  c.pc = .addHash → t.Fresh c.srcIp ∨ t.ipCnt ≤ t.entries.card ∧ c.origin ≠ .first

/-- The race for `ip` under rule `id` that began in `t₀`. -/
structure Track where
  ip : Be32
  id : Nat
  t₀ : Registry

namespace Track

variable (k : Track)

/-- The one entry inserted since the start carries the mark `m`. -/
def Won (t : Registry) (m : Nat) : Prop :=
  t.entries = { srcIp := k.ip, id := k.id, mark := m, count := 0 } ::ₘ k.t₀.entries

/-- The rule was empty at the start, and still is unless somebody won. -/
def Untouched (t : Registry) : Prop := (∀ m, ¬ k.Won t m) → (t.rule k.id).count = 0

/-- What is known of a racing call at each of its steps. -/
def At (t : Registry) (c : Call) : Prop :=
  match c.pc with
  | .find | .testReset | .testMode => True
  | .allocPriv => t.Private k.id
  | .testCount => ¬ t.Private k.id
  | .allocFirst => ¬ t.Private k.id ∧ k.Untouched t
  | .storeMark => c.origin = .first ∧ ¬ t.Private k.id ∧ k.Untouched t ∧ MarkSet t c.mark
  | .loadMark => ¬ t.Private k.id ∧ (t.rule k.id).count ≠ 0
  | .addHash => MarkSet t c.mark ∧
    (c.origin = .priv ∧ t.Private k.id ∨
      c.origin = .first ∧ ¬ t.Private k.id ∧ k.Untouched t ∧ MarkSet t (t.rule k.id).mark ∨
      c.origin = .group ∧ ¬ t.Private k.id ∧ (t.rule k.id).count ≠ 0)
  | .retestMode => (∃ m, k.Won t m) ∧
    (c.origin = .priv ∧ t.Private k.id ∧ MarkSet t c.mark ∨
      c.origin = .group ∧ ¬ t.Private k.id)
  | .retestCount => (∃ m, k.Won t m) ∧ c.origin = .group ∧ ¬ t.Private k.id
  | .clearMark | .freeMark =>
    (∃ m, k.Won t m) ∧ c.origin = .priv ∧ t.Private k.id ∧ MarkSet t c.mark
  | .tcAdd | .ret .ok => k.Won t c.mark
  | .ret _ => True

/-- The invariant of the race. -/
structure Race {ι : Type} (t : Registry) (call : ι → Call) : Prop where
  sized : Sized t
  valid : t.ValidId k.id
  args : ∀ i, (call i).srcIp = k.ip ∧ (call i).id = k.id
  ipCnt : t.ipCnt = k.t₀.ipCnt
  flag : t.resetFlag = false
  nonzero : ∀ e ∈ t.entries, e.mark ≠ 0
  progress : (∀ m, ¬ k.Won t m) →
    t.entries = k.t₀.entries ∧ (t.rule k.id).count = t.members k.id
  counted : (∃ m, k.Won t m) → (t.rule k.id).count ≠ 0
  /-- A share rule that is not empty has a mark to hand out. -/
  shared : ¬ t.Private k.id → (t.rule k.id).count ≠ 0 → MarkSet t (t.rule k.id).mark
  calls : ∀ i, k.At t (call i)
  apart : ∀ i j, Holding (call i) → Holding (call j) → (call i).mark = (call j).mark → i = j
  new : ∀ i b, Holding (call i) → (call i).mark = markOf b →
    k.t₀.bit b = false ∧ ¬ k.Won t (markOf b)
  bits : ∀ b < t.ipCnt, t.bit b = true ↔ k.t₀.bit b = true ∨ k.Won t (markOf b) ∨
    ∃ i, Holding (call i) ∧ (call i).mark = markOf b
  /-- No call gives up before somebody has a mark. -/
  begun : (∃ i code, (call i).pc = .ret code) → (∃ m, k.Won t m) ∨ ∃ i, Holding (call i)

variable {k : Track} {t t' : Registry} {ι : Type} {call : ι → Call} {i : ι} {c' : Call}
  {env : Env} {b : Nat}

theorem won_inj {m m' : Nat} (won : k.Won t m) (won' : k.Won t m') : m = m' := by
  have same := Multiset.cons_inj_left _ |>.mp (won.symm.trans won')
  exact congrArg (·.mark) same

theorem not_won_start (k : Track) (m : Nat) : ¬ k.Won k.t₀ m := by
  intro isWon
  have longer := congrArg Multiset.card isWon
  rw [Multiset.card_cons] at longer
  omega

/-- What is known of a call survives the steps of the others. -/
theorem At.mono {c : Call} (here : k.At t c) (mode : t'.Private k.id ↔ t.Private k.id)
    (won : ∀ m, k.Won t m → k.Won t' m)
    (count : (t.rule k.id).count ≠ 0 → (t'.rule k.id).count ≠ 0)
    (untouched : k.Untouched t → k.Untouched t')
    (marks : Holding c ∨ ¬ t.Private k.id → MarkSet t c.mark → MarkSet t' c.mark)
    (ruleMark : ¬ t.Private k.id → MarkSet t (t.rule k.id).mark →
      MarkSet t' (t'.rule k.id).mark) :
    k.At t' c := by
  have wonSome : (∃ m, k.Won t m) → ∃ m, k.Won t' m := fun ⟨m, isWon⟩ => ⟨m, won m isWon⟩
  unfold At at here ⊢
  unfold Holding at marks
  -- by where the call stands; each place uses the hypotheses about what it has read
  cases pc : c.pc with
  | find | testReset | testMode => trivial
  | allocPriv =>
    simp only [pc] at here ⊢
    exact mode.mpr here
  | testCount =>
    simp only [pc] at here ⊢
    exact mode.not.mpr here
  | allocFirst =>
    simp only [pc] at here ⊢
    exact ⟨mode.not.mpr here.1, untouched here.2⟩
  | storeMark =>
    simp only [pc] at here marks ⊢
    obtain ⟨origin, isShare, empty, isSet⟩ := here
    exact ⟨origin, mode.not.mpr isShare, untouched empty, marks (.inl trivial) isSet⟩
  | loadMark =>
    simp only [pc] at here ⊢
    exact ⟨mode.not.mpr here.1, count here.2⟩
  | addHash =>
    simp only [pc] at here marks ⊢
    -- the mark is its own, the first of the group, or borrowed from the group
    obtain ⟨isSet, ⟨origin, isPrivate⟩ | ⟨origin, isShare, empty, stored⟩ |
      ⟨origin, isShare, some⟩⟩ := here
    · exact ⟨marks (.inl (.inl origin)) isSet, .inl ⟨origin, mode.mpr isPrivate⟩⟩
    · exact ⟨marks (.inr isShare) isSet,
        .inr (.inl ⟨origin, mode.not.mpr isShare, untouched empty, ruleMark isShare stored⟩)⟩
    · exact ⟨marks (.inr isShare) isSet, .inr (.inr ⟨origin, mode.not.mpr isShare, count some⟩)⟩
  | retestMode =>
    simp only [pc] at here marks ⊢
    obtain ⟨isWon, ⟨origin, isPrivate, isSet⟩ | ⟨origin, isShare⟩⟩ := here
    · exact ⟨wonSome isWon, .inl ⟨origin, mode.mpr isPrivate, marks (.inl (.inl origin)) isSet⟩⟩
    · exact ⟨wonSome isWon, .inr ⟨origin, mode.not.mpr isShare⟩⟩
  | retestCount =>
    simp only [pc] at here ⊢
    exact ⟨wonSome here.1, here.2.1, mode.not.mpr here.2.2⟩
  | clearMark | freeMark =>
    simp only [pc] at here marks ⊢
    obtain ⟨isWon, origin, isPrivate, isSet⟩ := here
    exact ⟨wonSome isWon, origin, mode.mpr isPrivate, marks (.inl (.inl origin)) isSet⟩
  | tcAdd =>
    simp only [pc] at here ⊢
    exact won _ here
  | ret code =>
    cases code with
    | ok =>
      simp only [pc] at here ⊢
      exact won _ here
    | _ => trivial

theorem Race.ready (race : k.Race t call) (timely : Timely t (call i)) : Ready t (call i) where
  valid := fun _ => (race.args i).2 ▸ race.valid
  nonzero := fun _ => race.nonzero
  marked := by
    have here := race.calls i
    rintro (pc | pc)
    · simp only [At, pc] at here
      obtain ⟨⟨b, bound, mark, _⟩, _⟩ := here
      exact ⟨b, bound, mark⟩
    · simp only [At, pc] at here
      obtain ⟨_, _, _, b, bound, mark, _⟩ := here
      exact ⟨b, bound, mark⟩
  single := fun pc => (timely pc).imp_right And.left

/-- The bitmap is full, so somebody has a mark: at the start there was room. -/
theorem Race.somebody (race : k.Race t call) (start : Consistent ∅ k.t₀)
    (below : k.t₀.entries.card < k.t₀.ipCnt) (full : ∀ b < t.ipCnt, t.bit b = true) :
    (∃ m, k.Won t m) ∨ ∃ j, Holding (call j) := by
  obtain ⟨b, bound, isClear⟩ := start.exists_clear_bit below
  have inRange : b < t.ipCnt := race.ipCnt ▸ bound
  rcases (race.bits b inRange).mp (full b inRange) with old | isWon | ⟨j, isHolding, _⟩
  · rw [isClear] at old
    cases old
  · exact .inl ⟨_, isWon⟩
  · exact .inr ⟨j, isHolding⟩

/-- A call that is refused lost, and has no mark of its own for a share rule. -/
theorem Race.lost (race : k.Race t call) (below : k.t₀.entries.card < k.t₀.ipCnt)
    (kmalloc : env.kmalloc .marktblNode = true) (timely : Timely t (call i))
    (pc : (call i).pc = .addHash) (mark : (call i).mark = markOf b)
    (reason : t.bit b = false ∨ t.ipCnt ≤ t.entries.card ∨ env.kmalloc .marktblNode = false) :
    (∃ m, k.Won t m) ∧ (call i).origin ≠ .first := by
  have here := race.calls i
  simp only [At, pc] at here
  obtain ⟨⟨d, _, markD, isSet⟩, _⟩ := here
  obtain rfl : b = d := markOf_inj.mp (mark.symm.trans markD)
  simp only [isSet, kmalloc, Bool.true_eq_false, false_or, or_false] at reason
  have isWon : ∃ m, k.Won t m := by
    by_contra never
    obtain ⟨entries, _⟩ := race.progress fun m isWon => never ⟨m, isWon⟩
    rw [entries, race.ipCnt] at reason
    omega
  refine ⟨isWon, ?_⟩
  rcases timely pc with fresh | ⟨_, origin⟩
  · obtain ⟨m, entries⟩ := isWon
    have member : { srcIp := k.ip, id := k.id, mark := m, count := 0 } ∈ t.entries :=
      entries ▸ Multiset.mem_cons_self _ _
    exact absurd (race.args i).1.symm (fresh _ member)
  · exact origin

/-- Whoever finds the address finds the winner. -/
theorem Race.found (race : k.Race t call) (new : k.t₀.Fresh k.ip) {e : MarktblNode}
    (member : e ∈ t.entries) (here : e.srcIp = k.ip) : k.Won t e.mark := by
  by_cases never : ∀ m, ¬ k.Won t m
  · obtain ⟨entries, _⟩ := race.progress never
    rw [entries] at member
    exact absurd here (new e member)
  · obtain ⟨m, isWon⟩ := not_forall_not.mp never
    rw [isWon] at member
    cases Multiset.mem_cons.mp member with
    | inl winner => exact winner ▸ isWon
    | inr old => exact absurd here (new e old)

/-! ## One step of the race -/

variable [DecidableEq ι]

theorem Race.args_update (race : k.Race t call) (srcIp : c'.srcIp = (call i).srcIp)
    (id : c'.id = (call i).id) (j : ι) :
    (Function.update call i c' j).srcIp = k.ip ∧ (Function.update call i c' j).id = k.id := by
  apply (Function.forall_update_iff call fun _ c => c.srcIp = k.ip ∧ c.id = k.id).mpr
  constructor
  · rw [srcIp, id]
    exact race.args i
  · exact fun j _ => race.args j

/-- Every call is where it was, but for the one that has moved. -/
theorem calls_update (here : k.At t c') (others : ∀ j, j ≠ i → k.At t (call j)) (j : ι) :
    k.At t (Function.update call i c' j) :=
  (Function.forall_update_iff call fun _ c => k.At t c).mpr ⟨here, others⟩ j

/-- A call that holds no mark after its step leaves the holding to the others. -/
theorem holding_update_of_idle (idle : ¬ Holding c') (j : ι) :
    Holding (Function.update call i c' j) ↔ j ≠ i ∧ Holding (call j) := by
  by_cases same : j = i
  · subst j
    rw [Function.update_self]
    exact iff_of_false idle fun other => other.1 rfl
  · rw [Function.update_of_ne same]
    exact (and_iff_right same).symm

/-- A step that at most changes the mark of the rule, and what the call itself knows. -/
theorem Race.quiet (race : k.Race t call) (entries : t'.entries = t.entries)
    (bit : t'.bit = t.bit) (ipCnt : t'.ipCnt = t.ipCnt) (ruleCnt : t'.ruleCnt = t.ruleCnt)
    (flag : t'.resetFlag = t.resetFlag) (mode : t'.Private k.id ↔ t.Private k.id)
    (count : (t'.rule k.id).count = (t.rule k.id).count)
    (ruleMark : ¬ t.Private k.id → MarkSet t (t.rule k.id).mark →
      MarkSet t' (t'.rule k.id).mark)
    (srcIp : c'.srcIp = (call i).srcIp) (id : c'.id = (call i).id)
    (holding : Holding c' ↔ Holding (call i)) (mark : Holding c' → c'.mark = (call i).mark)
    (here : k.At t' c')
    (begun : (∃ code, c'.pc = .ret code) → (∃ m, k.Won t m) ∨ ∃ j, Holding (call j)) :
    k.Race t' (Function.update call i c') := by
  -- the entries decide who has won, and the marks held are those from before
  have won : ∀ m, k.Won t' m ↔ k.Won t m := by
    intro m
    unfold Won
    rw [entries]
  have untouched : k.Untouched t → k.Untouched t' := by
    intro empty notWon
    rw [count]
    exact empty fun m isWon => notWon m ((won m).mpr isWon)
  have marks : ∀ m, MarkSet t m → MarkSet t' m := by
    rintro m ⟨b, inRange, rfl, isSet⟩
    exact ⟨b, ipCnt ▸ inRange, rfl, bit ▸ isSet⟩
  have holds : ∀ j, Holding (Function.update call i c' j) ↔ Holding (call j) := by
    intro j
    by_cases same : j = i
    · subst j
      rw [Function.update_self, holding]
    · rw [Function.update_of_ne same]
  have sameMark : ∀ j, Holding (call j) → (Function.update call i c' j).mark = (call j).mark := by
    intro j isHolding
    by_cases same : j = i
    · subst j
      rw [Function.update_self]
      exact mark (holding.mpr isHolding)
    · rw [Function.update_of_ne same]
  constructor
  case sized =>
    exact ⟨ipCnt ▸ race.sized.pos, ipCnt ▸ race.sized.small, by rw [entries, ipCnt]; exact race.sized.room⟩
  case valid =>
    exact ⟨race.valid.1, ruleCnt ▸ race.valid.2⟩
  case args =>
    exact race.args_update srcIp id
  case ipCnt =>
    exact ipCnt.trans race.ipCnt
  case flag =>
    exact flag.trans race.flag
  case nonzero =>
    rw [entries]
    exact race.nonzero
  case progress =>
    intro notWon
    unfold members
    rw [entries, count]
    exact race.progress fun m isWon => notWon m ((won m).mpr isWon)
  case counted =>
    rintro ⟨m, isWon⟩
    rw [count]
    exact race.counted ⟨m, (won m).mp isWon⟩
  case shared =>
    intro isShare some
    rw [count] at some
    exact ruleMark (mode.not.mp isShare) (race.shared (mode.not.mp isShare) some)
  case calls =>
    apply calls_update here
    intro j _
    exact (race.calls j).mono mode (fun m => (won m).mpr) (fun some => count ▸ some) untouched
      (fun _ => marks _) ruleMark
  case apart =>
    intro j j' isHolding isHolding' sameMarks
    have held := (holds j).mp isHolding
    have held' := (holds j').mp isHolding'
    rw [sameMark j held, sameMark j' held'] at sameMarks
    exact race.apart j j' held held' sameMarks
  case new =>
    intro j b isHolding markJ
    have held := (holds j).mp isHolding
    rw [sameMark j held] at markJ
    rw [won]
    exact race.new j b held markJ
  case bits =>
    intro b inRange
    rw [bit, race.bits b (ipCnt ▸ inRange), won]
    apply or_congr_right
    apply or_congr_right
    constructor
    · rintro ⟨j, isHolding, markJ⟩
      exact ⟨j, (holds j).mpr isHolding, (sameMark j isHolding).trans markJ⟩
    · rintro ⟨j, isHolding, markJ⟩
      have held := (holds j).mp isHolding
      exact ⟨j, held, (sameMark j held).symm.trans markJ⟩
  case begun =>
    rintro ⟨j, code, pc⟩
    have before : (∃ m, k.Won t m) ∨ ∃ j, Holding (call j) := by
      by_cases same : j = i
      · subst j
        rw [Function.update_self] at pc
        exact begun ⟨code, pc⟩
      · rw [Function.update_of_ne same] at pc
        exact race.begun ⟨j, code, pc⟩
    rcases before with ⟨m, isWon⟩ | ⟨j', isHolding⟩
    · exact .inl ⟨m, (won m).mpr isWon⟩
    · exact .inr ⟨j', (holds j').mpr isHolding⟩

/-- A step that only looks. -/
theorem Race.look (race : k.Race t call) (srcIp : c'.srcIp = (call i).srcIp)
    (id : c'.id = (call i).id) (holding : Holding c' ↔ Holding (call i))
    (mark : Holding c' → c'.mark = (call i).mark) (here : k.At t c')
    (begun : (∃ code, c'.pc = .ret code) → (∃ m, k.Won t m) ∨ ∃ j, Holding (call j)) :
    k.Race t (Function.update call i c') :=
  race.quiet rfl rfl rfl rfl rfl Iff.rfl rfl (fun _ stored => stored) srcIp id holding mark here
    begun

/-- A mark is reserved: nobody had it. -/
theorem Race.reserve (race : k.Race t call) (idle : ¬ Holding (call i)) (inRange : b < t.ipCnt)
    (isClear : t.bit b = false) (srcIp : c'.srcIp = (call i).srcIp) (id : c'.id = (call i).id)
    (holding : Holding c') (mark : c'.mark = markOf b) (here : k.At (t.setBit b true) c') :
    k.Race (t.setBit b true) (Function.update call i c') := by
  -- a clear bit is no old one, not that of the winner and not one that a call holds
  have unused : ¬ (k.t₀.bit b = true ∨ k.Won t (markOf b) ∨
      ∃ j, Holding (call j) ∧ (call j).mark = markOf b) := by
    rw [← race.bits b inRange, isClear]
    exact Bool.false_ne_true
  obtain ⟨notOld, notWon, notHeld⟩ : k.t₀.bit b ≠ true ∧ ¬ k.Won t (markOf b) ∧
      ¬ ∃ j, Holding (call j) ∧ (call j).mark = markOf b := by
    simpa only [not_or] using unused
  have marks : ∀ m, MarkSet t m → MarkSet (t.setBit b true) m := by
    rintro m ⟨d, bound, rfl, isSet⟩
    refine ⟨d, bound, rfl, ?_⟩
    by_cases same : d = b
    · subst d
      exact setBit_bit_self t b true
    · rw [setBit_bit_of_ne t b true same]
      exact isSet
  refine ⟨⟨race.sized.pos, race.sized.small, race.sized.room⟩, race.valid, ?args, race.ipCnt,
    race.flag, race.nonzero, race.progress, race.counted,
    fun isShare some => marks _ (race.shared isShare some), ?calls, ?apart, ?new, ?bits, ?begun⟩
  case args =>
    exact race.args_update srcIp id
  case calls =>
    apply calls_update here
    intro j _
    exact (race.calls j).mono Iff.rfl (fun _ isWon => isWon) (fun some => some)
      (fun empty => empty) (fun _ => marks _) (fun _ => marks _)
  case apart =>
    intro j j' isHolding isHolding' sameMarks
    by_cases same : j = i
    · by_cases same' : j' = i
      · exact same.trans same'.symm
      · subst j
        rw [Function.update_self, Function.update_of_ne same', mark] at sameMarks
        rw [Function.update_of_ne same'] at isHolding'
        exact absurd ⟨j', isHolding', sameMarks.symm⟩ notHeld
    · rw [Function.update_of_ne same] at isHolding sameMarks
      by_cases same' : j' = i
      · subst j'
        rw [Function.update_self, mark] at sameMarks
        exact absurd ⟨j, isHolding, sameMarks⟩ notHeld
      · rw [Function.update_of_ne same'] at isHolding' sameMarks
        exact race.apart j j' isHolding isHolding' sameMarks
  case new =>
    intro j d isHolding markJ
    by_cases same : j = i
    · subst j
      rw [Function.update_self, mark] at markJ
      obtain rfl := markOf_inj.mp markJ
      exact ⟨by simpa using notOld, notWon⟩
    · rw [Function.update_of_ne same] at isHolding markJ
      exact race.new j d isHolding markJ
  case bits =>
    intro d bound
    by_cases same : d = b
    · subst d
      rw [setBit_bit_self]
      refine iff_of_true rfl (.inr (.inr ⟨i, ?_⟩))
      rw [Function.update_self]
      exact ⟨holding, mark⟩
    · rw [setBit_bit_of_ne t b true same, race.bits d bound]
      apply or_congr_right
      apply or_congr_right
      constructor
      · rintro ⟨j, isHolding, markJ⟩
        have ne : j ≠ i := by
          rintro rfl
          exact idle isHolding
        refine ⟨j, ?_⟩
        rw [Function.update_of_ne ne]
        exact ⟨isHolding, markJ⟩
      · rintro ⟨j, isHolding, markJ⟩
        have ne : j ≠ i := by
          rintro rfl
          rw [Function.update_self, mark] at markJ
          exact same (markOf_inj.mp markJ).symm
        rw [Function.update_of_ne ne] at isHolding markJ
        exact ⟨j, isHolding, markJ⟩
  case begun =>
    intro _
    refine .inr ⟨i, ?_⟩
    rw [Function.update_self]
    exact holding

/-- The first insertion decides the race. -/
theorem Race.insert (race : k.Race t call) (pc : (call i).pc = .addHash)
    (mark : (call i).mark = markOf b) (inRange : b < t.ipCnt) (isSet : t.bit b = true)
    (below : t.entries.card < t.ipCnt) (fresh : t.Fresh k.ip) :
    k.Race (t.attach k.ip k.id (markOf b)) (Function.update call i ((call i).goto .tcAdd)) := by
  -- the address is still new, so nothing has happened to the rule
  have notWon : ∀ m, ¬ k.Won t m := by
    intro m isWon
    apply fresh { srcIp := k.ip, id := k.id, mark := m, count := 0 } _ rfl
    rw [isWon]
    exact Multiset.mem_cons_self _ _
  obtain ⟨entries, count⟩ := race.progress notWon
  have wins : k.Won (t.attach k.ip k.id (markOf b)) (markOf b) := by
    unfold Won
    rw [attach_entries, entries]
  have few : t.members k.id < 2 ^ 21 := by
    have := t.members_le_card k.id
    have := race.sized.small
    omega
  have raised : ((t.attach k.ip k.id (markOf b)).rule k.id).count ≠ 0 := by
    have stepped : atomicInc (t.rule k.id).count = (t.rule k.id).count + 1 :=
      atomicInc_eq (by omega) (by omega)
    rw [attach_rule_self]
    show atomicInc (t.rule k.id).count ≠ 0
    omega
  have here := race.calls i
  simp only [At, pc] at here
  obtain ⟨_, known⟩ := here
  -- a borrowed mark was in use at the start, since nobody else can have one now
  have others : ∀ j, j ≠ i → Holding (call j) → (call j).mark ≠ markOf b := by
    intro j ne isHolding sameMark
    have there := race.calls j
    rcases known with ⟨origin, isPrivate⟩ | ⟨origin, isShare, _, _⟩ | ⟨origin, isShare, some⟩
    · have holding : Holding (call i) := by simp [Holding, pc, origin]
      exact ne (race.apart j i isHolding holding (sameMark.trans mark.symm))
    · have holding : Holding (call i) := by simp [Holding, pc, origin]
      exact ne (race.apart j i isHolding holding (sameMark.trans mark.symm))
    · unfold Holding at isHolding
      unfold At at there
      cases pcJ : (call j).pc with
      | storeMark =>
        simp only [pcJ] at there
        exact some (there.2.2.1 notWon)
      | addHash =>
        simp only [pcJ] at there isHolding
        rcases there.2 with ⟨_, isPrivate⟩ | ⟨_, _, empty, _⟩ | ⟨originJ, _⟩
        · exact isShare isPrivate
        · exact some (empty notWon)
        · simp [originJ] at isHolding
      | retestMode | retestCount | clearMark | freeMark =>
        simp only [pcJ] at there
        obtain ⟨⟨m, isWon⟩, _⟩ := there
        exact notWon m isWon
      | _ => simp only [pcJ] at isHolding
  have marks : ∀ m, MarkSet t m → MarkSet (t.attach k.ip k.id (markOf b)) m :=
    fun _ isSet => isSet
  have after : ∀ j, Holding (Function.update call i ((call i).goto .tcAdd) j) ↔
      j ≠ i ∧ Holding (call j) := holding_update_of_idle (by simp [Holding])
  refine ⟨⟨race.sized.pos, race.sized.small, ?room⟩, race.valid, ?args, race.ipCnt, race.flag,
    ?nonzero, ?progress, fun _ => raised, ?shared, ?calls, ?apart, ?new, ?bits, ?begun⟩
  case room =>
    rw [attach_entries, Multiset.card_cons]
    exact below
  case args =>
    exact race.args_update rfl rfl
  case nonzero =>
    intro e member
    cases Multiset.mem_cons.mp member with
    | inl new =>
      rw [new]
      exact markOf_ne_zero b
    | inr old => exact race.nonzero e old
  case progress =>
    intro never
    exact absurd wins (never _)
  case shared =>
    intro isShare _
    rw [private_attach] at isShare
    rw [attach_mark]
    rcases known with ⟨_, isPrivate⟩ | ⟨_, _, _, stored⟩ | ⟨_, _, some⟩
    · exact absurd isPrivate isShare
    · exact stored
    · exact race.shared isShare some
  case calls =>
    apply calls_update
    · show k.Won _ (call i).mark
      rw [mark]
      exact wins
    · intro j _
      refine (race.calls j).mono (private_attach _ _ _ _ _) ?_ (fun _ => raised) ?_
        (fun _ => marks _) ?_
      · intro m isWon
        exact absurd isWon (notWon m)
      · intro _ never
        exact absurd wins (never _)
      · intro _ stored
        rw [attach_mark]
        exact stored
  case apart =>
    intro j j' isHolding isHolding' sameMarks
    obtain ⟨ne, held⟩ := (after j).mp isHolding
    obtain ⟨ne', held'⟩ := (after j').mp isHolding'
    rw [Function.update_of_ne ne, Function.update_of_ne ne'] at sameMarks
    exact race.apart j j' held held' sameMarks
  case new =>
    intro j d isHolding markJ
    obtain ⟨ne, held⟩ := (after j).mp isHolding
    rw [Function.update_of_ne ne] at markJ
    refine ⟨(race.new j d held markJ).1, ?_⟩
    intro isWon
    exact others j ne held (markJ.trans (won_inj isWon wins))
  case bits =>
    intro d bound
    rw [attach_bit]
    constructor
    · intro wasSet
      -- what was held by the call that inserts is now the mark of the winner
      rcases (race.bits d bound).mp wasSet with old | isWon | ⟨j, isHolding, markJ⟩
      · exact .inl old
      · exact absurd isWon (notWon _)
      · by_cases same : j = i
        · subst j
          rw [mark] at markJ
          rw [← markJ]
          exact .inr (.inl wins)
        · refine .inr (.inr ⟨j, (after j).mpr ⟨same, isHolding⟩, ?_⟩)
          rw [Function.update_of_ne same]
          exact markJ
    · rintro (old | isWon | ⟨j, isHolding, markJ⟩)
      · exact (race.bits d bound).mpr (.inl old)
      · obtain rfl : d = b := markOf_inj.mp (won_inj isWon wins)
        exact isSet
      · obtain ⟨ne, held⟩ := (after j).mp isHolding
        rw [Function.update_of_ne ne] at markJ
        exact (race.bits d bound).mpr (.inr (.inr ⟨j, held, markJ⟩))
  case begun =>
    intro _
    exact .inl ⟨_, wins⟩

/-- A loser of a private rule gives its own mark back. -/
theorem Race.free (race : k.Race t call) (pc : (call i).pc = .freeMark)
    (mark : (call i).mark = markOf b) :
    k.Race (t.freeBit b) (Function.update call i ((call i).goto (.ret .error))) := by
  have here := race.calls i
  simp only [At, pc] at here
  obtain ⟨isWon, origin, isPrivate, _⟩ := here
  have holding : Holding (call i) := by simp [Holding, pc, origin]
  obtain ⟨notOld, notWon⟩ := race.new i b holding mark
  have others : ∀ j, Holding (Function.update call i ((call i).goto (.ret .error)) j) ↔
      j ≠ i ∧ Holding (call j) := holding_update_of_idle (by simp [Holding])
  have keeps : ∀ d, d ≠ b → (t.freeBit b).bit d = t.bit d :=
    fun d ne => setBit_bit_of_ne t b false ne
  refine ⟨⟨race.sized.pos, race.sized.small, race.sized.room⟩, race.valid, ?args, race.ipCnt,
    race.flag, race.nonzero, race.progress, race.counted,
    fun isShare => absurd isPrivate isShare, ?calls, ?apart, ?new, ?bits, fun _ => .inl isWon⟩
  case args =>
    exact race.args_update rfl rfl
  case calls =>
    apply calls_update
    · trivial
    · intro j ne
      refine (race.calls j).mono Iff.rfl (fun _ isWon => isWon) (fun some => some)
        (fun empty => empty) ?_ (fun isShare => absurd isPrivate isShare)
      rintro held ⟨d, bound, markJ, isSet⟩
      refine ⟨d, bound, markJ, ?_⟩
      -- two calls of a private rule hold different marks
      rw [keeps d _]
      · exact isSet
      · rintro rfl
        have heldJ := held.resolve_right (not_not_intro isPrivate)
        exact ne (race.apart j i heldJ holding (markJ.trans mark.symm))
  case apart =>
    intro j j' isHolding isHolding' sameMarks
    obtain ⟨ne, held⟩ := (others j).mp isHolding
    obtain ⟨ne', held'⟩ := (others j').mp isHolding'
    rw [Function.update_of_ne ne, Function.update_of_ne ne'] at sameMarks
    exact race.apart j j' held held' sameMarks
  case new =>
    intro j d isHolding markJ
    obtain ⟨ne, held⟩ := (others j).mp isHolding
    rw [Function.update_of_ne ne] at markJ
    exact race.new j d held markJ
  case bits =>
    intro d bound
    by_cases same : d = b
    · subst d
      have cleared : (t.freeBit b).bit b = false := setBit_bit_self t b false
      rw [cleared]
      refine iff_of_false Bool.false_ne_true ?_
      rintro (old | isWonB | ⟨j, isHolding, markJ⟩)
      · rw [notOld] at old
        cases old
      · exact notWon isWonB
      · obtain ⟨ne, held⟩ := (others j).mp isHolding
        rw [Function.update_of_ne ne] at markJ
        exact ne (race.apart j i held holding (markJ.trans mark.symm))
    · rw [keeps d same, race.bits d bound]
      apply or_congr_right
      apply or_congr_right
      constructor
      · rintro ⟨j, held, markJ⟩
        have ne : j ≠ i := by
          rintro rfl
          exact same (markOf_inj.mp (markJ.symm.trans mark))
        refine ⟨j, (others j).mpr ⟨ne, held⟩, ?_⟩
        rw [Function.update_of_ne ne]
        exact markJ
      · rintro ⟨j, isHolding, markJ⟩
        obtain ⟨ne, held⟩ := (others j).mp isHolding
        rw [Function.update_of_ne ne] at markJ
        exact ⟨j, held, markJ⟩

theorem Race.step (race : k.Race t call) (start : Consistent ∅ k.t₀) (new : k.t₀.Fresh k.ip)
    (below : k.t₀.entries.card < k.t₀.ipCnt) (kmalloc : env.kmalloc .marktblNode = true)
    (timely : Timely t (call i)) (stepped : Stepped env t (call i) c' t') :
    k.Race t' (Function.update call i c') := by
  obtain ⟨srcIp, id⟩ := race.args i
  have here := race.calls i
  unfold At at here
  -- most steps look at the tables and move the call; four change them
  cases stepped with
  | found pc member sameIp =>
    have isWon := race.found new member (sameIp.trans srcIp)
    refine race.look rfl rfl ?_ ?_ ?_ ?_
    · simp [Holding, pc]
    · simp [Holding]
    · exact isWon
    · exact fun _ => .inl ⟨_, isWon⟩
  | missed pc fresh =>
    refine race.look rfl rfl ?_ ?_ ?_ ?_
    · simp [Holding, pc]
    · simp [Holding]
    · trivial
    · simp
  | turnedOff pc flag =>
    rw [race.flag] at flag
    cases flag
  | admitted pc flag =>
    refine race.look rfl rfl ?_ ?_ ?_ ?_
    · simp [Holding, pc]
    · simp
    · trivial
    · simp
  | privBranch pc isPrivate =>
    refine race.look rfl rfl ?_ ?_ ?_ ?_
    · simp [Holding, pc]
    · simp
    · rw [id] at isPrivate
      exact isPrivate
    · simp
  | shareBranch pc isShare =>
    refine race.look rfl rfl ?_ ?_ ?_ ?_
    · simp [Holding, pc]
    · simp
    · rw [id] at isShare
      exact isShare
    · simp
  | exhausted pc full =>
    refine race.look rfl rfl ?_ ?_ ?_ ?_
    · rcases pc with pc | pc <;> simp [Holding, pc]
    · simp [Holding]
    · trivial
    · exact fun _ => race.somebody start below full
  | reservedPriv pc inRange isClear =>
    simp only [pc] at here
    refine race.reserve (by simp [Holding, pc]) inRange isClear rfl rfl (by simp [Holding]) rfl ?_
    exact ⟨⟨_, inRange, rfl, setBit_bit_self _ _ _⟩, .inl ⟨rfl, here⟩⟩
  | reservedFirst pc inRange isClear =>
    simp only [pc] at here
    refine race.reserve (by simp [Holding, pc]) inRange isClear rfl rfl (by simp [Holding]) rfl ?_
    exact ⟨rfl, here.1, here.2, _, inRange, rfl, setBit_bit_self _ _ _⟩
  | countedNone pc count =>
    simp only [pc] at here
    rw [id] at count
    refine race.look rfl rfl ?_ ?_ ?_ ?_
    · simp [Holding, pc]
    · simp
    · exact ⟨here, fun _ => count⟩
    · simp
  | countedSome pc count =>
    simp only [pc] at here
    rw [id] at count
    refine race.look rfl rfl ?_ ?_ ?_ ?_
    · simp [Holding, pc]
    · simp
    · exact ⟨here, count⟩
    · simp
  | stored pc =>
    simp only [pc] at here
    obtain ⟨origin, isShare, empty, isSet⟩ := here
    rw [id]
    have mode : (t.setMark k.id (call i).mark).Private k.id ↔ t.Private k.id := private_setMark ..
    have count : ((t.setMark k.id (call i).mark).rule k.id).count = (t.rule k.id).count :=
      setMark_count ..
    have stored : MarkSet (t.setMark k.id (call i).mark)
        ((t.setMark k.id (call i).mark).rule k.id).mark := by
      rw [setMark_mark_self]
      exact isSet
    refine race.quiet rfl rfl rfl rfl rfl mode count (fun _ _ => stored) rfl rfl ?_ ?_ ?_ ?_
    · simp [Holding, pc, origin]
    · simp
    · refine ⟨isSet, .inr (.inl ⟨origin, mode.not.mpr isShare, ?_, stored⟩)⟩
      intro notWon
      rw [count]
      exact empty notWon
    · simp
  | loaded pc =>
    simp only [pc] at here
    obtain ⟨isShare, some⟩ := here
    refine race.look rfl rfl ?_ ?_ ?_ ?_
    · simp [Holding, pc]
    · simp [Holding]
    · rw [id]
      exact ⟨race.shared isShare some, .inr (.inr ⟨rfl, isShare, some⟩)⟩
    · simp
  | inserted pc mark inRange isSet room fresh =>
    rw [srcIp] at fresh ⊢
    rw [id]
    exact race.insert pc mark inRange isSet room fresh
  | refused pc mark inRange reason =>
    obtain ⟨isWon, origin⟩ := race.lost below kmalloc timely pc mark reason
    simp only [pc] at here
    obtain ⟨isSet, known⟩ := here
    refine race.look rfl rfl ?_ ?_ ?_ ?_
    · simp [Holding, pc]
    · simp
    · rcases known with ⟨isPriv, isPrivate⟩ | ⟨isFirst, _⟩ | ⟨isGroup, isShare, _⟩
      · exact ⟨isWon, .inl ⟨isPriv, isPrivate, isSet⟩⟩
      · exact absurd isFirst origin
      · exact ⟨isWon, .inr ⟨isGroup, isShare⟩⟩
    · simp
  | retestedPriv pc isPrivate =>
    simp only [pc] at here
    rw [id] at isPrivate
    obtain ⟨isWon, ⟨origin, _, isSet⟩ | ⟨_, isShare⟩⟩ := here
    · refine race.look rfl rfl ?_ ?_ ?_ ?_
      · simp [Holding, pc]
      · simp
      · exact ⟨isWon, origin, isPrivate, isSet⟩
      · simp
    · exact absurd isPrivate isShare
  | retestedShare pc isShare =>
    simp only [pc] at here
    rw [id] at isShare
    obtain ⟨isWon, ⟨_, isPrivate, _⟩ | ⟨origin, _⟩⟩ := here
    · exact absurd isPrivate isShare
    · refine race.look rfl rfl ?_ ?_ ?_ ?_
      · simp [Holding, pc]
      · simp
      · exact ⟨isWon, origin, isShare⟩
      · simp
  | recountedNone pc count =>
    simp only [pc] at here
    rw [id] at count
    exact absurd count (race.counted here.1)
  | recountedSome pc count =>
    simp only [pc] at here
    obtain ⟨isWon, origin, isShare⟩ := here
    refine race.look rfl rfl ?_ ?_ ?_ ?_
    · simp [Holding, pc, origin]
    · simp
    · trivial
    · exact fun _ => .inl isWon
  | cleared pc =>
    simp only [pc] at here
    obtain ⟨isWon, origin, isPrivate, isSet⟩ := here
    rw [id]
    have mode : (t.setMark k.id 0).Private k.id ↔ t.Private k.id := private_setMark ..
    have count : ((t.setMark k.id 0).rule k.id).count = (t.rule k.id).count := setMark_count ..
    refine race.quiet rfl rfl rfl rfl rfl mode count (fun isShare => absurd isPrivate isShare)
      rfl rfl ?_ ?_ ?_ ?_
    · simp [Holding, pc]
    · simp
    · exact ⟨isWon, origin, mode.mpr isPrivate, isSet⟩
    · simp
  | freed pc mark inRange => exact race.free pc mark
  | shown pc =>
    simp only [pc] at here
    refine race.quiet rfl rfl rfl rfl rfl Iff.rfl rfl (fun _ stored => stored) rfl rfl ?_ ?_ ?_ ?_
    · simp [Holding, pc]
    · simp [Holding]
    · exact here
    · exact fun _ => .inl ⟨_, here⟩
  | returned pc =>
    rw [Function.update_eq_self]
    exact race

end Track

/-! ## Runs of the race -/

variable {ι : Type}

/-- Calls of `qmark_handle` that find memory for their entries. -/
def Handling (l : Label ι) : Prop :=
  match l with
  | .call _ env => env.kmalloc .marktblNode = true
  | _ => False

def TimelyStep (l : Label ι) (x : Sys ι) : Prop :=
  match l with
  | .call i _ => Timely x.st.registry (x.call i)
  | _ => True

instance (l : Label ι) : Decidable (Handling l) :=
  match l with
  | .call _ env => inferInstanceAs (Decidable (env.kmalloc .marktblNode = true))
  | .event _ _ _ | .resetOn | .resetFlush _ | .resetOff => .isFalse id

instance (t : Registry) (c : Call) : Decidable (Timely t c) :=
  inferInstanceAs (Decidable (_ → _))

instance (l : Label ι) (x : Sys ι) : Decidable (TimelyStep l x) :=
  match l with
  | .call i _ => inferInstanceAs (Decidable (Timely x.st.registry (x.call i)))
  | .event _ _ _ | .resetOn | .resetFlush _ | .resetOff => .isTrue trivial

/-- The address is new and can be registered under the rule. -/
structure RaceStart (ip : Be32) (id : Nat) (s : St) : Prop where
  good : Good s
  valid : s.registry.ValidId id
  new : s.registry.Fresh ip
  flag : s.resetFlag = false
  below : s.registry.entries.card < s.maxIpCnt

/-- Calls have been made and all of them have returned. -/
def AllReturned (x : Sys ι) : Prop :=
  (∀ i, (x.call i).pc = .find ∨ ∃ code, (x.call i).pc = .ret code) ∧
    ∃ i code, (x.call i).pc = .ret code

/-- One entry for the address; no other mark is set in addition; every packet has it. -/
def Merged (ip : Be32) (t₀ : Registry) (x : Sys ι) : Prop :=
  ∃ e, x.st.registry.entries.filter (·.srcIp = ip) = {e} ∧
    (∀ b < x.st.maxIpCnt,
      x.st.registry.bit b = true ↔ t₀.bit b = true ∨ e.mark = markOf b) ∧
    ∀ i, (x.call i).pc = .ret .ok → (x.call i).mark = e.mark

theorem RaceStart.race {ip : Be32} {id : Nat} {s : St} (start : RaceStart ip id s) :
    Track.Race ⟨ip, id, s.registry⟩ s.registry fun _ : ι => .handle ip id where
  sized := start.good.2.sized
  valid := start.valid
  args := fun _ => ⟨rfl, rfl⟩
  ipCnt := rfl
  flag := start.flag
  nonzero := by
    intro e member
    obtain ⟨b, _, mark, _⟩ := start.good.2.marked e member
    exact mark ▸ markOf_ne_zero b
  progress := fun _ => ⟨rfl, start.good.2.counted id start.valid⟩
  counted := by
    rintro ⟨m, isWon⟩
    exact absurd isWon (Track.not_won_start ⟨ip, id, s.registry⟩ m)
  shared := by
    intro isShare some
    have empty := (start.good.2.count_eq_zero_iff start.valid).not.mp some
    simp only [not_forall, not_not] at empty
    -- a group with members has the mark of one of them, whose bit is set
    obtain ⟨e, member, rfl⟩ := empty
    obtain ⟨b, bound, mark, _⟩ := start.good.2.marked e member
    refine ⟨b, bound, (start.good.2.shared e member isShare).trans mark, ?_⟩
    exact (start.good.2.bit_iff b bound).mpr (.inr ⟨e, member, mark⟩)
  calls := fun _ => trivial
  apart := fun _ _ isHolding => isHolding.elim
  new := fun _ _ isHolding => isHolding.elim
  bits := by
    intro b _
    -- before the race nobody holds a bit beyond those of the table
    have notWon : ¬ Track.Won ⟨ip, id, s.registry⟩ s.registry (markOf b) :=
      Track.not_won_start ⟨ip, id, s.registry⟩ _
    simp [notWon, Holding, Call.handle]
  begun := by
    rintro ⟨_, _, pc⟩
    cases pc

/-- The state of the race in the system. -/
def Racing (k : Track) (x : Sys ι) : Prop := WellFormed x.st ∧ k.Race x.st.registry x.call

theorem Racing.merged {k : Track} {x : Sys ι} (racing : Racing k x) (new : k.t₀.Fresh k.ip)
    (all : AllReturned x) : Merged k.ip k.t₀ x := by
  obtain ⟨_, race⟩ := racing
  obtain ⟨returned, someone⟩ := all
  have idle : ∀ i, ¬ Holding (x.call i) := by
    intro i
    rcases returned i with pc | ⟨code, pc⟩ <;> simp [Holding, pc]
  -- somebody has inserted the entry, as nobody is on the way any more
  obtain ⟨m, isWon⟩ : ∃ m, k.Won x.st.registry m := by
    rcases race.begun someone with isWon | ⟨i, isHolding⟩
    · exact isWon
    · exact absurd isHolding (idle i)
  refine ⟨{ srcIp := k.ip, id := k.id, mark := m, count := 0 }, ?_, ?_, ?_⟩
  · have others : k.t₀.entries.filter (·.srcIp = k.ip) = 0 := Multiset.filter_eq_nil.mpr new
    rw [isWon, Multiset.filter_cons_of_pos (p := fun e : MarktblNode => e.srcIp = k.ip) _ rfl, others]
    rfl
  · intro b inRange
    rw [race.bits b inRange]
    constructor
    · rintro (old | isWonB | ⟨i, isHolding, _⟩)
      · exact .inl old
      · exact .inr (Track.won_inj isWon isWonB)
      · exact absurd isHolding (idle i)
    · rintro (old | rfl)
      · exact .inl old
      · exact .inr (.inl isWon)
  · intro i pc
    have here := race.calls i
    simp only [Track.At, pc] at here
    exact Track.won_inj here isWon

variable [DecidableEq ι]

theorem Racing.step {k : Track} {x : Sys ι} (racing : Racing k x) (start : Consistent ∅ k.t₀)
    (new : k.t₀.Fresh k.ip) (below : k.t₀.entries.card < k.t₀.ipCnt) {l : Label ι}
    (handling : Handling l) (timely : TimelyStep l x) :
    ∃ y, Racing k y ∧
      (sysStep l x = .ok y ∨ ¬ PacedStep l x ∧ sysStep l x = .error .divideByZero) := by
  obtain ⟨wf, race⟩ := racing
  cases l with
  | call i env =>
    obtain ⟨c', s', wf', stepped, known⟩ := sysStep_call env wf race.sized (race.ready timely)
    exact ⟨x.setCall i c' s', ⟨wf', race.step start new below handling timely stepped⟩, known⟩
  | event | resetOn | resetFlush | resetOff => exact handling.elim

/-- The duplicate branch of `marktbl_hash_add`. -/
theorem Racing.crash {k : Track} {x : Sys ι} (racing : Racing k x) {i : ι} {env : Env}
    (untimely : ¬ TimelyStep (.call i env) x)
    (room : x.st.registry.entries.card < x.st.maxIpCnt) :
    sysStep (.call i env) x = .error .nullDeref := by
  obtain ⟨wf, race⟩ := racing
  obtain ⟨pc, known⟩ : (x.call i).pc = .addHash ∧ ¬ x.st.registry.Fresh (x.call i).srcIp := by
    simp only [TimelyStep, Timely, Classical.not_imp, not_or] at untimely
    exact ⟨untimely.1, untimely.2.1⟩
  have here := race.calls i
  simp only [Track.At, pc] at here
  obtain ⟨⟨b, inRange, mark, isSet⟩, _⟩ := here
  simp only [Fresh, not_forall, not_not] at known
  obtain ⟨e, member, sameIp⟩ := known
  have crash : ∀ id, qmarkAddHash env e.srcIp id (markOf b) x.st = .error .nullDeref := fun _ =>
    qmarkAddHash_duplicate env wf.represents race.sized.pos race.sized.small room inRange isSet
      member
  rw [sameIp, ← mark] at crash
  simp [sysStep, stepCall, pc, crash]

/-- In a race without untimely insertion no step faults, unless it builds a class that divides
    by zero, and the calls that have returned agree on one entry.  An untimely insertion into a
    table with room is a NULL dereference. -/
theorem racing_calls_merge {ip : Be32} {id : Nat} {s₀ : St} (start : RaceStart ip id s₀)
    {x : Sys ι} (run : Run sysStep (fun l y => Handling l ∧ TimelyStep l y)
      (Sys.start s₀ fun _ => .handle ip id) x) :
    (∀ l, Handling l → TimelyStep l x →
      (∃ y, sysStep l x = .ok y) ∨
        ¬ PacedStep l x ∧ sysStep l x = .error .divideByZero) ∧
    (∀ i env, ¬ TimelyStep (.call i env) x → x.st.registry.entries.card < x.st.maxIpCnt →
      sysStep (.call i env) x = .error .nullDeref) ∧
    (AllReturned x → Merged ip s₀.registry x) := by
  have racing : Racing ⟨ip, id, s₀.registry⟩ x := by
    apply run.invariant (Racing ⟨ip, id, s₀.registry⟩) ⟨start.good.1, start.race⟩
    rintro l y z racingY ⟨handling, timely⟩ stepped
    obtain ⟨z', racingZ, known⟩ :=
      racingY.step start.good.2 start.new start.below handling timely
    exact ok_of_known known stepped ▸ racingZ
  refine ⟨?_, ?_, ?_⟩
  · intro l handling timely
    obtain ⟨y, _, known⟩ := racing.step start.good.2 start.new start.below handling timely
    exact known.imp_left fun ran => ⟨y, ran⟩
  · intro i env untimely room
    exact racing.crash untimely room
  · exact racing.merged start.new

/-! ## A race lost -/

def twoPackets : Sys Bool := Sys.start sharedSt fun _ => .handle 7 1

theorem twoPackets_start : RaceStart 7 1 sharedSt :=
  ⟨sharedSt_started.good, by decide, by decide, rfl, by decide⟩

/-- Both packets of a new host miss and allocate; the second to insert crashes. -/
theorem racing_packets_crash :
    ¬ ∀ (s₀ : St) (x : Sys Bool), RaceStart 7 1 s₀ →
      Run sysStep (fun l _ => Handling l) (Sys.start s₀ fun _ => .handle 7 1) x →
      (∀ l, Handling l → sysStep l x ≠ .error .nullDeref) ∧
        (AllReturned x → Merged 7 s₀.registry x) := by
  intro always
  have allowed : Allowed sysStep (fun l _ => Handling l)
      (steps [(false, 6), (true, 6), (false, 1)]) twoPackets := by decide
  obtain ⟨safe, _⟩ := always sharedSt _ twoPackets_start (Run.of_runAll allowed rfl)
  exact safe (.call true plainEnv) rfl rfl

/-- The second packet looks the address up in time. -/
theorem packets_in_turn_merge :
    ∃ x, runAll sysStep (steps [(false, 9), (true, 1)]) twoPackets = .ok x ∧
      AllReturned x ∧ Merged 7 sharedSt.registry x := by
  have allowed : Allowed sysStep (fun l y => Handling l ∧ TimelyStep l y)
      (steps [(false, 9), (true, 1)]) twoPackets := by decide
  have pcs : (runAll sysStep (steps [(false, 9), (true, 1)]) twoPackets).map
      (fun x => ((x.call false).pc, (x.call true).pc)) = .ok (.ret .ok, .ret .ok) := by decide
  obtain ⟨x, ran, returned⟩ := map_eq_ok pcs
  obtain ⟨first, second⟩ := Prod.mk.inj returned
  have all : AllReturned x := by
    refine ⟨?_, false, .ok, first⟩
    intro i
    cases i with
    | false => exact .inr ⟨.ok, first⟩
    | true => exact .inr ⟨.ok, second⟩
  obtain ⟨_, _, merges⟩ := racing_calls_merge twoPackets_start (Run.of_runAll allowed ran)
  exact ⟨x, ran, all, merges all⟩

end IpQos.Verified
