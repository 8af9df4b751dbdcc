import IpQos.Verified.Operations

/-! # The three tables stay in step

Whole runs from module init: bitmap, hash table and rule counts agree in every
reachable state, and an address is refused only when the table is full or being
reset. -/

namespace IpQos.Verified

open IpQos.Kmod
open IpQos.Lib (Run Allowed runAll)
open Registry

/-- Operation with the tables allocatable, which a byte count that wraps is not, sizes and
    rule ids in range, and the mode of a rule kept while it has entries. -/
def Managed (l : Env × Op) (s : St) : Prop :=
  match l.2 with
  | .packet _ info => s.registry.ValidId info.id
  | .conntrack _ _ => True
  | .ioctl (.ruleAdd qr) =>
    s.registry.ValidId qr.id ∧ ∀ e ∈ s.registry.entries, e.id = qr.id →
      (qr.mode = privMode ↔ s.registry.Private qr.id)
  | .ioctl (.hashDel _) => True
  | .ioctl (.reset _) => AllocatesTables l.1
  | .ioctl (.specSet maxIpCnt maxRuleCnt) =>
    AllocatesTables l.1 ∧ 1 ≤ maxIpCnt ∧ maxIpCnt < 2 ^ 21 ∧ Unwrapped maxIpCnt maxRuleCnt
  | _ => False

theorem Managed.harmless {l : Env × Op} {s : St} (good : Good s) (managed : Managed l s) :
    Harmless l s := by
  obtain ⟨env, op⟩ := l
  cases op with
  | packet skb info => exact managed
  | conntrack events ct => trivial
  | ioctl cmd =>
    cases cmd with
    | ruleAdd qr =>
      refine ⟨managed.1, ?_⟩
      by_cases used : ∃ e ∈ s.registry.entries, e.id = qr.id
      · obtain ⟨e, member, here⟩ := used
        exact good.2.fits (managed.2 e member here) fun _ _ => rfl
      · exact Consistent.fits_of_empty _ fun e member here => used ⟨e, member, here⟩
    | hashDel qh => trivial
    | reset mark => exact managed
    | specSet maxIpCnt maxRuleCnt => exact managed
    | _ => exact managed.elim

/-- The agreement of the tables, as statements about their contents. -/
structure InStep (t : Registry) : Prop where
  bits : ∀ b, t.bit b = true ↔ ∃ e ∈ t.entries, e.mark = (b + 1) <<< markBase
  marks : ∀ e ∈ t.entries, ∀ e' ∈ t.entries, e.srcIp ≠ e'.srcIp →
    (e.mark = e'.mark ↔ e.id = e'.id ∧ (t.rule e.id).mode ≠ privMode)
  counts : ∀ i < t.ruleCnt, (t.rule (i + 1)).count = t.entries.countP (·.id = i + 1)
  groups : ∀ id, 1 ≤ id → id ≤ t.ruleCnt → (t.rule id).mode ≠ privMode → 0 < (t.rule id).count →
    ∀ e ∈ t.entries, e.id = id → (t.rule id).mark = e.mark

theorem WellFormed.bit_lt {s : St} (wf : WellFormed s) {b : Nat}
    (isSet : s.registry.bit b = true) : b < s.registry.ipCnt := by
  obtain ⟨head, tbl, bm, live⟩ := wf
  by_contra beyond
  have outside : bm.length ≤ b := live.bitCnt ▸ Nat.le_of_not_lt beyond
  rw [live.bit, List.getD_eq_getElem?_getD, List.getElem?_eq_none outside] at isSet
  cases isSet

theorem Good.inStep {s : St} (good : Good s) : InStep s.registry := by
  obtain ⟨wf, inv⟩ := good
  refine ⟨?_, ?_, fun i bound => inv.counted (i + 1) ⟨by omega, bound⟩, ?_⟩
  · intro b
    constructor
    · intro isSet
      rcases (inv.bit_iff b (wf.bit_lt isSet)).mp isSet with isHeld | marked
      · cases isHeld
      · exact marked
    · rintro ⟨e, member, mark⟩
      obtain ⟨c, bound, markC, _⟩ := inv.marked e member
      obtain rfl : b = c := markOf_inj.mp (mark.symm.trans markC)
      exact (inv.bit_iff b bound).mpr (.inr ⟨e, member, mark⟩)
  · intro e he e' he' ne
    constructor
    · exact inv.apart e he e' he' ne
    · rintro ⟨sameId, isShare⟩
      rw [← inv.shared e he isShare, ← inv.shared e' he' (sameId ▸ isShare), sameId]
  · intro id _ _ isShare _ e member here
    subst here
    exact inv.shared e member isShare

/-- In every state reachable from module init the tables are live and in step, and
    no allowed operation faults, unless the class of a packet divides by zero. -/
theorem tables_in_step {env : Env} (alloc : AllocatesTables env) {s : St}
    (run : Run opStep Managed (qosMarktblInit env).2 s) :
    WellFormed s ∧ InStep s.registry ∧
      ∀ l, Managed l s → Paced l s → ∃ s', opStep l s = .ok s' := by
  have good := (good_init alloc).run (fun l y goodY managed => managed.harmless goodY) run
  refine ⟨good.1, good.inStep, ?_⟩
  intro l managed paced
  obtain ⟨s', ran, _⟩ := good.succeeds (managed.harmless good) paced
  exact ⟨s', ran⟩

/-- A share group of two addresses. -/
def groupTrace : List (Env × Op) :=
  [(plainEnv, .ioctl (.specSet 2 1)),
   (plainEnv, .ioctl (.ruleAdd ⟨1, shareMode, 0, 100, 100, 10, 10⟩)),
   (plainEnv, .packet ⟨0, 7, 9⟩ ⟨0xfff800, 1, 0⟩),
   (plainEnv, .packet ⟨0, 8, 9⟩ ⟨0xfff800, 1, 0⟩)]

theorem groupTrace_allowed : Allowed opStep Managed groupTrace (qosMarktblInit plainEnv).2 := by
  refine ⟨⟨plainEnv_alloc, by decide, by decide, by decide⟩, ?_⟩
  exact ⟨⟨by decide, by decide⟩, ⟨by decide, by decide⟩, ⟨by decide, by decide⟩, trivial⟩

theorem groupTrace_in_step :
    ∃ s, runAll opStep groupTrace (qosMarktblInit plainEnv).2 = .ok s ∧
      WellFormed s ∧ InStep s.registry ∧
        ∀ l, Managed l s → Paced l s → ∃ s', opStep l s = .ok s' :=
  ⟨_, rfl, tables_in_step plainEnv_alloc (Run.of_runAll groupTrace_allowed rfl)⟩

/-! ## Capacity -/

/-- Allocations one after the other, with the codes they return. -/
def registerAll (env : Env) : List (Be32 × Nat) → St → Except Oops (List RetCode × St)
  | [], s => .ok ([], s)
  | (ip, id) :: calls, s => do
    let (ret, _, s) ← qmarkAllocMarkAuto env ip id 0 s
    let (rets, s) ← registerAll env calls s
    return (ret :: rets, s)

/-- A new address is refused as the table says, unless the class it needs divides by zero. -/
theorem Good.alloc_ok_iff {s : St} (good : Good s) {env : Env}
    (kmalloc : env.kmalloc .marktblNode = true) {ip : Be32} {id : Nat}
    (fresh : s.registry.Fresh ip) (valid : s.registry.ValidId id) (mark : Nat) :
    (∃ ret mark' s', qmarkAllocMarkAuto env ip id mark s = .ok (ret, mark', s') ∧
      (ret = .ok ↔ s.resetFlag = false ∧ s.registry.entries.card < s.maxIpCnt)) ↔
    (s.resetFlag = false → s.registry.entries.card < s.maxIpCnt → s.registry.Builds env id) := by
  obtain ⟨ret, mark', t', s', ran, _, allocated⟩ :=
    qmarkAllocMarkAuto_spec env good.1.represents good.2 valid fresh mark
  have accepted : ret = .ok ↔ s.resetFlag = false ∧ s.registry.entries.card < s.maxIpCnt :=
    allocated.ok_iff good.2 kmalloc
  have needed : (s.resetFlag = false → s.registry.entries.card < s.maxIpCnt →
      s.registry.Builds env id) ↔ (ret = .ok → s.registry.Builds env id) := by
    rw [accepted, and_imp]
  rw [needed]
  constructor
  · rintro ⟨_, _, _, ran', _⟩
    rw [ran, unlessStalled_eq_ok] at ran'
    exact ran'.1
  · intro builds
    exact ⟨ret, mark', s', ran.trans (unlessStalled_pos builds _), accepted⟩

/-- As many new addresses as there is room for are all registered if no class divides by
    zero, and only then. -/
theorem Good.registerAll_ok_iff {env : Env} (kmalloc : env.kmalloc .marktblNode = true)
    (calls : List (Be32 × Nat)) {s : St} (good : Good s) (flag : s.resetFlag = false)
    (distinct : (calls.map Prod.fst).Nodup)
    (new : ∀ call ∈ calls, s.registry.Fresh call.1 ∧ s.registry.ValidId call.2)
    (room : s.registry.entries.card + calls.length ≤ s.maxIpCnt) :
    (∃ s', registerAll env calls s = .ok (List.replicate calls.length .ok, s')) ↔
      ∀ call ∈ calls, s.registry.Builds env call.2 := by
  induction calls generalizing s with
  | nil => exact iff_of_true ⟨s, rfl⟩ (fun _ member => nomatch member)
  | cons call calls ih =>
    obtain ⟨ip, id⟩ := call
    obtain ⟨fresh, valid⟩ := new (ip, id) List.mem_cons_self
    obtain ⟨ret, mark, t', s₁, ran, rep, allocated⟩ :=
      qmarkAllocMarkAuto_spec env good.1.represents good.2 valid fresh 0
    -- the room for the rest of the calls is room for this one
    have below : s.registry.entries.card < s.maxIpCnt := by
      rw [List.length_cons] at room
      omega
    obtain rfl : ret = .ok := (allocated.ok_iff good.2 kmalloc).mpr ⟨flag, below⟩
    rw [unlessStalled_accepted] at ran
    have entries := allocated.entries_of_ok
    have same := allocated.sameConfig
    have goodNext := Good.of_represents rep (allocated.consistent good.2 valid fresh)
    obtain rfl : s₁.registry = t' := rep.2
    obtain ⟨notAgain, distinctRest⟩ := List.nodup_cons.mp distinct
    -- the later addresses are new still: they differ from the one just registered
    have newRest : ∀ call ∈ calls, s₁.registry.Fresh call.1 ∧ s₁.registry.ValidId call.2 := by
      intro call member
      obtain ⟨freshCall, validCall⟩ := new call (List.mem_cons_of_mem _ member)
      refine ⟨?_, validCall.1, same.ruleCnt ▸ validCall.2⟩
      intro e inTable
      rw [entries] at inTable
      cases Multiset.mem_cons.mp inTable with
      | inl added =>
        intro same
        refine notAgain (List.mem_map.mpr ⟨call, member, ?_⟩)
        rw [← same, added]
      | inr old => exact freshCall e old
    have roomRest : s₁.registry.entries.card + calls.length ≤ s₁.maxIpCnt := by
      have sameCnt : s₁.maxIpCnt = s.maxIpCnt := same.ipCnt
      rw [entries, Multiset.card_cons, sameCnt]
      rw [List.length_cons] at room
      omega
    have rest := ih goodNext (same.resetFlag.trans flag) distinctRest newRest roomRest
    simp only [same.builds] at rest
    rw [List.forall_mem_cons, ← rest]
    by_cases builds : s.registry.Builds env id
    · rw [unlessStalled_pos builds] at ran
      simp only [registerAll, ran, ok_bind, builds, true_and]
      cases registerAll env calls s₁ with
      | error e => simp
      | ok result => simp [List.replicate_succ, Prod.ext_iff]
    · rw [unlessStalled_neg builds] at ran
      simp [registerAll, ran, builds]

/-- In every state reachable from module init a new address is accepted exactly when no
    reset is under way and the table is not full, and so the table can be filled up, if and
    only if no class that is built on the way divides by zero. -/
theorem no_spurious_exhaustion {env₀ : Env} (alloc : AllocatesTables env₀) {s : St}
    (run : Run opStep Managed (qosMarktblInit env₀).2 s) {env : Env}
    (kmalloc : env.kmalloc .marktblNode = true) :
    (∀ ip id mark, s.registry.Fresh ip → s.registry.ValidId id →
      ((∃ ret mark' s', qmarkAllocMarkAuto env ip id mark s = .ok (ret, mark', s') ∧
          (ret = .ok ↔ s.resetFlag = false ∧ s.registry.entries.card < s.maxIpCnt)) ↔
        (s.resetFlag = false → s.registry.entries.card < s.maxIpCnt →
          s.registry.Builds env id))) ∧
    ∀ calls : List (Be32 × Nat), s.resetFlag = false → (calls.map Prod.fst).Nodup →
      (∀ call ∈ calls, s.registry.Fresh call.1 ∧ s.registry.ValidId call.2) →
      s.registry.entries.card + calls.length ≤ s.maxIpCnt →
      ((∃ s', registerAll env calls s = .ok (List.replicate calls.length .ok, s')) ↔
        ∀ call ∈ calls, s.registry.Builds env call.2) := by
  have good := (good_init alloc).run (fun l y goodY managed => managed.harmless goodY) run
  constructor
  · intro ip id mark fresh valid
    exact good.alloc_ok_iff kmalloc fresh valid mark
  · intro calls flag distinct new room
    exact good.registerAll_ok_iff kmalloc calls flag distinct new room

theorem groupTrace_third_address :
    ∃ s, runAll opStep groupTrace (qosMarktblInit plainEnv).2 = .ok s ∧
      ∃ ret mark s', qmarkAllocMarkAuto plainEnv 9 1 0 s = .ok (ret, mark, s') ∧
        (ret = .ok ↔ s.resetFlag = false ∧ s.registry.entries.card < s.maxIpCnt) :=
  ⟨_, rfl, ((no_spurious_exhaustion plainEnv_alloc (Run.of_runAll groupTrace_allowed rfl) rfl).1
    9 1 0 (by decide) ⟨by decide, by decide⟩).mpr fun _ _ => by decide⟩

/-- A rule of which the WAN class gets a byte rate of 1. -/
def stalledTrace : List (Env × Op) :=
  [(plainEnv, .ioctl (.specSet 2 1)),
   (plainEnv, .ioctl (.ruleAdd ⟨1, privMode, 0, 115964117, 0, 0, 0⟩))]

/-- Nothing is registered and no reset is under way, but the first address is not accepted:
    the class for its mark divides by zero. -/
theorem stalledTrace_first_address :
    ∃ s, Run opStep Managed (qosMarktblInit plainEnv).2 s ∧
      s.resetFlag = false ∧ s.registry.entries.card < s.maxIpCnt ∧ s.registry.Fresh 7 ∧
      s.registry.ValidId 1 ∧ qmarkAllocMarkAuto plainEnv 7 1 0 s = .error .divideByZero := by
  have allowed : Allowed opStep Managed stalledTrace (qosMarktblInit plainEnv).2 :=
    ⟨⟨plainEnv_alloc, by decide, by decide, by decide⟩, ⟨by decide, by decide⟩, trivial⟩
  exact ⟨_, Run.of_runAll allowed rfl, rfl, by decide, by decide, ⟨by decide, by decide⟩, rfl⟩

end IpQos.Verified
