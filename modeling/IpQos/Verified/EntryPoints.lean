import IpQos.Verified.Represents

/-! # What the entry points do to the registry

One inductive relation per kind of operation lists everything the operation can
do (`Dropped` for DESTROY events and HASH_DEL, `Counted` for MARK events,
`Allocated` for a first packet).  The specification lemmas say that the code does
one of these things on a consistent state and faults at a rate that stalls only; that
each of them keeps the registry consistent is proved on the relation, without the code. -/

namespace IpQos.Verified

open IpQos.Kmod
open Registry

/-! ## Relations -/

/-- What taking one connection off the entry of `ip` can do.  `reqs` are the
    requests sent when a mark is freed. -/
inductive Dropped (reqs : RuletblNode → Nat → List RtnlReq) (ip : Be32) (t : Registry) :
    Registry → Prop where
  | unknown (fresh : t.Fresh ip) : Dropped reqs ip t t
  | kept {e : MarktblNode} {rest : Multiset MarktblNode} (split : t.entries = e ::ₘ rest)
      (here : e.srcIp = ip) (used : 0 < atomicDec e.count) :
      Dropped reqs ip t (t.touch e rest (atomicDec e.count))
  | left {e : MarktblNode} {rest : Multiset MarktblNode} (split : t.entries = e ::ₘ rest)
      (here : e.srcIp = ip) (idle : atomicDec e.count ≤ 0) (isShare : ¬ t.Private e.id)
      (others : ∃ e' ∈ rest, e'.id = e.id) :
      Dropped reqs ip t (t.detach e rest)
  | freed {e : MarktblNode} {rest : Multiset MarktblNode} {b : Nat}
      (split : t.entries = e ::ₘ rest) (here : e.srcIp = ip) (idle : atomicDec e.count ≤ 0)
      (last : t.Private e.id ∨ ∀ e' ∈ rest, e'.id ≠ e.id) (inRange : b < t.ipCnt)
      (mark : e.mark = markOf b) :
      Dropped reqs ip t
        ((((t.detach e rest).setMark e.id 0).send
          (reqs (((t.detach e rest).setMark e.id 0).rule e.id) e.mark)).freeBit b)

/-- What a MARK event can do. -/
inductive Counted (ip : Be32) (t : Registry) : Registry → Prop where
  | unknown (fresh : t.Fresh ip) : Counted ip t t
  | raised {e : MarktblNode} {rest : Multiset MarktblNode} (split : t.entries = e ::ₘ rest)
      (here : e.srcIp = ip) : Counted ip t (t.touch e rest (atomicInc e.count))

/-- The bit `b` is reserved for rule `id`; a share rule stores its mark. -/
def Registry.take (t : Registry) (id b : Nat) : Registry :=
  if (t.rule id).mode = privMode then t.setBit b true
  else (t.setBit b true).setMark id (markOf b)

/-- A rule whose next entry gets a mark of its own. -/
def Registry.Alone (t : Registry) (id : Nat) : Prop :=
  t.Private id ∨ ∀ e ∈ t.entries, e.id ≠ id

/-- The class of rule `id` can be built for a new mark. -/
def Registry.Builds (env : Env) (t : Registry) (id : Nat) : Prop :=
  Buildable env t.lanDev t.wanDev (t.config id)

instance (env : Env) (t : Registry) (id : Nat) : Decidable (t.Builds env id) :=
  inferInstanceAs (Decidable (Buildable ..))

/-- What `qmark_alloc_mark_auto` can do for an address without an entry, with the
    code it returns and the mark it leaves. -/
inductive Allocated (env : Env) (ip : Be32) (id : Nat) (t : Registry) :
    RetCode → Nat → Registry → Prop where
  | resetting {mark : Nat} (flag : t.resetFlag = true) : Allocated env ip id t .error mark t
  | exhausted (flag : t.resetFlag = false) (alone : t.Alone id)
      (full : ∀ b < t.ipCnt, t.bit b = true) : Allocated env ip id t .error 0 t
  | rolledBack {b : Nat} (flag : t.resetFlag = false) (alone : t.Alone id) (inRange : b < t.ipCnt)
      (isClear : t.bit b = false)
      (refused : t.ipCnt ≤ t.entries.card ∨ env.kmalloc .marktblNode = false) :
      Allocated env ip id t .error (markOf b) (((t.take id b).setMark id 0).freeBit b)
  | added {b : Nat} (flag : t.resetFlag = false) (alone : t.Alone id) (inRange : b < t.ipCnt)
      (isClear : t.bit b = false) (below : t.entries.card < t.ipCnt)
      (kmalloc : env.kmalloc .marktblNode = true) :
      Allocated env ip id t .ok (markOf b)
        (((t.take id b).attach ip id (markOf b)).send
          (addRequests env t.lanDev t.wanDev
            (((t.take id b).attach ip id (markOf b)).rule id) (markOf b)))
  | turnedAway (flag : t.resetFlag = false) (group : ¬ t.Alone id)
      (refused : t.ipCnt ≤ t.entries.card ∨ env.kmalloc .marktblNode = false) :
      Allocated env ip id t .error (t.rule id).mark t
  | joined (flag : t.resetFlag = false) (group : ¬ t.Alone id)
      (below : t.entries.card < t.ipCnt) (kmalloc : env.kmalloc .marktblNode = true) :
      Allocated env ip id t .ok (t.rule id).mark
        ((t.attach ip id (t.rule id).mark).send
          (addRequests env t.lanDev t.wanDev
            ((t.attach ip id (t.rule id).mark).rule id) (t.rule id).mark))

/-! ## The relations keep the registry consistent -/

section Consistency

variable {held : Set Nat} {t t' : Registry} {env : Env} {ip : Be32} {id : Nat}

theorem Consistent.send (inv : Consistent held t) (reqs : List RtnlReq) :
    Consistent held (t.send reqs) := inv.congr rfl rfl rfl rfl rfl

theorem Dropped.consistent {reqs : RuletblNode → Nat → List RtnlReq} (inv : Consistent held t)
    (dropped : Dropped reqs ip t t') : Consistent held t' := by
  cases dropped with
  | unknown fresh => exact inv
  | kept split here used => exact inv.touch split _
  | left split here idle isShare others => exact inv.detachMember split isShare others
  | @freed e rest b split here idle last inRange mark =>
    have member : e ∈ t.entries := split ▸ Multiset.mem_cons_self e rest
    have notHeld : b ∉ held := fun isHeld => inv.unmarked isHeld e member mark
    have detached := inv.detachLast split mark last
    have scratch := detached.setMark e.id 0
      (last.imp_left (private_detach t e rest e.id).mpr)
    have released := (scratch.send
      (reqs (((t.detach e rest).setMark e.id 0).rule e.id) e.mark)).release (Set.mem_insert b held)
    rwa [Set.insert_sdiff_self_of_notMem notHeld] at released

theorem Counted.consistent (inv : Consistent held t) (counted : Counted ip t t') :
    Consistent held t' := by
  cases counted with
  | unknown fresh => exact inv
  | raised split here => exact inv.touch split _

theorem Consistent.notHeld_of_clear (inv : Consistent held t) {b : Nat} (inRange : b < t.ipCnt)
    (isClear : t.bit b = false) : b ∉ held := by
  intro isHeld
  rw [(inv.bit_iff b inRange).mpr (.inl isHeld)] at isClear
  cases isClear

theorem Consistent.take (inv : Consistent held t) (alone : t.Alone id) {b : Nat}
    (inRange : b < t.ipCnt) (isClear : t.bit b = false) :
    Consistent (insert b held) (t.take id b) := by
  unfold Registry.take
  split
  · exact inv.reserve inRange isClear
  · exact (inv.reserve inRange isClear).setMark id (markOf b) alone

/-- After `take` the rule is ready for an entry with the new mark. -/
theorem Registry.take_first (t : Registry) (id b : Nat) :
    (t.take id b).Private id ∨ ((t.take id b).rule id).mark = markOf b := by
  unfold Registry.take
  split
  · rename_i isPrivate
    exact .inl isPrivate
  · right
    simp [Registry.setMark]

@[simp] theorem Registry.take_entries (t : Registry) (id b : Nat) :
    (t.take id b).entries = t.entries := by
  unfold Registry.take
  split <;> rfl

@[simp] theorem Registry.take_ipCnt (t : Registry) (id b : Nat) :
    (t.take id b).ipCnt = t.ipCnt := by
  unfold Registry.take
  split <;> rfl

@[simp] theorem Registry.take_ruleCnt (t : Registry) (id b : Nat) :
    (t.take id b).ruleCnt = t.ruleCnt := by
  unfold Registry.take
  split <;> rfl

@[simp] theorem Registry.take_resetFlag (t : Registry) (id b : Nat) :
    (t.take id b).resetFlag = t.resetFlag := by
  unfold Registry.take
  split <;> rfl

@[simp] theorem Registry.take_lanDev (t : Registry) (id b : Nat) :
    (t.take id b).lanDev = t.lanDev := by
  unfold Registry.take
  split <;> rfl

@[simp] theorem Registry.take_wanDev (t : Registry) (id b : Nat) :
    (t.take id b).wanDev = t.wanDev := by
  unfold Registry.take
  split <;> rfl

@[simp] theorem Registry.take_sent (t : Registry) (id b : Nat) :
    (t.take id b).sent = t.sent := by
  unfold Registry.take
  split <;> rfl

@[simp] theorem Registry.take_private (t : Registry) (id b id' : Nat) :
    (t.take id b).Private id' ↔ t.Private id' := by
  unfold Registry.take
  split
  · rfl
  · by_cases here : id' = id
    · subst id'
      simp [Private, Registry.setMark, Registry.setBit]
    · simp [Private, Registry.setMark, Registry.setBit, here]

theorem Allocated.consistent (inv : Consistent held t) (valid : t.ValidId id) (fresh : t.Fresh ip)
    {ret : RetCode} {mark : Nat} (allocated : Allocated env ip id t ret mark t') :
    Consistent held t' := by
  cases allocated with
  | resetting flag => exact inv
  | exhausted flag alone full => exact inv
  | @rolledBack b flag alone inRange isClear refused =>
    have notHeld := inv.notHeld_of_clear inRange isClear
    have taken := inv.take alone inRange isClear
    have scratch := taken.setMark id 0 (by simpa [Alone] using alone)
    have released := scratch.release (Set.mem_insert b held)
    rwa [Set.insert_sdiff_self_of_notMem notHeld] at released
  | @added b flag alone inRange isClear below kmalloc =>
    have notHeld := inv.notHeld_of_clear inRange isClear
    have taken := inv.take alone inRange isClear
    have attached := taken.attachHeld ip (Set.mem_insert b held) (by simpa using below)
      (by simpa [ValidId] using valid) (by simpa [Fresh] using fresh) (t.take_first id b)
    rw [Set.insert_sdiff_self_of_notMem notHeld] at attached
    exact attached.send _
  | turnedAway flag group refused => exact inv
  | joined flag group below kmalloc =>
    obtain ⟨isShare, joined⟩ : ¬ t.Private id ∧ ∃ e ∈ t.entries, e.id = id := by
      simpa [Alone, not_or] using group
    exact (inv.attachMember below fresh isShare joined).send _

@[simp] theorem Registry.take_config (t : Registry) (id b : Nat) :
    (t.take id b).config = t.config := by
  unfold Registry.take
  split
  · rfl
  · rw [config_setMark]
    rfl

/-! ### What stays as it was -/

/-- Traffic leaves the configuration alone. -/
structure SameConfig (t t' : Registry) : Prop where
  config : t'.config = t.config
  ipCnt : t'.ipCnt = t.ipCnt
  ruleCnt : t'.ruleCnt = t.ruleCnt
  resetFlag : t'.resetFlag = t.resetFlag
  lanDev : t'.lanDev = t.lanDev
  wanDev : t'.wanDev = t.wanDev

theorem SameConfig.builds (same : SameConfig t t') : t'.Builds env id ↔ t.Builds env id := by
  unfold Builds
  rw [same.config, same.lanDev, same.wanDev]

theorem SameConfig.refl (t : Registry) : SameConfig t t := ⟨rfl, rfl, rfl, rfl, rfl, rfl⟩

theorem Dropped.sameConfig {reqs : RuletblNode → Nat → List RtnlReq}
    (dropped : Dropped reqs ip t t') : SameConfig t t' := by
  cases dropped with
  | unknown fresh => exact .refl t
  | kept split here used => exact ⟨rfl, rfl, rfl, rfl, rfl, rfl⟩
  | @left e rest split here idle isShare others =>
    exact ⟨config_detach t e rest, rfl, rfl, rfl, rfl, rfl⟩
  | @freed e rest b split here idle last inRange mark =>
    exact ⟨(config_setMark _ e.id 0).trans (config_detach t e rest), rfl, rfl, rfl, rfl, rfl⟩

theorem Counted.sameConfig (counted : Counted ip t t') : SameConfig t t' := by
  cases counted with
  | unknown fresh => exact .refl t
  | raised split here => exact ⟨rfl, rfl, rfl, rfl, rfl, rfl⟩

theorem Allocated.sameConfig {ret : RetCode} {mark : Nat}
    (allocated : Allocated env ip id t ret mark t') : SameConfig t t' := by
  cases allocated with
  | resetting flag => exact .refl t
  | exhausted flag alone full => exact .refl t
  | @rolledBack b flag alone inRange isClear refused =>
    exact ⟨(config_setMark _ id 0).trans (t.take_config id b), t.take_ipCnt id b,
      t.take_ruleCnt id b, t.take_resetFlag id b, t.take_lanDev id b, t.take_wanDev id b⟩
  | @added b flag alone inRange isClear below kmalloc =>
    exact ⟨(config_attach _ id (markOf b) ip).trans (t.take_config id b), t.take_ipCnt id b,
      t.take_ruleCnt id b, t.take_resetFlag id b, t.take_lanDev id b, t.take_wanDev id b⟩
  | turnedAway flag group refused => exact .refl t
  | joined flag group below kmalloc =>
    exact ⟨config_attach t id (t.rule id).mark ip, rfl, rfl, rfl, rfl, rfl⟩

/-- Dropping and counting connections leaves no entry that was not there. -/
theorem Dropped.entries_sub {reqs : RuletblNode → Nat → List RtnlReq}
    (dropped : Dropped reqs ip t t') :
    ∀ e' ∈ t'.entries, ∃ e ∈ t.entries, e'.srcIp = e.srcIp ∧ e'.id = e.id ∧ e'.mark = e.mark := by
  intro e' member
  cases dropped with
  | unknown fresh => exact ⟨e', member, rfl, rfl, rfl⟩
  | kept split here used => exact Registry.touch_sub split _ e' member
  | left split here idle isShare others =>
    exact ⟨e', split ▸ Multiset.mem_cons_of_mem member, rfl, rfl, rfl⟩
  | freed split here idle last inRange mark =>
    exact ⟨e', split ▸ Multiset.mem_cons_of_mem member, rfl, rfl, rfl⟩

theorem Counted.entries_sub (counted : Counted ip t t') :
    ∀ e' ∈ t'.entries, ∃ e ∈ t.entries, e'.srcIp = e.srcIp ∧ e'.id = e.id ∧ e'.mark = e.mark := by
  intro e' member
  cases counted with
  | unknown fresh => exact ⟨e', member, rfl, rfl, rfl⟩
  | raised split here => exact Registry.touch_sub split _ e' member

/-- A call adds at most the entry of its address, and that only with success. -/
theorem Allocated.entries_sub {ret : RetCode} {mark : Nat}
    (allocated : Allocated env ip id t ret mark t') :
    ∀ e' ∈ t'.entries, e' ∈ t.entries ∨
      ret = .ok ∧ e' = { srcIp := ip, id, mark, count := 0 } := by
  intro e' member
  cases allocated with
  | resetting flag => exact .inl member
  | exhausted flag alone full => exact .inl member
  | @rolledBack b flag alone inRange isClear refused => exact .inl (t.take_entries id b ▸ member)
  | @added b flag alone inRange isClear below kmalloc =>
    cases Multiset.mem_cons.mp member with
    | inl new => exact .inr ⟨rfl, new⟩
    | inr old => exact .inl (t.take_entries id b ▸ old)
  | turnedAway flag group refused => exact .inl member
  | joined flag group below kmalloc =>
    cases Multiset.mem_cons.mp member with
    | inl new => exact .inr ⟨rfl, new⟩
    | inr old => exact .inl old

/-! ### Capacity -/

/-- The bitmap never runs out before the table is full: a new address is refused
    during a reset and for want of room, and for nothing else. -/
theorem Allocated.ok_iff (inv : Consistent ∅ t) (succeeds : env.kmalloc .marktblNode = true)
    {ret : RetCode} {mark : Nat} (allocated : Allocated env ip id t ret mark t') :
    ret = .ok ↔ t.resetFlag = false ∧ t.entries.card < t.ipCnt := by
  cases allocated with
  | resetting flag => simp [flag]
  | exhausted flag alone full =>
    have noRoom : ¬ t.entries.card < t.ipCnt := by
      intro below
      obtain ⟨b, inRange, isClear⟩ := inv.exists_clear_bit below
      rw [full b inRange] at isClear
      cases isClear
    simp [noRoom]
  | rolledBack flag alone inRange isClear refused =>
    simp only [succeeds, Bool.true_eq_false, or_false] at refused
    simp [Nat.not_lt.mpr refused]
  | added flag alone inRange isClear below kmalloc => simp [flag, below]
  | turnedAway flag group refused =>
    simp only [succeeds, Bool.true_eq_false, or_false] at refused
    simp [Nat.not_lt.mpr refused]
  | joined flag group below kmalloc => simp [flag, below]

theorem Allocated.entries_of_fail {ret : RetCode} {mark : Nat}
    (allocated : Allocated env ip id t ret mark t') (failed : ret ≠ .ok) :
    t'.entries = t.entries := by
  cases allocated with
  | resetting flag => rfl
  | exhausted flag alone full => rfl
  | @rolledBack b flag alone inRange isClear refused => exact t.take_entries id b
  | added flag alone inRange isClear below kmalloc => exact absurd rfl failed
  | turnedAway flag group refused => rfl
  | joined flag group below kmalloc => exact absurd rfl failed

theorem Allocated.sent_of_fail {ret : RetCode} {mark : Nat}
    (allocated : Allocated env ip id t ret mark t') (failed : ret ≠ .ok) : t'.sent = t.sent := by
  cases allocated with
  | resetting flag => rfl
  | exhausted flag alone full => rfl
  | @rolledBack b flag alone inRange isClear refused => exact t.take_sent id b
  | added flag alone inRange isClear below kmalloc => exact absurd rfl failed
  | turnedAway flag group refused => rfl
  | joined flag group below kmalloc => exact absurd rfl failed

/-- A successful call shows its mark under the rule as it stands after the call. -/
theorem Allocated.sent_of_ok {mark : Nat} (allocated : Allocated env ip id t .ok mark t') :
    t'.sent = addRequests env t.lanDev t.wanDev (t'.rule id) mark ++ t.sent := by
  cases allocated with
  | @added b flag alone inRange isClear below kmalloc =>
    show addRequests _ _ _ _ _ ++ (t.take id b).sent = _
    rw [take_sent]
    rfl
  | joined flag group below kmalloc => rfl

/-- A mark that is handed out belongs to no other rule. -/
theorem Allocated.own_of_ok (inv : Consistent held t) {mark : Nat}
    (allocated : Allocated env ip id t .ok mark t') : ∀ e ∈ t.entries, e.mark = mark → e.id = id := by
  intro e member same
  cases allocated with
  | @added b flag alone inRange isClear below kmalloc =>
    have isSet := (inv.bit_iff b inRange).mpr (.inr ⟨e, member, same⟩)
    rw [isClear] at isSet
    cases isSet
  | joined flag group below kmalloc =>
    obtain ⟨isShare, first, member', rfl⟩ : ¬ t.Private id ∧ ∃ e ∈ t.entries, e.id = id := by
      simpa [Alone, not_or] using group
    by_cases sameIp : e.srcIp = first.srcIp
    · rw [inv.eq_of_srcIp member member' sameIp]
    · exact (inv.apart e member first member' sameIp
        (same.trans (inv.shared first member' isShare))).1

theorem Allocated.room_of_ok {mark : Nat} (allocated : Allocated env ip id t .ok mark t') :
    t.resetFlag = false ∧ t.entries.card < t.ipCnt ∧ env.kmalloc .marktblNode = true := by
  cases allocated with
  | added flag alone inRange isClear below kmalloc => exact ⟨flag, below, kmalloc⟩
  | joined flag group below kmalloc => exact ⟨flag, below, kmalloc⟩

theorem Allocated.entries_of_ok {mark : Nat} (allocated : Allocated env ip id t .ok mark t') :
    t'.entries = { srcIp := ip, id, mark, count := 0 } ::ₘ t.entries := by
  cases allocated with
  | @added b flag alone inRange isClear below kmalloc =>
    change _ ::ₘ (t.take id b).entries = _
    rw [take_entries]
  | joined flag group below kmalloc => rfl

end Consistency

/-! ## The code does what the relations say -/

section Code

variable {held : Set Nat} {env : Env} {s : St} {t : Registry}

/-- The first half of a removal: the reference count goes down. -/
theorem lower_spec (rep : Represents s t) (inv : Consistent held t) {e : MarktblNode}
    (member : e ∈ t.entries) :
    ∃ rest s', t.entries = e ::ₘ rest ∧
      modifyNode e.srcIp (fun n => { n with count := atomicDec n.count }) s = .ok s' ∧
      Represents s' (t.touch e rest (atomicDec e.count)) := by
  obtain ⟨rest, split, s', run, rep'⟩ := modifyNode_spec rep inv.ipCnt_pos member atomicDec
  exact ⟨rest, s', split, run, rep'⟩

/-- The second half: an idle entry is unlinked. -/
theorem unlink_spec (inv : Consistent held t) {e : MarktblNode} {rest : Multiset MarktblNode}
    {c : Int} (split : t.entries = e ::ₘ rest) (rep : Represents s (t.touch e rest c))
    (idle : c ≤ 0) :
    ∃ s', qosMarktblHashtblDel e.srcIp s = .ok (.ok, e.mark, s') ∧
      Represents s' (t.detach e rest) := by
  have valid : t.ValidId e.id := inv.validIds e (split ▸ Multiset.mem_cons_self e rest)
  exact qosMarktblHashtblDel_spec (e := { e with count := c }) rep inv.ipCnt_pos rfl valid idle

/-- Whether an unlinked entry was the last user of its mark, as the code tests it. -/
theorem last_iff (inv : Consistent held t) {e : MarktblNode} {rest : Multiset MarktblNode}
    (split : t.entries = e ::ₘ rest) :
    (privMode = ((t.detach e rest).rule e.id).mode ∨ 0 = ((t.detach e rest).rule e.id).count) ↔
      (t.Private e.id ∨ ∀ e' ∈ rest, e'.id ≠ e.id) := by
  have member : e ∈ t.entries := split ▸ Multiset.mem_cons_self e rest
  obtain ⟨b, inRange, mark, notHeld⟩ := inv.marked e member
  have mode : privMode = ((t.detach e rest).rule e.id).mode ↔ t.Private e.id := by
    rw [eq_comm, ← private_detach t e rest e.id]
    rfl
  rw [mode]
  by_cases last : t.Private e.id ∨ ∀ e' ∈ rest, e'.id ≠ e.id
  · have count := (inv.detachLast split mark last).count_eq_zero_iff (inv.validIds e member)
    rw [eq_comm, count]
    rfl
  · obtain ⟨isShare, others⟩ : ¬ t.Private e.id ∧ ∃ e' ∈ rest, e'.id = e.id := by
      simpa [not_or] using last
    have count := (inv.detachMember split isShare others).count_eq_zero_iff
      (inv.validIds e member)
    rw [eq_comm, count]
    rfl

theorem conntrackDestroy_spec (env : Env) (rep : Represents s t) (inv : Consistent held t) (ip : Be32) :
    ∃ t' s', conntrackDestroy env ip s = .ok s' ∧ Represents s' t' ∧
      Dropped (delRequests env t.lanDev t.wanDev) ip t t' := by
  rcases marktblHashGet_spec rep inv.ipCnt_pos ip with ⟨e, member, rfl, get⟩ | ⟨fresh, get⟩
  · obtain ⟨rest, s₁, split, lower, rep₁⟩ := lower_spec rep inv member
    have valid := inv.validIds e member
    by_cases idle : atomicDec e.count ≤ 0
    · obtain ⟨s₂, unlink, rep₂⟩ := unlink_spec inv split rep₁ idle
      have rule := ruleAt_spec rep₂ e.id valid
      by_cases last : t.Private e.id ∨ ∀ e' ∈ rest, e'.id ≠ e.id
      · obtain ⟨s₃, scratch, rep₃⟩ := modifyRule_spec rep₂ e.id valid
          fun rn => { rn with mark := 0 }
        -- the rule is read again, with its mark cleared, for the requests to the kernel
        have ruleNow := ruleAt_spec rep₃ e.id valid
        obtain ⟨b, inRange, mark, _⟩ := inv.marked e member
        obtain ⟨s₄, unshape, rep₄⟩ := qmarkTcDelRule_spec env rep₃
          (((t.detach e rest).setMark e.id 0).rule e.id) e.mark
        obtain ⟨s₅, free, rep₅⟩ := freeMark_spec rep₄ (b := b) inRange inv.ipCnt_lt
        refine ⟨_, s₅, ?_, rep₅, .freed split rfl idle last inRange mark⟩
        rw [← mark] at free
        simp only [conntrackDestroy, get, ok_bind, lower, idle, ↓reduceIte, unlink, rule,
          (last_iff inv split).mpr last, scratch, ruleNow]
        exact (congrArg (· >>= freeMark e.mark) unshape).trans free
      · refine ⟨_, s₂, ?_, rep₂, ?_⟩
        · simp only [conntrackDestroy, get, ok_bind, lower, idle, ↓reduceIte, unlink, rule,
            (last_iff inv split).not.mpr last]
          rfl
        -- the mark stays with the other members of the group
        · obtain ⟨isShare, others⟩ : ¬ t.Private e.id ∧ ∃ e' ∈ rest, e'.id = e.id := by
            simpa [not_or] using last
          exact .left split rfl idle isShare others
    · refine ⟨_, s₁, ?_, rep₁, .kept split rfl (Int.not_le.mp idle)⟩
      simp only [conntrackDestroy, get, ok_bind, lower, idle, ↓reduceIte]
      rfl
  · refine ⟨t, s, ?_, rep, .unknown fresh⟩
    simp only [conntrackDestroy, get, ok_bind]
    rfl

theorem qmarkDelHash_spec (rep : Represents s t) (inv : Consistent held t) (ip : Be32)
    (mark : Nat) :
    ∃ ret mark' t' s', qmarkDelHash ip mark s = .ok (ret, mark', s') ∧ Represents s' t' ∧
      Dropped (fun _ _ => []) ip t t' := by
  rcases marktblHashGet_spec rep inv.ipCnt_pos ip with ⟨e, member, rfl, get⟩ | ⟨fresh, get⟩
  · obtain ⟨rest, s₁, split, lower, rep₁⟩ := lower_spec rep inv member
    have valid := inv.validIds e member
    by_cases idle : atomicDec e.count ≤ 0
    · obtain ⟨s₂, unlink, rep₂⟩ := unlink_spec inv split rep₁ idle
      have rule := ruleAt_spec rep₂ e.id valid
      by_cases last : t.Private e.id ∨ ∀ e' ∈ rest, e'.id ≠ e.id
      · obtain ⟨s₃, scratch, rep₃⟩ := modifyRule_spec rep₂ e.id valid
          fun rn => { rn with mark := 0 }
        obtain ⟨b, inRange, markIs, _⟩ := inv.marked e member
        obtain ⟨s₄, free, rep₄⟩ := freeMark_spec rep₃ (b := b) inRange inv.ipCnt_lt
        refine ⟨.ok, e.mark, _, s₄, ?_, rep₄, .freed split rfl idle last inRange markIs⟩
        rw [← markIs] at free
        simp only [qmarkDelHash, get, ok_bind, lower, idle, ↓reduceIte, unlink, rule,
          (last_iff inv split).mpr last, scratch, free]
        rfl
      · refine ⟨.ok, e.mark, _, s₂, ?_, rep₂, ?_⟩
        · simp only [qmarkDelHash, get, ok_bind, lower, idle, ↓reduceIte, unlink, rule,
            (last_iff inv split).not.mpr last]
          rfl
        · obtain ⟨isShare, others⟩ : ¬ t.Private e.id ∧ ∃ e' ∈ rest, e'.id = e.id := by
            simpa [not_or] using last
          exact .left split rfl idle isShare others
    -- the count stays lowered although the call fails
    · refine ⟨.error, mark, _, s₁, ?_, rep₁, .kept split rfl (Int.not_le.mp idle)⟩
      simp only [qmarkDelHash, get, ok_bind, lower, idle, ↓reduceIte]
      rfl
  · refine ⟨.error, mark, t, s, ?_, rep, .unknown fresh⟩
    simp only [qmarkDelHash, get, ok_bind]
    rfl

theorem conntrackMark_spec (rep : Represents s t) (pos : 1 ≤ t.ipCnt) (ip : Be32) :
    ∃ t' s', conntrackMark ip s = .ok s' ∧ Represents s' t' ∧ Counted ip t t' := by
  rcases marktblHashGet_spec rep pos ip with ⟨e, member, rfl, get⟩ | ⟨fresh, get⟩
  · obtain ⟨rest, split, s', run, rep'⟩ := modifyNode_spec rep pos member atomicInc
    refine ⟨_, s', ?_, rep', .raised split rfl⟩
    simp only [conntrackMark, get, ok_bind]
    exact run
  · refine ⟨t, s, ?_, rep, .unknown fresh⟩
    simp only [conntrackMark, get, ok_bind]
    rfl

theorem qmarkFindHash_spec (rep : Represents s t) (pos : 1 ≤ t.ipCnt) (ip : Be32) :
    (∃ e ∈ t.entries, e.srcIp = ip ∧ qmarkFindHash ip s = .ok (.ok, e.mark)) ∨
      t.Fresh ip ∧ qmarkFindHash ip s = .ok (.noExist, 0) := by
  rcases marktblHashGet_spec rep pos ip with ⟨e, member, here, get⟩ | ⟨fresh, get⟩
  · refine .inl ⟨e, member, here, ?_⟩
    simp only [qmarkFindHash, qosMarktblHashtblGet, get, ok_bind]
    rfl
  · refine .inr ⟨fresh, ?_⟩
    simp only [qmarkFindHash, qosMarktblHashtblGet, get, ok_bind]
    rfl

/-! ### Allocation -/

variable {ip : Be32} {id b : Nat}

/-- The test `PRIV_MODE == mode || 0 == count`. -/
theorem Consistent.alone_iff (inv : Consistent held t) (valid : t.ValidId id) :
    (privMode = (t.rule id).mode ∨ 0 = (t.rule id).count) ↔ t.Alone id := by
  rw [eq_comm, @eq_comm _ 0, inv.count_eq_zero_iff valid]
  rfl

theorem storeMark_spec (rep : Represents s (t.setBit b true)) (valid : t.ValidId id)
    (isShare : ¬ t.Private id) :
    ∃ s', modifyRule id (fun rn => { rn with mark := markOf b }) s = .ok s' ∧
      Represents s' (t.take id b) := by
  obtain ⟨s', run, rep'⟩ := modifyRule_spec rep id valid
    fun rn => { rn with mark := markOf b }
  refine ⟨s', run, ?_⟩
  have mode : ¬ (t.rule id).mode = privMode := isShare
  rw [Registry.take, if_neg mode]
  exact rep'

/-- With a mark of its own the call registers the address or gives the mark back. -/
theorem allocMarkAutoAdd_alone (env : Env) (inv : Consistent held t) (valid : t.ValidId id)
    (fresh : t.Fresh ip) (flag : t.resetFlag = false) (alone : t.Alone id) (inRange : b < t.ipCnt)
    (isClear : t.bit b = false) (rep : Represents s (t.take id b)) :
    ∃ ret mark t' s', allocMarkAutoAdd env ip id (markOf b) s =
        unlessStalled (ret = .ok → t.Builds env id) (.ok (ret, mark, s')) ∧
      Represents s' t' ∧ Allocated env ip id t ret mark t' := by
  have taken := inv.take alone inRange isClear
  have validTaken : (t.take id b).ValidId id := by simpa [ValidId] using valid
  have room : (t.take id b).entries.card ≤ (t.take id b).ipCnt := taken.room
  -- the mark passes the test, so only the limit or the memory can refuse it
  have isSet : (t.take id b).bit b = true :=
    (taken.bit_iff b (by simpa using inRange)).mpr (.inl (Set.mem_insert b held))
  rcases qmarkAddHash_spec env rep taken.ipCnt_pos taken.ipCnt_lt room
    (by simpa using inRange) validTaken (by simpa [Fresh] using fresh) with
    ⟨_, below, kmalloc, s₁, run, rep₁⟩ | ⟨refused, ret, failed, run⟩
  · have rule := ruleAt_spec rep₁ id validTaken
    obtain ⟨s₂, shape, rep₂⟩ := qmarkTcAddRule_spec env rep₁
      (((t.take id b).attach ip id (markOf b)).rule id) (markOf b)
    have lan : ((t.take id b).attach ip id (markOf b)).lanDev = t.lanDev := t.take_lanDev id b
    have wan : ((t.take id b).attach ip id (markOf b)).wanDev = t.wanDev := t.take_wanDev id b
    rw [lan, wan] at rep₂
    have added : Allocated env ip id t .ok (markOf b) _ :=
      .added flag alone inRange isClear (by simpa using below) kmalloc
    refine ⟨.ok, markOf b, _, s₂, ?_, rep₂, added⟩
    rw [unlessStalled_accepted, ← unlessStalled_congr added.sameConfig.builds]
    simp only [allocMarkAutoAdd, run, ok_bind, ne_eq, not_true_eq_false, ↓reduceIte, rule, shape,
      unlessStalled_bind]
    rfl
  · have rule := ruleAt_spec rep _ validTaken
    have test := (taken.alone_iff validTaken).mpr (by simpa [Alone] using alone)
    obtain ⟨s₁, scratch, rep₁⟩ := modifyRule_spec rep _ validTaken fun rn => { rn with mark := 0 }
    obtain ⟨s₂, free, rep₂⟩ := freeMark_spec rep₁ (b := b) (by simpa using inRange) taken.ipCnt_lt
    refine ⟨.error, markOf b, _, s₂, ?_, rep₂, .rolledBack flag alone inRange isClear ?_⟩
    · rw [unlessStalled_refused (by simp)]
      simp only [allocMarkAutoAdd, run, ok_bind, ne_eq, failed, not_false_eq_true, ↓reduceIte,
        rule, test, scratch, qmarkFreeMark, free]
      rfl
    · rw [isSet] at refused
      simpa using refused

/-- With a borrowed mark the call joins the group or leaves everything alone. -/
theorem allocMarkAutoAdd_group (env : Env) (rep : Represents s t) (inv : Consistent held t)
    (valid : t.ValidId id) (fresh : t.Fresh ip) (flag : t.resetFlag = false)
    (group : ¬ t.Alone id) :
    ∃ ret mark t' s', allocMarkAutoAdd env ip id (t.rule id).mark s =
        unlessStalled (ret = .ok → t.Builds env id) (.ok (ret, mark, s')) ∧
      Represents s' t' ∧ Allocated env ip id t ret mark t' := by
  obtain ⟨isShare, e, member, rfl⟩ : ¬ t.Private id ∧ ∃ e ∈ t.entries, e.id = id := by
    simpa [Alone, not_or] using group
  obtain ⟨b, inRange, mark, _⟩ := inv.marked e member
  -- the mark of the rule is that of its members, whose bit is set
  have borrowed : (t.rule e.id).mark = markOf b := (inv.shared e member isShare).trans mark
  have isSet : t.bit b = true := (inv.bit_iff b inRange).mpr (.inr ⟨e, member, mark⟩)
  rcases qmarkAddHash_spec env rep inv.ipCnt_pos inv.ipCnt_lt inv.room inRange valid
    fresh with ⟨_, below, kmalloc, s₁, run, rep₁⟩ | ⟨refused, ret, failed, run⟩
  · have rule := ruleAt_spec rep₁ e.id valid
    obtain ⟨s₂, shape, rep₂⟩ := qmarkTcAddRule_spec env rep₁
      ((t.attach ip e.id (markOf b)).rule e.id) (markOf b)
    rw [← borrowed] at rep₂
    have joined : Allocated env ip e.id t .ok (t.rule e.id).mark _ :=
      .joined flag group below kmalloc
    refine ⟨.ok, _, _, s₂, ?_, rep₂, joined⟩
    rw [unlessStalled_accepted, ← unlessStalled_congr joined.sameConfig.builds]
    simp only [allocMarkAutoAdd, borrowed, run, ok_bind, ne_eq, not_true_eq_false, ↓reduceIte,
      rule, shape, unlessStalled_bind]
    rfl
  · have rule := ruleAt_spec rep _ valid
    have test := (inv.alone_iff valid).not.mpr group
    rw [isSet] at refused
    refine ⟨.error, _, t, s, ?_, rep, .turnedAway flag group (by simpa using refused)⟩
    rw [unlessStalled_refused (by simp)]
    simp only [allocMarkAutoAdd, borrowed, run, ok_bind, ne_eq, failed, not_false_eq_true,
      ↓reduceIte, rule, test]
    rfl

theorem qmarkAllocMarkAuto_spec (env : Env) (rep : Represents s t) (inv : Consistent held t)
    (valid : t.ValidId id) (fresh : t.Fresh ip) (mark : Nat) :
    ∃ ret mark' t' s', qmarkAllocMarkAuto env ip id mark s =
        unlessStalled (ret = .ok → t.Builds env id) (.ok (ret, mark', s')) ∧
      Represents s' t' ∧ Allocated env ip id t ret mark' t' := by
  cases flag : t.resetFlag with
  | true =>
    have flagged : s.resetFlag = true := rep.resetFlag.trans flag
    refine ⟨.error, mark, t, s, ?_, rep, .resetting flag⟩
    rw [unlessStalled_refused (by simp)]
    simp only [qmarkAllocMarkAuto, flagged, ↓reduceIte]
    rfl
  | false =>
    have unflagged : s.resetFlag = false := rep.resetFlag.trans flag
    have rule := ruleAt_spec rep _ valid
    -- a rule that is alone allocates a mark of its own, any other takes over that of its group
    by_cases alone : t.Alone id
    · rcases allocMark_spec rep inv.ipCnt_lt with
        ⟨b, inRange, isClear, s₁, reserve, rep₁⟩ | ⟨full, reserve⟩
      · have obtained : qmarkAllocMark s = .ok (.ok, markOf b, s₁) := by
          simp only [qmarkAllocMark, reserve, ok_bind, (markOf_ne_zero b).symm, ↓reduceIte]
          rfl
        by_cases isPrivate : t.Private id
        · have mode : privMode = (t.rule id).mode := isPrivate.symm
          have repTaken : Represents s₁ (t.take id b) := by
            rw [Registry.take, if_pos mode.symm]
            exact rep₁
          obtain ⟨ret, mark', t', s', run, rep', allocated⟩ :=
            allocMarkAutoAdd_alone env inv valid fresh flag alone inRange isClear repTaken
          refine ⟨ret, mark', t', s', ?_, rep', allocated⟩
          simp only [qmarkAllocMarkAuto, unflagged, rule, ok_bind, mode, ↓reduceIte, obtained,
            Bool.false_eq_true, ne_eq, not_true_eq_false]
          exact run
        · have mode : ¬ privMode = (t.rule id).mode := fun same => isPrivate same.symm
          -- the first address of a share rule leaves its mark in the rule
          have count : 0 = (t.rule id).count :=
            ((inv.alone_iff valid).mpr alone).resolve_left mode
          obtain ⟨s₂, store, repTaken⟩ := storeMark_spec rep₁ valid isPrivate
          obtain ⟨ret, mark', t', s', run, rep', allocated⟩ :=
            allocMarkAutoAdd_alone env inv valid fresh flag alone inRange isClear repTaken
          refine ⟨ret, mark', t', s', ?_, rep', allocated⟩
          simp only [qmarkAllocMarkAuto, unflagged, rule, ok_bind, mode, ← count, ↓reduceIte,
            obtained, Bool.false_eq_true, ne_eq, not_true_eq_false, store]
          exact run
      · have obtained : qmarkAllocMark s = .ok (.error, 0, s) := by
          simp only [qmarkAllocMark, reserve, ok_bind, ↓reduceIte]
          rfl
        refine ⟨.error, 0, t, s, ?_, rep, .exhausted flag alone full⟩
        rw [unlessStalled_refused (by simp)]
        by_cases mode : privMode = (t.rule id).mode
        · simp only [qmarkAllocMarkAuto, unflagged, rule, ok_bind, mode, ↓reduceIte, obtained,
            Bool.false_eq_true, ne_eq, reduceCtorEq, not_false_eq_true]
          rfl
        · have count : 0 = (t.rule id).count :=
            ((inv.alone_iff valid).mpr alone).resolve_left mode
          simp only [qmarkAllocMarkAuto, unflagged, rule, ok_bind, mode, ← count, ↓reduceIte,
            obtained, Bool.false_eq_true, ne_eq, reduceCtorEq, not_false_eq_true]
          rfl
    · obtain ⟨ret, mark', t', s', run, rep', allocated⟩ :=
        allocMarkAutoAdd_group env rep inv valid fresh flag alone
      obtain ⟨mode, count⟩ := not_or.mp ((inv.alone_iff valid).not.mpr alone)
      refine ⟨ret, mark', t', s', ?_, rep', allocated⟩
      simp only [qmarkAllocMarkAuto, unflagged, rule, ok_bind, mode, count, ↓reduceIte,
        Bool.false_eq_true]
      exact run

/-- The address has no entry: the packet gets the mark that is allocated, if any. -/
theorem qmarkHandle_missed {skb : SkBuff} {info : TgInfo} {code ret : RetCode} {mark : Nat}
    {s' : St} {works : Prop} [Decidable works]
    (find : qmarkFindHash (info.ipAddr skb) s = .ok (code, 0))
    (run : qmarkAllocMarkAuto env (info.ipAddr skb) info.id 0 s =
      unlessStalled works (.ok (ret, mark, s'))) :
    qmarkHandle env skb info s = unlessStalled works
      (.ok (if ret = .ok then { skb with mark := setMark skb.mark info.mask mark } else skb, s')) := by
  simp only [qmarkHandle, find, ok_bind, ↓reduceIte, run, unlessStalled_bind]
  by_cases same : ret = .ok
  · simp only [same, ne_eq, not_true_eq_false, ↓reduceIte]
    rfl
  · simp only [same, ne_eq, not_false_eq_true, ↓reduceIte]
    rfl

/-- A packet takes the mark of its address from the table, or makes it a new entry. -/
theorem qmarkHandle_spec (env : Env) (rep : Represents s t) (inv : Consistent held t) (skb : SkBuff)
    {info : TgInfo} (valid : t.ValidId info.id) :
    (∃ e ∈ t.entries, e.srcIp = info.ipAddr skb ∧
      qmarkHandle env skb info s =
        .ok ({ skb with mark := setMark skb.mark info.mask e.mark }, s)) ∨
    t.Fresh (info.ipAddr skb) ∧ ∃ ret mark t' s',
      qmarkHandle env skb info s = unlessStalled (ret = .ok → t.Builds env info.id)
        (.ok (if ret = .ok then { skb with mark := setMark skb.mark info.mask mark } else skb,
          s')) ∧
      Represents s' t' ∧ Allocated env (info.ipAddr skb) info.id t ret mark t' := by
  rcases qmarkFindHash_spec rep inv.ipCnt_pos (info.ipAddr skb) with
    ⟨e, member, here, find⟩ | ⟨fresh, find⟩
  · obtain ⟨b, _, mark, _⟩ := inv.marked e member
    have nonzero : e.mark ≠ 0 := mark ▸ markOf_ne_zero b
    refine .inl ⟨e, member, here, ?_⟩
    simp only [qmarkHandle, find, ok_bind, nonzero, ↓reduceIte]
    rfl
  · obtain ⟨ret, mark, t', s', run, rep', allocated⟩ :=
      qmarkAllocMarkAuto_spec env rep inv valid fresh 0
    exact .inr ⟨fresh, ret, mark, t', s', qmarkHandle_missed find run, rep', allocated⟩

/-- What a packet that was handled has done. -/
theorem qmarkHandle_done (rep : Represents s t) (inv : Consistent held t) {skb skb' : SkBuff}
    {info : TgInfo} (valid : t.ValidId info.id) {s' : St}
    (ran : qmarkHandle env skb info s = .ok (skb', s')) :
    (∃ e ∈ t.entries, e.srcIp = info.ipAddr skb ∧
      skb' = { skb with mark := setMark skb.mark info.mask e.mark } ∧ s' = s) ∨
    t.Fresh (info.ipAddr skb) ∧ ∃ ret mark t',
      skb' = (if ret = .ok then { skb with mark := setMark skb.mark info.mask mark } else skb) ∧
      Represents s' t' ∧ Allocated env (info.ipAddr skb) info.id t ret mark t' := by
  rcases qmarkHandle_spec env rep inv skb valid with
    ⟨e, member, here, run⟩ | ⟨fresh, ret, mark, t', s'', run, rep', allocated⟩
  · cases ran.symm.trans run
    exact .inl ⟨e, member, here, rfl, rfl⟩
  · obtain ⟨_, same⟩ := unlessStalled_eq_ok.mp (run.symm.trans ran)
    cases same
    exact .inr ⟨fresh, ret, mark, t', rfl, rep', allocated⟩

/-- The event takes a connection off the entry of `ip`. -/
def Destroys (events : Nat) (ct : Option NfConn) (ip : Be32) : Prop :=
  match ct with
  | none => False
  | some ct => ct.tracked = true ∧ events &&& ipctDestroy ≠ 0 ∧ ct.ipAddr = ip

instance (events : Nat) (ct : Option NfConn) (ip : Be32) : Decidable (Destroys events ct ip) :=
  match ct with
  | none => .isFalse fun destroys => destroys
  | some _ => inferInstanceAs (Decidable (_ ∧ _ ∧ _))

/-- What a conntrack event can do. -/
inductive Notified (env : Env) (events : Nat) (ct : Option NfConn) (t : Registry) :
    Registry → Prop where
  | ignored : Notified env events ct t t
  | destroyed {t' : Registry} (ip : Be32) (destroys : Destroys events ct ip)
      (dropped : Dropped (delRequests env t.lanDev t.wanDev) ip t t') :
      Notified env events ct t t'
  | marked {t' : Registry} (ip : Be32) (counted : Counted ip t t') : Notified env events ct t t'

theorem qmarkConntrackEvent_spec (env : Env) (rep : Represents s t) (inv : Consistent held t)
    (events : Nat) (ct : Option NfConn) :
    ∃ t' s', qmarkConntrackEvent env events ct s = .ok s' ∧ Represents s' t' ∧
      Notified env events ct t t' := by
  cases ct with
  | none => exact ⟨t, s, rfl, rep, .ignored⟩
  | some ct =>
    unfold qmarkConntrackEvent
    dsimp only
    by_cases tracked : ct.tracked = true
    · rw [if_pos tracked]
      by_cases destroy : events &&& ipctDestroy ≠ 0
      · rw [if_pos destroy]
        obtain ⟨t', s', run, rep', dropped⟩ := conntrackDestroy_spec env rep inv ct.ipAddr
        exact ⟨t', s', run, rep', .destroyed ct.ipAddr ⟨tracked, destroy, rfl⟩ dropped⟩
      · rw [if_neg destroy]
        split
        · obtain ⟨t', s', run, rep', counted⟩ := conntrackMark_spec rep inv.ipCnt_pos ct.ipAddr
          exact ⟨t', s', run, rep', .marked ct.ipAddr counted⟩
        · exact ⟨t, s, rfl, rep, .ignored⟩
    · rw [if_neg tracked]
      exact ⟨t, s, rfl, rep, .ignored⟩

section Notified

variable {events : Nat} {ct : Option NfConn} {t' : Registry}

theorem Notified.sameConfig (notified : Notified env events ct t t') : SameConfig t t' := by
  cases notified with
  | ignored => exact .refl t
  | destroyed ip destroys dropped => exact dropped.sameConfig
  | marked ip counted => exact counted.sameConfig

theorem Notified.entries_sub (notified : Notified env events ct t t') :
    ∀ e' ∈ t'.entries, ∃ e ∈ t.entries, e'.srcIp = e.srcIp ∧ e'.id = e.id ∧ e'.mark = e.mark := by
  cases notified with
  | ignored => exact fun e' member => ⟨e', member, rfl, rfl, rfl⟩
  | destroyed ip destroys dropped => exact dropped.entries_sub
  | marked ip counted => exact counted.entries_sub

theorem Notified.consistent (inv : Consistent held t) (notified : Notified env events ct t t') :
    Consistent held t' := by
  cases notified with
  | ignored => exact inv
  | destroyed ip destroys dropped => exact dropped.consistent inv
  | marked ip counted => exact counted.consistent inv

end Notified

/-! ### Administration -/

/-- The record `RULE_ADD` leaves in the rule table. -/
def addedRule (qr : QmarkRule) (old : RuletblNode) : RuletblNode :=
  { old with
    on := true, mode := qr.mode, devid := qr.devid, rate := qr.rate, rateMate := qr.rateMate,
    rateMin := qr.rateMin, rateMinMate := qr.rateMinMate }

theorem qmarkAddRule_spec (rep : Represents s t) (qr : QmarkRule) (valid : t.ValidId qr.id) :
    ∃ s', qmarkAddRule qr.id qr.mode qr.devid qr.rate qr.rateMate qr.rateMin qr.rateMinMate s =
        .ok s' ∧ Represents s' (t.setRule qr.id (addedRule qr (t.rule qr.id))) :=
  modifyRule_spec rep _ valid (addedRule qr)

theorem qmarkDelRule_spec (rep : Represents s t) (valid : t.ValidId id) :
    ∃ s', qmarkDelRule id s = .ok s' ∧ Represents s' (t.setRule id .zero) := by
  obtain ⟨s₁, erase, rep₁⟩ := modifyRule_spec rep _ valid fun _ => .zero
  obtain ⟨s₂, off, rep₂⟩ := modifyRule_spec rep₁ id valid fun rn => { rn with on := false }
  refine ⟨s₂, ?_, rep₂.1, rep₂.2.trans ?_⟩
  · simp only [qmarkDelRule, erase, ok_bind, off]
  · rw [setRule_rule_self]
    exact Registry.ext rfl rfl (Function.update_idem ..) rfl rfl rfl rfl rfl rfl rfl

theorem qmarkReset_spec (alloc : AllocatesTables env) (rep : Represents s t) (flag : Nat) :
    ∃ s', qmarkReset env flag s = .ok s' ∧
      Represents s' (if 0 = flag then { t with resetFlag := false }
        else { t.clear with resetFlag := true }) := by
  unfold qmarkReset
  split
  · exact ⟨_, rfl, setFlag_represents rep false⟩
  · exact resetSection_spec alloc (setFlag_represents rep true)

end Code

end IpQos.Verified
