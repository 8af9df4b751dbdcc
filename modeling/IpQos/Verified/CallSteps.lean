import IpQos.Kmod.Interleaved
import IpQos.Verified.Operations

/-! # What one step of a call does to the registry

`Stepped` lists the steps of a call, one constructor for each way through a step.
A call that is `Ready` does not fault: the step lemma says that the code takes one
of the listed steps.  What the calls do to each other is then a matter of
registries only. -/

namespace IpQos.Verified

open IpQos.Kmod
open Registry

inductive Stepped (env : Env) (t : Registry) (c : Call) : Call → Registry → Prop where
  | found {e : MarktblNode} (pc : c.pc = .find) (member : e ∈ t.entries)
      (here : e.srcIp = c.srcIp) : Stepped env t c { c with pc := .ret .ok, mark := e.mark } t
  | missed (pc : c.pc = .find) (fresh : t.Fresh c.srcIp) :
      Stepped env t c { c with pc := .testReset, mark := 0 } t
  | turnedOff (pc : c.pc = .testReset) (flag : t.resetFlag = true) :
      Stepped env t c (c.goto (.ret .error)) t
  | admitted (pc : c.pc = .testReset) (flag : t.resetFlag = false) :
      Stepped env t c (c.goto .testMode) t
  | privBranch (pc : c.pc = .testMode) (isPrivate : t.Private c.id) :
      Stepped env t c (c.goto .allocPriv) t
  | shareBranch (pc : c.pc = .testMode) (isShare : ¬ t.Private c.id) :
      Stepped env t c (c.goto .testCount) t
  | exhausted (pc : c.pc = .allocPriv ∨ c.pc = .allocFirst)
      (full : ∀ b < t.ipCnt, t.bit b = true) :
      Stepped env t c { c with pc := .ret .error, mark := 0 } t
  | reservedPriv {b : Nat} (pc : c.pc = .allocPriv) (inRange : b < t.ipCnt)
      (isClear : t.bit b = false) :
      Stepped env t c { c with pc := .addHash, mark := markOf b, origin := .priv }
        (t.setBit b true)
  | reservedFirst {b : Nat} (pc : c.pc = .allocFirst) (inRange : b < t.ipCnt)
      (isClear : t.bit b = false) :
      Stepped env t c { c with pc := .storeMark, mark := markOf b, origin := .first }
        (t.setBit b true)
  | countedNone (pc : c.pc = .testCount) (count : (t.rule c.id).count = 0) :
      Stepped env t c (c.goto .allocFirst) t
  | countedSome (pc : c.pc = .testCount) (count : (t.rule c.id).count ≠ 0) :
      Stepped env t c (c.goto .loadMark) t
  | stored (pc : c.pc = .storeMark) : Stepped env t c (c.goto .addHash) (t.setMark c.id c.mark)
  | loaded (pc : c.pc = .loadMark) :
      Stepped env t c { c with pc := .addHash, mark := (t.rule c.id).mark, origin := .group } t
  | inserted {b : Nat} (pc : c.pc = .addHash) (mark : c.mark = markOf b) (inRange : b < t.ipCnt)
      (isSet : t.bit b = true) (below : t.entries.card < t.ipCnt) (fresh : t.Fresh c.srcIp) :
      Stepped env t c (c.goto .tcAdd) (t.attach c.srcIp c.id (markOf b))
  | refused {b : Nat} (pc : c.pc = .addHash) (mark : c.mark = markOf b) (inRange : b < t.ipCnt)
      (reason : t.bit b = false ∨ t.ipCnt ≤ t.entries.card ∨ env.kmalloc .marktblNode = false) :
      Stepped env t c (c.goto .retestMode) t
  | retestedPriv (pc : c.pc = .retestMode) (isPrivate : t.Private c.id) :
      Stepped env t c (c.goto .clearMark) t
  | retestedShare (pc : c.pc = .retestMode) (isShare : ¬ t.Private c.id) :
      Stepped env t c (c.goto .retestCount) t
  | recountedNone (pc : c.pc = .retestCount) (count : (t.rule c.id).count = 0) :
      Stepped env t c (c.goto .clearMark) t
  | recountedSome (pc : c.pc = .retestCount) (count : (t.rule c.id).count ≠ 0) :
      Stepped env t c (c.goto (.ret .error)) t
  | cleared (pc : c.pc = .clearMark) : Stepped env t c (c.goto .freeMark) (t.setMark c.id 0)
  | freed {b : Nat} (pc : c.pc = .freeMark) (mark : c.mark = markOf b) (inRange : b < t.ipCnt) :
      Stepped env t c (c.goto (.ret .error)) (t.freeBit b)
  | shown (pc : c.pc = .tcAdd) :
      Stepped env t c (c.goto (.ret .ok))
        (t.send (addRequests env t.lanDev t.wanDev (t.rule c.id) c.mark))
  | returned {code : RetCode} (pc : c.pc = .ret code) : Stepped env t c c t

/-- The call has begun and not returned. -/
def InFlight (c : Call) : Prop :=
  match c.pc with
  | .find | .testReset | .ret _ => False
  | _ => True

instance (c : Call) : Decidable (InFlight c) :=
  match c with
  | ⟨_, _, pc, _, _⟩ =>
    match pc with
    | .find | .testReset | .ret _ => .isFalse id
    | .testMode | .allocPriv | .testCount | .allocFirst | .storeMark | .loadMark | .addHash
    | .retestMode | .retestCount | .clearMark | .freeMark | .tcAdd => .isTrue trivial

/-- The call has a mark from `qmark_alloc_mark` that is in no entry and not given back. -/
def Holding (c : Call) : Prop :=
  match c.pc with
  | .storeMark => True
  | .addHash | .retestMode | .retestCount | .clearMark | .freeMark =>
    c.origin = .priv ∨ c.origin = .first
  | _ => False

theorem Holding.inFlight {c : Call} (holding : Holding c) : InFlight c := by
  unfold Holding at holding
  unfold InFlight
  cases pc : c.pc with
  | find | testReset | ret => simp [pc] at holding
  | _ => trivial

/-- Sizes for which marks and counters do not overflow. -/
structure Sized (t : Registry) : Prop where
  pos : 1 ≤ t.ipCnt
  small : t.ipCnt < 2 ^ 21
  room : t.entries.card ≤ t.ipCnt

theorem Consistent.sized {held : Set Nat} {t : Registry} (inv : Consistent held t) : Sized t :=
  ⟨inv.ipCnt_pos, inv.ipCnt_lt, inv.room⟩

/-- What keeps the next step of a call from faulting. -/
structure Ready (t : Registry) (c : Call) : Prop where
  valid : InFlight c → t.ValidId c.id
  nonzero : c.pc = .find → ∀ e ∈ t.entries, e.mark ≠ 0
  marked : c.pc = .addHash ∨ c.pc = .freeMark → ∃ b < t.ipCnt, c.mark = markOf b
  /-- The duplicate branch of `marktbl_hash_add` is not taken. -/
  single : c.pc = .addHash → t.Fresh c.srcIp ∨ t.ipCnt ≤ t.entries.card

section

variable {env : Env} {s : St} {t : Registry} {c : Call}

theorem qmarkAllocMark_spec (rep : Represents s t) (small : t.ipCnt < 2 ^ 21) :
    (∃ b < t.ipCnt, t.bit b = false ∧
      ∃ s', qmarkAllocMark s = .ok (.ok, markOf b, s') ∧ Represents s' (t.setBit b true)) ∨
    (∀ b < t.ipCnt, t.bit b = true) ∧ qmarkAllocMark s = .ok (.error, 0, s) := by
  rcases allocMark_spec rep small with ⟨b, inRange, isClear, s', reserve, rep'⟩ | ⟨full, reserve⟩
  · refine .inl ⟨b, inRange, isClear, s', ?_, rep'⟩
    simp [qmarkAllocMark, reserve, (markOf_ne_zero b).symm]
  · refine .inr ⟨full, ?_⟩
    simp [qmarkAllocMark, reserve]

/-- A step of a ready call before `qmark_tc_add_rule` succeeds and is one of the listed steps. -/
theorem stepCall_before (env : Env) (rep : Represents s t) (sized : Sized t) (ready : Ready t c)
    (before : c.pc ≠ .tcAdd) :
    ∃ c' t' s', stepCall env c s = .ok (c', s') ∧ Represents s' t' ∧ Stepped env t c c' t' := by
  have rule := fun flying => ruleAt_spec rep c.id (ready.valid flying)
  cases pc : c.pc with
  | find =>
    rcases qmarkFindHash_spec rep sized.pos c.srcIp with ⟨e, member, here, find⟩ | ⟨fresh, find⟩
    · have nonzero := ready.nonzero pc e member
      refine ⟨_, t, s, ?_, rep, .found pc member here⟩
      simp [stepCall, pc, find, nonzero]
    · refine ⟨_, t, s, ?_, rep, .missed pc fresh⟩
      simp [stepCall, pc, find]
  | testReset =>
    cases flag : t.resetFlag with
    | true =>
      have flagged : s.resetFlag = true := rep.resetFlag.trans flag
      refine ⟨_, t, s, ?_, rep, .turnedOff pc flag⟩
      simp [stepCall, pc, flagged]
    | false =>
      have unflagged : s.resetFlag = false := rep.resetFlag.trans flag
      refine ⟨_, t, s, ?_, rep, .admitted pc flag⟩
      simp [stepCall, pc, unflagged]
  | testMode =>
    have rule := rule (by simp [InFlight, pc])
    by_cases isPrivate : t.Private c.id
    · have mode : privMode = (t.rule c.id).mode := isPrivate.symm
      refine ⟨_, t, s, ?_, rep, .privBranch pc isPrivate⟩
      simp [stepCall, pc, rule, mode]
    · have mode : ¬ privMode = (t.rule c.id).mode := fun same => isPrivate same.symm
      refine ⟨_, t, s, ?_, rep, .shareBranch pc isPrivate⟩
      simp [stepCall, pc, rule, mode]
  | allocPriv =>
    rcases qmarkAllocMark_spec rep sized.small with
      ⟨b, inRange, isClear, s', reserve, rep'⟩ | ⟨full, reserve⟩
    · refine ⟨_, _, s', ?_, rep', .reservedPriv pc inRange isClear⟩
      simp [stepCall, pc, reserve]
    · refine ⟨_, t, s, ?_, rep, .exhausted (.inl pc) full⟩
      simp [stepCall, pc, reserve]
  | testCount =>
    have rule := rule (by simp [InFlight, pc])
    by_cases count : (t.rule c.id).count = 0
    · refine ⟨_, t, s, ?_, rep, .countedNone pc count⟩
      simp [stepCall, pc, rule, count]
    · refine ⟨_, t, s, ?_, rep, .countedSome pc count⟩
      simp [stepCall, pc, rule, Ne.symm count]
  | allocFirst =>
    rcases qmarkAllocMark_spec rep sized.small with
      ⟨b, inRange, isClear, s', reserve, rep'⟩ | ⟨full, reserve⟩
    · refine ⟨_, _, s', ?_, rep', .reservedFirst pc inRange isClear⟩
      simp [stepCall, pc, reserve]
    · refine ⟨_, t, s, ?_, rep, .exhausted (.inr pc) full⟩
      simp [stepCall, pc, reserve]
  | storeMark =>
    have valid := ready.valid (by simp [InFlight, pc])
    obtain ⟨s', run, rep'⟩ := modifyRule_spec rep c.id valid
      fun rn => { rn with mark := c.mark }
    refine ⟨_, _, s', ?_, rep', .stored pc⟩
    simp [stepCall, pc, run]
  | loadMark =>
    have rule := rule (by simp [InFlight, pc])
    refine ⟨_, t, s, ?_, rep, .loaded pc⟩
    simp [stepCall, pc, rule]
  | addHash =>
    have valid := ready.valid (by simp [InFlight, pc])
    obtain ⟨b, inRange, mark⟩ := ready.marked (.inl pc)
    -- a full table refuses before it looks for the address
    by_cases full : t.ipCnt ≤ t.entries.card
    · obtain ⟨ret, failed, run⟩ := qmarkAddHash_refused env rep sized.small sized.room c.srcIp c.id
        inRange (.inr full)
      refine ⟨_, t, s, ?_, rep, .refused pc mark inRange (.inr (.inl full))⟩
      simp [stepCall, pc, mark, run, failed]
    · have fresh := (ready.single pc).resolve_right full
      rcases qmarkAddHash_spec env rep sized.pos sized.small sized.room inRange valid fresh
        with ⟨isSet, below, _, s', run, rep'⟩ | ⟨reason, ret, failed, run⟩
      · refine ⟨_, _, s', ?_, rep', .inserted pc mark inRange isSet below fresh⟩
        simp [stepCall, pc, mark, run]
      · refine ⟨_, t, s, ?_, rep, .refused pc mark inRange reason⟩
        simp [stepCall, pc, mark, run, failed]
  | retestMode =>
    have rule := rule (by simp [InFlight, pc])
    by_cases isPrivate : t.Private c.id
    · have mode : privMode = (t.rule c.id).mode := isPrivate.symm
      refine ⟨_, t, s, ?_, rep, .retestedPriv pc isPrivate⟩
      simp [stepCall, pc, rule, mode]
    · have mode : ¬ privMode = (t.rule c.id).mode := fun same => isPrivate same.symm
      refine ⟨_, t, s, ?_, rep, .retestedShare pc isPrivate⟩
      simp [stepCall, pc, rule, mode]
  | retestCount =>
    have rule := rule (by simp [InFlight, pc])
    by_cases count : (t.rule c.id).count = 0
    · refine ⟨_, t, s, ?_, rep, .recountedNone pc count⟩
      simp [stepCall, pc, rule, count]
    · refine ⟨_, t, s, ?_, rep, .recountedSome pc count⟩
      simp [stepCall, pc, rule, Ne.symm count]
  | clearMark =>
    have valid := ready.valid (by simp [InFlight, pc])
    obtain ⟨s', run, rep'⟩ := modifyRule_spec rep c.id valid fun rn => { rn with mark := 0 }
    refine ⟨_, _, s', ?_, rep', .cleared pc⟩
    simp [stepCall, pc, run]
  | freeMark =>
    obtain ⟨b, inRange, mark⟩ := ready.marked (.inr pc)
    obtain ⟨s', run, rep'⟩ := freeMark_spec rep inRange sized.small
    refine ⟨_, _, s', ?_, rep', .freed pc mark inRange⟩
    simp [stepCall, pc, mark, qmarkFreeMark, run]
  | tcAdd => exact absurd pc before
  | ret code =>
    refine ⟨c, t, s, ?_, rep, .returned pc⟩
    simp [stepCall, pc]

/-- Only the class that `qmark_tc_add_rule` builds can divide by zero. -/
theorem stepCall_spec (env : Env) (rep : Represents s t) (sized : Sized t) (ready : Ready t c) :
    ∃ c' t' s', stepCall env c s =
        unlessStalled (c.pc = .tcAdd → t.Builds env c.id) (.ok (c', s')) ∧
      Represents s' t' ∧ Stepped env t c c' t' := by
  by_cases pc : c.pc = .tcAdd
  · have rule := ruleAt_spec rep c.id (ready.valid (by simp [InFlight, pc]))
    obtain ⟨s', shape, rep'⟩ := qmarkTcAddRule_spec env rep (t.rule c.id) c.mark
    refine ⟨c.goto (.ret .ok), _, s', ?_, rep', .shown pc⟩
    have builds : (c.pc = .tcAdd → t.Builds env c.id) ↔
        Buildable env t.lanDev t.wanDev (t.rule c.id) := ⟨fun builds => builds pc, fun builds _ => builds⟩
    rw [unlessStalled_congr builds]
    simp only [stepCall, pc, rule, ok_bind, shape, unlessStalled_bind, pure_eq_ok]
  · obtain ⟨c', t', s', run, rep', stepped⟩ := stepCall_before env rep sized ready pc
    exact ⟨c', t', s', run.trans (unlessStalled_pos (fun here => absurd here pc) _).symm, rep',
      stepped⟩

/-- The class that the step builds, if it does, can be built. -/
def PacedStep {ι : Type} (l : Label ι) (x : Sys ι) : Prop :=
  match l with
  | .call i env => (x.call i).pc = .tcAdd → x.st.registry.Builds env (x.call i).id
  | _ => True

/-- A step of a ready call takes one of the listed steps, or divides by zero. -/
theorem sysStep_call {ι : Type} [DecidableEq ι] (env : Env) {x : Sys ι} {i : ι}
    (wf : WellFormed x.st) (sized : Sized x.st.registry)
    (ready : Ready x.st.registry (x.call i)) :
    ∃ c' s', WellFormed s' ∧ Stepped env x.st.registry (x.call i) c' s'.registry ∧
      (sysStep (.call i env) x = .ok (x.setCall i c' s') ∨
        ¬ PacedStep (.call i env) x ∧ sysStep (.call i env) x = .error .divideByZero) := by
  obtain ⟨c', t', s', run, rep, stepped⟩ := stepCall_spec env wf.represents sized ready
  obtain rfl : s'.registry = t' := rep.2
  refine ⟨c', s', rep.1, stepped, ?_⟩
  by_cases builds : (x.call i).pc = .tcAdd → x.st.registry.Builds env (x.call i).id
  · rw [unlessStalled_pos builds] at run
    exact .inl (by simp [sysStep, run])
  · rw [unlessStalled_neg builds] at run
    exact .inr ⟨builds, by simp [sysStep, run]⟩

end

/-- One call after the other for the steps given. -/
def steps (turns : List (Bool × Nat)) : List (Label Bool) :=
  turns.flatMap fun turn => List.replicate turn.2 (.call turn.1 plainEnv)

end IpQos.Verified
