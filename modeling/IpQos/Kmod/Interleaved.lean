import IpQos.Kmod.Ops
import IpQos.Lib.Run
import Mathlib.Logic.Function.Basic

/-! # Calls that interleave

`qmark_handle` and `qmark_alloc_mark_auto` cut into their atomic steps: one step
for each section under `qmark_op_lock`, and one for each unlocked read or write of
a global.  `Sys` is the module with any number of such calls in flight, next to
conntrack events and `qmark_reset`. -/

namespace IpQos.Kmod

/-! ## One call -/

/-- The step a call takes next. -/
inductive Pc where
  /-- `qmark_find_hash` of `qmark_handle` -/
  | find
  /-- `if (true == reset_flag)`, where `qmark_alloc_mark_auto` begins -/
  | testReset
  /-- `if (PRIV_MODE == g_ruletbl[id-1].mode)` -/
  | testMode
  /-- `qmark_alloc_mark` of the private branch -/
  | allocPriv
  /-- `if (0 == atomic_read(&(g_ruletbl[id-1].count)))` of the share branch -/
  | testCount
  /-- `qmark_alloc_mark` of the share branch -/
  | allocFirst
  /-- `g_ruletbl[id-1].mark = *mark` -/
  | storeMark
  /-- `*mark = g_ruletbl[id-1].mark` -/
  | loadMark
  /-- `qmark_add_hash` -/
  | addHash
  /-- `PRIV_MODE == g_ruletbl[id-1].mode` after a failed `qmark_add_hash` -/
  | retestMode
  /-- `0 == atomic_read(&(g_ruletbl[id-1].count))` after a failed `qmark_add_hash` -/
  | retestCount
  /-- `g_ruletbl[id-1].mark = 0` -/
  | clearMark
  /-- `qmark_free_mark` -/
  | freeMark
  /-- the section around `qmark_tc_add_rule` -/
  | tcAdd
  | ret (code : RetCode)
  deriving DecidableEq, Repr

/-- Where the value of `*mark` comes from.  A history variable: no step reads it. -/
inductive Origin where
  | nowhere
  /-- allocated in the private branch -/
  | priv
  /-- allocated in the share branch -/
  | first
  /-- read from the rule -/
  | group
  deriving DecidableEq, Repr

/-- A call with its arguments and locals; `mark` is the caller's variable. -/
structure Call where
  srcIp : Be32
  id : Nat
  pc : Pc
  mark : Nat
  origin : Origin
  deriving DecidableEq, Repr

def Call.goto (c : Call) (pc : Pc) : Call := { c with pc }

@[simp] theorem Call.goto_pc (c : Call) (pc : Pc) : (c.goto pc).pc = pc := rfl
@[simp] theorem Call.goto_srcIp (c : Call) (pc : Pc) : (c.goto pc).srcIp = c.srcIp := rfl
@[simp] theorem Call.goto_id (c : Call) (pc : Pc) : (c.goto pc).id = c.id := rfl
@[simp] theorem Call.goto_mark (c : Call) (pc : Pc) : (c.goto pc).mark = c.mark := rfl
@[simp] theorem Call.goto_origin (c : Call) (pc : Pc) : (c.goto pc).origin = c.origin := rfl

/-- A call of `qmark_handle` about to begin. -/
def Call.handle (srcIp : Be32) (id : Nat) : Call :=
  { srcIp, id, pc := .find, mark := 0, origin := .nowhere }

/-- A call of `qmark_alloc_mark_auto` about to begin. -/
def Call.alloc (srcIp : Be32) (id mark : Nat) : Call :=
  { srcIp, id, pc := .testReset, mark, origin := .nowhere }

/-- The next step of a call.  A call that has returned stays where it is. -/
def stepCall (env : Env) (c : Call) (s : St) : Except Oops (Call × St) :=
  match c.pc with
  | .find => do
    let (_, mark) ← qmarkFindHash c.srcIp s
    if mark = 0 then return ({ c with pc := .testReset, mark }, s)
    else return ({ c with pc := .ret .ok, mark }, s)
  | .testReset =>
    if s.resetFlag = true then .ok (c.goto (.ret .error), s) else .ok (c.goto .testMode, s)
  | .testMode => do
    let rn ← ruleAt c.id s
    if privMode = rn.mode then return (c.goto .allocPriv, s) else return (c.goto .testCount, s)
  | .allocPriv => do
    let (ret, mark, s) ← qmarkAllocMark s
    if ret ≠ .ok then return ({ c with pc := .ret .error, mark }, s)
    else return ({ c with pc := .addHash, mark, origin := .priv }, s)
  | .testCount => do
    let rn ← ruleAt c.id s
    if 0 = rn.count then return (c.goto .allocFirst, s) else return (c.goto .loadMark, s)
  | .allocFirst => do
    let (ret, mark, s) ← qmarkAllocMark s
    if ret ≠ .ok then return ({ c with pc := .ret .error, mark }, s)
    else return ({ c with pc := .storeMark, mark, origin := .first }, s)
  | .storeMark => do
    let s ← modifyRule c.id (fun rn => { rn with mark := c.mark }) s
    return (c.goto .addHash, s)
  | .loadMark => do
    let rn ← ruleAt c.id s
    return ({ c with pc := .addHash, mark := rn.mark, origin := .group }, s)
  | .addHash => do
    let (ret, s) ← qmarkAddHash env c.srcIp c.id c.mark s
    if ret ≠ .ok then return (c.goto .retestMode, s) else return (c.goto .tcAdd, s)
  | .retestMode => do
    let rn ← ruleAt c.id s
    if privMode = rn.mode then return (c.goto .clearMark, s) else return (c.goto .retestCount, s)
  | .retestCount => do
    let rn ← ruleAt c.id s
    if 0 = rn.count then return (c.goto .clearMark, s) else return (c.goto (.ret .error), s)
  | .clearMark => do
    let s ← modifyRule c.id (fun rn => { rn with mark := 0 }) s
    return (c.goto .freeMark, s)
  | .freeMark => do
    let s ← qmarkFreeMark c.mark s
    return (c.goto (.ret .error), s)
  | .tcAdd => do
    let rn ← ruleAt c.id s
    let s ← qmarkTcAddRule env rn c.mark s
    return (c.goto (.ret .ok), s)
  | .ret _ => .ok (c, s)

/-! ## A call that is left alone

Its steps one after the other are the function of which it is a call. -/

/-- `n` steps of one call with nothing in between. -/
def runCall (env : Env) : Nat → Call → St → Except Oops (Call × St)
  | 0, c, s => .ok (c, s)
  | n + 1, c, s => do
    let (c, s) ← stepCall env c s
    runCall env n c s

/-- What the caller gets: the code, `*mark`, and the state. -/
def outcome (r : Call × St) : Pc × Nat × St := (r.1.pc, r.1.mark, r.2)

def returned (r : RetCode × Nat × St) : Pc × Nat × St := (.ret r.1, r.2.1, r.2.2)

theorem runCall_ret (env : Env) (n : Nat) {c : Call} {code : RetCode} (pc : c.pc = .ret code)
    (s : St) : runCall env n c s = .ok (c, s) := by
  induction n with
  | zero => rfl
  | succ n ih =>
    have stays : stepCall env c s = .ok (c, s) := by
      rw [stepCall, pc]
    rw [runCall, stays, ok_bind]
    exact ih

@[simp] theorem runCall_succ (env : Env) (n : Nat) (c : Call) (s : St) :
    runCall env (n + 1) c s = (stepCall env c s >>= fun r => runCall env n r.1 r.2) := rfl

@[simp] theorem map_error {ε α β : Type} (f : α → β) (e : ε) :
    (Except.error e : Except ε α).map f = .error e := rfl

@[simp] theorem map_ok {ε α β : Type} (f : α → β) (a : α) :
    (Except.ok a : Except ε α).map f = .ok (f a) := rfl

theorem map_eq_ok {ε α β : Type} {x : Except ε α} {f : α → β} {b : β} (h : x.map f = .ok b) :
    ∃ a, x = .ok a ∧ f a = b := by
  cases x with
  | error e => cases h
  | ok a => exact ⟨a, rfl, Except.ok.inj h⟩

/-- After a failed `qmark_add_hash`. -/
theorem runCall_retestMode (env : Env) (n : Nat) {c : Call} (pc : c.pc = .retestMode) (s : St) :
    (runCall env (n + 4) c s).map outcome =
      ((do
        let rn ← ruleAt c.id s
        if privMode = rn.mode ∨ 0 = rn.count then
          let s ← modifyRule c.id (fun rn => { rn with mark := 0 }) s
          let s ← qmarkFreeMark c.mark s
          return (.error, c.mark, s)
        else return (.error, c.mark, s) : Except Oops (RetCode × Nat × St))).map returned := by
  -- both tests lead to the same two steps, the mark of the rule and the bitmap
  have clear : ∀ k, (runCall env (k + 2) (c.goto .clearMark) s).map outcome =
      ((do
        let s ← modifyRule c.id (fun rn => { rn with mark := 0 }) s
        let s ← qmarkFreeMark c.mark s
        return (.error, c.mark, s) : Except Oops (RetCode × Nat × St))).map returned := by
    intro k
    cases scratch : modifyRule c.id (fun rn => { rn with mark := 0 }) s with
    | error e => simp [stepCall, scratch]
    | ok s₁ =>
      cases free : qmarkFreeMark c.mark s₁ with
      | error e => simp [stepCall, scratch, free]
      | ok s₂ =>
        simp [stepCall, scratch, free, runCall_ret env k (Call.goto_pc _ _), outcome, returned]
  cases rule : ruleAt c.id s with
  | error e => simp [stepCall, pc, rule]
  | ok rn =>
    by_cases mode : privMode = rn.mode
    · have tested : stepCall env c s = .ok (c.goto .clearMark, s) := by
        simp [stepCall, pc, rule, mode]
      rw [runCall_succ, tested, ok_bind, clear (n + 1)]
      simp [mode]
    · have tested : stepCall env c s = .ok (c.goto .retestCount, s) := by
        simp [stepCall, pc, rule, mode]
      rw [runCall_succ, tested, ok_bind]
      by_cases count : 0 = rn.count
      · have counted : stepCall env (c.goto .retestCount) s = .ok (c.goto .clearMark, s) := by
          simp [stepCall, rule, ← count, Call.goto]
        rw [runCall_succ, counted, ok_bind, clear n]
        simp [← count]
      · have counted : stepCall env (c.goto .retestCount) s = .ok (c.goto (.ret .error), s) := by
          simp [stepCall, rule, count, Call.goto]
        rw [runCall_succ, counted, ok_bind, runCall_ret env _ (Call.goto_pc _ _)]
        simp [mode, count, outcome, returned]

/-- From `qmark_add_hash` on. -/
theorem runCall_addHash (env : Env) (n : Nat) {c : Call} (pc : c.pc = .addHash) (s : St) :
    (runCall env (n + 5) c s).map outcome =
      (allocMarkAutoAdd env c.srcIp c.id c.mark s).map returned := by
  cases add : qmarkAddHash env c.srcIp c.id c.mark s with
  | error e => simp [stepCall, pc, allocMarkAutoAdd, add]
  | ok result =>
    obtain ⟨ret, s₁⟩ := result
    -- an insertion that fails leads to the error path, one that succeeds to the tc section
    by_cases accepted : ret = .ok
    · have added : stepCall env c s = .ok (c.goto .tcAdd, s₁) := by
        simp [stepCall, pc, add, accepted]
      rw [runCall_succ, added, ok_bind]
      cases rule : ruleAt c.id s₁ with
      | error e => simp [stepCall, allocMarkAutoAdd, add, accepted, rule]
      | ok rn =>
        cases shown : qmarkTcAddRule env rn c.mark s₁ with
        | error e => simp [stepCall, allocMarkAutoAdd, add, accepted, rule, shown]
        | ok s₂ =>
          have last : stepCall env (c.goto .tcAdd) s₁ = .ok (c.goto (.ret .ok), s₂) := by
            simp [stepCall, rule, shown, Call.goto]
          rw [runCall_succ, last, ok_bind, runCall_ret env _ (Call.goto_pc _ _)]
          simp [allocMarkAutoAdd, add, accepted, rule, shown, outcome, returned]
    · have refused : stepCall env c s = .ok (c.goto .retestMode, s₁) := by
        simp [stepCall, pc, add, accepted]
      rw [runCall_succ, refused, ok_bind, runCall_retestMode env n (Call.goto_pc _ _)]
      simp only [allocMarkAutoAdd, add, ok_bind, ne_eq, accepted, not_false_eq_true, ↓reduceIte]
      rfl

/-- From `qmark_alloc_mark` of the private branch on. -/
theorem runCall_allocPriv (env : Env) (n : Nat) {c : Call} (pc : c.pc = .allocPriv) (s : St) :
    (runCall env (n + 6) c s).map outcome =
      ((do
        let (ret, mark, s) ← qmarkAllocMark s
        if ret ≠ .ok then return (.error, mark, s)
        else allocMarkAutoAdd env c.srcIp c.id mark s :
          Except Oops (RetCode × Nat × St))).map returned := by
  cases alloc : qmarkAllocMark s with
  | error e => simp [stepCall, pc, alloc]
  | ok result =>
    obtain ⟨ret, mark, s₁⟩ := result
    rw [runCall_succ]
    by_cases obtained : ret = .ok
    · simp only [stepCall, pc, alloc, ok_bind, obtained, ne_eq, not_true_eq_false, ↓reduceIte,
        pure_eq_ok]
      exact runCall_addHash env n rfl s₁
    · simp only [stepCall, pc, alloc, ok_bind, obtained, ne_eq, not_false_eq_true, ↓reduceIte,
        pure_eq_ok]
      rw [runCall_ret env _ rfl]
      rfl

/-- From `qmark_alloc_mark` of the share branch on. -/
theorem runCall_allocFirst (env : Env) (n : Nat) {c : Call} (pc : c.pc = .allocFirst) (s : St) :
    (runCall env (n + 7) c s).map outcome =
      ((do
        let (ret, mark, s) ← qmarkAllocMark s
        if ret ≠ .ok then return (.error, mark, s)
        else
          let s ← modifyRule c.id (fun rn => { rn with mark := mark }) s
          allocMarkAutoAdd env c.srcIp c.id mark s :
          Except Oops (RetCode × Nat × St))).map returned := by
  cases alloc : qmarkAllocMark s with
  | error e => simp [stepCall, pc, alloc]
  | ok result =>
    obtain ⟨ret, mark, s₁⟩ := result
    rw [runCall_succ]
    by_cases obtained : ret = .ok
    · simp only [stepCall, pc, alloc, ok_bind, obtained, ne_eq, not_true_eq_false, ↓reduceIte,
        pure_eq_ok]
      cases store : modifyRule c.id (fun rn => { rn with mark := mark }) s₁ with
      | error e => simp [stepCall, store]
      | ok s₂ =>
        rw [runCall_succ]
        simp only [stepCall, store, ok_bind, pure_eq_ok]
        -- the first member has stored its mark; from here on it is a call like the others
        exact runCall_addHash env n rfl s₂
    · simp only [stepCall, pc, alloc, ok_bind, obtained, ne_eq, not_false_eq_true, ↓reduceIte,
        pure_eq_ok]
      rw [runCall_ret env _ rfl]
      rfl

/-- A call of `qmark_alloc_mark_auto` that nothing interrupts. -/
theorem runCall_alloc (env : Env) (n : Nat) {c : Call} (pc : c.pc = .testReset) (s : St) :
    (runCall env (n + 10) c s).map outcome =
      (qmarkAllocMarkAuto env c.srcIp c.id c.mark s).map returned := by
  rw [runCall_succ]
  cases flag : s.resetFlag with
  | true =>
    simp only [stepCall, pc, flag, ↓reduceIte, ok_bind, qmarkAllocMarkAuto]
    rw [runCall_ret env _ (Call.goto_pc _ _)]
    rfl
  | false =>
    simp only [stepCall, pc, flag, Bool.false_eq_true, ↓reduceIte, ok_bind, qmarkAllocMarkAuto]
    rw [runCall_succ]
    cases rule : ruleAt c.id s with
    | error e => simp [stepCall, rule]
    | ok rn =>
      by_cases mode : privMode = rn.mode
      · simp only [stepCall, Call.goto_pc, Call.goto_id, rule, mode, ↓reduceIte, ok_bind,
          pure_eq_ok]
        -- a shorter branch leaves steps over, in which the call stays at `ret`
        exact runCall_allocPriv env (n + 2) rfl s
      · simp only [stepCall, Call.goto_pc, Call.goto_id, rule, mode, ↓reduceIte, ok_bind,
          pure_eq_ok]
        rw [runCall_succ]
        by_cases count : 0 = rn.count
        · simp only [stepCall, Call.goto_pc, Call.goto_id, rule, ← count, ↓reduceIte, ok_bind,
            pure_eq_ok]
          exact runCall_allocFirst env n rfl s
        · simp only [stepCall, Call.goto_pc, Call.goto_id, rule, count, ↓reduceIte, ok_bind,
            pure_eq_ok]
          rw [runCall_succ]
          simp only [stepCall, Call.goto_pc, Call.goto_id, rule, ok_bind, pure_eq_ok]
          exact runCall_addHash env (n + 1) rfl s

/-- The packet gets the mark that its call leaves, unless the call fails. -/
def marked (skb : SkBuff) (info : TgInfo) (r : Pc × Nat × St) : SkBuff × St :=
  (if r.1 = .ret .ok then { skb with mark := setMark skb.mark info.mask r.2.1 } else skb, r.2.2)

/-- A call of `qmark_handle` that nothing interrupts. -/
theorem runCall_handle (env : Env) (skb : SkBuff) (info : TgInfo) (s : St) :
    ((runCall env 11 (.handle (info.ipAddr skb) info.id) s).map outcome).map (marked skb info) =
      qmarkHandle env skb info s := by
  rw [runCall_succ]
  cases find : qmarkFindHash (info.ipAddr skb) s with
  | error e => simp [stepCall, Call.handle, qmarkHandle, find]
  | ok result =>
    obtain ⟨code, mark⟩ := result
    by_cases known : mark = 0
    · subst mark
      simp only [stepCall, Call.handle, find, ok_bind, ↓reduceIte, pure_eq_ok, qmarkHandle]
      rw [runCall_alloc env 0 rfl]
      cases auto : qmarkAllocMarkAuto env (info.ipAddr skb) info.id 0 s with
      | error e => rfl
      | ok result =>
        obtain ⟨ret, mark, s'⟩ := result
        by_cases accepted : ret = .ok
        · simp [accepted, returned, marked]
        · simp [accepted, returned, marked]
    · simp only [stepCall, Call.handle, find, ok_bind, known, ↓reduceIte, pure_eq_ok, qmarkHandle]
      rw [runCall_ret env _ rfl]
      rfl

/-! ## The module with calls in flight -/

/-- `resets` counts the calls `qmark_reset(1)` between their write of `reset_flag` and
    their section.  `window` is a history variable: a `qmark_reset(1)` has returned and
    no `qmark_reset(0)` has started since. -/
structure Sys (ι : Type) where
  st : St
  call : ι → Call
  resets : Nat
  window : Bool

inductive Label (ι : Type) where
  /-- the next step of a call -/
  | call (i : ι) (env : Env)
  /-- a conntrack event, under `qmark_op_lock` as a whole -/
  | event (env : Env) (events : Nat) (ct : Option NfConn)
  /-- `reset_flag = true` in `qmark_reset(1)` -/
  | resetOn
  /-- the rest of `qmark_reset(1)` -/
  | resetFlush (env : Env)
  /-- `qmark_reset(0)` -/
  | resetOff

variable {ι : Type} [DecidableEq ι]

def Sys.setCall (x : Sys ι) (i : ι) (c : Call) (s : St) : Sys ι :=
  { x with st := s, call := Function.update x.call i c }

def sysStep (l : Label ι) (x : Sys ι) : Except Oops (Sys ι) :=
  match l with
  | .call i env => do
    let (c, s) ← stepCall env (x.call i) x.st
    return x.setCall i c s
  | .event env events ct => do
    let s ← qmarkConntrackEvent env events ct x.st
    return { x with st := s }
  | .resetOn => .ok { x with st := { x.st with resetFlag := true }, resets := x.resets + 1 }
  | .resetFlush env =>
    -- nothing to do unless a RESET 1 is on its way to the section
    if x.resets = 0 then .ok x
    else do
      let s ← resetSection env x.st
      return { x with st := s, resets := x.resets - 1, window := true }
  | .resetOff => .ok { x with st := { x.st with resetFlag := false }, window := false }

def Sys.start (s : St) (call : ι → Call) : Sys ι := { st := s, call, resets := 0, window := false }

/-- The two steps of `qmark_reset(1)` and the one of `qmark_reset(0)` are the function. -/
theorem sysStep_reset (env : Env) (x : Sys ι) :
    (sysStep .resetOn x >>= sysStep (.resetFlush env)).map Sys.st = qmarkReset env 1 x.st ∧
      (sysStep .resetOff x).map Sys.st = qmarkReset env 0 x.st := by
  constructor
  · simp only [sysStep, ok_bind, Nat.add_eq_zero_iff, Nat.one_ne_zero, and_false, ↓reduceIte,
      qmarkReset, Nat.zero_ne_one]
    cases flushed : resetSection env { x.st with resetFlag := true } with
    | error e => rfl
    | ok s => rfl
  · rfl

end IpQos.Kmod
