import IpQos.Verified.Alike
import IpQos.Verified.Shape

/-! # A reset is a restart

`RESET 1` and `RESET 0` leave the parameters and the marks of the rules behind, a
`SPEC_SET` followed by a `RULE_ADD` of each rule that is on only the parameters.  Both
lead to states alike.  `SPEC_SET` does not clear `reset_flag`, so the second way ends
with a `RESET 0` as well unless the flag was clear before. -/

namespace IpQos.Verified

open IpQos.Kmod
open IpQos.Lib (Run Allowed runAll contents)

/-! ## The two ways -/

def restart (env : Env) : List (Env × Op) :=
  [(env, .ioctl (.reset 1)), (env, .ioctl (.reset 0))]

/-- The `RULE_ADD` that leads to the parameters of a record. -/
def readd (i : Nat) (rn : RuletblNode) : QmarkRule :=
  { id := i + 1, mode := rn.mode, devid := rn.devid, rate := rn.rate, rateMate := rn.rateMate,
    rateMin := rn.rateMin, rateMinMate := rn.rateMinMate }

/-- The rules that are on, from index `i` on. -/
def rulesOn (i : Nat) : List RuletblNode → List QmarkRule
  | [] => []
  | rn :: tbl => if rn.on = true then readd i rn :: rulesOn (i + 1) tbl else rulesOn (i + 1) tbl

def currentRules (s : St) : List QmarkRule :=
  match s.gRuletbl with
  | .to tbl => rulesOn 0 tbl
  | _ => []

def readdAll (env : Env) (rules : List QmarkRule) : List (Env × Op) :=
  rules.map fun qr => (env, .ioctl (.ruleAdd qr))

def rebuild (env : Env) (s : St) : List (Env × Op) :=
  (env, .ioctl (.specSet s.maxIpCnt s.maxRuleCnt)) :: readdAll env (currentRules s)

/-! ## Where they lead -/

variable {env : Env} {s : St}

/-- Allocations and copies succeed. -/
def Working (env : Env) : Prop := AllocatesTables env ∧ 0 ≤ env.copyFromUser

theorem afterCopy_working (working : Working env) (body : Except Oops (Reply × St)) :
    afterCopy env s body = body := by
  unfold afterCopy
  rw [if_neg (Int.not_lt.mpr working.2)]

/-- Empty tables of the current sizes. -/
def emptied (s : St) : St :=
  { s with
    resetFlag := false
    markBitmap := .to (List.replicate s.maxIpCnt false)
    gMarktblHead := .to
      { elemNum := 0, size := s.maxIpCnt, ht := List.replicate s.maxIpCnt [] } }

theorem indexed_emptied (s : St) (i : Nat) : indexed (emptied s) i = 0 := by
  show (contents (List.replicate s.maxIpCnt ([] : List MarktblNode))).countP _ = 0
  rw [IpQos.Lib.contents_replicate_nil, Multiset.countP_zero]

theorem opStep_of_ioctl {cmd : QmarkIoc} {r : Reply} {s' : St}
    (ran : qmarkCdevIoctl env cmd s = .ok (r, s')) : opStep (env, .ioctl cmd) s = .ok s' := by
  rw [opStep_ioctl, ran]
  rfl

theorem reset_off (working : Working env) (x : St) :
    opStep (env, .ioctl (.reset 0)) x = .ok { x with resetFlag := false } := by
  apply opStep_of_ioctl (r := .done)
  show afterCopy env x _ = _
  rw [afterCopy_working working]
  rfl

theorem restart_ends (working : Working env) (shaped : Shaped s) {tbl : List RuletblNode}
    (live : s.gRuletbl = .to tbl) :
    runAll opStep (restart env) s =
      .ok ((emptied s).setRules (tbl.map fun rn => { rn with count := 0 })) := by
  obtain ⟨bm, liveBits, bitCnt⟩ := shaped.bits
  obtain ⟨tbl', live', ruleCnt, _⟩ := shaped.rules
  obtain rfl : tbl' = tbl := Ptr.to.inj (live'.symm.trans live)
  let flushed := { emptied s with resetFlag := true }
  have shapedFlag := shaped.setFlag true
  have flush : flushMark { s with resetFlag := true } =
      .ok ({ s with resetFlag := true }.setBits (List.replicate s.maxIpCnt false)) := by
    rw [Shaped.flushMark_eq (s := { s with resetFlag := true }) liveBits, bitCnt]
  have empty := (shapedFlag.flushMark flush).qmarkFlushHash_eq working.1
  have zero : clearCounts flushed =
      .ok (flushed.setRules (tbl'.map fun rn => { rn with count := 0 })) :=
    Shaped.clearCounts_eq live ruleCnt
  have section_ran : qmarkReset env 1 s =
      .ok (flushed.setRules (tbl'.map fun rn => { rn with count := 0 })) := by
    unfold qmarkReset resetSection
    rw [if_neg Nat.zero_ne_one, flush, ok_bind, empty, ok_bind]
    exact zero
  -- the second reset only clears the flag again
  have first : opStep (env, .ioctl (.reset 1)) s =
      .ok (flushed.setRules (tbl'.map fun rn => { rn with count := 0 })) := by
    apply opStep_of_ioctl (r := .done)
    show afterCopy env s _ = _
    rw [afterCopy_working working, section_ran]
    rfl
  unfold restart runAll
  rw [first]
  dsimp only
  unfold runAll
  rw [reset_off working]
  rfl

/-- `RULE_ADD` of a record that is on, into the cleared record. -/
theorem readd_zero {rn : RuletblNode} (isOn : rn.on = true) (i : Nat) :
    addedRule (readd i rn) .zero = rn.params := by
  obtain ⟨⟩ := rn
  cases isOn
  rfl

theorem modify_length {α : Type} (f : α → α) (done : List α) (a : α) (rest : List α) :
    (done ++ a :: rest).modify done.length f = done ++ f a :: rest := by
  induction done with
  | nil => rfl
  | cons b done ih => exact congrArg (b :: ·) ih

/-- The `RULE_ADD`s of the rules from one index on, the records before it being done. -/
theorem readdAll_ends (working : Working env) (x : St) (done : List RuletblNode)
    {tbl : List RuletblNode} (off : ∀ rn ∈ tbl, rn.on = false → rn.params = .zero)
    (lt : done.length + tbl.length < 2 ^ 32) :
    runAll opStep (readdAll env (rulesOn done.length tbl))
        (x.setRules (done ++ List.replicate tbl.length .zero)) =
      .ok (x.setRules (done ++ tbl.map RuletblNode.params)) := by
  induction tbl generalizing done with
  | nil => rfl
  | cons rn tbl ih =>
    -- one record further, whether it is on or cleared already
    have ihDone := ih (done ++ [rn.params])
      (fun rn' member => off rn' (List.mem_cons_of_mem rn member))
      (by simp only [List.length_append, List.length_cons, List.length_nil] at lt ⊢; omega)
    rw [List.append_assoc, List.append_assoc, List.length_append] at ihDone
    unfold rulesOn
    split
    · rename_i isOn
      have inRange : done.length < (done ++ List.replicate (rn :: tbl).length RuletblNode.zero).length := by
        simp
      have small : done.length + 1 < 2 ^ 32 := by
        simp only [List.length_cons] at lt
        omega
      have index : subU32 (readd done.length rn).id 1 = done.length :=
        subU32_one (Nat.le_add_left 1 _) small
      have added : qmarkAddRule (readd done.length rn).id rn.mode rn.devid rn.rate rn.rateMate
          rn.rateMin rn.rateMinMate
          (x.setRules (done ++ List.replicate (rn :: tbl).length .zero)) =
          .ok (x.setRules (done ++ ([rn.params] ++ List.replicate tbl.length .zero))) := by
        unfold qmarkAddRule modifyRule
        rw [deref_setRules, ok_bind]
        rw [index, if_pos inRange, setRules_setRules, List.length_cons, List.replicate_succ,
          modify_length, ← readd_zero isOn done.length]
        rfl
      have stepped : opStep (env, .ioctl (.ruleAdd (readd done.length rn)))
          (x.setRules (done ++ List.replicate (rn :: tbl).length .zero)) =
          .ok (x.setRules (done ++ ([rn.params] ++ List.replicate tbl.length .zero))) := by
        apply opStep_of_ioctl (r := .done)
        show afterCopy env _ _ = _
        rw [afterCopy_working working]
        show (qmarkAddRule (readd done.length rn).id rn.mode rn.devid rn.rate rn.rateMate
          rn.rateMin rn.rateMinMate _ >>= _) = _
        rw [added]
        rfl
      rw [readdAll, List.map_cons, runAll, stepped]
      exact ihDone
    · rename_i isOff
      -- the scripts add no rule that is off, and SPEC_SET has cleared its record
      have cleared : rn.params = .zero := off rn List.mem_cons_self (by simpa using isOff)
      rw [cleared] at ihDone
      rw [List.map_cons, cleared]
      exact ihDone

theorem rebuild_ends (working : Working env) (shaped : Shaped s) {tbl : List RuletblNode}
    (live : s.gRuletbl = .to tbl) :
    runAll opStep (rebuild env s) s =
      .ok ({ emptied s with resetFlag := s.resetFlag }.setRules (tbl.map RuletblNode.params)) := by
  obtain ⟨tbl', live', ruleCnt, off⟩ := shaped.rules
  obtain rfl : tbl' = tbl := Ptr.to.inj (live'.symm.trans live)
  have first : opStep (env, .ioctl (.specSet s.maxIpCnt s.maxRuleCnt)) s =
      .ok (respecified s s.maxIpCnt s.maxRuleCnt) := by
    apply opStep_of_ioctl (r := .done)
    show afterCopy env s _ = _
    rw [afterCopy_working working, shaped.qmarkSetSpec_eq working.1 shaped.unwrapped]
    rfl
  have rest := readdAll_ends working { emptied s with resetFlag := s.resetFlag } [] off
    (by rw [List.length_nil, ruleCnt, Nat.zero_add]; exact shaped.unwrapped.ruleCnt_lt)
  -- the rules added are those the table had before SPEC_SET
  have rules : currentRules s = rulesOn 0 tbl' := by
    unfold currentRules
    rw [live]
  rw [rebuild, runAll, first, rules]
  rw [List.nil_append, List.nil_append, ruleCnt] at rest
  exact rest

/-! ## Nothing tells them apart -/

/-- What operations return and what they hand to rtnetlink. -/
def observed (r : List Outcome × St) : List Outcome × List RtnlReq := (r.1, r.2.sent)

/-- The rules of a restart keep their marks, those of a rebuild have none. -/
theorem emptied_alike (s : St) (tbl : List RuletblNode) :
    Alike ((emptied s).setRules (tbl.map fun rn => { rn with count := 0 }))
      ((emptied s).setRules (tbl.map RuletblNode.params)) := by
  apply Alike.intro
  intro i
  rw [List.getElem?_map, List.getElem?_map, indexed_emptied]
  cases tbl[i]? with
  | none => exact .none
  | some rn => exact .some ⟨rfl, rfl, .inr (.inl rfl)⟩

/-- From any reachable state, however inconsistent, `RESET 1` and `RESET 0` are as good as
    setting the sizes and the rules again. -/
theorem restart_is_rebuild (reachable : Reachable s) (working : Working env) :
    ∃ a b, runAll opStep (restart env) s = .ok a ∧
      runAll opStep (rebuild env s ++ [(env, .ioctl (.reset 0))]) s = .ok b ∧
      (s.resetFlag = false → runAll opStep (rebuild env s) s = .ok b) ∧
      ∀ later, Allowed opStep Observing later a →
        (execAll later a).map observed = (execAll later b).map observed := by
  have shaped := reachable.shaped
  obtain ⟨tbl, live, _⟩ := shaped.rules
  have rebuilt := rebuild_ends working shaped live
  refine ⟨_, (emptied s).setRules (tbl.map RuletblNode.params), restart_ends working shaped live,
    ?_, ?_, ?_⟩
  · rw [IpQos.Lib.runAll_append rebuilt, runAll, reset_off working]
    rfl
  · intro flag
    rw [rebuilt, flag]
    rfl
  · intro later allowed
    apply (execAll_alike (emptied_alike s tbl) allowed).map_eq
    rintro ⟨outs, a⟩ ⟨_, b⟩ ⟨rfl, alike⟩
    obtain ⟨_, _⟩ := alike
    rfl

/-! ## Runs on fixed inputs -/

/-- Two addresses, a share rule, and a reset that has begun. -/
def flaggedTrace : List (Env × Op) :=
  [(plainEnv, .ioctl (.specSet 2 2)),
    (plainEnv, .ioctl (.ruleAdd ⟨1, shareMode, 2, 100, 0, 0, 0⟩)),
    (plainEnv, .ioctl (.reset 1))]

theorem flagged_reachable : Reachable { sharedSt with resetFlag := true } := by
  have allowed : Allowed opStep Allocating flaggedTrace (qosMarktblInit plainEnv).2 := by
    apply Allowed.of_forall
    intro l member x
    simp only [flaggedTrace, List.mem_cons, List.not_mem_nil, or_false] at member
    rcases member with rfl | rfl | rfl
    · exact ⟨plainEnv_alloc, by decide⟩
    · exact ⟨plainEnv_alloc, trivial⟩
    · exact ⟨plainEnv_alloc, trivial⟩
  exact ⟨plainEnv, plainEnv_alloc, Run.of_runAll allowed rfl⟩

def firstPacket : List (Env × Op) :=
  [(plainEnv, .packet ⟨0, 7, 9⟩ ⟨0x7f800, 1, 0⟩)]

/-- After a rebuild without `RESET 0` the flag refuses the packet that a restart marks. -/
theorem rebuild_keeps_flag :
    ¬ ∀ (env : Env) (s a b : St) (later : List (Env × Op)), Reachable s → Working env →
      runAll opStep (restart env) s = .ok a → runAll opStep (rebuild env s) s = .ok b →
      Allowed opStep Observing later a →
      (execAll later a).map observed = (execAll later b).map observed := by
  intro same
  have working : Working plainEnv := ⟨plainEnv_alloc, by decide⟩
  have shaped := flagged_reachable.shaped
  have differ := same plainEnv _ _ _ firstPacket flagged_reachable working
    (restart_ends working shaped rfl) (rebuild_ends working shaped rfl)
    (Allowed.of_forall (by simp [firstPacket, Observing]) _)
  revert differ
  decide

/-- A share rule that keeps the mark of before the reset, and an entry made behind its back. -/
def staleTrace : List (Env × Op) :=
  [(plainEnv, .ioctl (.specSet 2 2)),
    (plainEnv, .ioctl (.ruleAdd ⟨1, shareMode, 2, 100, 0, 0, 0⟩)),
    (plainEnv, .packet ⟨0, 7, 9⟩ ⟨0x7f800, 1, 0⟩),
    (plainEnv, .ioctl (.reset 1)),
    (plainEnv, .ioctl .markAlo),
    (plainEnv, .ioctl (.hashAdd ⟨9, 1, 0x800⟩))]

theorem staleTrace_reachable {s : St}
    (ran : runAll opStep staleTrace (qosMarktblInit plainEnv).2 = .ok s) : Reachable s := by
  have allowed : Allowed opStep Allocating staleTrace (qosMarktblInit plainEnv).2 := by
    apply Allowed.of_forall
    intro l member x
    simp only [staleTrace, List.mem_cons, List.not_mem_nil, or_false] at member
    rcases member with rfl | rfl | rfl | rfl | rfl | rfl
    · exact ⟨plainEnv_alloc, by decide⟩
    all_goals exact ⟨plainEnv_alloc, trivial⟩
  exact ⟨plainEnv, plainEnv_alloc, Run.of_runAll allowed ran⟩

/-- Two new addresses are marked alike after either way. -/
theorem flagged_restarts :
    ∃ s a b, runAll opStep staleTrace (qosMarktblInit plainEnv).2 = .ok s ∧
      (s.resetFlag = true ∧ s.registry.entries.card = 1 ∧ (s.registry.rule 1).mark = 0x800) ∧
      runAll opStep (restart plainEnv) s = .ok a ∧
      runAll opStep (rebuild plainEnv s ++ [(plainEnv, .ioctl (.reset 0))]) s = .ok b ∧
      (execAll (firstPacket ++ [(plainEnv, .packet ⟨0, 9, 7⟩ ⟨0x7f800, 2, 0⟩)]) a).map observed =
        (execAll (firstPacket ++ [(plainEnv, .packet ⟨0, 9, 7⟩ ⟨0x7f800, 2, 0⟩)]) b).map observed := by
  have working : Working plainEnv := ⟨plainEnv_alloc, by decide⟩
  obtain ⟨s, ran, facts⟩ : ∃ s, runAll opStep staleTrace (qosMarktblInit plainEnv).2 = .ok s ∧
      (s.resetFlag = true ∧ s.registry.entries.card = 1 ∧ (s.registry.rule 1).mark = 0x800) :=
    ⟨_, rfl, by decide⟩
  obtain ⟨a, b, restarted, rebuilt, _, same⟩ :=
    restart_is_rebuild (staleTrace_reachable ran) working
  exact ⟨s, a, b, ran, facts, restarted, rebuilt, same _
    (Allowed.of_forall (by simp [firstPacket, Observing]) a)⟩

end IpQos.Verified
