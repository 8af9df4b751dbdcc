import IpQos.Script.Service
import IpQos.Verified.RuleCount

/-! # Concurrent invocations

Any number of invocations of `main.sh`, in any interleaving.  Once all are finished the
rules are as if the invocations since the last `stop` had run one after the other, in the
order they got the lock, and none of them had been cut short. -/

namespace IpQos.Verified

open IpQos.Script
open IpQos.Lib (Body Inv Sys replayAlone runAll sinceCancel)

variable {u : Uci} {s : RulesSt} {name : Name} {ruleSpec : Nat}

/-! ## Bodies that nobody cuts short -/

theorem ruleUninstall_stopFlag (name : Name) (s : RulesSt) :
    (ruleUninstall name s).2.stopFlag = s.stopFlag := by
  unfold ruleUninstall
  split
  · split <;> rfl

theorem rulesTurns_alone {next : Option (Option Int) → Body RulesSt} (list : List Name)
    (ruleNum : Option Int) (running : s.stopFlag = false) :
    (rulesTurns u ruleSpec next list ruleNum).alone s =
      (next (rulesLoop u ruleSpec list ruleNum s).ruleNum).alone
        (rulesLoop u ruleSpec list ruleNum s).st := by
  induction list generalizing ruleNum s with
  | nil => rfl
  | cons name list ih =>
    unfold rulesTurns rulesLoop
    simp only [Body.alone, running, Bool.false_eq_true, if_false]
    by_cases reached : specReached ruleSpec ruleNum = true
    · rw [if_pos reached, if_pos reached]
    · rw [if_neg reached, if_neg reached]
      by_cases off : (!u.enabled name) = true
      · rw [if_pos off, if_pos off]
        exact ih _ running
      · rw [if_neg off, if_neg off]
        by_cases timed : u.timed name = true
        · rw [if_pos timed, if_pos timed]
          exact ih _ running
        · rw [if_neg timed, if_neg timed, Body.alone]
          cases ran : ruleInstall u name s with
          | mk status t =>
            -- nobody raises the flag in a run alone
            have running' := running_of_ruleInstall ran running
            cases status with
            | zero => exact ih _ running'
            | succ n => rfl

theorem rulesParseBody_alone (list : List Name) (next : Body RulesSt)
    (running : s.stopFlag = false) :
    (rulesParseBody u ruleSpec list next).alone s =
      next.alone (qosRulesParse u ruleSpec list s).2.2 := by
  show (rulesTurns u ruleSpec _ list s.ruleNum).alone s = _
  rw [rulesTurns_alone list s.ruleNum running]
  unfold qosRulesParse
  generalize rulesLoop u ruleSpec list s.ruleNum s = parsed
  obtain ⟨accepted, ruleNum?, st⟩ := parsed
  cases ruleNum? with
  | none => rfl
  | some ruleNum => rfl

theorem startBody_alone (initOk : Bool) (running : s.stopFlag = false) :
    (startBody u initOk ruleSpec).alone s = (qosStart u initOk ruleSpec s).2 := by
  unfold startBody qosStart
  by_cases noInit : (!initOk) = true
  · rw [if_pos noInit, if_pos noInit]
    rfl
  · rw [if_neg noInit, if_neg noInit]
    by_cases none : u.ruleList = []
    · simp only [none, if_true]
      rfl
    · simp only [none, if_false]
      show (rulesParseBody u ruleSpec u.ruleList _).alone _ = _
      rw [rulesParseBody_alone]
      · rfl
      · exact running

theorem deleteTurns_alone {next : Option Int → Body RulesSt} (list : List Name)
    (ruleNum : Option Int) (running : s.stopFlag = false) :
    (deleteTurns next list ruleNum).alone s =
      (next (deleteLoop list ruleNum s).1).alone (deleteLoop list ruleNum s).2 := by
  induction list generalizing ruleNum s with
  | nil => rfl
  | cons name list ih =>
    unfold deleteTurns deleteLoop
    simp only [Body.alone, run, running, Bool.false_eq_true, if_false]
    apply ih
    show (if s.enableLines name = [true] then (ruleUninstall name s).2 else s).stopFlag = false
    split
    · rw [ruleUninstall_stopFlag, running]
    · exact running

theorem reloadDeleteBody_alone (list : List Name) (running : s.stopFlag = false) :
    (reloadDeleteBody list).alone s = qosReloadDelete list s := by
  unfold reloadDeleteBody qosReloadDelete
  show (if !s.ready then _ else _ : Body RulesSt).alone s = _
  by_cases off : (!s.ready) = true
  · rw [if_pos off, if_pos off]
    rfl
  · rw [if_neg off, if_neg off]
    by_cases none : list = []
    · rw [if_pos none, if_pos none]
      rfl
    · rw [if_neg none, if_neg none, deleteTurns_alone list s.ruleNum running]
      rfl

theorem foldl_stopFlag {f : RulesSt → Name → RulesSt}
    (keeps : ∀ s name, (f s name).stopFlag = s.stopFlag) (list : List Name) (s : RulesSt) :
    (list.foldl f s).stopFlag = s.stopFlag := by
  induction list generalizing s with
  | nil => rfl
  | cons name list ih =>
    rw [List.foldl_cons, ih, keeps]

theorem foldl_setEnable_stopFlag (list : List Name) (s : RulesSt) :
    (list.foldl (fun s name => setEnable u name s) s).stopFlag = s.stopFlag :=
  foldl_stopFlag (f := fun s name => setEnable u name s) (fun _ _ => rfl) list s

theorem reloadAddBody_alone (list : List Name) (running : s.stopFlag = false) :
    (reloadAddBody u ruleSpec list).alone s = (qosReloadAdd u ruleSpec list s).2 := by
  unfold reloadAddBody qosReloadAdd
  show (if !s.ready then _ else _ : Body RulesSt).alone s = _
  by_cases off : (!s.ready) = true
  · rw [if_pos off, if_pos off]
    rfl
  · rw [if_neg off, if_neg off]
    by_cases none : list = []
    · rw [if_pos none, if_pos none]
      rfl
    · rw [if_neg none, if_neg none]
      show (rulesParseBody u ruleSpec list .done).alone _ = _
      rw [rulesParseBody_alone]
      · rfl
      · exact (foldl_setEnable_stopFlag list s).trans running

theorem turns_alone (f : Name → RulesSt → RulesSt) (next : Body RulesSt) (list : List Name)
    (s : RulesSt) : (turns f next list).alone s = next.alone (list.foldl (fun s name => f name s) s) := by
  induction list generalizing s with
  | nil => rfl
  | cons name list ih => exact ih _

theorem reloadUpdateBody_alone (list : List Name) :
    (reloadUpdateBody u list).alone s = qosReloadUpdate u list s := by
  unfold reloadUpdateBody qosReloadUpdate
  show (if !s.ready then _ else _ : Body RulesSt).alone s = _
  by_cases off : (!s.ready) = true
  · rw [if_pos off, if_pos off]
    rfl
  · rw [if_neg off, if_neg off, turns_alone, turns_alone]
    rfl

theorem timeCommand_stopFlag (mode : TimeMode) (name : Name) (s : RulesSt) :
    (timeCommand u mode name s).2.stopFlag = s.stopFlag := by
  unfold timeCommand
  split
  · rfl
  · exact ruleUninstall_stopFlag name s

theorem timeCommand_def (mode : TimeMode) (name : Name) (s : RulesSt) :
    (if mode = .active then ruleInstall u name s else ruleUninstall name s) =
      timeCommand u mode name s := rfl

theorem timeTurns_alone (mode : TimeMode) (list : List Name) (running : s.stopFlag = false) :
    (timeTurns u mode list).alone s = timeLoop u mode list s := by
  induction list generalizing s with
  | nil => rfl
  | cons name list ih =>
    unfold timeTurns timeLoop
    simp only [Body.alone, running, Bool.false_eq_true, if_false]
    by_cases missing : (u.rule? name).isNone = true
    · rw [if_pos missing, if_pos missing]
      exact ih running
    · rw [if_neg missing, if_neg missing, Body.alone]
      have keeps := timeCommand_stopFlag (u := u) mode name s
      rw [timeCommand_def]
      cases ran : timeCommand u mode name s with
      | mk status t =>
        rw [ran] at keeps
        cases status with
        | zero => exact ih (keeps.trans running)
        | succ n => rfl

theorem timeBody_alone (mode : TimeMode) (list : List Name) (running : s.stopFlag = false) :
    (timeBody u mode list).alone s = qosTimeHandle u mode list s := by
  unfold timeBody qosTimeHandle
  show (if !s.ready then _ else _ : Body RulesSt).alone s = _
  by_cases off : (!s.ready) = true
  · rw [if_pos off, if_pos off]
    rfl
  · rw [if_neg off, if_neg off, timeTurns_alone mode list running]

theorem reinstall_stopFlag (name : Name) (s : RulesSt) :
    (reinstall u name s).stopFlag = s.stopFlag := by
  have keeps := ruleUninstall_stopFlag name s
  unfold reinstall
  cases ran : ruleUninstall name s with
  | mk status t =>
    rw [ran] at keeps
    cases status with
    | zero => exact keeps
    | succ n => exact keeps

theorem ipgroupTurns_alone (list : List Name) (running : s.stopFlag = false) :
    (ipgroupTurns u list).alone s = ipgroupLoop u list s := by
  induction list generalizing s with
  | nil => rfl
  | cons name list ih =>
    unfold ipgroupTurns ipgroupLoop
    simp only [Body.alone, run, running, Bool.false_eq_true, if_false]
    exact ih ((reinstall_stopFlag name s).trans running)

theorem ipgroupBody_alone (update : Bool) (obj : IpGroup) (running : s.stopFlag = false) :
    (ipgroupBody u update obj).alone s = qosIpgroupHandle u update obj s := by
  unfold ipgroupBody qosIpgroupHandle
  show (if !s.ready then _ else _ : Body RulesSt).alone s = _
  by_cases off : (!s.ready) = true
  · rw [if_pos off, if_pos off]
    rfl
  rw [if_neg off, if_neg off]
  by_cases any : obj = .ipgroupAny
  · rw [if_pos any, if_pos any]
    rfl
  rw [if_neg any, if_neg any]
  by_cases deleted : (!update) = true
  · rw [if_pos deleted, if_pos deleted]
    rfl
  · rw [if_neg deleted, if_neg deleted, ipgroupTurns_alone _ running]

/-- The turns of a body are what the handler does. -/
theorem body_alone (c : Invocation) (running : s.stopFlag = false) : c.body.alone s = c.run s := by
  cases c with
  | start u initOk ruleSpec => exact startBody_alone initOk running
  | stop => rfl
  | reloadDelete list => exact reloadDeleteBody_alone list running
  | reloadAdd u ruleSpec list => exact reloadAddBody_alone list running
  | reloadUpdate u list => exact reloadUpdateBody_alone list
  | time u mode list => exact timeBody_alone mode list running
  | ipgroup u update obj => exact ipgroupBody_alone update obj running
  | other => rfl

/-! ## The flag of the state stays down -/

theorem qosRulesParse_stopFlag (list : List Name) (s : RulesSt) :
    (qosRulesParse u ruleSpec list s).2.2.stopFlag = s.stopFlag := by
  have keeps := (rulesLoop_keeps u ruleSpec list s.ruleNum s).2
  unfold qosRulesParse
  generalize rulesLoop u ruleSpec list s.ruleNum s = parsed at *
  obtain ⟨accepted, ruleNum?, st⟩ := parsed
  cases ruleNum? with
  | none => exact keeps
  | some ruleNum => exact keeps

theorem timeLoop_stopFlag (mode : TimeMode) (list : List Name) (running : s.stopFlag = false) :
    (timeLoop u mode list s).stopFlag = false := by
  induction list generalizing s with
  | nil => exact running
  | cons name list ih =>
    unfold timeLoop
    simp only [running, Bool.false_eq_true, if_false]
    split
    · exact ih running
    · have keeps := timeCommand_stopFlag (u := u) mode name s
      rw [timeCommand_def]
      cases ran : timeCommand u mode name s with
      | mk status t =>
        rw [ran] at keeps
        cases status with
        | zero => exact ih (keeps.trans running)
        | succ n => exact keeps.trans running

theorem ipgroupLoop_stopFlag (list : List Name) (running : s.stopFlag = false) :
    (ipgroupLoop u list s).stopFlag = false := by
  induction list generalizing s with
  | nil => exact running
  | cons name list ih =>
    unfold ipgroupLoop
    simp only [running, Bool.false_eq_true, if_false]
    exact ih ((reinstall_stopFlag name s).trans running)

theorem updateRule_stopFlag (name : Name) (s : RulesSt) :
    (updateRule u name s).stopFlag = s.stopFlag := by
  show (if _ then _ else _ : RulesSt).stopFlag = _
  split <;> rfl

theorem run_stopFlag (c : Invocation) (running : s.stopFlag = false) :
    (c.run s).stopFlag = false := by
  -- only `stop` raises the flag, and it lowers it again
  cases c with
  | start u initOk ruleSpec =>
    show (qosStart u initOk ruleSpec s).2.stopFlag = false
    unfold qosStart
    split
    · exact running
    · by_cases none : u.ruleList = []
      · simp only [none, if_true]
        exact running
      · simp only [none, if_false]
        exact (qosRulesParse_stopFlag u.ruleList _).trans running
  | stop => rfl
  | reloadDelete list =>
    show (qosReloadDelete list s).stopFlag = false
    unfold qosReloadDelete
    split
    · exact running
    · split
      · exact running
      · exact (deleteLoop_counts list s.ruleNum running).2
  | reloadAdd u ruleSpec list =>
    show (qosReloadAdd u ruleSpec list s).2.stopFlag = false
    unfold qosReloadAdd
    split
    · exact running
    · split
      · exact running
      · rw [qosRulesParse_stopFlag, foldl_setEnable_stopFlag, running]
  | reloadUpdate u list =>
    show (qosReloadUpdate u list s).stopFlag = false
    unfold qosReloadUpdate
    split
    · exact running
    · rw [foldl_stopFlag fun s name => updateRule_stopFlag name s,
        foldl_stopFlag fun s name => ruleUninstall_stopFlag name s, running]
  | time u mode list =>
    show (qosTimeHandle u mode list s).stopFlag = false
    unfold qosTimeHandle
    split
    · exact running
    · exact timeLoop_stopFlag mode list running
  | ipgroup u update obj =>
    show (qosIpgroupHandle u update obj s).stopFlag = false
    unfold qosIpgroupHandle
    split
    · exact running
    · split
      · exact running
      · split
        · exact running
        · exact ipgroupLoop_stopFlag _ running
  | other => exact running

/-- What is left where the last job run alone was a `stop`. -/
structure Destroyed (s : RulesSt) : Prop where
  chain : s.nf.chain = none
  install : ∀ name, s.nf.install name = false
  sets : ∀ set ∈ s.sets, "qos_".toList.isPrefixOf set = false
  ruleNum : s.ruleNum = none
  enableLines : ∀ name, s.enableLines name = []
  ready : s.ready = false
  stopFlag : s.stopFlag = false

theorem qosDestroy_destroyed (s : RulesSt) : Destroyed (qosDestroy s) := by
  refine ⟨rfl, fun _ => rfl, ?_, rfl, fun _ => rfl, rfl, rfl⟩
  intro set member
  simpa using (List.mem_filter.mp member).2

/-- One after the other, latest first. -/
def runInOrder {ι : Type} (calls : ι → Invocation) (taken : List ι) (s : RulesSt) : RulesSt :=
  taken.foldr (fun i s => (calls i).run s) s

theorem replayAlone_eq {ι : Type} (calls : ι → Invocation) (taken : List ι)
    (running : s.stopFlag = false) :
    replayAlone (fun i => (calls i).job) taken s = runInOrder calls taken s ∧
      (runInOrder calls taken s).stopFlag = false := by
  induction taken with
  | nil => exact ⟨rfl, running⟩
  | cons i taken ih =>
    obtain ⟨same, stays⟩ := ih
    refine ⟨?_, run_stopFlag (calls i) stays⟩
    show (calls i).body.alone (replayAlone _ taken s) = (calls i).run (runInOrder calls taken s)
    rw [same, body_alone (calls i) stays]

/-- The flag is down, and the invocations since the last `stop`, or all of them, have run in the
    order they got the lock, each to its end. -/
def Serialized {ι : Type} (calls : ι → Invocation) (s : RulesSt) (t : Sys RulesSt ι) : Prop :=
  t.flag = false ∧
    ((∀ i ∈ t.taken, (calls i).isStop = false) ∧ t.shared = runInOrder calls t.taken s ∨
      (∃ i ∈ t.taken, (calls i).isStop = true) ∧ ∃ d, Destroyed d ∧
        t.shared = runInOrder calls (t.taken.takeWhile fun i => !(calls i).isStop) d)

theorem serialized_of_quiet {ι : Type} (calls : ι → Invocation) (running : s.stopFlag = false)
    {t : Sys RulesSt ι} (inv : Inv (fun i => (calls i).job) s t) (quiet : t.Quiet) :
    Serialized calls s t := by
  obtain ⟨down, serial⟩ := inv.quiet quiet
  refine ⟨down, ?_⟩
  rcases serial with ⟨ordinary, same⟩ | ⟨k, member, z, isStop, same⟩
  · exact .inl ⟨ordinary, same.trans (replayAlone_eq calls t.taken running).1⟩
  · have destroyed : Destroyed ((calls k).job.body.alone z) := by
      have isStop : (calls k).isStop = true := isStop
      show Destroyed ((calls k).body.alone z)
      cases call : calls k with
      | stop => exact qosDestroy_destroyed z
      | _ =>
        rw [call] at isStop
        cases isStop
    refine .inr ⟨⟨k, member, isStop⟩, _, destroyed, ?_⟩
    exact same.trans (replayAlone_eq calls _ destroyed.stopFlag).1

/-- However any number of invocations are interleaved: until all are finished one of them can
    go on, and then no rule list that was cut short has outlasted its `stop`. -/
theorem invocations_serialize {ι : Type} [DecidableEq ι] (calls : ι → Invocation)
    (running : s.stopFlag = false) {moves : List ι} {t : Sys RulesSt ι}
    (ran : runAll (Sys.move fun i => (calls i).job) moves (.start s) = .ok t) :
    (t.Quiet → Serialized calls s t) ∧
      (¬ t.Quiet → ∃ i t', (t.phase i).present ∧ t.move (fun i => (calls i).job) i = .ok t') :=
  ⟨serialized_of_quiet calls running (Inv.of_run ran), (Inv.of_run ran).can_move⟩

/-- A `start` and a `stop`. -/
def startAndStop (stop : Bool) : Invocation :=
  if stop then .stop else .start twoRules true 20

def offSt : RulesSt := { readySt with ready := false, ruleNum := none }

/-- The `stop` comes when the `start` has the lock and has not looked at its first rule. -/
def stopDuringStart : List Bool :=
  [false, false, false, false, true, false, false, false, false, true, true, true, true]

theorem stop_during_start_serializes :
    ∃ t, runAll (Sys.move fun i => (startAndStop i).job) stopDuringStart (.start offSt) = .ok t ∧
      t.Quiet ∧ Serialized startAndStop offSt t := by
  have runs : ∃ t, runAll (Sys.move fun i => (startAndStop i).job) stopDuringStart
      (.start offSt) = .ok t ∧ t.Quiet := by
    refine ⟨_, rfl, ?_⟩
    intro i
    cases i <;> exact id
  obtain ⟨t, ran, quiet⟩ := runs
  exact ⟨t, ran, quiet, (invocations_serialize startAndStop rfl ran).1 quiet⟩

end IpQos.Verified
