import IpQos.Lib.Exclusive
import IpQos.Script.Rules

/-! # Invocations of the service

`main.sh` from its last lines: `stop` raises `QOS_STOP_FLAG`, everybody waits for the lock
on `QOS_LOCK`, and one of the handlers runs under it.  A handler stands here twice, as what
it does to the rules, and as the body that does so turn by turn and looks at the flag where
the source does. -/

namespace IpQos.Script

open IpQos.Lib (Body Job)

/-! ## The handlers -/

/-- `qos_destroy`; its last command removes the flag. -/
def qosDestroy (s : RulesSt) : RulesSt :=
  { nf := { s.nf with chain := none, install := fun _ => false }
    sets := s.sets.filter fun set => !"qos_".toList.isPrefixOf set
    ruleNum := none
    enableLines := fun _ => []
    ready := false
    stopFlag := false }

/-- `[ "$timeobj" = "Any" ]` where a self-defined object has got the name of the rule. -/
def anyTime (u : Uci) (name : Name) : Bool :=
  !u.timed name || (u.time name = .selfDefine && name.text = "Any".toList)

/-- One turn of the second loop over `update_list`. -/
def updateRule (u : Uci) (name : Name) (s : RulesSt) : RulesSt :=
  setEnable u name (if u.enabled name && anyTime u name then (ruleInstall u name s).2 else s)

/-- Neither loop over `update_list` looks at the flag. -/
def qosReloadUpdate (u : Uci) (list : List Name) (s : RulesSt) : RulesSt :=
  if !s.ready then s
  else
    let s := list.foldl (fun s name => (ruleUninstall name s).2) s
    list.foldl (fun s name => updateRule u name s) s

/-- The rules that `rule_get` of `qos_ipgroup_handle` collects. -/
def groupRules (u : Uci) (obj : IpGroup) : List Name :=
  (u.rules.filter fun rule => rule.ipGroup = obj).map (·.name)

/-- `qos_rule_uninstall $rule && qos_rule_install $rule` -/
def reinstall (u : Uci) (name : Name) (s : RulesSt) : RulesSt :=
  match ruleUninstall name s with
  | (0, s) => (ruleInstall u name s).2
  | (_, s) => s

def ipgroupLoop (u : Uci) : List Name → RulesSt → RulesSt
  | [], s => s
  | name :: list, s => if s.stopFlag then s else ipgroupLoop u list (reinstall u name s)

def qosIpgroupHandle (u : Uci) (update : Bool) (obj : IpGroup) (s : RulesSt) : RulesSt :=
  if !s.ready then s
  else if obj = .ipgroupAny then s
  else if !update then s
  else ipgroupLoop u (groupRules u obj) s

/-! ## Turn by turn -/

/-- A command that nothing is asked about. -/
def run (f : RulesSt → RulesSt) (next : Body RulesSt) : Body RulesSt := .act f fun _ => next

/-- `next` depends on the state, which stays as it is. -/
def ask (next : RulesSt → Body RulesSt) : Body RulesSt := .act id next

/-- The loop of `qos_rules_parse`; `next` gets what `Parsed.ruleNum` tells. -/
def rulesTurns (u : Uci) (ruleSpec : Nat) (next : Option (Option Int) → Body RulesSt) :
    List Name → Option Int → Body RulesSt
  | [], ruleNum => next (some ruleNum)
  | name :: list, ruleNum =>
    .check
      (if specReached ruleSpec ruleNum then next none
      else
        let ruleNum := some (ruleNum.getD 0 + 1)
        if !u.enabled name then rulesTurns u ruleSpec next list ruleNum
        else if u.timed name then rulesTurns u ruleSpec next list ruleNum
        else
          .act (fun s => (ruleInstall u name s).2) fun s =>
            if (ruleInstall u name s).1 = 0 then rulesTurns u ruleSpec next list ruleNum
            else next (some ruleNum))
      (next (some ruleNum))

def rulesParseBody (u : Uci) (ruleSpec : Nat) (list : List Name) (next : Body RulesSt) :
    Body RulesSt :=
  ask fun s => rulesTurns u ruleSpec
    (fun ruleNum? =>
      match ruleNum? with
      | some ruleNum => run (fun s => { s with ruleNum := ruleNum }) next
      | none => next) list s.ruleNum

def startBody (u : Uci) (initOk : Bool) (ruleSpec : Nat) : Body RulesSt :=
  if !initOk then .done
  else
    let touchReady := run (fun s => { s with ready := true }) .done
    if u.ruleList = [] then touchReady
    else
      run (fun s => stateGen u { s with ruleNum := some 0 })
        (rulesParseBody u ruleSpec u.ruleList touchReady)

/-- The loop over `del_list`. -/
def deleteTurns (next : Option Int → Body RulesSt) : List Name → Option Int → Body RulesSt
  | [], ruleNum => next ruleNum
  | name :: list, ruleNum =>
    .check
      (run (fun s =>
          stateDel name (if s.enableLines name = [true] then (ruleUninstall name s).2 else s))
        (deleteTurns next list (some (ruleNum.getD 0 - 1))))
      (next ruleNum)

def reloadDeleteBody (list : List Name) : Body RulesSt :=
  ask fun s =>
    if !s.ready then .done
    else if list = [] then .done
    else deleteTurns (fun ruleNum => run (fun s => { s with ruleNum := ruleNum }) .done) list
      s.ruleNum

def reloadAddBody (u : Uci) (ruleSpec : Nat) (list : List Name) : Body RulesSt :=
  ask fun s =>
    if !s.ready then .done
    else if list = [] then .done
    else
      run (fun s => list.foldl (fun s name => setEnable u name s) s)
        (rulesParseBody u ruleSpec list .done)

/-- A command for every rule of the list, one after the other. -/
def turns (f : Name → RulesSt → RulesSt) (next : Body RulesSt) : List Name → Body RulesSt
  | [] => next
  | name :: list => run (f name) (turns f next list)

def reloadUpdateBody (u : Uci) (list : List Name) : Body RulesSt :=
  ask fun s =>
    if !s.ready then .done
    else turns (fun name s => (ruleUninstall name s).2) (turns (updateRule u) .done list) list

/-- What `qos_time_handle` does to a rule. -/
def timeCommand (u : Uci) (mode : TimeMode) (name : Name) (s : RulesSt) : Nat × RulesSt :=
  if mode = .active then ruleInstall u name s else ruleUninstall name s

def timeTurns (u : Uci) (mode : TimeMode) : List Name → Body RulesSt
  | [] => .done
  | name :: list =>
    .check
      (if (u.rule? name).isNone then timeTurns u mode list
      else
        .act (fun s => (timeCommand u mode name s).2) fun s =>
          if (timeCommand u mode name s).1 = 0 then timeTurns u mode list else .done)
      .done

def timeBody (u : Uci) (mode : TimeMode) (list : List Name) : Body RulesSt :=
  ask fun s => if !s.ready then .done else timeTurns u mode list

def ipgroupTurns (u : Uci) : List Name → Body RulesSt
  | [] => .done
  | name :: list => .check (run (reinstall u name) (ipgroupTurns u list)) .done

def ipgroupBody (u : Uci) (update : Bool) (obj : IpGroup) : Body RulesSt :=
  ask fun s =>
    if !s.ready then .done
    else if obj = .ipgroupAny then .done
    else if !update then .done
    else ipgroupTurns u (groupRules u obj)

/-! ## Invocations -/

/-- `main.sh` with its arguments, and the configuration it has loaded. -/
inductive Invocation where
  | start (u : Uci) (initOk : Bool) (ruleSpec : Nat)
  | stop
  | reloadDelete (list : List Name)
  | reloadAdd (u : Uci) (ruleSpec : Nat) (list : List Name)
  | reloadUpdate (u : Uci) (list : List Name)
  | time (u : Uci) (mode : TimeMode) (list : List Name)
  | ipgroup (u : Uci) (update : Bool) (obj : IpGroup)
  /-- `ifup`, `ifdown` and what is not supported leave the rules alone. -/
  | other

namespace Invocation

def isStop : Invocation → Bool
  | .stop => true
  | _ => false

def body : Invocation → Body RulesSt
  | .start u initOk ruleSpec => startBody u initOk ruleSpec
  | .stop => .act qosDestroy fun _ => .done
  | .reloadDelete list => reloadDeleteBody list
  | .reloadAdd u ruleSpec list => reloadAddBody u ruleSpec list
  | .reloadUpdate u list => reloadUpdateBody u list
  | .time u mode list => timeBody u mode list
  | .ipgroup u update obj => ipgroupBody u update obj
  | .other => .done

def job (c : Invocation) : Job RulesSt :=
  { cancels := c.isStop
    body := c.body
    unchecked := by
      intro isStop
      cases c with
      | stop => exact fun _ => trivial
      | _ => cases isStop }

/-- The invocation with nobody else about. -/
def run : Invocation → RulesSt → RulesSt
  | .start u initOk ruleSpec, s => (qosStart u initOk ruleSpec s).2
  | .stop, s => qosDestroy s
  | .reloadDelete list, s => qosReloadDelete list s
  | .reloadAdd u ruleSpec list, s => (qosReloadAdd u ruleSpec list s).2
  | .reloadUpdate u list, s => qosReloadUpdate u list s
  | .time u mode list, s => qosTimeHandle u mode list s
  | .ipgroup u update obj, s => qosIpgroupHandle u update obj s
  | .other, s => s

end Invocation

end IpQos.Script
