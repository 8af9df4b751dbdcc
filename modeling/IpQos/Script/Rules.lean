import IpQos.Script.Chain
import IpQos.Script.State

/-! # The rule lists

`script/lib/ip_qos/main.sh`: the loops of `qos_start`, `qos_reload` and `qos_time_handle`
over lists of rules.  Of the state store the `install` and `enable` of the rules and
`rule_num` are kept; the time manager, which registers the rules with a time object, and
`qos_reset` read or change none of them. -/

namespace IpQos.Script

open IpQos.Lib (matchesWord)

/-! ## The environment -/

/-- `option time` of a rule. -/
inductive TimeObj where
  | unset
  | any
  | selfDefine
  | named (obj : String)
  deriving DecidableEq, Repr

/-- The `rule` sections of the UCI file, with their times. -/
structure Uci extends UciConfig Name where
  time : Name → TimeObj

namespace Uci

def rule? (u : Uci) (name : Name) : Option (UciRule Name) := u.rules.find? (·.name = name)

/-- `qos_rulelist_get`, every section. -/
def ruleList (u : Uci) : List Name := u.rules.map (·.name)

/-- `[ "$(config_get $rule enable)" = "on" ]` -/
def enabled (u : Uci) (name : Name) : Bool := (u.rule? name).any (·.enable)

/-- The time object is there, and is not `Any`. -/
def timed (u : Uci) (name : Name) : Bool :=
  match u.time name with
  | .unset => false
  | .any => false
  | .selfDefine => true
  | .named _ => true

end Uci

/-- `grep -cw`. -/
def grepCw (pattern : List Char) (lines : List (List Char)) : Nat :=
  lines.countP (matchesWord '.' (fun c => c.isAlphanum || c == '_') pattern false)

/-- What the functions read and write. -/
structure RulesSt where
  nf : NfSt Name
  /-- `ipset list -n` -/
  sets : List (List Char)
  /-- Nothing before it was set for the first time. -/
  ruleNum : Option Int
  /-- Of every line of a rule's `enable`, whether it is `on`. -/
  enableLines : Name → List Bool
  /-- `QOS_READY` -/
  ready : Bool
  /-- `QOS_STOP_FLAG` -/
  stopFlag : Bool

/-! ## One rule -/

/-- The set of the group exists; the set of a `SELF_DEFINE` rule is named as the rule. -/
def setExists (sets : List (List Char)) : Name ⊕ String → Bool
  | .inl name => grepCw name.text sets != 0
  | .inr set => grepCw set.toList sets != 0

/-- The sets after `qos_rule_install` has registered the one of a `SELF_DEFINE` rule. -/
def registerSelfDefine (u : Uci) (name : Name) (s : RulesSt) : List (List Char) :=
  match u.rule? name with
  | none => s.sets
  | some rule =>
    if s.nf.install name ∨ rule.ifPing.isNone ∨ rule.ifPong.isNone then s.sets
    else if rule.ipGroup = .selfDefine ∧ grepCw name.text s.sets = 0 then s.sets ++ [name.text]
    else s.sets

/-- `qos_rule_install`. -/
def ruleInstall (u : Uci) (name : Name) (s : RulesSt) : Nat × RulesSt :=
  let sets := registerSelfDefine u name s
  let (status, nf) := qosRuleInstall u.toUciConfig (setExists sets) name s.nf
  (status, { s with nf := nf, sets := sets })

/-- `qos_rule_uninstall`; the set named as the rule is destroyed. -/
def ruleUninstall (name : Name) (s : RulesSt) : Nat × RulesSt :=
  let (status, nf) := qosRuleUninstall name s.nf
  if status = 0 ∧ grepCw name.text s.sets ≠ 0 then
    (status, { s with nf := nf, sets := s.sets.erase name.text })
  else (status, { s with nf := nf })

/-! ## qos_rules_parse -/

/-- `[ "$rule_num" -ge "$QOS_RULE_SPEC" ]`; the test of an empty string fails. -/
def specReached (ruleSpec : Nat) : Option Int → Bool
  | none => false
  | some ruleNum => decide (ruleSpec ≤ ruleNum)

/-- Where the loop of `qos_rules_parse` was left: the rules that passed its spec check, its
    local `rule_num` unless it returned at the check, and the state. -/
structure Parsed where
  accepted : List Name
  ruleNum : Option (Option Int)
  st : RulesSt

def rulesLoop (u : Uci) (ruleSpec : Nat) : List Name → Option Int → RulesSt → Parsed
  | [], ruleNum, s => { accepted := [], ruleNum := some ruleNum, st := s }
  | name :: list, ruleNum, s =>
    if s.stopFlag then { accepted := [], ruleNum := some ruleNum, st := s }
    else if specReached ruleSpec ruleNum then { accepted := [], ruleNum := none, st := s }
    else
      let ruleNum := some (ruleNum.getD 0 + 1)
      let rest :=
        if !u.enabled name then rulesLoop u ruleSpec list ruleNum s
        else if u.timed name then rulesLoop u ruleSpec list ruleNum s
        else
          match ruleInstall u name s with
          | (0, s) => rulesLoop u ruleSpec list ruleNum s
          | (_, s) => { accepted := [], ruleNum := some ruleNum, st := s }
      { rest with accepted := name :: rest.accepted }

/-- Returns the exit status, and beside the state the rules that passed the spec check. -/
def qosRulesParse (u : Uci) (ruleSpec : Nat) (list : List Name) (s : RulesSt) :
    Nat × List Name × RulesSt :=
  let parsed := rulesLoop u ruleSpec list s.ruleNum s
  match parsed.ruleNum with
  | some ruleNum => (0, parsed.accepted, { parsed.st with ruleNum := ruleNum })
  | none => (1, parsed.accepted, parsed.st)

/-! ## qos_start -/

/-- `QOS_STATE set <rule>.enable`: every line of it is rewritten. -/
def setEnable (u : Uci) (name : Name) (s : RulesSt) : RulesSt :=
  let lines :=
    match s.enableLines name with
    | [] => [u.enabled name]
    | lines => lines.map fun _ => u.enabled name
  { s with enableLines := Function.update s.enableLines name lines }

/-- `state_gen.lua` appends a line for every section. -/
def stateGen (u : Uci) (s : RulesSt) : RulesSt :=
  { s with
    enableLines := fun name =>
      if name ∈ u.ruleList then s.enableLines name ++ [u.enabled name] else s.enableLines name }

/-- `initOk`: there is a UCI configuration, and `qos_global_init` prints 0. -/
def qosStart (u : Uci) (initOk : Bool) (ruleSpec : Nat) (s : RulesSt) : List Name × RulesSt :=
  if !initOk then ([], s)
  else
    let (accepted, s) :=
      if u.ruleList = [] then ([], s)
      else (qosRulesParse u ruleSpec u.ruleList (stateGen u { s with ruleNum := some 0 })).2
    (accepted, { s with ready := true })

/-! ## qos_reload -/

/-- `QOS_STATE del`: the keys of the rule go. -/
def stateDel (name : Name) (s : RulesSt) : RulesSt :=
  { s with
    nf := { s.nf with install := Function.update s.nf.install name false }
    enableLines := Function.update s.enableLines name [] }

/-- The loop over `del_list`. -/
def deleteLoop : List Name → Option Int → RulesSt → Option Int × RulesSt
  | [], ruleNum, s => (ruleNum, s)
  | name :: list, ruleNum, s =>
    if s.stopFlag then (ruleNum, s)
    else
      let s := if s.enableLines name = [true] then (ruleUninstall name s).2 else s
      deleteLoop list (some (ruleNum.getD 0 - 1)) (stateDel name s)

def qosReloadDelete (list : List Name) (s : RulesSt) : RulesSt :=
  if !s.ready then s
  else if list = [] then s
  else
    let (ruleNum, s) := deleteLoop list s.ruleNum s
    { s with ruleNum := ruleNum }

def qosReloadAdd (u : Uci) (ruleSpec : Nat) (list : List Name) (s : RulesSt) :
    List Name × RulesSt :=
  if !s.ready then ([], s)
  else if list = [] then ([], s)
  else (qosRulesParse u ruleSpec list (list.foldl (fun s name => setEnable u name s) s)).2

/-! ## qos_time_handle -/

inductive TimeMode where
  | active
  | expire
  deriving DecidableEq, Repr

def timeLoop (u : Uci) (mode : TimeMode) : List Name → RulesSt → RulesSt
  | [], s => s
  | name :: list, s =>
    if s.stopFlag then s
    else if (u.rule? name).isNone then timeLoop u mode list s
    else
      match (if mode = .active then ruleInstall u name s else ruleUninstall name s) with
      | (0, s) => timeLoop u mode list s
      | (_, s) => s

def qosTimeHandle (u : Uci) (mode : TimeMode) (list : List Name) (s : RulesSt) : RulesSt :=
  if !s.ready then s else timeLoop u mode list s

end IpQos.Script
