import Mathlib.Logic.Function.Basic
import IpQos.Script.TcTree

/-! # The chain of the rules

`qos_rule_install` and `qos_rule_uninstall` of `script/lib/ip_qos/core.sh` with what
they do to the iptables chain (`nf.sh`) and `find_index.lua`, which computes where in
the chain a rule goes.  Of an iptables entry only its comment is kept. -/

namespace IpQos.Script

/-- `ip_group` of a rule. -/
inductive IpGroup where
  | unset
  | selfDefine
  | ipgroupAny
  | named (set : String)
  deriving DecidableEq, Repr

/-- A `rule` section of the UCI file, its rates as `tonumber` reads them.  Names carry the
    number of the rule (`r1`, `r11`); none contains `_mate`. -/
structure UciRule (ν : Type) where
  name : ν
  enable : Bool
  rateMax : Option Int
  rateMin : Option Int
  rateMaxMate : Option Int
  rateMinMate : Option Int
  ifPing : Option IfName
  ifPong : Option IfName
  ipGroup : IpGroup
  deriving Repr

/-- The sections in their order; UCI takes a name once. -/
structure UciConfig (ν : Type) where
  rules : List (UciRule ν)
  distinct : (rules.map (·.name)).Nodup

/-- An entry of `qos_chain_default`; the mate of a rule is the entry of its downlink. -/
inductive Entry (ν : Type) where
  | restoreMark
  | returnMarked
  | rule (name : ν)
  | mate (name : ν)
  | saveMark
  deriving DecidableEq, Repr

/-- The chain, created and destroyed together with the jump in `FORWARD`, the rules whose
    state is `install=true`, and how often iptables has refused an insertion. -/
structure NfSt (ν : Type) where
  chain : Option (List (Entry ν))
  install : ν → Bool
  refused : Nat

/-- No chain, and nothing installed. -/
def NfSt.start (ν : Type) : NfSt ν := { chain := none, install := fun _ => false, refused := 0 }

section

variable {ν : Type} [DecidableEq ν]

/-! ## find_index.lua -/

/-- The callback of `uci_r:foreach` on `position` and `found`.  A rate that is not a
    number is not equal to 0 either. -/
def findIndexStep (insertRule : ν) (acc : Nat × Bool) (sec : UciRule ν) : Nat × Bool :=
  let (position, found) := acc
  if found then (position, found)
  else if sec.name = insertRule then (position + 1, true)
  else if sec.enable then
    let position :=
      if sec.rateMax ≠ some 0 ∨ sec.rateMin ≠ some 0 then position + 1 else position
    let position :=
      if sec.rateMaxMate ≠ some 0 ∨ sec.rateMinMate ≠ some 0 then position + 1 else position
    (position, found)
  else (position, found)

def findInsertIndex (rules : List (UciRule ν)) (insertRule : ν) : Nat :=
  (rules.foldl (findIndexStep insertRule) (0, false)).1

/-! ## nf.sh -/

/-- `iptables -I chain n`. -/
def iptInsert (n : Nat) (e : Entry ν) (chain : List (Entry ν)) : Option (List (Entry ν)) :=
  if 1 ≤ n ∧ n ≤ chain.length + 1 then some (chain.take (n - 1) ++ e :: chain.drop (n - 1))
  else none

/-- The restore entry and the return entry cost 2 in the index.  Whether iptables took the
    entry is not looked at. -/
def qosNfAddRule (cfg : UciConfig ν) (name : ν) (e : Entry ν) (s : NfSt ν) : NfSt ν :=
  let chain := s.chain.getD [.restoreMark, .returnMarked, .saveMark]
  let insertIndex := findInsertIndex cfg.rules name + 1 + 1
  match iptInsert insertIndex e chain with
  | some chain => { s with chain := some chain }
  | none => { s with chain := some chain, refused := s.refused + 1 }

/-- Deletes the entry with this comment; with two of them `iptables -D` gets two numbers and
    fails.  The chain goes when the three entries of its own are left. -/
def qosNfDelEntry (e : Entry ν) (s : NfSt ν) : NfSt ν :=
  match s.chain with
  | none => s
  | some chain =>
    if chain.count e = 0 then s
    else
      let chain := if chain.count e = 1 then chain.erase e else chain
      { s with chain := if chain.length = 3 then none else some chain }

def qosNfDelRule (entries : List (Entry ν)) (s : NfSt ν) : NfSt ν :=
  entries.foldl (fun s e => qosNfDelEntry e s) s

/-! ## core.sh -/

/-- `ipset list -n` has the group of the rule.  The set of a `SELF_DEFINE` rule, `.inl`, is
    registered under the name of the rule before the test. -/
def ipGroupExists (ipset : ν ⊕ String → Bool) (rule : UciRule ν) : Bool :=
  match rule.ipGroup with
  | .unset => false
  | .selfDefine => ipset (.inl rule.name)
  | .ipgroupAny => true
  | .named set => ipset (.inr set)

/-- Returns the exit status. -/
def qosRuleInstall (cfg : UciConfig ν) (ipset : ν ⊕ String → Bool) (name : ν) (s : NfSt ν) :
    Nat × NfSt ν :=
  if s.install name then (1, s)
  else
    match cfg.rules.find? (·.name = name) with
    | none => (1, s)
    | some rule =>
      if rule.ifPing.isNone ∨ rule.ifPong.isNone then (1, s)
      else if !ipGroupExists ipset rule then (1, s)
      else
        let s := qosNfAddRule cfg name (.rule name) s
        let s := qosNfAddRule cfg name (.mate name) s
        (0, { s with install := Function.update s.install name true })

def qosRuleUninstall (name : ν) (s : NfSt ν) : Nat × NfSt ν :=
  if !s.install name then (1, s)
  else
    let s := qosNfDelRule [.rule name, .mate name] s
    (0, { s with install := Function.update s.install name false })

/-- A call on a rule, an installation with the sets that exist then. -/
inductive Call (ν : Type) where
  | install (name : ν) (ipset : ν ⊕ String → Bool)
  | uninstall (name : ν)

def call (cfg : UciConfig ν) (c : Call ν) (s : NfSt ν) : Except Empty (NfSt ν) :=
  match c with
  | .install name ipset => .ok (qosRuleInstall cfg ipset name s).2
  | .uninstall name => .ok (qosRuleUninstall name s).2

end

end IpQos.Script
