import IpQos.App.QmarkRule
import IpQos.Script.Forward
import IpQos.Script.State

/-! # Installing a rule, command by command

`qos_rule_install`, `qos_rule_uninstall` and `qos_destroy` as the commands that they give to the
tool, to iptables and to the state store.  The lock of `main.sh` lets one of them run at a time;
packets and the other users of the module come between any two commands. -/

namespace IpQos.Script

open IpQos.App (Libc RuleOption)
open IpQos.Kmod (Env Oops Op QmarkRule SkBuff St opStep)
open IpQos.Lib (numeral)

/-! ## The numbers of a rule -/

/-- `${word/[^0-9]*/}` -/
def cutNonDigits (word : List Char) : List Char := word.takeWhile Char.isDigit

/-- `${word//[^0-9]/}` -/
def onlyDigits (word : List Char) : List Char := word.filter Char.isDigit

/-- The options of a rule section that become numbers; one that is not set is empty. -/
structure RuleOptions where
  mode : List Char
  ifPong : List Char
  rateMax : List Char
  rateMin : List Char
  rateMaxMate : List Char
  rateMinMate : List Char
  deriving DecidableEq, Repr

/-- The default is for the option that is not set, not for the one without digits. -/
def rateWord (default option : List Char) : List Char :=
  cutNonDigits (if option = [] then default else option)

/-- `$id $md $wid $rate_max $downrate_max $rate_min $downrate_min` -/
def ruleWords (wanModeOne : Bool) (name : Name) (o : RuleOptions) : List (List Char) :=
  let id := onlyDigits name.text
  let md := if o.mode = "priv".toList then ['0'] else ['1']
  let wid := onlyDigits o.ifPong
  let wid := if wid = [] then ['0'] else wid
  let wid := if wanModeOne then ['0'] else wid
  [id, md, wid, rateWord ['0'] o.rateMax, rateWord ['0'] o.rateMaxMate,
    rateWord ['1', '0'] o.rateMin, rateWord ['1', '0'] o.rateMinMate]

/-- The argument of `qmark -a`. -/
def addRuleLine (wanModeOne : Bool) (name : Name) (o : RuleOptions) : List Char :=
  [' '].intercalate (ruleWords wanModeOne name o)

/-- The rule that the section describes; what has no digits counts as 0. -/
def configured (wanModeOne : Bool) (name : Name) (o : RuleOptions) : QmarkRule :=
  let values := (ruleWords wanModeOne name o).map numeral
  { id := values.getD 0 0
    mode := values.getD 1 0
    devid := values.getD 2 0
    rate := values.getD 3 0
    rateMate := values.getD 4 0
    rateMin := values.getD 5 0
    rateMinMate := values.getD 6 0 }

/-! ## The id of the target -/

/-- How iptables reads the word of an `XTTYPE_UINT32` option. -/
structure Xtables where
  uint32 : List Char → Option Nat

/-- A word of digits is an integer literal of C, all of it, of at most 32 bits. -/
structure Xtables.Documented (xt : Xtables) : Prop where
  decimal : ∀ word, word ≠ [] → (∀ c ∈ word, c.isDigit = true) → word.head? ≠ some '0' →
    numeral word < 2 ^ 32 → xt.uint32 word = some (numeral word)
  octal : ∀ word, word.head? = some '0' → (∀ c ∈ word, c.isDigit = true) →
    (∀ c ∈ word, c.toNat - '0'.toNat < 8) → Nat.ofDigitChars 8 word 0 < 2 ^ 32 →
    xt.uint32 word = some (Nat.ofDigitChars 8 word 0)
  notOctal : ∀ word, word.head? = some '0' → (∀ c ∈ word, c.isDigit = true) →
    (∃ c ∈ word, 8 ≤ c.toNat - '0'.toNat) → xt.uint32 word = none

/-- `--set-id $id`.  Without an id the direction takes its place, and the option behind it has
    lost its argument. -/
def setId (xt : Xtables) (name : Name) : Option Nat :=
  if onlyDigits name.text = [] then none else xt.uint32 (onlyDigits name.text)

/-- `qos_nf_add_rule`; iptables refuses an entry whose id it cannot read. -/
def nfAddRule (xt : Xtables) (cfg : UciConfig Name) (name : Name) (e : Entry Name)
    (nf : NfSt Name) : NfSt Name :=
  if (setId xt name).isSome then qosNfAddRule cfg name e nf
  else
    { nf with
      chain := some (nf.chain.getD [.restoreMark, .returnMarked, .saveMark])
      refused := nf.refused + 1 }

/-! ## Commands -/

inductive Cmd where
  /-- `qmark -a "$id $md $wid …"` -/
  | addRule (wanModeOne : Bool) (name : Name) (o : RuleOptions)
  /-- `qmark -d $id` -/
  | delRule (name : Name)
  /-- `qmark -r 1` -/
  | reset
  /-- `qmark -x` -/
  | flushRule
  | nfAddRule (cfg : UciConfig Name) (name : Name) (e : Entry Name)
  | nfDelEntry (e : Entry Name)
  | nfDestroy
  | setInstall (name : Name) (value : Bool)
  | stateClear

/-- The UCI file, with the options of the rules as they are written. -/
structure UciText extends UciConfig Name where
  options : Name → RuleOptions

def installCmds (u : UciText) (wanModeOne : Bool) (ipset : Name ⊕ String → Bool) (name : Name)
    (nf : NfSt Name) : List Cmd :=
  if nf.install name then []
  else
    match u.rules.find? (·.name = name) with
    | none => []
    | some rule =>
      if rule.ifPing.isNone ∨ rule.ifPong.isNone then []
      else if !ipGroupExists ipset rule then []
      else
        [.addRule wanModeOne name (u.options name),
          .nfAddRule u.toUciConfig name (.rule name),
          .nfAddRule u.toUciConfig name (.mate name),
          .setInstall name true]

def uninstallCmds (name : Name) (nf : NfSt Name) : List Cmd :=
  if !nf.install name then []
  else
    [.nfDelEntry (.rule name), .nfDelEntry (.mate name), .setInstall name false, .delRule name]

def destroyCmds : List Cmd := [.stateClear, .nfDestroy, .reset, .flushRule]

inductive Fn where
  | install (u : UciText) (wanModeOne : Bool) (ipset : Name ⊕ String → Bool) (name : Name)
  | uninstall (name : Name)
  | destroy

def Fn.cmds (nf : NfSt Name) : Fn → List Cmd
  | .install u wanModeOne ipset name => installCmds u wanModeOne ipset name nf
  | .uninstall name => uninstallCmds name nf
  | .destroy => destroyCmds

/-- The option that the tool gets.  `qmark -d` without a number only prints its usage. -/
def Cmd.option : Cmd → Option RuleOption
  | .addRule wanModeOne name o => some (.addRule (addRuleLine wanModeOne name o))
  | .delRule name =>
    if onlyDigits name.text = [] then none else some (.delRule (onlyDigits name.text))
  | .reset => some (.reset ['1'])
  | .flushRule => some .flushRule
  | _ => none

/-- The netfilter side of a command, and the state of the rules. -/
def Cmd.nf (xt : Xtables) (nf : NfSt Name) : Cmd → NfSt Name
  | .nfAddRule cfg name e => Script.nfAddRule xt cfg name e nf
  | .nfDelEntry e => qosNfDelEntry e nf
  | .nfDestroy => { nf with chain := none }
  | .setInstall name value => { nf with install := Function.update nf.install name value }
  | .stateClear => { nf with install := fun _ => false }
  | _ => nf

/-- What a command changes of the rules that the scripts have asked the module for. -/
def Cmd.given (given : Name → Option QmarkRule) : Cmd → Name → Option QmarkRule
  | .addRule wanModeOne name o =>
    Function.update given name (some (configured wanModeOne name o))
  | .delRule name => Function.update given name none
  | .flushRule => fun _ => none
  | _ => given

/-! ## Everything that happens -/

/-- The router, what the running function has still to do, and the rules that the scripts have
    asked the module for and not taken back: a history variable, which nothing reads. -/
structure InstallSt (κ : Type) where
  fw : FwSt κ Name
  todo : List Cmd
  given : Name → Option QmarkRule

def InstallSt.start (κ : Type) (mod : St) : InstallSt κ :=
  { fw := .start κ Name mod, todo := [], given := fun _ => none }

/-- What is not done by the functions. -/
inductive Outside (κ : Type) where
  | packet (conn : κ) (skb : SkBuff) (hits : Entry Name → Bool)
  | module (op : Op)
  | others (conn : κ) (bits : Nat)
  | gone (conn : κ)

def Outside.event {κ : Type} : Outside κ → FwEvent κ Name
  | .packet conn skb hits => .packet conn skb hits
  | .module op => .module op
  | .others conn bits => .others conn bits
  | .gone conn => .gone conn

/-- A function that waits for the lock, the next command of the one that has it, or traffic. -/
inductive InstallEvent (κ : Type) where
  | call (f : Fn)
  | next
  | traffic (t : Outside κ)

/-- The tool sees its ioctl through. -/
def runOption (libc : Libc) (env : Env) (option : Option RuleOption) (mod : St) :
    Except Oops St :=
  match option with
  | none => .ok mod
  | some option => opStep (env, .ioctl (option.ioctl libc)) mod

/-- No rule is installed by traffic, which is why `fwStep` gets no configuration. -/
def installStep {κ : Type} [DecidableEq κ] (xt : Xtables) (libc : Libc) (cm : Connmark)
    (l : Env × InstallEvent κ) (x : InstallSt κ) : Except Oops (InstallSt κ) :=
  match l.2 with
  | .call f => return { x with todo := if x.todo.isEmpty then f.cmds x.fw.nf else x.todo }
  | .next =>
    match x.todo with
    | [] => return x
    | cmd :: todo => do
      let mod ← runOption libc l.1 cmd.option x.fw.mod
      return { fw := { x.fw with nf := cmd.nf xt x.fw.nf, mod }, todo, given := cmd.given x.given }
  | .traffic t => do
    let fw ← fwStep cm { rules := [], distinct := .nil } (fun name => (setId xt name).getD 0)
      (l.1, t.event) x.fw
    return { x with fw }

end IpQos.Script
