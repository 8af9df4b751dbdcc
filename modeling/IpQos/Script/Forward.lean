import IpQos.Script.Chain
import IpQos.Kmod.Ops

/-! # Packets through the chain

What the chain of `nf.sh` does to the packets that FORWARD hands it, with the connection
marks it saves and restores and the `qmark` targets of its rules. -/

namespace IpQos.Script

open IpQos.Kmod

/-! ## Marks -/

def qosMarkBitStart : Nat := 11

def qosMarkBitLen : Nat := 10

/-- `QOS_MARK_RULE_MASK`: two of the bits are for `devmngr` and `visitor`. -/
def qosMarkRuleMask : Nat := (1 <<< (qosMarkBitLen - 2) - 1) <<< qosMarkBitStart

/-- The CONNMARK target of iptables with `--nfmask`, `--ctmask`, on the mark of the packet
    and the mark of its connection. -/
structure Connmark where
  restoreMark : Nat → Nat → Nat → Nat → Nat
  saveMark : Nat → Nat → Nat → Nat → Nat

/-- What its manual page says: `(nfmark & ~nfmask) ^ (ctmark & ctmask)` becomes the mark of
    the packet, and the other way round. -/
structure Connmark.Documented (cm : Connmark) : Prop where
  restore : ∀ nfmask ctmask nfmark ctmark, nfmark < 2 ^ 32 → ctmark < 2 ^ 32 →
    cm.restoreMark nfmask ctmask nfmark ctmark = setMark nfmark nfmask (ctmark &&& ctmask)
  save : ∀ nfmask ctmask nfmark ctmark, nfmark < 2 ^ 32 → ctmark < 2 ^ 32 →
    cm.saveMark nfmask ctmask nfmark ctmark = setMark ctmark ctmask (nfmark &&& nfmask)

/-! ## A packet in the chain -/

/-- A packet on its way, the mark of its connection, and the module. -/
structure Passage where
  skb : SkBuff
  ctMark : Nat
  mod : St
  deriving DecidableEq, Repr

section

variable {ν : Type} (cm : Connmark) (idOf : ν → Nat) (env : Env) (hits : Entry ν → Bool)

/-- `-j qmark --set-mask $mask --set-id $id --set-dir $dir` -/
def targetOf (name : ν) (dir : Nat) : TgInfo := { mask := qosMarkRuleMask, id := idOf name, dir }

/-- An entry of a rule: `hits` are its matches on devices and set, after them comes
    `-m mark --mark 0/$rule_mask`.  The target continues with the next entry. -/
def ruleEntry (e : Entry ν) (name : ν) (dir : Nat) (x : Passage) : Except Oops Passage :=
  if hits e ∧ x.skb.mark &&& qosMarkRuleMask = 0 then do
    let (skb, mod) ← qmarkHandle env x.skb (targetOf idOf name dir) x.mod
    return { x with skb, mod }
  else return x

def walkChain : List (Entry ν) → Passage → Except Oops Passage
  | [], x => .ok x
  | .restoreMark :: chain, x =>
    walkChain chain { x with skb := { x.skb with
      mark := cm.restoreMark qosMarkRuleMask qosMarkRuleMask x.skb.mark x.ctMark } }
  -- `-m mark ! --mark 0/$rule_mask -j RETURN`
  | .returnMarked :: chain, x =>
    if x.skb.mark &&& qosMarkRuleMask ≠ 0 then .ok x else walkChain chain x
  | .saveMark :: chain, x =>
    walkChain chain { x with
      ctMark := cm.saveMark qosMarkRuleMask qosMarkRuleMask x.skb.mark x.ctMark }
  | .rule name :: chain, x => do
    let x ← ruleEntry idOf env hits (.rule name) name 0 x
    walkChain chain x
  | .mate name :: chain, x => do
    let x ← ruleEntry idOf env hits (.mate name) name 1 x
    walkChain chain x

end

/-! ## Everything that happens -/

/-- The router: the chain, the module, the marks of the connections `κ`, and the packets that
    have left FORWARD, the latest first. -/
structure FwSt (κ ν : Type) where
  nf : NfSt ν
  mod : St
  ctMark : κ → Nat
  passed : List SkBuff

def FwSt.start (κ ν : Type) (mod : St) : FwSt κ ν :=
  { nf := NfSt.start ν, mod, ctMark := fun _ => 0, passed := [] }

/-- A packet with the entries whose devices and set it matches, a rule installed or
    uninstalled, `qos_nf_destroy`, anything else the module is asked, bits that other modules
    set in the mark of a connection, and a connection that is gone: a new one may take its
    place. -/
inductive FwEvent (κ ν : Type) where
  | packet (conn : κ) (skb : SkBuff) (hits : Entry ν → Bool)
  | script (c : Call ν)
  | destroy
  | module (op : Op)
  | others (conn : κ) (bits : Nat)
  | gone (conn : κ)

section

variable {κ ν : Type} [DecidableEq κ] [DecidableEq ν]

def callNf (cfg : UciConfig ν) (c : Call ν) (nf : NfSt ν) : NfSt ν :=
  match call cfg c nf with
  | .ok nf => nf
  | .error e => nomatch e

def fwStep (cm : Connmark) (cfg : UciConfig ν) (idOf : ν → Nat) (l : Env × FwEvent κ ν)
    (x : FwSt κ ν) : Except Oops (FwSt κ ν) :=
  match l.2 with
  | .packet conn skb hits =>
    match x.nf.chain with
    | none => return { x with passed := skb :: x.passed }
    | some chain => do
      let y ← walkChain cm idOf l.1 hits chain { skb, ctMark := x.ctMark conn, mod := x.mod }
      return { x with
        mod := y.mod
        ctMark := Function.update x.ctMark conn y.ctMark
        passed := y.skb :: x.passed }
  | .script c => return { x with nf := callNf cfg c x.nf }
  | .destroy => return { x with nf := { x.nf with chain := none, install := fun _ => false } }
  | .module op => do
    let mod ← opStep (l.1, op) x.mod
    return { x with mod }
  | .others conn bits =>
    return { x with
      ctMark := Function.update x.ctMark conn (setMark bits qosMarkRuleMask
        (x.ctMark conn &&& qosMarkRuleMask)) }
  | .gone conn => return { x with ctMark := Function.update x.ctMark conn 0 }

end

end IpQos.Script
