import Mathlib.Algebra.Group.Nat.Defs
import Mathlib.Algebra.Group.Int.Defs

/-! # Data model of the mark table module

The three tables of `kmod/qos_marktbl_main.c` (mark bitmap, hash table, rule
table), the module's other globals, and what an operation may meet in its
environment.  A `uint32_t` is a `Nat` whose arithmetic wraps explicitly
(`u32`); an `atomic_t` is an `Int` that wraps at 32 bits. -/

namespace IpQos.Kmod

/-! ## Constants -/

/-- Return codes of `qos_marktbl_main.h`. -/
inductive RetCode where
  | ok
  | error
  | countNozero
  | noExist
  | overMax
  | allocFail
  deriving DecidableEq, Repr

/-- The C value of a return code; the callers test `0 != ret` and `ret < 0`. -/
def RetCode.toInt : RetCode → Int
  | .ok => 0
  | .error => -1
  | .countNozero => -2
  | .noExist => -3
  | .overMax => -4
  | .allocFail => -5

def privMode : Nat := 0
def shareMode : Nat := 1

def tcMaxIpCnt : Nat := 4096
def maxRuleCntDefault : Nat := 128
def markBase : Nat := 11

/-! ## Machine arithmetic -/

def u32 (n : Nat) : Nat := n % 2 ^ 32

/-- `a - b` on `uint32_t`. -/
def subU32 (a b : Nat) : Nat := u32 (a + (2 ^ 32 - b))

def atomicInc (c : Int) : Int := (c + 1).bmod (2 ^ 32)

def atomicDec (c : Int) : Int := (c - 1).bmod (2 ^ 32)

/-! ## Kernel faults and pointers -/

/-- Ways in which a step of the module stops the kernel, or spoils its memory. -/
inductive Oops where
  | nullDeref
  | useAfterFree
  /-- an index that is not below the size the globals give, whatever memory is there -/
  | outOfBounds
  /-- an index below that size, but past the memory that was allocated -/
  | overrun
  /-- the remainder by the size of an empty hash table -/
  | remainderByZero
  /-- the division by a rate -/
  | divideByZero
  deriving DecidableEq, Repr

/-- The fault of an access at `i` that the memory of a table of `size` elements lacks. -/
def Oops.beyond (i size : Nat) : Oops := if i < size then .overrun else .outOfBounds

/-- A pointer to a heap object: NULL, left dangling by a `kfree`, or live. -/
inductive Ptr (α : Type) where
  | null
  | dangling
  | to (a : α)
  deriving DecidableEq, Repr

def Ptr.deref {α : Type} : Ptr α → Except Oops α
  | .null => .error .nullDeref
  | .dangling => .error .useAfterFree
  | .to a => .ok a

@[simp] theorem Ptr.deref_to {α : Type} (a : α) : (Ptr.to a).deref = .ok a := rfl

@[simp] theorem pure_eq_ok {ε α : Type} (a : α) : (pure a : Except ε α) = .ok a := rfl

@[simp] theorem ok_bind {ε α β : Type} (a : α) (f : α → Except ε β) :
    (Except.ok a >>= f) = f a := rfl

@[simp] theorem error_bind {ε α β : Type} (e : ε) (f : α → Except ε β) :
    (Except.error e >>= f) = .error e := rfl

theorem bind_eq_ok {ε α β : Type} {x : Except ε α} {f : α → Except ε β} {b : β}
    (h : (x >>= f) = .ok b) : ∃ a, x = .ok a ∧ f a = .ok b := by
  cases x with
  | error e => cases h
  | ok a => exact ⟨a, rfl, h⟩

theorem bind_eq_ok_iff {ε α β : Type} {x : Except ε α} {f : α → Except ε β} {b : β} :
    (x >>= f) = .ok b ↔ ∃ a, x = .ok a ∧ f a = .ok b := by
  refine ⟨bind_eq_ok, ?_⟩
  rintro ⟨a, rfl, h⟩
  exact h

/-! ## Tables -/

/-- An IPv4 address in network byte order: the number whose big-endian image
    the four bytes are, whatever the byte order of the CPU. -/
abbrev Be32 := UInt32

/-- `marktbl_node_t`; `count` is the entry's reference count. -/
structure MarktblNode where
  srcIp : Be32
  id : Nat
  mark : Nat
  count : Int
  deriving DecidableEq, Repr

/-- `marktbl_head_t`: the bucket array is a list of chains. -/
structure MarktblHead where
  elemNum : Nat
  size : Nat
  ht : List (List MarktblNode)
  deriving DecidableEq, Repr

/-- `ruletbl_node_t`; `mark` is used in share mode only. -/
structure RuletblNode where
  mode : Nat
  mark : Nat
  count : Int
  on : Bool
  devid : Nat
  rate : Nat
  rateMate : Nat
  rateMin : Nat
  rateMinMate : Nat
  deriving DecidableEq, Repr

/-- A `ruletbl_node_t` cleared by `memset`. -/
def RuletblNode.zero : RuletblNode :=
  { mode := 0, mark := 0, count := 0, on := false, devid := 0,
    rate := 0, rateMate := 0, rateMin := 0, rateMinMate := 0 }

/-! ## Netlink requests -/

inductive RtmCmd where
  | newTclass
  | delTclass
  | newQdisc
  | newTfilter
  | delTfilter
  deriving DecidableEq, Repr

/-- The attributes a request of `qos_marktbl_tc.c` carries after `TCA_KIND`.
    `htb` holds the arguments of `tc_htb_opt_parse`. -/
inductive TcaOptions where
  | none
  | htb (rate ceil mtu : Nat)
  | pfifo (limit : Nat)
  | fw (mask classid : Nat)
  deriving DecidableEq, Repr

/-- A request as handed to `sock_sendmsg`. -/
structure RtnlReq where
  nlmsgType : RtmCmd
  /-- `NLM_F_EXCL|NLM_F_CREATE` -/
  exclCreate : Bool
  tcmIfindex : Nat
  tcmHandle : Nat
  tcmParent : Nat
  tcmInfo : Nat
  kind : String
  options : TcaOptions
  deriving DecidableEq, Repr

/-! ## Module state -/

/-- The globals of the module.  `sent` (the netlink requests handed over, latest
    first) and `freed` (the arguments of `free_mark`, latest first) are history
    variables: no function reads them. -/
structure St where
  gMarktblHead : Ptr MarktblHead
  gRuletbl : Ptr (List RuletblNode)
  markBitmap : Ptr (List Bool)
  resetFlag : Bool
  maxIpCnt : Nat
  maxRuleCnt : Nat
  qmarkLanDev : String
  qmarkWanDev : String
  sent : List RtnlReq
  freed : List Nat
  deriving DecidableEq, Repr

def St.setHead (s : St) (head : MarktblHead) : St := { s with gMarktblHead := .to head }

def St.setRules (s : St) (tbl : List RuletblNode) : St := { s with gRuletbl := .to tbl }

def St.setBits (s : St) (bm : List Bool) : St := { s with markBitmap := .to bm }

/-! ## Environment -/

/-- The `kmalloc` calls of `qos_marktbl_main.c`. -/
inductive KmallocSite where
  | markBitmap
  | ruletbl
  | marktblHead
  | marktblHt
  | marktblNode
  deriving DecidableEq, Repr

structure NetDevice where
  ifindex : Nat
  mtu : Nat
  deriving DecidableEq, Repr

/-- What one operation meets outside the module: which allocations succeed,
    whether rtnetlink is found locked when a request is about to be sent, which
    network devices exist, the byte order of the CPU (`htons`), and the results
    of the user copies of an ioctl. -/
structure Env where
  kmalloc : KmallocSite → Bool
  rtnlIsLocked : RtnlReq → Bool
  devGetByName : String → Option NetDevice
  htons : Nat → Nat
  copyFromUser : Int
  copyToUser : Int

end IpQos.Kmod
