import Mathlib.Algebra.Group.Nat.Defs
import Mathlib.Logic.Function.Basic

/-! # The traffic control tree

`script/lib/ip_qos/tc.sh`: the htb roots and the interface classes under which the
kernel module hangs the classes of single addresses.  Only what decides which
classes there are is kept of the `tc` commands; a burst never makes one fail. -/

namespace IpQos.Script

/-! ## What the scripts are told -/

/-- A name in `IFACE_LIST`, `if_ping` or `if_pong`. -/
inductive IfName where
  | lan
  | wan (k : Nat)
  | wanAll
  deriving DecidableEq, Repr

/-- `sed 's/[^0-9]//g'` as a number; no digits count as 0 in `$((pid+1))`. -/
def IfName.digits : IfName → Nat
  | .wan k => k
  | _ => 0

inductive Dir where
  | uplink
  | downlink
  deriving DecidableEq, Repr

def ifbDev : String := "ifb0"

/-- The exports of `public.sh`, the zone library and the kernel's devices. -/
structure Host where
  ifaceList : List IfName
  bindDevice : IfName → String
  /-- The digits of `config_get linerate`, `none` when the option is missing or has none. -/
  linerate : IfName → Dir → Option Nat
  wanModeOne : Bool
  validDev : String → Bool
  present : String → Bool
  /-- A device is bound to one zone, and `ifb0` to none. -/
  lan_ne_ifb : bindDevice .lan ≠ ifbDev
  wan_ne_lan : ∀ iface, iface ≠ .lan → bindDevice iface ≠ bindDevice .lan
  wan_ne_ifb : ∀ iface, iface ≠ .lan → bindDevice iface ≠ ifbDev

/-- The digits of `LINERATE` and `RATE_MAX`. -/
def lineRate : Nat := 1000000
def rateMax : Nat := 1000000

/-- The digits of a rate, `none` if there are none; the default is registered for the
    interfaces of `IFACE_LIST`. -/
def getIfaceLinerate (h : Host) (iface : IfName) (dir : Dir) : Option Nat :=
  match h.linerate iface dir with
  -- without a number in the second operand `[` is a syntax error, which is no 0: the default
  -- is not taken
  | none => none
  | some rate =>
    if rate ≠ 0 then some rate
    else if iface ∈ h.ifaceList then some lineRate
    else none

/-! ## tc -/

structure HtbClass where
  classid : Nat
  parent : Nat
  deriving DecidableEq, Repr

/-- A device's htb root; `redirect` is the filter that sends everything to `ifb0`. -/
structure HtbRoot where
  classes : List HtbClass
  redirect : Bool
  deriving DecidableEq, Repr

/-- The htb root of every device, `none` while its root is of another kind. -/
abbrev TcState := String → Option HtbRoot

def rootHandle : Nat := 1 <<< 16
def rootClass : Nat := (1 <<< 16) ||| 1

/-- `1:$pid`: the shell writes the number in base 10, tc reads it in base 16 and takes
    16 bits at most. -/
def tcClassid (pid : Nat) : Option Nat :=
  let min := Nat.ofDigitChars 16 (Nat.toDigits 10 pid) 0
  if min < 2 ^ 16 then some ((1 <<< 16) ||| min) else none

def tcQdiscDelRoot (dev : String) (t : TcState) : TcState := Function.update t dev none

def tcQdiscAddRoot (h : Host) (dev : String) (t : TcState) : TcState :=
  if h.present dev ∧ t dev = none then
    Function.update t dev (some { classes := [], redirect := false })
  else t

def tcFilterAddRedirect (h : Host) (dev : String) (t : TcState) : TcState :=
  match t dev with
  | some root =>
    if h.present ifbDev then Function.update t dev (some { root with redirect := true }) else t
  | none => t

/-- Fails without a root, when the class exists, and on `kbit` without a number. -/
def tcClassAdd (dev : String) (parent : Nat) (classid rate ceil : Option Nat) (t : TcState) :
    TcState :=
  match t dev, classid, rate, ceil with
  | some root, some classid, some rate, some _ =>
    if rate = 0 ∨ ∃ c ∈ root.classes, c.classid = classid then t
    else Function.update t dev (some { root with classes := root.classes ++ [⟨classid, parent⟩] })
  | _, _, _, _ => t

/-! ## The scripts -/

def qosTcDevCheckRoot (dev : String) (t : TcState) : Bool := (t dev).isSome

def qosTcDevInit (h : Host) (dev : String) (isWan : Bool) (t : TcState) : TcState :=
  if qosTcDevCheckRoot dev t then t
  else
    let t := tcQdiscDelRoot dev t
    let t := tcQdiscAddRoot h dev t
    if isWan && !h.wanModeOne then tcFilterAddRedirect h dev t else t

/-- `for iface in $IFACE_LIST`, one class for every interface but `LAN`. -/
def addIfaceClasses (h : Host) (dev : String) (dir : Dir) (ifaces : List IfName) (t : TcState) :
    TcState :=
  ifaces.foldl (fun t iface =>
    if iface = .lan then t
    else
      tcClassAdd dev rootClass (tcClassid (iface.digits + 1)) (some rateMax)
        (getIfaceLinerate h iface dir) t) t

/-- `rootceil=$((rootceil+ceil))` over the same list, from an empty `rootceil`. -/
def sumLinerates (h : Host) (dir : Dir) (ifaces : List IfName) : Option Nat :=
  ifaces.foldl (fun rootceil iface =>
    if iface = .lan then rootceil
    else some (rootceil.getD 0 + (getIfaceLinerate h iface dir).getD 0)) none

/-- The branch `iface_build != WAN_ALL`. -/
def buildIfaceClasses (h : Host) (dev : String) (dir : Dir) (t : TcState) : TcState :=
  let t := tcClassAdd dev rootHandle (tcClassid 1) (some rateMax) (some rateMax) t
  addIfaceClasses h dev dir h.ifaceList t

/-- The branch `iface_build = WAN_ALL`. -/
def buildOneClass (h : Host) (dev : String) (dir : Dir) (t : TcState) : TcState :=
  let rootceil := (sumLinerates h dir h.ifaceList).map fun ceil =>
    if ceil > rateMax then rateMax else ceil
  tcClassAdd dev rootHandle (tcClassid 1) (some rateMax) rootceil t

/-- The branch `WAN_MODE_ONE = 1`. -/
def buildModeOne (h : Host) (dev : String) (dir : Dir) (t : TcState) : TcState :=
  tcClassAdd dev rootHandle (tcClassid 1) (some rateMax) (getIfaceLinerate h (.wan 1) dir) t

/-- The loop over the WAN devices in the `WAN_ALL` branch; `dev` keeps its last value. -/
def initWanDevs (h : Host) (ifaces : List IfName) (t : TcState) : String × TcState :=
  ifaces.foldl (fun (_, t) iface =>
    let dev := h.bindDevice iface
    if !h.validDev dev then (dev, t)
    else if iface = .lan then (dev, t)
    else (dev, qosTcDevInit h dev true t)) ("", t)

def qosTcDevBuildRoot (h : Host) (ifSrc ifDst : IfName) (dir : Dir) (t : TcState) : TcState :=
  match dir with
  | .uplink =>
    let ifaceBuild := ifDst
    let (dev, t) :=
      if ifaceBuild = .wanAll then initWanDevs h h.ifaceList t
      else
        let dev := h.bindDevice ifaceBuild
        (dev, qosTcDevInit h dev true t)
    if !h.wanModeOne ∧ ifaceBuild ≠ .wanAll then
      if qosTcDevCheckRoot ifbDev t then t
      else buildIfaceClasses h ifbDev dir (qosTcDevInit h ifbDev false t)
    else if !h.wanModeOne ∧ ifaceBuild = .wanAll then
      if qosTcDevCheckRoot ifbDev t then t
      else buildOneClass h ifbDev dir (qosTcDevInit h ifbDev false t)
    else buildModeOne h dev dir t
  | .downlink =>
    let ifaceBuild := ifSrc
    let dev := h.bindDevice .lan
    if !h.validDev dev then t
    else if qosTcDevCheckRoot dev t then t
    else
      let t := qosTcDevInit h dev false t
      if !h.wanModeOne ∧ ifaceBuild ≠ .wanAll then buildIfaceClasses h dev dir t
      else if !h.wanModeOne ∧ ifaceBuild = .wanAll then buildOneClass h dev dir t
      else buildModeOne h dev dir t

/-- What the state file keeps of an installed rule. -/
structure RuleIfs where
  ifPing : IfName
  ifPong : IfName
  deriving DecidableEq, Repr

/-- `wid` in `qos_rule_install`, the module's `devid`. -/
def RuleIfs.wid (h : Host) (r : RuleIfs) : Nat :=
  if h.wanModeOne then 0 else r.ifPong.digits

def qosTcInit (h : Host) (rules : List RuleIfs) (t : TcState) : TcState :=
  rules.foldl (fun t r =>
    let t := qosTcDevBuildRoot h r.ifPing r.ifPong .uplink t
    qosTcDevBuildRoot h r.ifPong r.ifPing .downlink t) t

end IpQos.Script
