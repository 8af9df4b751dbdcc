import IpQos.Kmod.Types

/-! # Options of an htb class

`tc_htb_opt_parse` and `qmark_tc_calc_rtable` of `kmod/qos_marktbl_tc.c`: the numbers
that the class of a mark carries to `sch_htb`, in `uint32_t` arithmetic on a 32-bit
CPU.  A rate comes in kbit/s and leaves in byte/s; times are in ticks of 64 ns. -/

namespace IpQos.Kmod

def nsecPerMsec : Nat := 1000000

def pschedNs2Ticks (x : Nat) : Nat := x >>> 6

def tcLinklayerMask : Nat := 0x0F

/-- `struct tc_ratespec` -/
structure TcRatespec where
  cellLog : Nat
  linklayer : Nat
  overhead : Nat
  cellAlign : Int
  mpu : Nat
  rate : Nat
  deriving DecidableEq, Repr

/-- A `tc_ratespec` as `tc_htb_opt_parse` hands it to `qmark_tc_calc_rtable`. -/
def TcRatespec.ofRate (rate : Nat) : TcRatespec :=
  { cellLog := 0, linklayer := 0, overhead := 0, cellAlign := 0, mpu := 0, rate }

/-- The fields of `struct tc_htb_opt` that `memset` does not leave 0. -/
structure TcHtbOpt where
  rate : TcRatespec
  ceil : TcRatespec
  buffer : Nat
  cbuffer : Nat
  deriving DecidableEq, Repr

/-- The attributes `TCA_HTB_PARMS`, `TCA_HTB_RTAB` and `TCA_HTB_CTAB`. -/
structure HtbAttrs where
  opt : TcHtbOpt
  rtab : List Nat
  ctab : List Nat
  deriving DecidableEq, Repr

/-! ## Rate tables -/

/-- `while ((mtu >> cell_log) > 255) cell_log++;` -/
def cellLogFrom (mtu cellLog : Nat) : Nat :=
  if 255 < mtu >>> cellLog then cellLogFrom mtu (cellLog + 1) else cellLog
termination_by mtu >>> cellLog
decreasing_by
  rw [Nat.shiftRight_succ]
  omega

/-- `rtab[i]`; both products wrap. -/
def rtabEntry (bps mpu cellLog i : Nat) : Nat :=
  let sz := u32 ((i + 1) <<< cellLog)
  let sz := if sz < mpu then mpu else sz
  u32 (u32 (100 * sz) * pschedNs2Ticks nsecPerMsec) / (bps / 10)

/-- Returns `cell_log`, the rate specification and the table. -/
def qmarkTcCalcRtable (r : TcRatespec) (cellLog : Int) (mtu : Nat) :
    Except Oops (Nat × TcRatespec × List Nat) :=
  let mtu := if mtu = 0 then 2047 else mtu
  let cellLog := if cellLog < 0 then cellLogFrom mtu 0 else cellLog.toNat
  if r.rate / 10 = 0 then .error .divideByZero
  else
    .ok (cellLog, { r with cellAlign := -1, cellLog, linklayer := 1 &&& tcLinklayerMask },
      (List.range 256).map (rtabEntry r.rate r.mpu cellLog))

/-! ## Class parameters -/

/-- `(rate * 1000) / 8`, with the default for a rate of 0. -/
def byteRate (ifZero kbit : Nat) : Nat :=
  let bps := u32 (kbit * 1000) / 8
  if 0 = bps then ifZero else bps

/-- 1 Kbit -/
def minByteRate : Nat := 125

/-- 1 Gbit -/
def maxByteRate : Nat := 125000000

/-- The local variables `buffer` and `cbuffer`: the bytes of 20 ms, at least a packet. -/
def burstBytes (bps mtu : Nat) : Nat :=
  let buffer := bps / 50
  if buffer < mtu then mtu else buffer

/-- `burstBytes` of both rates is computed on the way and read by nothing. -/
def tcHtbOptParse (rate ceil mtu : Nat) : Except Oops HtbAttrs := do
  let rate := byteRate minByteRate rate
  let ceil := byteRate maxByteRate ceil
  let (_, rateSpec, rtab) ← qmarkTcCalcRtable (.ofRate rate) (-1) mtu
  let buffer := 20 * pschedNs2Ticks nsecPerMsec
  let (_, ceilSpec, ctab) ← qmarkTcCalcRtable (.ofRate ceil) (-1) mtu
  let cbuffer := 20 * pschedNs2Ticks nsecPerMsec
  return { opt := { rate := rateSpec, ceil := ceilSpec, buffer, cbuffer }, rtab, ctab }

/-- The htb attributes of a request, if it has any. -/
def RtnlReq.htbAttrs (req : RtnlReq) : Except Oops (Option HtbAttrs) :=
  match req.options with
  | .htb rate ceil mtu => do
    let attrs ← tcHtbOptParse rate ceil mtu
    return some attrs
  | _ => .ok none

end IpQos.Kmod
