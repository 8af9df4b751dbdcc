import IpQos.Lib.Numerals
import IpQos.Kmod.Ops

/-! # The rule options of the command line tool

The options of `app/qmark.c` by which the scripts install and take away rules.  Each of their
calls has one option, so the local variables are still zero when it is read. -/

namespace IpQos.App

open IpQos.Kmod (QmarkRule QmarkIoc)
open IpQos.Lib (scanInts)

/-- What `%d` stores of a number that no `int` holds is left to the C library. -/
structure Libc where
  outOfRange : Int → Nat

/-- A number of `%d` in a `uint32_t`. -/
def Libc.store (libc : Libc) (v : Int) : Nat :=
  if -0x80000000 ≤ v ∧ v < 0x80000000 then (v % 0x100000000).toNat else libc.outOfRange v

/-- The variables that `sscanf` has assigned of `n` conversions, in their order. -/
def Libc.sscanf (libc : Libc) (n : Nat) (optarg : List Char) : List Nat :=
  (scanInts n optarg).map libc.store

/-- The options of the scripts, with their arguments. -/
inductive RuleOption where
  | addRule (optarg : List Char)
  | delRule (optarg : List Char)
  | flushRule
  | reset (optarg : List Char)
  deriving DecidableEq, Repr

/-- The ioctl of an option. -/
def RuleOption.ioctl (libc : Libc) : RuleOption → QmarkIoc
  | .addRule optarg =>
    let assigned := libc.sscanf 7 optarg
    .ruleAdd {
      id := assigned.getD 0 0
      mode := assigned.getD 1 0
      devid := assigned.getD 2 0
      rate := assigned.getD 3 0
      rateMate := assigned.getD 4 0
      rateMin := assigned.getD 5 0
      rateMinMate := assigned.getD 6 0 }
  | .delRule optarg =>
    .ruleDel {
      id := (libc.sscanf 1 optarg).getD 0 0
      mode := 0, devid := 0, rate := 0, rateMate := 0, rateMin := 0, rateMinMate := 0 }
  | .flushRule => .ruleFlush
  | .reset optarg => .reset ((libc.sscanf 1 optarg).getD 0 0)

end IpQos.App
