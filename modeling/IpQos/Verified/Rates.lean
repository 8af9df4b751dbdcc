import IpQos.Kmod.Tc
import Mathlib.Tactic.IntervalCases

/-! # Rates that a class can have

What `tc_htb_opt_parse` makes of two rates, and for which it divides by zero.  A rule
is `Buildable` if no class of it does on the devices there are: then the request
builders add their requests to `sent`, and otherwise they fault. -/

namespace IpQos.Verified

open IpQos.Kmod

/-! ## Byte rates -/

/-- The byte rate of a class, from the rate in kbit/s and the default for 0. -/
def wrappedRate (ifZero kbit : Nat) : Nat :=
  if 125 * kbit % 2 ^ 29 = 0 then ifZero else 125 * kbit % 2 ^ 29

/-- The rates with `125 * kbit % 2 ^ 29` in 1 .. 9: the multiples by 1 .. 9 of the inverse
    of 125 modulo `2 ^ 29`. -/
def stalledResidues : List Nat :=
  [115964117, 231928234, 347892351, 463856468, 42949673, 158913790, 274877907, 390842024,
    506806141]

/-- Rates whose byte rate is not 0, so that no default replaces it, but below 10. -/
def Stalls (kbit : Nat) : Prop := kbit % 2 ^ 29 ∈ stalledResidues

instance (kbit : Nat) : Decidable (Stalls kbit) :=
  inferInstanceAs (Decidable (kbit % 2 ^ 29 ∈ stalledResidues))

variable {bps ifZero kbit rate ceil mtu : Nat}

theorem byteRate_eq (ifZero kbit : Nat) : byteRate ifZero kbit = wrappedRate ifZero kbit := by
  have quotient : u32 (kbit * 1000) / 8 = 125 * kbit % 2 ^ 29 := by
    unfold u32
    omega
  simp only [byteRate, wrappedRate, quotient, eq_comm]

/-- 115964117 is the inverse of 125. -/
theorem residue_of_product (kbit : Nat) :
    kbit % 2 ^ 29 = 125 * kbit % 2 ^ 29 * 115964117 % 2 ^ 29 := by
  have inverse : 125 * kbit * 115964117 = kbit + 2 ^ 29 * (27 * kbit) := by omega
  rw [Nat.mod_mul_mod, inverse, Nat.add_mul_mod_self_left]

theorem stalls_iff (kbit : Nat) :
    Stalls kbit ↔ 0 < 125 * kbit % 2 ^ 29 ∧ 125 * kbit % 2 ^ 29 < 10 := by
  constructor
  · intro stalls
    have each : ∀ r ∈ stalledResidues, 0 < 125 * r % 2 ^ 29 ∧ 125 * r % 2 ^ 29 < 10 := by decide
    have small := each _ stalls
    rwa [Nat.mul_mod_mod] at small
  · rintro ⟨positive, small⟩
    unfold Stalls
    rw [residue_of_product]
    interval_cases 125 * kbit % 2 ^ 29 <;> decide

theorem ten_le_wrappedRate {ifZero : Nat} (large : 10 ≤ ifZero) (kbit : Nat) :
    10 ≤ wrappedRate ifZero kbit ↔ ¬ Stalls kbit := by
  rw [stalls_iff, wrappedRate]
  generalize 125 * kbit % 2 ^ 29 = bytes
  split <;> omega

theorem wrappedRate_eq (positive : 0 < kbit) (small : 1000 * kbit < 2 ^ 32) (ifZero : Nat) :
    wrappedRate ifZero kbit = 125 * kbit := by
  rw [wrappedRate, Nat.mod_eq_of_lt (by omega), if_neg (by omega)]

theorem ten_le_minByteRate : 10 ≤ minByteRate := by decide

theorem ten_le_maxByteRate : 10 ≤ maxByteRate := by decide

/-! ## Building a class -/

/-- The cell size of the tables: `cell_log` starts as -1, and an unknown MTU counts as 2047. -/
def tableCellLog (mtu : Nat) : Nat := cellLogFrom (if mtu = 0 then 2047 else mtu) 0

/-- What `qmark_tc_calc_rtable` adds to a rate specification. -/
def tableSpec (bps mtu : Nat) : TcRatespec :=
  { TcRatespec.ofRate bps with cellAlign := -1, cellLog := tableCellLog mtu, linklayer := 1 }

def rateTable (bps mtu : Nat) : List Nat :=
  (List.range 256).map (rtabEntry bps 0 (tableCellLog mtu))

theorem qmarkTcCalcRtable_ok (fast : 10 ≤ bps) (mtu : Nat) :
    qmarkTcCalcRtable (.ofRate bps) (-1) mtu =
      .ok (tableCellLog mtu, tableSpec bps mtu, rateTable bps mtu) := by
  have divisor : ¬ (TcRatespec.ofRate bps).rate / 10 = 0 := by
    show ¬ bps / 10 = 0
    omega
  rw [qmarkTcCalcRtable, if_neg divisor]
  rfl

theorem qmarkTcCalcRtable_slow (slow : bps < 10) (mtu : Nat) :
    qmarkTcCalcRtable (.ofRate bps) (-1) mtu = .error .divideByZero := by
  have divisor : (TcRatespec.ofRate bps).rate / 10 = 0 := by
    show bps / 10 = 0
    omega
  rw [qmarkTcCalcRtable, if_pos divisor]

/-- The attributes of a class whose byte rates are `bps` and `ceilBps`. -/
def classAttrs (bps ceilBps mtu : Nat) : HtbAttrs :=
  { opt := { rate := tableSpec bps mtu, ceil := tableSpec ceilBps mtu,
             buffer := 312500, cbuffer := 312500 }
    rtab := rateTable bps mtu
    ctab := rateTable ceilBps mtu }

theorem tcHtbOptParse_ok (rateOk : 10 ≤ wrappedRate minByteRate rate)
    (ceilOk : 10 ≤ wrappedRate maxByteRate ceil) (mtu : Nat) :
    tcHtbOptParse rate ceil mtu =
      .ok (classAttrs (wrappedRate minByteRate rate) (wrappedRate maxByteRate ceil) mtu) := by
  simp only [tcHtbOptParse, byteRate_eq, qmarkTcCalcRtable_ok rateOk, qmarkTcCalcRtable_ok ceilOk]
  rfl

theorem tcHtbOptParse_slow (slow : wrappedRate minByteRate rate < 10 ∨
    wrappedRate maxByteRate ceil < 10) (mtu : Nat) :
    tcHtbOptParse rate ceil mtu = .error .divideByZero := by
  simp only [tcHtbOptParse, byteRate_eq]
  rcases Nat.lt_or_ge (wrappedRate minByteRate rate) 10 with rateSlow | rateOk
  · rw [qmarkTcCalcRtable_slow rateSlow]
    rfl
  · have ceilSlow := slow.resolve_left (by omega)
    rw [qmarkTcCalcRtable_ok rateOk, qmarkTcCalcRtable_slow ceilSlow]
    rfl

/-- `tc_htb_opt_parse` divides by zero exactly if one of its rates stalls. -/
theorem tcHtbOptParse_cases (rate ceil mtu : Nat) :
    (¬ Stalls rate ∧ ¬ Stalls ceil ∧ tcHtbOptParse rate ceil mtu =
      .ok (classAttrs (wrappedRate minByteRate rate) (wrappedRate maxByteRate ceil) mtu)) ∨
    ((Stalls rate ∨ Stalls ceil) ∧ tcHtbOptParse rate ceil mtu = .error .divideByZero) := by
  have rateOk := ten_le_wrappedRate ten_le_minByteRate rate
  have ceilOk := ten_le_wrappedRate ten_le_maxByteRate ceil
  by_cases stalls : Stalls rate ∨ Stalls ceil
  · refine .inr ⟨stalls, tcHtbOptParse_slow ?_ mtu⟩
    rcases stalls with stalls | stalls
    · exact .inl (Nat.lt_of_not_le fun fast => rateOk.mp fast stalls)
    · exact .inr (Nat.lt_of_not_le fun fast => ceilOk.mp fast stalls)
  · have notRate : ¬ Stalls rate := fun h => stalls (.inl h)
    have notCeil : ¬ Stalls ceil := fun h => stalls (.inr h)
    exact .inl ⟨notRate, notCeil, tcHtbOptParse_ok (rateOk.mpr notRate) (ceilOk.mpr notCeil) mtu⟩

theorem tcHtbOptParse_isOk (rate ceil mtu : Nat) :
    (∃ attrs, tcHtbOptParse rate ceil mtu = .ok attrs) ↔ ¬ Stalls rate ∧ ¬ Stalls ceil := by
  rcases tcHtbOptParse_cases rate ceil mtu with ⟨notRate, notCeil, parsed⟩ | ⟨stalls, fault⟩
  · exact ⟨fun _ => ⟨notRate, notCeil⟩, fun _ => ⟨_, parsed⟩⟩
  · constructor
    · rintro ⟨attrs, parsed⟩
      cases fault.symm.trans parsed
    · rintro ⟨notRate, notCeil⟩
      exact (stalls.elim notRate notCeil).elim

/-! ## The requests of a rule -/

/-- `x`, unless a rate stalls on the way. -/
def unlessStalled {α : Type} (works : Prop) [Decidable works] (x : Except Oops α) : Except Oops α :=
  if works then x else .error .divideByZero

section

variable {α β : Type} {works works' : Prop} [Decidable works] [Decidable works']
  {x : Except Oops α}

theorem unlessStalled_pos (holds : works) (x : Except Oops α) : unlessStalled works x = x :=
  if_pos holds

theorem unlessStalled_neg (stalled : ¬ works) (x : Except Oops α) :
    unlessStalled works x = .error .divideByZero := if_neg stalled

theorem unlessStalled_congr (same : works ↔ works') (x : Except Oops α) :
    unlessStalled works x = unlessStalled works' x := if_congr same rfl rfl

theorem unlessStalled_bind (f : α → Except Oops β) :
    (unlessStalled works x >>= f) = unlessStalled works (x >>= f) := by
  unfold unlessStalled
  split <;> rfl

theorem unlessStalled_accepted (x : Except Oops α) :
    unlessStalled (RetCode.ok = .ok → works) x = unlessStalled works x :=
  unlessStalled_congr ⟨fun holds => holds rfl, fun holds _ => holds⟩ x

theorem unlessStalled_refused {ret : RetCode} (failed : ret ≠ .ok) (x : Except Oops α) :
    unlessStalled (ret = .ok → works) x = x := unlessStalled_pos (fun same => absurd same failed) x

theorem unlessStalled_eq_ok {a b : α} :
    unlessStalled works (.ok a) = .ok b ↔ works ∧ a = b := by
  unfold unlessStalled
  split <;> simp_all

end

/-- The rates that the class of a rule has on a device. -/
def classRates (rn : RuletblNode) (i : Nat) : Nat × Nat :=
  if i = 0 then (rn.rateMinMate, rn.rateMate) else (rn.rateMin, rn.rate)

theorem htbClassReq_options (rn : RuletblNode) (mark i : Nat) (dev : NetDevice) (exclCreate : Bool) :
    (htbClassReq .newTclass exclCreate rn mark i dev).options =
      .htb (classRates rn i).1 (classRates rn i).2 dev.mtu := by
  by_cases lan : i = 0
  · simp only [htbClassReq, classRates, lan, if_true]
  · simp only [htbClassReq, classRates, lan, if_true, if_false]

/-- The class of the rule divides by no zero on the devices that exist; the WAN device is
    looked up when the request for the LAN device is made. -/
def Buildable (env : Env) (lanDev wanDev : String) (rn : RuletblNode) : Prop :=
  (env.devGetByName lanDev).isSome = true →
    (¬ Stalls rn.rateMinMate ∧ ¬ Stalls rn.rateMate) ∧
      ((env.devGetByName wanDev).isSome = true → ¬ Stalls rn.rateMin ∧ ¬ Stalls rn.rate)

instance (env : Env) (lanDev wanDev : String) (rn : RuletblNode) :
    Decidable (Buildable env lanDev wanDev rn) := inferInstanceAs (Decidable (_ → _))

/-! ### What the walks send -/

theorem qmarkTcRtnlTalk_eq (env : Env) (n : RtnlReq) (s : St) :
    (qmarkTcRtnlTalk env n s).2 = { s with sent := delivered env n ++ s.sent } := by
  unfold qmarkTcRtnlTalk delivered
  split <;> rfl

/-- `works i` says when the options of the request for device `i` can be worked out. -/
theorem tcModify_eq {works : Nat → Prop} [DecidablePred works] (env : Env)
    {req : Nat → NetDevice → RtnlReq}
    (options : ∀ i dev, ∃ attrs, (req i dev).htbAttrs = unlessStalled (works i) (.ok attrs))
    (s : St) :
    ∃ ret, tcModify env req s =
      unlessStalled ((env.devGetByName s.qmarkLanDev).isSome = true →
          works 0 ∧ ((env.devGetByName s.qmarkWanDev).isSome = true → works 1))
        (.ok (ret, { s with
          sent := walked env s.qmarkLanDev s.qmarkWanDev req ++ s.sent })) := by
  -- the WAN device is looked up after the request for the LAN device has gone out
  cases lan : env.devGetByName s.qmarkLanDev with
  | none => exact ⟨.error, by simp [tcModify, walked, lan, unlessStalled]⟩
  | some lanDev =>
    obtain ⟨first, worked⟩ := options 0 lanDev
    by_cases onLan : works 0
    · rw [unlessStalled_pos onLan] at worked
      cases wan : env.devGetByName s.qmarkWanDev with
      | none =>
        exact ⟨.error, by simp [tcModify, walked, lan, wan, worked, qmarkTcRtnlTalk_eq, onLan,
          unlessStalled]⟩
      | some wanDev =>
        obtain ⟨second, worked'⟩ := options 1 wanDev
        refine ⟨.ok, ?_⟩
        by_cases onWan : works 1
        · rw [unlessStalled_pos onWan] at worked'
          simp [tcModify, walked, lan, wan, worked, worked', qmarkTcRtnlTalk_eq, onLan, onWan,
            unlessStalled]
        · rw [unlessStalled_neg onWan] at worked'
          simp [tcModify, lan, wan, worked, worked', qmarkTcRtnlTalk_eq, onWan, unlessStalled]
    · rw [unlessStalled_neg onLan] at worked
      exact ⟨.error, by simp [tcModify, lan, worked, onLan, unlessStalled]⟩

/-- Requests without htb options always reach their devices. -/
theorem tcModify_plain (env : Env) {req : Nat → NetDevice → RtnlReq}
    (plain : ∀ i dev rate ceil mtu, (req i dev).options ≠ .htb rate ceil mtu) (s : St) :
    ∃ ret, tcModify env req s = .ok (ret, { s with
      sent := walked env s.qmarkLanDev s.qmarkWanDev req ++ s.sent }) := by
  have options : ∀ i dev, ∃ attrs,
      (req i dev).htbAttrs = unlessStalled True (.ok attrs) := by
    intro i dev
    refine ⟨none, ?_⟩
    rw [unlessStalled_pos trivial, RtnlReq.htbAttrs]
    split
    · rename_i rate ceil mtu htb
      exact absurd htb (plain i dev rate ceil mtu)
    · rfl
  obtain ⟨ret, ran⟩ := tcModify_eq env options s
  exact ⟨ret, ran.trans (unlessStalled_pos (fun _ => ⟨trivial, fun _ => trivial⟩) _)⟩

theorem class_options (rn : RuletblNode) (mark i : Nat) (dev : NetDevice) :
    ∃ attrs, (htbClassReq .newTclass true rn mark i dev).htbAttrs =
      unlessStalled (¬ Stalls (classRates rn i).1 ∧ ¬ Stalls (classRates rn i).2) (.ok attrs) := by
  rcases tcHtbOptParse_cases (classRates rn i).1 (classRates rn i).2 dev.mtu with
    ⟨rate, ceil, parsed⟩ | ⟨stalls, parsed⟩
  · refine ⟨some (classAttrs (wrappedRate minByteRate (classRates rn i).1)
      (wrappedRate maxByteRate (classRates rn i).2) dev.mtu), ?_⟩
    rw [unlessStalled_pos ⟨rate, ceil⟩]
    simp only [RtnlReq.htbAttrs, htbClassReq_options, parsed, ok_bind, pure_eq_ok]
  · refine ⟨none, ?_⟩
    rw [unlessStalled_neg fun fine => stalls.elim fine.1 fine.2]
    simp only [RtnlReq.htbAttrs, htbClassReq_options, parsed, error_bind]

theorem tcHtbClassModify_new (env : Env) (rn : RuletblNode) (mark : Nat) (s : St) :
    ∃ ret, tcHtbClassModify env .newTclass true rn mark s =
      unlessStalled (Buildable env s.qmarkLanDev s.qmarkWanDev rn) (.ok (ret, { s with
        sent := walked env s.qmarkLanDev s.qmarkWanDev (htbClassReq .newTclass true rn mark) ++
          s.sent })) :=
  tcModify_eq env (class_options rn mark) s

theorem pfifoQdiscReq_plain (rn : RuletblNode) (mark : Nat) : ∀ i dev rate ceil mtu,
    (pfifoQdiscReq .newQdisc true rn mark i dev).options ≠ .htb rate ceil mtu := by
  simp [pfifoQdiscReq]

theorem fwFilterReq_plain (env : Env) (cmd : RtmCmd) (exclCreate : Bool) (rn : RuletblNode)
    (mark : Nat) : ∀ i dev rate ceil mtu,
      (fwFilterReq env cmd exclCreate rn mark i dev).options ≠ .htb rate ceil mtu := by
  simp [fwFilterReq]

theorem delTclass_plain (rn : RuletblNode) (mark : Nat) : ∀ i dev rate ceil mtu,
    (htbClassReq .delTclass false rn mark i dev).options ≠ .htb rate ceil mtu := by
  simp [htbClassReq]

theorem qmarkTcAddRule_eq (env : Env) (rn : RuletblNode) (mark : Nat) (s : St) :
    qmarkTcAddRule env rn mark s =
      unlessStalled (Buildable env s.qmarkLanDev s.qmarkWanDev rn) (.ok { s with
        sent := addRequests env s.qmarkLanDev s.qmarkWanDev rn mark ++ s.sent }) := by
  obtain ⟨_, built⟩ := tcHtbClassModify_new env rn mark s
  obtain ⟨_, queued⟩ := tcModify_plain env (pfifoQdiscReq_plain rn mark) { s with
      sent := walked env s.qmarkLanDev s.qmarkWanDev (htbClassReq .newTclass true rn mark) ++ s.sent }
  obtain ⟨_, filtered⟩ := tcModify_plain env (fwFilterReq_plain env .newTfilter true rn mark) { s with
      sent := walked env s.qmarkLanDev s.qmarkWanDev (pfifoQdiscReq .newQdisc true rn mark) ++
        (walked env s.qmarkLanDev s.qmarkWanDev (htbClassReq .newTclass true rn mark) ++ s.sent) }
  simp only [qmarkTcAddRule, built, unlessStalled_bind, ok_bind, tcPfifoQdiscModify, queued,
    tcFwFilterModify, filtered, addRequests, List.append_assoc, pure_eq_ok]

theorem qmarkTcDelRule_eq (env : Env) (rn : RuletblNode) (mark : Nat) (s : St) :
    qmarkTcDelRule env rn mark s = .ok { s with
      sent := delRequests env s.qmarkLanDev s.qmarkWanDev rn mark ++ s.sent } := by
  obtain ⟨_, unfiltered⟩ := tcModify_plain env (fwFilterReq_plain env .delTfilter false rn mark) s
  obtain ⟨_, removed⟩ := tcModify_plain env (delTclass_plain rn mark) { s with
      sent := walked env s.qmarkLanDev s.qmarkWanDev (fwFilterReq env .delTfilter false rn mark) ++
        s.sent }
  simp only [qmarkTcDelRule, tcFwFilterModify, unfiltered, ok_bind, tcHtbClassModify, removed,
    delRequests, List.append_assoc, pure_eq_ok]

/-! ### A call that has returned -/

theorem qmarkTcAddRule_done {env : Env} {rn : RuletblNode} {mark : Nat} {s s' : St}
    (ran : qmarkTcAddRule env rn mark s = .ok s') :
    s' = { s with sent := addRequests env s.qmarkLanDev s.qmarkWanDev rn mark ++ s.sent } := by
  rw [qmarkTcAddRule_eq, unlessStalled_eq_ok] at ran
  exact ran.2.symm

theorem qmarkTcDelRule_done {env : Env} {rn : RuletblNode} {mark : Nat} {s s' : St}
    (ran : qmarkTcDelRule env rn mark s = .ok s') :
    s' = { s with sent := delRequests env s.qmarkLanDev s.qmarkWanDev rn mark ++ s.sent } := by
  rw [qmarkTcDelRule_eq] at ran
  exact (Except.ok.inj ran).symm

end IpQos.Verified
