import IpQos.Verified.Rates
import IpQos.Verified.Removal

/-! # Rate tables of the classes

What `tc_htb_opt_parse` makes of the rates of a rule: when it divides by zero, when the
table of send times is right, and when the bursts hold a packet.  All three come down
to the byte rate, which is `125 * kbit` only as far as 32 bits carry `1000 * kbit`. -/

namespace IpQos.Verified

open IpQos.Kmod

/-- The class of every mark of a rule can be built for both devices. -/
def ClassBuilds (rn : RuletblNode) : Prop :=
  ∀ mark i dev, ∃ attrs, (htbClassReq .newTclass true rn mark i dev).htbAttrs = .ok attrs

theorem htbAttrs_isOk (rn : RuletblNode) (mark i : Nat) (dev : NetDevice) :
    (∃ attrs, (htbClassReq .newTclass true rn mark i dev).htbAttrs = .ok attrs) ↔
      if i = 0 then ¬ Stalls rn.rateMinMate ∧ ¬ Stalls rn.rateMate
      else ¬ Stalls rn.rateMin ∧ ¬ Stalls rn.rate := by
  have parsed (rate ceil : Nat) :
      (∃ attrs, (do let attrs ← tcHtbOptParse rate ceil dev.mtu
                    return some attrs) = .ok attrs) ↔ ¬ Stalls rate ∧ ¬ Stalls ceil := by
    rw [← tcHtbOptParse_isOk rate ceil dev.mtu]
    cases tcHtbOptParse rate ceil dev.mtu with
    | error e => simp
    | ok attrs => simp
  unfold RtnlReq.htbAttrs htbClassReq
  by_cases lan : i = 0
  · simp only [lan, if_true]
    exact parsed rn.rateMinMate rn.rateMate
  · simp only [lan, if_true, if_false]
    exact parsed rn.rateMin rn.rate

theorem classBuilds_iff (rn : RuletblNode) :
    ClassBuilds rn ↔
      ¬ (Stalls rn.rate ∨ Stalls rn.rateMate ∨ Stalls rn.rateMin ∨ Stalls rn.rateMinMate) := by
  simp only [ClassBuilds, htbAttrs_isOk]
  constructor
  · intro builds
    have lan := builds 0 0 ⟨0, 0⟩
    have wan := builds 0 1 ⟨0, 0⟩
    simp only [if_true, Nat.one_ne_zero, if_false] at lan wan
    rintro (rate | rateMate | rateMin | rateMinMate)
    · exact wan.2 rate
    · exact lan.2 rateMate
    · exact wan.1 rateMin
    · exact lan.1 rateMinMate
  · intro fine mark i dev
    split
    · exact ⟨fun h => fine (.inr (.inr (.inr h))), fun h => fine (.inr (.inl h))⟩
    · exact ⟨fun h => fine (.inr (.inr (.inl h))), fun h => fine (.inl h)⟩

/-- RULE_ADD stores its rates unchecked, and packets change the mark and the count of a rule
    only: the class of a mark can be built as long as the rule stays exactly if no rate of
    the request stalls. -/
theorem added_rule_builds_iff {env : Env} {qr : QmarkRule} {s s' : St} {rn : RuletblNode}
    (added : qmarkCdevIoctl env (.ruleAdd qr) s = .ok (.done, s'))
    (stored : ruleAt qr.id s' = .ok rn) (ruleMark : Nat) (count : Int) :
    ClassBuilds { rn with mark := ruleMark, count } ↔
      ¬ (Stalls qr.rate ∨ Stalls qr.rateMate ∨ Stalls qr.rateMin ∨ Stalls qr.rateMinMate) := by
  have modified : modifyRule qr.id (addedRule qr) s = .ok s' := by
    simp only [qmarkCdevIoctl, afterCopy] at added
    split at added
    · cases added
    · obtain ⟨s₁, ran, done⟩ := bind_eq_ok added
      cases done
      exact ran
  obtain ⟨old, _, now, _⟩ := ruleAt_modifyRule modified
  cases now.symm.trans stored
  rw [classBuilds_iff]
  rfl

def slowRule : QmarkRule := ⟨1, shareMode, 2, 1, 1, 0, 0⟩

/-- 1 kbit/s is slow, but no table divides by zero. -/
theorem slow_rule_builds : ClassBuilds { addedRule slowRule .zero with mark := 0x800, count := 1 } := by
  have added : qmarkCdevIoctl plainEnv (.ruleAdd slowRule) smallSt =
      .ok (.done, smallSt.setRules [addedRule slowRule .zero, .zero]) := rfl
  exact (added_rule_builds_iff added rfl 0x800 1).mpr (by decide)

/-- RULE_ADD takes a rate whose byte rate is 1, and the WAN class divides by zero. -/
theorem stalled_rule_faults :
    ∃ s' rn, qmarkCdevIoctl plainEnv (.ruleAdd ⟨1, privMode, 0, 115964117, 0, 0, 0⟩) smallSt =
        .ok (.done, s') ∧ ruleAt 1 s' = .ok rn ∧
      (htbClassReq .newTclass true rn 0x800 1 ⟨3, 1500⟩).htbAttrs = .error .divideByZero :=
  ⟨_, _, rfl, rfl, rfl⟩

/-! ## Cells -/

theorem cellLogFrom_fits (mtu c : Nat) : mtu >>> cellLogFrom mtu c ≤ 255 := by
  fun_induction cellLogFrom mtu c with
  | case1 c big ih => exact ih
  | case2 c small => omega

theorem cellLogFrom_least {mtu c k : Nat} (from_c : c ≤ k) (below : k < cellLogFrom mtu c) :
    255 < mtu >>> k := by
  fun_induction cellLogFrom mtu c with
  | case1 c big ih =>
    rcases Nat.eq_or_lt_of_le from_c with rfl | later
    · exact big
    · exact ih later below
  | case2 c small => omega

theorem tableCellLog_eq (positive : 0 < mtu) : tableCellLog mtu = cellLogFrom mtu 0 := by
  rw [tableCellLog, if_neg (by omega)]

theorem tableCellLog_le {n : Nat} (positive : 0 < mtu) (fits : mtu >>> n ≤ 255) :
    tableCellLog mtu ≤ n := by
  rw [tableCellLog_eq positive]
  by_contra beyond
  have big := cellLogFrom_least (Nat.zero_le n) (Nat.lt_of_not_le beyond)
  omega

theorem lt_tableCellLog {n : Nat} (positive : 0 < mtu) (big : 255 < mtu >>> n) :
    n < tableCellLog mtu := by
  rw [tableCellLog_eq positive]
  by_contra within
  have fits := cellLogFrom_fits mtu 0
  have smaller : mtu >>> n ≤ mtu >>> cellLogFrom mtu 0 := by
    rw [Nat.shiftRight_eq_div_pow, Nat.shiftRight_eq_div_pow]
    exact Nat.div_le_div_left (Nat.pow_le_pow_right (by decide) (Nat.le_of_not_lt within))
      (Nat.two_pow_pos _)
  omega

theorem lt_of_shiftRight_le {n : Nat} (fits : mtu >>> n ≤ 255) : mtu < 256 <<< n := by
  rw [Nat.shiftRight_eq_div_pow] at fits
  rw [Nat.shiftLeft_eq]
  exact (Nat.div_lt_iff_lt_mul (Nat.two_pow_pos n)).mp (by omega)

/-! ## Send times -/

/-- What a rate of `kbit` needs of the specification and the table of its class. -/
structure FaithfulRate (kbit mtu : Nat) (spec : TcRatespec) (rtab : List Nat) : Prop where
  rate : spec.rate = 125 * kbit
  cellLog_fits : mtu >>> spec.cellLog ≤ 255
  cellLog_least : ∀ c < spec.cellLog, 255 < mtu >>> c
  cells_cover : mtu < 256 <<< spec.cellLog
  length : rtab.length = 256
  mono : ∀ i j (order : i ≤ j) (bound : j < rtab.length), rtab[i] ≤ rtab[j]
  slow_enough : ∀ i (bound : i < rtab.length),
    15625000 * ((i + 1) <<< spec.cellLog) / (125 * kbit) ≤ rtab[i]

theorem rateTable_length (bps mtu : Nat) : (rateTable bps mtu).length = 256 := by
  simp [rateTable]

theorem rateTable_get {i : Nat} (bound : i < (rateTable bps mtu).length) :
    (rateTable bps mtu)[i] =
      u32 (u32 (100 * u32 ((i + 1) <<< tableCellLog mtu)) * 15625) / (bps / 10) := by
  simp [rateTable, rtabEntry, pschedNs2Ticks, nsecPerMsec]

/-- As long as a cell is no larger than 2748 bytes, neither product wraps. -/
theorem rateTable_get_small {i : Nat} (bound : i < (rateTable bps mtu).length)
    (small : (i + 1) <<< tableCellLog mtu ≤ 2748) :
    (rateTable bps mtu)[i] = 1562500 * ((i + 1) <<< tableCellLog mtu) / (bps / 10) := by
  rw [rateTable_get]
  generalize (i + 1) <<< tableCellLog mtu = sz at small ⊢
  have exact_product : u32 (u32 (100 * u32 sz) * 15625) = 1562500 * sz := by
    unfold u32
    omega
  rw [exact_product]

/-- Dividing by a truncated tenth of the rate rounds the time up. -/
theorem div_le_div_tenth {a b : Nat} (fast : 10 ≤ b) : 10 * a / b ≤ a / (b / 10) := by
  have tenth : 10 * (b / 10) ≤ b := Nat.mul_div_le b 10
  calc 10 * a / b ≤ 10 * a / (10 * (b / 10)) := Nat.div_le_div_left tenth (by omega)
    _ = a / (b / 10) := Nat.mul_div_mul_left _ _ (by decide)

theorem cell_le {i n : Nat} (bound : i < 256) (fine : n ≤ 3) : (i + 1) <<< n ≤ 2048 := by
  rw [Nat.shiftLeft_eq]
  calc (i + 1) * 2 ^ n ≤ 256 * 2 ^ 3 :=
        Nat.mul_le_mul (by omega) (Nat.pow_le_pow_right (by decide) fine)
    _ = 2048 := rfl

theorem FaithfulRate.of_small {kbit : Nat} (positive : 0 < kbit) (mtu_pos : 0 < mtu)
    (small : mtu < 2048) :
    FaithfulRate kbit mtu (tableSpec (125 * kbit) mtu) (rateTable (125 * kbit) mtu) := by
  -- cells of at most 8 bytes: no product of the table wraps
  have fine : tableCellLog mtu ≤ 3 :=
    tableCellLog_le mtu_pos (by rw [Nat.shiftRight_eq_div_pow]; omega)
  have entry : ∀ i (bound : i < (rateTable (125 * kbit) mtu).length),
      (rateTable (125 * kbit) mtu)[i] =
        1562500 * ((i + 1) <<< tableCellLog mtu) / (125 * kbit / 10) := by
    intro i bound
    have cell := cell_le ((rateTable_length _ _).symm ▸ bound) fine
    exact rateTable_get_small bound (by omega)
  have fits : mtu >>> tableCellLog mtu ≤ 255 := by
    rw [tableCellLog_eq mtu_pos]
    exact cellLogFrom_fits mtu 0
  refine ⟨rfl, fits, ?_, lt_of_shiftRight_le fits, rateTable_length _ _, ?_, ?_⟩
  · intro c below
    have below : c < tableCellLog mtu := below
    rw [tableCellLog_eq mtu_pos] at below
    exact cellLogFrom_least (Nat.zero_le c) below
  · intro i j order bound
    rw [entry i (by omega), entry j bound, Nat.shiftLeft_eq, Nat.shiftLeft_eq]
    refine Nat.div_le_div_right (Nat.mul_le_mul_left _ (Nat.mul_le_mul_right _ ?_))
    omega
  · intro i bound
    rw [entry i bound]
    have scaled (cell : Nat) : 15625000 * cell = 10 * (1562500 * cell) := by omega
    show 15625000 * ((i + 1) <<< tableCellLog mtu) / (125 * kbit) ≤ _
    rw [scaled]
    exact div_le_div_tenth (by omega)

/-- From an MTU of 2048 on, some cell is just too large for the product. -/
theorem cell_wraps (large : 2048 ≤ mtu) (bound : mtu ≤ 65535) :
    ∃ i < 256, (i + 1) <<< tableCellLog mtu = 2752 ∨ (i + 1) <<< tableCellLog mtu = 2816 := by
  have coarse : 3 < tableCellLog mtu :=
    lt_tableCellLog (by omega) (by rw [Nat.shiftRight_eq_div_pow]; omega)
  have eight : tableCellLog mtu ≤ 8 :=
    tableCellLog_le (by omega) (by rw [Nat.shiftRight_eq_div_pow]; omega)
  interval_cases tableCellLog mtu
  · exact ⟨171, by decide⟩
  · exact ⟨85, by decide⟩
  · exact ⟨42, by decide⟩
  · exact ⟨21, by decide⟩
  · exact ⟨10, by decide⟩

/-- The entry of such a cell is far below its send time. -/
theorem wrapped_entry_lt {sz : Nat} (wraps : sz = 2752 ∨ sz = 2816) (fast : 10 ≤ bps)
    (small : bps < 2 ^ 29) :
    u32 (u32 (100 * u32 sz) * 15625) / (bps / 10) < 15625000 * sz / bps := by
  have tenth_pos : 0 < bps / 10 := by omega
  have room : u32 (u32 (100 * u32 sz) * 15625) + bps / 10 ≤ 15625000 * sz / 19 := by
    unfold u32
    omega
  calc u32 (u32 (100 * u32 sz) * 15625) / (bps / 10)
      < u32 (u32 (100 * u32 sz) * 15625) / (bps / 10) + 1 := Nat.lt_succ_self _
    _ = (u32 (u32 (100 * u32 sz) * 15625) + bps / 10) / (bps / 10) :=
        (Nat.add_div_right _ tenth_pos).symm
    _ ≤ 15625000 * sz / 19 / (bps / 10) := Nat.div_le_div_right room
    _ = 15625000 * sz / (19 * (bps / 10)) := Nat.div_div_eq_div_mul _ _ _
    _ ≤ 15625000 * sz / bps := Nat.div_le_div_left (by omega) (by omega)

theorem not_faithful_of_large {kbit : Nat} (positive : 0 < kbit) (unwrapped : 1000 * kbit < 2 ^ 32)
    (large : 2048 ≤ mtu) (bound : mtu ≤ 65535) :
    ¬ FaithfulRate kbit mtu (tableSpec (125 * kbit) mtu) (rateTable (125 * kbit) mtu) := by
  intro faithful
  obtain ⟨i, inTable, wraps⟩ := cell_wraps large bound
  have inRange : i < (rateTable (125 * kbit) mtu).length := by
    rwa [rateTable_length]
  have slow := faithful.slow_enough i inRange
  rw [rateTable_get] at slow
  have fast : 10 ≤ 125 * kbit := by omega
  have short := wrapped_entry_lt wraps fast (by omega)
  exact Nat.not_le_of_lt short slow

/-- The programmed rate is the configured one only if `1000 * kbit` does not wrap, and the
    table is right only below an MTU of 2048: for larger packets `100 * sz * 15625` wraps. -/
theorem faithful_rate_iff {kbit : Nat} (positive : 1 ≤ kbit) (mtu_pos : 1 ≤ mtu)
    (bound : mtu ≤ 65535) :
    (∃ attrs, tcHtbOptParse kbit ceil mtu = .ok attrs ∧
      FaithfulRate kbit mtu attrs.opt.rate attrs.rtab) ↔
      1000 * kbit < 2 ^ 32 ∧ mtu < 2048 ∧ ¬ Stalls ceil := by
  constructor
  · rintro ⟨attrs, parsed, faithful⟩
    rcases tcHtbOptParse_cases kbit ceil mtu with ⟨_, notCeil, parsed'⟩ | ⟨_, fault⟩
    · cases parsed.symm.trans parsed'
      have programmed : wrappedRate minByteRate kbit = 125 * kbit := faithful.rate
      have unwrapped : 1000 * kbit < 2 ^ 32 := by
        unfold wrappedRate minByteRate at programmed
        split at programmed <;> omega
      simp only [classAttrs, programmed] at faithful
      refine ⟨unwrapped, Nat.lt_of_not_le fun large => ?_, notCeil⟩
      exact not_faithful_of_large positive unwrapped large bound faithful
    · cases parsed.symm.trans fault
  · rintro ⟨unwrapped, small, notCeil⟩
    have programmed := wrappedRate_eq positive unwrapped minByteRate
    refine ⟨_, tcHtbOptParse_ok ?_ ((ten_le_wrappedRate ten_le_maxByteRate ceil).mpr notCeil) mtu, ?_⟩
    · rw [programmed]
      omega
    · simp only [classAttrs, programmed]
      exact FaithfulRate.of_small positive mtu_pos small

/-- 1 Mbit/s on Ethernet. -/
theorem ethernet_rate_faithful :
    ∃ attrs, tcHtbOptParse 1000 1000 1500 = .ok attrs ∧
      FaithfulRate 1000 1500 attrs.opt.rate attrs.rtab :=
  (faithful_rate_iff (by decide) (by decide) (by decide)).mpr (by decide)

/-- 1 Mbit/s on a device with jumbo frames. -/
theorem jumbo_rate_not_faithful :
    ¬ ∃ attrs, tcHtbOptParse 1000 1000 9000 = .ok attrs ∧
      FaithfulRate 1000 9000 attrs.opt.rate attrs.rtab := by
  rintro ⟨attrs, parsed, faithful⟩
  have rateOk : 10 ≤ wrappedRate minByteRate 1000 := by decide
  have ceilOk : 10 ≤ wrappedRate maxByteRate 1000 := by decide
  have parsed' := tcHtbOptParse_ok rateOk ceilOk 9000
  cases parsed.symm.trans parsed'
  exact not_faithful_of_large (by decide) (by decide) (by decide) (by decide) faithful

/-! ## Bursts -/

/-- `ticks` of 64 ns at `bps` byte/s are worth at least `bytes`. -/
def Worth (ticks bps bytes : Nat) : Prop := bytes * 10 ^ 9 ≤ ticks * 64 * bps

/-- The burst that is programmed for a rate holds what the clamp computed for it. -/
def HoldsBurst (ticks mtu : Nat) (spec : TcRatespec) : Prop :=
  Worth ticks spec.rate (burstBytes spec.rate mtu)

theorem burstBytes_eq (bps mtu : Nat) : burstBytes bps mtu = max (bps / 50) mtu := by
  simp only [burstBytes]
  split <;> omega

/-- 312500 ticks are 20 ms, in which the rate sends its 50th part. -/
theorem holdsBurst_iff (bps mtu : Nat) :
    HoldsBurst 312500 mtu (tableSpec bps mtu) ↔ 50 * mtu ≤ bps := by
  show Worth 312500 bps (burstBytes bps mtu) ↔ _
  rw [Worth, burstBytes_eq]
  omega

/-- Both buffers are 20 ms whatever the clamp said, so they hold a packet exactly if 20 ms
    at the rate do. -/
theorem bursts_hold_iff (rate ceil mtu : Nat) :
    (∃ attrs, tcHtbOptParse rate ceil mtu = .ok attrs ∧
      HoldsBurst attrs.opt.buffer mtu attrs.opt.rate ∧
      HoldsBurst attrs.opt.cbuffer mtu attrs.opt.ceil) ↔
      ¬ Stalls rate ∧ ¬ Stalls ceil ∧ 50 * mtu ≤ wrappedRate minByteRate rate ∧
        50 * mtu ≤ wrappedRate maxByteRate ceil := by
  rcases tcHtbOptParse_cases rate ceil mtu with ⟨notRate, notCeil, parsed⟩ | ⟨stalls, fault⟩
  · rw [parsed]
    constructor
    · rintro ⟨attrs, ok, buffer, cbuffer⟩
      cases ok
      exact ⟨notRate, notCeil, (holdsBurst_iff _ mtu).mp buffer, (holdsBurst_iff _ mtu).mp cbuffer⟩
    · rintro ⟨_, _, buffer, cbuffer⟩
      exact ⟨_, rfl, (holdsBurst_iff _ mtu).mpr buffer, (holdsBurst_iff _ mtu).mpr cbuffer⟩
  · constructor
    · rintro ⟨attrs, ok, _⟩
      cases fault.symm.trans ok
    · rintro ⟨notRate, notCeil, _⟩
      exact (stalls.elim notRate notCeil).elim

/-- 10 kbit/s on Ethernet: 20 ms are 25 bytes. -/
theorem slow_burst_too_small :
    ∃ attrs, tcHtbOptParse 10 1000 1500 = .ok attrs ∧
      ¬ HoldsBurst attrs.opt.buffer 1500 attrs.opt.rate := by
  refine ⟨_, tcHtbOptParse_ok (by decide) (by decide) 1500, ?_⟩
  simp only [classAttrs, holdsBurst_iff]
  decide

end IpQos.Verified
