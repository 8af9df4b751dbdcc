import IpQos.Script.Install
import IpQos.Verified.Target
import Mathlib.Tactic.IntervalCases

/-! # The line of numbers

`qos_rule_install` writes a rule as a line of numbers, `sscanf` reads it, and iptables reads the
id once more for itself.  A number without digits leaves only a blank on the line. -/

namespace IpQos.Verified

open IpQos.App (Libc RuleOption)
open IpQos.Kmod (QmarkRule QmarkIoc)
open IpQos.Lib (numeral numeral? packed_iff scanInts_line octal_eq_iff ofDigitChars_le
  digit_le_numeral isDigit_lt)
open IpQos.Script

variable {xt : Xtables} {wanModeOne : Bool} {name : Name} {o : RuleOptions}

/-- Behind a word without digits there are only zeros. -/
def Aligned (words : List (List Char)) : Prop :=
  words.Pairwise fun v w => v = [] → numeral w = 0

instance (words : List (List Char)) : Decidable (Aligned words) :=
  inferInstanceAs (Decidable (words.Pairwise fun v w => v = [] → numeral w = 0))

/-! ## Words -/

@[simp] theorem numeral_nil : numeral [] = 0 := rfl

theorem numeral?_getD (w : List Char) : (numeral? w).getD 0 = numeral w := by
  unfold numeral?
  split
  · simp [*]
  · rfl

theorem numeral?_eq_none {w : List Char} : numeral? w = none ↔ w = [] := by
  simp [numeral?]

theorem onlyDigits_digits (w : List Char) : ∀ c ∈ onlyDigits w, c.isDigit = true :=
  fun _ member => (List.mem_filter.mp member).2

theorem cutNonDigits_digits (w : List Char) : ∀ c ∈ cutNonDigits w, c.isDigit = true :=
  fun _ member => List.mem_takeWhile_imp member

theorem ruleWords_digits : ∀ w ∈ ruleWords wanModeOne name o, ∀ c ∈ w, c.isDigit = true := by
  have number : ∀ c ∈ ['0'], c.isDigit = true := by simp
  have mode : ∀ c ∈ (if o.mode = "priv".toList then ['0'] else ['1']), c.isDigit = true := by
    split <;> simp
  have wid : ∀ c ∈ (if wanModeOne = true then ['0']
      else if onlyDigits o.ifPong = [] then ['0'] else onlyDigits o.ifPong), c.isDigit = true := by
    split
    · exact number
    · split
      · exact number
      · exact onlyDigits_digits o.ifPong
  simp only [ruleWords, List.forall_mem_cons]
  exact ⟨onlyDigits_digits _, mode, wid, cutNonDigits_digits _, cutNonDigits_digits _,
    cutNonDigits_digits _, cutNonDigits_digits _, nofun⟩

/-! ## What the tool reads -/

theorem store_ofNat (libc : Libc) {v : ℕ} (small : v < 2 ^ 31) : libc.store (Int.ofNat v) = v := by
  have range : -0x80000000 ≤ Int.ofNat v ∧ Int.ofNat v < 0x80000000 := by
    rw [Int.ofNat_eq_natCast]
    omega
  have word : (v : ℤ) % 0x100000000 = v := Int.emod_eq_of_lt (by omega) (by omega)
  unfold Libc.store
  rw [if_pos range, Int.ofNat_eq_natCast, word, Int.toNat_natCast]

/-- The variables are assigned from the left; a word without digits has none. -/
theorem sscanf_line (libc : Libc) {n : ℕ} (words : List (List Char)) (length : words.length ≤ n)
    (digits : ∀ w ∈ words, ∀ c ∈ w, c.isDigit = true) (small : ∀ w ∈ words, numeral w < 2 ^ 31) :
    libc.sscanf n ([' '].intercalate words) = words.filterMap numeral? := by
  have few : ((words.filterMap numeral?).map Int.ofNat).length ≤ n := by
    rw [List.length_map]
    exact (List.length_filterMap_le _ _).trans length
  rw [Libc.sscanf, scanInts_line digits, List.take_of_length_le few, List.map_map]
  have stored : ∀ v ∈ words.filterMap numeral?, (libc.store ∘ Int.ofNat) v = v := by
    intro v member
    obtain ⟨w, inside, read⟩ := List.mem_filterMap.mp member
    have value : v = numeral w := by rw [← numeral?_getD, read, Option.getD_some]
    have fits := small w inside
    rw [← value] at fits
    rw [Function.comp_apply, store_ofNat libc fits]
  rw [List.map_congr_left stored, List.map_id']

/-- The tool reads the rule of the section exactly if every number keeps its place. -/
theorem addRule_iff (libc : Libc) (small : ∀ w ∈ ruleWords wanModeOne name o, numeral w < 2 ^ 31) :
    (RuleOption.addRule (addRuleLine wanModeOne name o)).ioctl libc =
        .ruleAdd (configured wanModeOne name o) ↔ Aligned (ruleWords wanModeOne name o) := by
  have read := sscanf_line libc (ruleWords wanModeOne name o) (Nat.le_refl 7) ruleWords_digits small
  have places := packed_iff numeral? 0 (ruleWords wanModeOne name o)
  simp only [numeral?_getD, numeral?_eq_none] at places
  rw [Aligned, ← places]
  unfold RuleOption.ioctl configured addRuleLine
  dsimp only
  rw [read]
  have written : ((ruleWords wanModeOne name o).map numeral).length = 7 := rfl
  have assigned : ((ruleWords wanModeOne name o).filterMap numeral?).length ≤ 7 :=
    List.length_filterMap_le _ _
  generalize (ruleWords wanModeOne name o).filterMap numeral? = vs at assigned
  generalize (ruleWords wanModeOne name o).map numeral = ws at written
  simp only [QmarkIoc.ruleAdd.injEq, QmarkRule.mk.injEq]
  constructor
  · rintro ⟨id, mode, devid, rate, rateMate, rateMin, rateMinMate⟩ k
    by_cases inside : k < 7
    · interval_cases k <;> assumption
    · rw [List.getD_eq_default _ _ (by omega), List.getD_eq_default _ _ (by omega)]
  · exact fun same => ⟨same 0, same 1, same 2, same 3, same 4, same 5, same 6⟩

/-! ## What the id names -/

/-- The number of a rule. -/
def ruleId (name : Name) : ℕ := numeral (onlyDigits name.text)

theorem delRule_option (libc : Libc) (number : onlyDigits name.text ≠ []) :
    (Cmd.delRule name).option.map (·.ioctl libc) =
      some ((RuleOption.delRule (onlyDigits name.text)).ioctl libc) := by
  rw [Cmd.option, if_neg number, Option.map_some]

theorem sscanf_id (libc : Libc) (number : onlyDigits name.text ≠ []) (small : ruleId name < 2 ^ 31) :
    (libc.sscanf 1 (onlyDigits name.text)).getD 0 0 = ruleId name := by
  have read := sscanf_line libc [onlyDigits name.text] (Nat.le_refl 1)
    (by simpa using onlyDigits_digits name.text) (by simpa [ruleId] using small)
  have value : numeral? (onlyDigits name.text) = some (ruleId name) := by
    simp [numeral?, number, ruleId]
  rw [List.intercalate_singleton, List.filterMap_cons_some value] at read
  rw [read]
  rfl

/-- iptables takes a number with a zero in front for an octal one. -/
theorem setId_iff (documented : xt.Documented) (number : onlyDigits name.text ≠ [])
    (small : numeral (onlyDigits name.text) < 2 ^ 31) :
    setId xt name = some (numeral (onlyDigits name.text)) ↔
      (onlyDigits name.text).head? ≠ some '0' ∨ numeral (onlyDigits name.text) < 8 := by
  have digits := onlyDigits_digits name.text
  rw [setId, if_neg number]
  generalize onlyDigits name.text = w at number small digits
  by_cases padded : w.head? = some '0'
  · simp only [padded, ne_eq, not_true_eq_false, false_or]
    by_cases octal : ∀ c ∈ w, c.toNat - '0'.toNat < 8
    · have less : Nat.ofDigitChars 8 w 0 ≤ numeral w := ofDigitChars_le (Nat.le_refl 0)
      rw [documented.octal w padded digits octal (by omega), Option.some.injEq]
      exact octal_eq_iff octal
    · obtain ⟨c, member, large⟩ : ∃ c ∈ w, 8 ≤ c.toNat - '0'.toNat := by
        by_contra none
        exact octal fun c member => by
          by_contra large
          exact none ⟨c, member, by omega⟩
      rw [documented.notOctal w padded digits ⟨c, member, large⟩]
      have atLeast := digit_le_numeral member
      simp only [reduceCtorEq, false_iff]
      omega
  · rw [documented.decimal w number digits padded (by omega)]
    simp [padded]

/-- The tool reads the section's rule from the line exactly if a number that has no digits is
    followed by zeros only; both its options read the number of the rule from its name, and
    iptables reads the same number exactly if there is no zero in front, or 8 is not reached. -/
theorem line_carries_rule (libc : Libc) (documented : xt.Documented)
    (small : ∀ w ∈ ruleWords wanModeOne name o, numeral w < 2 ^ 31) :
    ((RuleOption.addRule (addRuleLine wanModeOne name o)).ioctl libc =
        .ruleAdd (configured wanModeOne name o) ↔ Aligned (ruleWords wanModeOne name o)) ∧
      (onlyDigits name.text ≠ [] →
        (∃ qr, (RuleOption.addRule (addRuleLine wanModeOne name o)).ioctl libc = .ruleAdd qr ∧
          qr.id = ruleId name) ∧
        (∃ qr, (Cmd.delRule name).option.map (·.ioctl libc) = some (.ruleDel qr) ∧
          qr.id = ruleId name) ∧
        (setId xt name = some (ruleId name) ↔
          (onlyDigits name.text).head? ≠ some '0' ∨ ruleId name < 8)) := by
  have idSmall : ruleId name < 2 ^ 31 := small _ List.mem_cons_self
  refine ⟨addRule_iff libc small, fun number => ⟨⟨_, rfl, ?_⟩, ?_, setId_iff documented number idSmall⟩⟩
  swap
  · exact ⟨_, delRule_option libc number, sscanf_id libc number idSmall⟩
  have read := sscanf_line libc (ruleWords wanModeOne name o) (Nat.le_refl 7) ruleWords_digits small
  have first : numeral? (onlyDigits name.text) = some (ruleId name) := by
    simp [numeral?, number, ruleId]
  simp only [addRuleLine, read]
  rw [ruleWords, List.filterMap_cons_some first]
  rfl

/-- The literals of digits, as C reads them. -/
def manualXtables : Xtables where
  uint32 word :=
    let base := if word.head? = some '0' then 8 else 10
    if word.all fun c => c.toNat - '0'.toNat < base then
      if Nat.ofDigitChars base word 0 < 2 ^ 32 then some (Nat.ofDigitChars base word 0) else none
    else none

theorem manualXtables_documented : manualXtables.Documented where
  decimal := by
    intro word _ digits plain small
    have tens : (word.all fun c => decide (c.toNat - '0'.toNat < 10)) = true := by
      rw [List.all_eq_true]
      intro c member
      exact decide_eq_true (isDigit_lt (digits c member))
    unfold numeral at small
    simp only [manualXtables, plain, if_false, tens, if_true, small, numeral]
  octal := by
    intro word padded _ eights small
    have all : (word.all fun c => decide (c.toNat - '0'.toNat < 8)) = true := by
      rw [List.all_eq_true]
      intro c member
      exact decide_eq_true (eights c member)
    simp only [manualXtables, padded, if_true, all, small]
  notOctal := by
    rintro word padded _ ⟨c, member, large⟩
    have some : (word.all fun c => decide (c.toNat - '0'.toNat < 8)) = false := by
      rw [List.all_eq_false]
      exact ⟨c, member, by simpa using large⟩
    simp only [manualXtables, padded, if_true, some, Bool.false_eq_true, if_false]

def ruleTwelve : Name where
  text := "qos_rule_12".toList
  nonempty := by decide
  plain := by simp

/-- A private rule for WAN2 with an upper rate. -/
def twelveOptions : RuleOptions where
  mode := "priv".toList
  ifPong := "WAN2".toList
  rateMax := "2000kbps".toList
  rateMin := []
  rateMaxMate := []
  rateMinMate := []

theorem ruleTwelve_carried :
    (RuleOption.addRule (addRuleLine false ruleTwelve twelveOptions)).ioctl ⟨fun _ => 0⟩ =
        .ruleAdd ⟨12, 0, 2, 2000, 0, 10, 10⟩ ∧
      setId manualXtables ruleTwelve = some 12 := by
  have small : ∀ w ∈ ruleWords false ruleTwelve twelveOptions, numeral w < 2 ^ 31 := by decide
  have carried := line_carries_rule ⟨fun _ => 0⟩ manualXtables_documented small
  have described : configured false ruleTwelve twelveOptions = ⟨12, 0, 2, 2000, 0, 10, 10⟩ := by
    decide
  have read := carried.1.mpr (by decide)
  have id := (carried.2 (by decide)).2.2.mpr (by decide)
  rw [described] at read
  exact ⟨read, id⟩

end IpQos.Verified
