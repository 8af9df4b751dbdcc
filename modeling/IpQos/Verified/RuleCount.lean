import IpQos.Verified.RuleLists
import IpQos.Lib.Run
import Mathlib.Data.Finset.Card

/-! # The rule counter

`rule_num` against the rules that exist.  It is stored after a list is worked off; a call
that meets the spec, a rule counted twice and a rule that was never counted make it drift. -/

namespace IpQos.Verified

open IpQos.Script
open IpQos.Lib (Throughout Allowed throughout_iff_allowed)

variable {u : Uci} {s t : RulesSt} {ruleSpec : Nat} {list : List Name} {ruleNum : Option Int}

/-! ## How far a list is worked off -/

/-- The rules of a list as far as the first one whose installation fails, and that one too. -/
def upToFailing (u : Uci) : List Name → RulesSt → List Name
  | [], _ => []
  | name :: list, s =>
    if Caller.rulesParse.tries u name then
      match ruleInstall u name s with
      | (0, s) => name :: upToFailing u list s
      | (_, _) => [name]
    else name :: upToFailing u list s

/-- The installed rules and the sets decide it. -/
theorem upToFailing_congr (install : s.nf.install = t.nf.install) (sets : s.sets = t.sets)
    (list : List Name) : upToFailing u list s = upToFailing u list t := by
  induction list generalizing s t with
  | nil => rfl
  | cons name list ih =>
    rw [upToFailing, upToFailing]
    by_cases tried : Caller.rulesParse.tries u name = true
    · rw [if_pos tried, if_pos tried]
      by_cases due : Due u s name
      · have due' : Due u t name := by rwa [Due, ← install, ← sets]
        obtain ⟨nf, ran, installed⟩ := ruleInstall_of_eligible due.1 due.2
        obtain ⟨nf', ran', installed'⟩ := ruleInstall_of_eligible due'.1 due'.2
        rw [ran, ran']
        refine congrArg (name :: ·) (ih ?_ ?_)
        · rw [installed, installed', install]
        · rw [sets]
      · have notDue : ¬ Due u t name := by rwa [Due, ← install, ← sets]
        rw [ruleInstall_of_not due, ruleInstall_of_not notDue]
        rfl
    · rw [if_neg tried, if_neg tried, ih install sets]

theorem upToFailing_isPrefix (u : Uci) (list : List Name) (s : RulesSt) :
    upToFailing u list s <+: list := by
  induction list generalizing s with
  | nil => exact List.prefix_refl []
  | cons name list ih =>
    rw [upToFailing]
    split
    · split
      · exact List.prefix_cons_inj name |>.mpr (ih _)
      · exact ⟨list, rfl⟩
    · exact List.prefix_cons_inj name |>.mpr (ih s)

theorem upToFailing_ne_nil (u : Uci) (name : Name) (list : List Name) (s : RulesSt) :
    upToFailing u (name :: list) s ≠ [] := by
  rw [upToFailing]
  split
  · split <;> simp
  · simp

/-! ## The loop of qos_rules_parse -/

/-- The loop keeps these fields, and one step of it goes on with the next rule or ends. -/
theorem rulesLoop_keeps (u : Uci) (ruleSpec : Nat) (list : List Name) (ruleNum : Option Int)
    (s : RulesSt) :
    (rulesLoop u ruleSpec list ruleNum s).st.ruleNum = s.ruleNum ∧
      (rulesLoop u ruleSpec list ruleNum s).st.stopFlag = s.stopFlag := by
  induction list generalizing ruleNum s with
  | nil => exact ⟨rfl, rfl⟩
  | cons name list ih =>
    rw [rulesLoop]
    split
    · exact ⟨rfl, rfl⟩
    · split
      · exact ⟨rfl, rfl⟩
      · split
        · exact ih _ s
        · split
          · exact ih _ s
          · cases ran : ruleInstall u name s with
            | mk status t =>
              -- an installation writes neither of the two
              have same : t.ruleNum = s.ruleNum ∧ t.stopFlag = s.stopFlag := by
                have whole : t = (ruleInstall u name s).2 := by rw [ran]
                rw [whole]
                exact ⟨rfl, rfl⟩
              cases status with
              | zero => exact ⟨(ih _ t).1.trans same.1, (ih _ t).2.trans same.2⟩
              | succ n => exact same

/-- One turn of the loop below the spec. -/
theorem rulesLoop_cons (running : s.stopFlag = false)
    (below : specReached ruleSpec ruleNum = false) (name : Name) (list : List Name) :
    ∃ rest : Parsed, rulesLoop u ruleSpec (name :: list) ruleNum s =
        { rest with accepted := name :: rest.accepted } ∧
      ((∃ t, t.stopFlag = false ∧
          rest = rulesLoop u ruleSpec list (some (ruleNum.getD 0 + 1)) t ∧
          upToFailing u (name :: list) s = name :: upToFailing u list t) ∨
        rest.accepted = [] ∧ rest.ruleNum = some (some (ruleNum.getD 0 + 1)) ∧
          upToFailing u (name :: list) s = [name]) := by
  rw [rulesLoop, upToFailing]
  simp only [running, below, Bool.false_eq_true, if_false]
  refine ⟨_, rfl, ?_⟩
  -- only a rule that is tried can end the loop, by its status
  by_cases tried : Caller.rulesParse.tries u name = true
  · obtain ⟨enabled, timed⟩ : u.enabled name = true ∧ u.timed name = false := by
      simpa [Caller.tries] using tried
    simp only [enabled, timed, tried, Bool.not_true, Bool.false_eq_true, if_false, if_true]
    cases ran : ruleInstall u name s with
    | mk status t =>
      cases status with
      | zero => exact .inl ⟨t, running_of_ruleInstall ran running, rfl, rfl⟩
      | succ n => exact .inr ⟨rfl, rfl, rfl⟩
  · refine .inl ⟨s, running, ?_, by rw [if_neg tried]⟩
    by_cases enabled : u.enabled name = true
    · have timed : u.timed name = true := by simpa [Caller.tries, enabled] using tried
      simp only [enabled, timed, Bool.not_true, Bool.false_eq_true, if_false, if_true]
    · simp only [enabled, Bool.not_false, if_true]

theorem specReached_eq_false {n : Int} (below : n < ruleSpec) :
    specReached ruleSpec (some n) = false := by
  simpa [specReached] using below

/-- Within the spec every rule worked off is counted. -/
theorem rulesLoop_counts (running : s.stopFlag = false)
    (room : ruleNum.getD 0 + (upToFailing u list s).length ≤ ruleSpec) :
    (rulesLoop u ruleSpec list ruleNum s).accepted = upToFailing u list s ∧
      ∃ m, (rulesLoop u ruleSpec list ruleNum s).ruleNum = some m ∧
        m.getD 0 = ruleNum.getD 0 + (upToFailing u list s).length := by
  induction list generalizing ruleNum s with
  | nil => exact ⟨rfl, ruleNum, rfl, by simp [upToFailing]⟩
  | cons name list ih =>
    have positive := List.length_pos_iff.mpr (upToFailing_ne_nil u name list s)
    -- there is room for at least one rule
    have below : specReached ruleSpec ruleNum = false := by
      cases ruleNum with
      | none => rfl
      | some n =>
        rw [Option.getD_some] at room
        exact specReached_eq_false (by omega)
    obtain ⟨rest, turn, ⟨t, runningAfter, isRest, worked⟩ | ⟨accepted, counted, worked⟩⟩ :=
      rulesLoop_cons (u := u) running below name list
    · rw [worked, List.length_cons] at room
      have roomAfter : (some (ruleNum.getD 0 + 1) : Option Int).getD 0 +
          (upToFailing u list t).length ≤ ruleSpec := by
        rw [Option.getD_some]
        omega
      obtain ⟨acceptedRest, m, counted, value⟩ := ih runningAfter roomAfter
      rw [turn, worked, isRest]
      refine ⟨by rw [acceptedRest], m, counted, ?_⟩
      rw [value, Option.getD_some, List.length_cons]
      omega
    · rw [turn, worked]
      exact ⟨by rw [accepted], _, counted, rfl⟩

/-- Beyond the spec the loop returns at the check, and what it counted is lost. -/
theorem rulesLoop_returns {n : Int} (running : s.stopFlag = false) (le : n ≤ ruleSpec)
    (beyond : ruleSpec < n + (upToFailing u list s).length) :
    (rulesLoop u ruleSpec list (some n) s).accepted =
        (upToFailing u list s).take (ruleSpec - n).toNat ∧
      (rulesLoop u ruleSpec list (some n) s).ruleNum = none := by
  induction list generalizing n s with
  | nil =>
    simp only [upToFailing, List.length_nil] at beyond
    omega
  | cons name list ih =>
    by_cases reached : specReached ruleSpec (some n) = true
    -- the loop returns here, with the counter not written back
    · have full : (ruleSpec - n).toNat = 0 := by
        simp only [specReached, decide_eq_true_eq] at reached
        omega
      rw [full, rulesLoop]
      simp [running, reached]
    · have below : n < ruleSpec := by
        simpa [specReached] using reached
      obtain ⟨rest, turn, ⟨t, runningAfter, isRest, worked⟩ | ⟨-, -, worked⟩⟩ :=
        rulesLoop_cons (u := u) running (specReached_eq_false below) name list
      · rw [worked, List.length_cons] at beyond
        have another : (ruleSpec - n).toNat = (ruleSpec - (n + 1)).toNat + 1 := by omega
        obtain ⟨acceptedRest, counted⟩ := ih (n := n + 1) runningAfter (by omega) (by omega)
        rw [turn, worked, isRest, another, List.take_succ_cons, ← acceptedRest]
        exact ⟨rfl, counted⟩
      · rw [worked, List.length_singleton] at beyond
        omega

/-- An unset counter counts from 0. -/
theorem rulesLoop_none (running : s.stopFlag = false) (positive : 0 < ruleSpec) (name : Name)
    (list : List Name) :
    rulesLoop u ruleSpec (name :: list) none s = rulesLoop u ruleSpec (name :: list) (some 0) s := by
  have below : specReached ruleSpec (some 0) = false := specReached_eq_false (by omega)
  have unset : specReached ruleSpec none = false := rfl
  rw [rulesLoop, rulesLoop]
  simp only [running, below, unset, Bool.false_eq_true, if_false, Option.getD_none,
    Option.getD_some]

/-! ## qos_rules_parse -/

theorem qosRulesParse_running (running : s.stopFlag = false) :
    (qosRulesParse u ruleSpec list s).2.2.stopFlag = false := by
  have kept := (rulesLoop_keeps u ruleSpec list s.ruleNum s).2.trans running
  unfold qosRulesParse
  cases left : (rulesLoop u ruleSpec list s.ruleNum s).ruleNum with
  | none => simpa only [left] using kept
  | some n => simpa only [left] using kept

theorem qosRulesParse_counts (running : s.stopFlag = false)
    (room : s.ruleNum.getD 0 + (upToFailing u list s).length ≤ ruleSpec) :
    (qosRulesParse u ruleSpec list s).2.1 = upToFailing u list s ∧
      (qosRulesParse u ruleSpec list s).2.2.ruleNum.getD 0 =
        s.ruleNum.getD 0 + (upToFailing u list s).length := by
  obtain ⟨accepted, m, left, value⟩ := rulesLoop_counts running room
  simp only [qosRulesParse, left]
  exact ⟨accepted, value⟩

theorem qosRulesParse_returns (running : s.stopFlag = false)
    (unset : s.ruleNum = none → 0 < ruleSpec) (le : s.ruleNum.getD 0 ≤ ruleSpec)
    (beyond : ruleSpec < s.ruleNum.getD 0 + (upToFailing u list s).length) :
    (qosRulesParse u ruleSpec list s).2.1 =
        (upToFailing u list s).take (ruleSpec - s.ruleNum.getD 0).toNat ∧
      (qosRulesParse u ruleSpec list s).2.2.ruleNum = s.ruleNum := by
  have fromZero : rulesLoop u ruleSpec list s.ruleNum s =
      rulesLoop u ruleSpec list (some (s.ruleNum.getD 0)) s := by
    cases stored : s.ruleNum with
    | some n => rfl
    | none =>
      cases list with
      | nil =>
        rw [upToFailing, List.length_nil] at beyond
        omega
      | cons name list => exact rulesLoop_none running (unset stored) name list
  obtain ⟨accepted, left⟩ := rulesLoop_returns (n := s.ruleNum.getD 0) running le beyond
  rw [← fromZero] at accepted left
  simp only [qosRulesParse, left]
  exact ⟨accepted, (rulesLoop_keeps u ruleSpec list s.ruleNum s).1⟩

/-- Below the spec the first rule is accepted. -/
theorem qosRulesParse_accepts (running : s.stopFlag = false)
    (below : specReached ruleSpec s.ruleNum = false) (nonempty : list ≠ []) :
    (qosRulesParse u ruleSpec list s).2.1 ≠ [] := by
  cases list with
  | nil => exact absurd rfl nonempty
  | cons name list =>
    obtain ⟨rest, turn, -⟩ := rulesLoop_cons (u := u) running below name list
    simp only [qosRulesParse, turn]
    cases rest.ruleNum <;> simp

/-! ## Sets of rules -/

section Cards

variable {α : Type} [DecidableEq α] {A : Finset α} {l : List α}

theorem nodup_of_card_toFinset (same : l.toFinset.card = l.length) : l.Nodup :=
  Multiset.coe_nodup.mp (Multiset.toFinset_card_eq_card_iff_nodup.mp same)

theorem card_union_toFinset_iff :
    (A ∪ l.toFinset).card = A.card + l.length ↔ l.Nodup ∧ ∀ r ∈ l, r ∉ A := by
  have both := Finset.card_union_add_card_inter A l.toFinset
  have le := List.toFinset_card_le l
  constructor
  · intro same
    have disjoint : (A ∩ l.toFinset).card = 0 := by omega
    refine ⟨nodup_of_card_toFinset (by omega), fun r listed inA => ?_⟩
    rw [Finset.card_eq_zero] at disjoint
    have common : r ∈ A ∩ l.toFinset := by simp [listed, inA]
    rw [disjoint] at common
    exact absurd common (Finset.notMem_empty r)
  · rintro ⟨once, new⟩
    have disjoint : Disjoint A l.toFinset :=
      Finset.disjoint_right.mpr fun r listed => new r (List.mem_toFinset.mp listed)
    rw [Finset.card_union_of_disjoint disjoint, List.toFinset_card_of_nodup once]

theorem card_sdiff_toFinset_iff :
    (A \ l.toFinset).card + l.length = A.card ↔ l.Nodup ∧ ∀ r ∈ l, r ∈ A := by
  have both := Finset.card_sdiff_add_card_inter A l.toFinset
  have le := List.toFinset_card_le l
  have interLe := Finset.card_le_card (Finset.inter_subset_right : A ∩ l.toFinset ⊆ l.toFinset)
  constructor
  · intro same
    refine ⟨nodup_of_card_toFinset (by omega), fun r listed => ?_⟩
    have whole : A ∩ l.toFinset = l.toFinset :=
      Finset.eq_of_subset_of_card_le Finset.inter_subset_right (by omega)
    have common : r ∈ A ∩ l.toFinset := by
      rw [whole]
      exact List.mem_toFinset.mpr listed
    exact (Finset.mem_inter.mp common).1
  · rintro ⟨once, inside⟩
    have subset : l.toFinset ⊆ A := fun r listed => inside r (List.mem_toFinset.mp listed)
    rw [Finset.inter_eq_right.mpr subset, List.toFinset_card_of_nodup once] at both
    exact both

theorem card_union_toFinset_eq_length_iff (once : l.Nodup) :
    (A ∪ l.toFinset).card = l.length ↔ ∀ r ∈ A, r ∈ l := by
  rw [← List.toFinset_card_of_nodup once]
  constructor
  · intro same r inA
    have whole : l.toFinset = A ∪ l.toFinset :=
      Finset.eq_of_subset_of_card_le Finset.subset_union_right (Nat.le_of_eq same)
    exact List.mem_toFinset.mp (whole ▸ Finset.mem_union_left _ inA)
  · intro inside
    have subset : A ⊆ l.toFinset := fun r inA => List.mem_toFinset.mpr (inside r inA)
    rw [Finset.union_eq_right.mpr subset]

theorem card_union_toFinset_eq_card_iff :
    (A ∪ l.toFinset).card = A.card ↔ ∀ r ∈ l, r ∈ A := by
  constructor
  · intro same r listed
    have whole : A = A ∪ l.toFinset :=
      Finset.eq_of_subset_of_card_le Finset.subset_union_left (Nat.le_of_eq same)
    exact whole ▸ Finset.mem_union_right _ (List.mem_toFinset.mpr listed)
  · intro inside
    have subset : l.toFinset ⊆ A := fun r listed => inside r (List.mem_toFinset.mp listed)
    rw [Finset.union_eq_left.mpr subset]

end Cards

/-! ## The counter and the rules -/

/-- The state, and the rules that passed the spec check and were not deleted since. -/
structure CountSt where
  st : RulesSt
  accepted : Finset Name

def CountSt.start : CountSt where
  st :=
    { nf := .start Name, sets := [], ruleNum := none, enableLines := fun _ => [], ready := false,
      stopFlag := false }
  accepted := ∅

/-- A call of the service, with the UCI file and the sets that exist then. -/
inductive ServiceCall where
  | start (u : Uci) (initOk : Bool) (sets : List (List Char))
  | add (u : Uci) (list : List Name) (sets : List (List Char))
  | delete (list : List Name) (sets : List (List Char))

/-- Whatever sets there are when a call begins. -/
def CountSt.withSets (x : CountSt) (sets : List (List Char)) : RulesSt :=
  { x.st with sets := sets }

def CountSt.step (ruleSpec : Nat) (call : ServiceCall) (x : CountSt) : Except Empty CountSt :=
  match call with
  | .start u initOk sets =>
    let (accepted, s) := qosStart u initOk ruleSpec (x.withSets sets)
    .ok { st := s, accepted := x.accepted ∪ accepted.toFinset }
  | .add u list sets =>
    let (accepted, s) := qosReloadAdd u ruleSpec list (x.withSets sets)
    .ok { st := s, accepted := x.accepted ∪ accepted.toFinset }
  | .delete list sets =>
    .ok
      { st := qosReloadDelete list (x.withSets sets)
        accepted := if x.st.ready then x.accepted \ list.toFinset else x.accepted }

/-- `rule_num` is the number of accepted rules, and none of the two leaves its bounds. -/
structure CountSt.Exact (ruleSpec : Nat) (x : CountSt) : Prop where
  counted : x.st.ruleNum.getD 0 = x.accepted.card
  nonneg : 0 ≤ x.st.ruleNum.getD 0
  bounded : x.st.ruleNum.getD 0 ≤ ruleSpec
  atMost : x.accepted.card ≤ ruleSpec

/-- When a start keeps the counter exact: it comes back below the spec, with all the rules
    there were. -/
def StartFits (ruleSpec : Nat) (u : Uci) (initOk : Bool) (A : Finset Name) (s : RulesSt) : Prop :=
  initOk = false ∨ u.ruleList = [] ∨ ruleSpec = 0 ∧ A = ∅ ∨
    (upToFailing u u.ruleList s).length ≤ ruleSpec ∧ ∀ r ∈ A, r ∈ upToFailing u u.ruleList s

/-- When an addition does: it counts new rules within the spec, or only rules there were
    before it comes to the spec. -/
def AddFits (ruleSpec : Nat) (u : Uci) (list : List Name) (A : Finset Name) (s : RulesSt) : Prop :=
  s.ready = false ∨
    if A.card + (upToFailing u list s).length ≤ ruleSpec then
      (upToFailing u list s).Nodup ∧ ∀ r ∈ upToFailing u list s, r ∉ A
    else (s.ruleNum = none → 0 < ruleSpec) ∧
      ∀ r ∈ (upToFailing u list s).take (ruleSpec - A.card), r ∈ A

/-- When a deletion does: every rule of it was counted, and is deleted once. -/
def DeleteFits (list : List Name) (A : Finset Name) (s : RulesSt) : Prop :=
  s.ready = false ∨ list.Nodup ∧ ∀ r ∈ list, r ∈ A

def CountSt.Fits (ruleSpec : Nat) : ServiceCall → CountSt → Prop
  | .start u initOk sets, x => StartFits ruleSpec u initOk x.accepted (x.withSets sets)
  | .add u list sets, x => AddFits ruleSpec u list x.accepted (x.withSets sets)
  | .delete list sets, x => DeleteFits list x.accepted (x.withSets sets)

theorem CountSt.exact_iff (s : RulesSt) (A : Finset Name) :
    CountSt.Exact ruleSpec ⟨s, A⟩ ↔ s.ruleNum.getD 0 = A.card ∧ A.card ≤ ruleSpec := by
  constructor
  · intro exact
    exact ⟨exact.counted, exact.atMost⟩
  · rintro ⟨counted, atMost⟩
    exact ⟨counted, by simp only; omega, by simp only; omega, atMost⟩

/-! ## One call -/

section Calls

variable {A : Finset Name}

theorem foldl_setEnable (u : Uci) (list : List Name) (s : RulesSt) :
    ∃ lines, list.foldl (fun s name => setEnable u name s) s = { s with enableLines := lines } := by
  induction list generalizing s with
  | nil => exact ⟨s.enableLines, rfl⟩
  | cons name list ih =>
    obtain ⟨lines, folded⟩ := ih (setEnable u name s)
    exact ⟨lines, folded⟩

theorem deleteLoop_counts (list : List Name) (ruleNum : Option Int)
    (running : s.stopFlag = false) :
    (deleteLoop list ruleNum s).1.getD 0 = ruleNum.getD 0 - list.length ∧
      (deleteLoop list ruleNum s).2.stopFlag = false := by
  induction list generalizing ruleNum s with
  | nil => exact ⟨by simp [deleteLoop], running⟩
  | cons name list ih =>
    have runningAfter : (stateDel name
        (if s.enableLines name = [true] then (ruleUninstall name s).2 else s)).stopFlag = false := by
      rw [← running]
      unfold stateDel ruleUninstall
      split
      · simp only
        split <;> rfl
      · rfl
    obtain ⟨value, kept⟩ := ih (some (ruleNum.getD 0 - 1)) runningAfter
    rw [deleteLoop]
    simp only [running, Bool.false_eq_true, if_false]
    refine ⟨value.trans ?_, kept⟩
    rw [Option.getD_some, List.length_cons]
    omega

/-- A list worked off from a counter just set to 0. -/
theorem parse_from_zero (running : s.stopFlag = false)
    (zero : s.ruleNum = some 0) (once : list.Nodup) (nonempty : list ≠ []) :
    CountSt.Exact ruleSpec ⟨(qosRulesParse u ruleSpec list s).2.2,
      A ∪ (qosRulesParse u ruleSpec list s).2.1.toFinset⟩ ↔
      ruleSpec = 0 ∧ A = ∅ ∨ (upToFailing u list s).length ≤ ruleSpec ∧
        ∀ r ∈ A, r ∈ upToFailing u list s := by
  obtain ⟨worked, isWorked⟩ : ∃ worked, worked = upToFailing u list s := ⟨_, rfl⟩
  have workedOnce : worked.Nodup := by
    rw [isWorked]
    exact once.sublist (upToFailing_isPrefix u list s).sublist
  have positive : 0 < worked.length := by
    obtain ⟨name, rest, rfl⟩ := List.exists_cons_of_ne_nil nonempty
    rw [isWorked]
    exact List.length_pos_iff.mpr (upToFailing_ne_nil u name rest s)
  have start : s.ruleNum.getD 0 = 0 := by rw [zero, Option.getD_some]
  rw [CountSt.exact_iff, ← isWorked]
  -- the counter is right when it is the number of all that is accepted
  by_cases room : worked.length ≤ ruleSpec
  · have room' : s.ruleNum.getD 0 + (upToFailing u list s).length ≤ ruleSpec := by
      rw [start, ← isWorked]
      omega
    obtain ⟨accepted, counted⟩ := qosRulesParse_counts running room'
    rw [accepted, counted, start, ← isWorked]
    have whole := card_union_toFinset_eq_length_iff (A := A) workedOnce
    constructor
    · rintro ⟨same, -⟩
      exact .inr ⟨room, whole.mp (by omega)⟩
    · rintro (⟨none, -⟩ | ⟨-, inside⟩)
      · omega
      · have same := whole.mpr inside
        omega
  · have beyond : ruleSpec < s.ruleNum.getD 0 + (upToFailing u list s).length := by
      rw [start, ← isWorked]
      omega
    obtain ⟨accepted, counted⟩ := qosRulesParse_returns running (by simp [zero]) (by omega) beyond
    have room' : ((ruleSpec : Int) - 0).toNat = ruleSpec := by omega
    rw [accepted, counted, start, ← isWorked, room']
    constructor
    · rintro ⟨same, -⟩
      have empty : A ∪ (worked.take ruleSpec).toFinset = ∅ := Finset.card_eq_zero.mp (by omega)
      obtain ⟨noneA, noneTaken⟩ := Finset.union_eq_empty.mp empty
      rw [List.toFinset_eq_empty_iff, List.take_eq_nil_iff] at noneTaken
      exact .inl ⟨noneTaken.resolve_right (List.length_pos_iff.mp positive), noneA⟩
    · rintro (⟨rfl, rfl⟩ | ⟨room', -⟩)
      · simp
      · exact absurd room' room

/-- A list worked off from an exact counter. -/
theorem parse_from_exact (running : s.stopFlag = false)
    (exactBefore : s.ruleNum.getD 0 = A.card) (atMost : A.card ≤ ruleSpec) (nonempty : list ≠ []) :
    CountSt.Exact ruleSpec ⟨(qosRulesParse u ruleSpec list s).2.2,
      A ∪ (qosRulesParse u ruleSpec list s).2.1.toFinset⟩ ↔
      if A.card + (upToFailing u list s).length ≤ ruleSpec then
        (upToFailing u list s).Nodup ∧ ∀ r ∈ upToFailing u list s, r ∉ A
      else (s.ruleNum = none → 0 < ruleSpec) ∧
        ∀ r ∈ (upToFailing u list s).take (ruleSpec - A.card), r ∈ A := by
  obtain ⟨worked, isWorked⟩ : ∃ worked, worked = upToFailing u list s := ⟨_, rfl⟩
  rw [CountSt.exact_iff, ← isWorked]
  by_cases room : A.card + worked.length ≤ ruleSpec
  · have room' : s.ruleNum.getD 0 + (upToFailing u list s).length ≤ ruleSpec := by
      rw [exactBefore, ← isWorked]
      omega
    obtain ⟨accepted, counted⟩ := qosRulesParse_counts running room'
    rw [if_pos room, accepted, counted, exactBefore, ← isWorked, ← card_union_toFinset_iff]
    omega
  · rw [if_neg room]
    by_cases unset : s.ruleNum = none → 0 < ruleSpec
    · have beyond : ruleSpec < s.ruleNum.getD 0 + (upToFailing u list s).length := by
        rw [exactBefore, ← isWorked]
        omega
      obtain ⟨accepted, counted⟩ := qosRulesParse_returns running unset (by omega) beyond
      have left : ((ruleSpec : Int) - (A.card : Int)).toNat = ruleSpec - A.card := by omega
      rw [accepted, counted, exactBefore, ← isWorked, left, ← card_union_toFinset_eq_card_iff,
        and_iff_right unset]
      omega
    · -- the test of an unset counter fails, so one rule is accepted against a spec of 0
      refine iff_of_false ?_ (fun both => unset both.1)
      rintro ⟨-, bounded⟩
      have noCounter : s.ruleNum = none := by
        by_contra stored
        exact unset fun none => absurd none stored
      have noRoom : ruleSpec = 0 := by
        by_contra positive
        exact unset fun _ => by omega
      have below : specReached ruleSpec s.ruleNum = false := by rw [noCounter, specReached]
      have accepts : (qosRulesParse u ruleSpec list s).2.1 ≠ [] :=
        qosRulesParse_accepts running below nonempty
      have empty : A ∪ (qosRulesParse u ruleSpec list s).2.1.toFinset = ∅ :=
        Finset.card_eq_zero.mp (Nat.le_zero.mp (noRoom ▸ bounded))
      exact accepts (List.toFinset_eq_empty_iff _ |>.mp (Finset.union_eq_empty.mp empty).2)

/-- A call that accepts nothing and leaves the counter. -/
theorem exact_unchanged (counted : t.ruleNum = s.ruleNum) (exact : s.ruleNum.getD 0 = A.card)
    (atMost : A.card ≤ ruleSpec) :
    CountSt.Exact ruleSpec ⟨t, A ∪ ([] : List Name).toFinset⟩ := by
  rw [List.toFinset_nil, Finset.union_empty, CountSt.exact_iff, counted]
  exact ⟨exact, atMost⟩

theorem start_exact (running : s.stopFlag = false) (exact : s.ruleNum.getD 0 = A.card)
    (atMost : A.card ≤ ruleSpec) (u : Uci) (initOk : Bool) :
    (CountSt.Exact ruleSpec ⟨(qosStart u initOk ruleSpec s).2,
        A ∪ (qosStart u initOk ruleSpec s).1.toFinset⟩ ↔ StartFits ruleSpec u initOk A s) ∧
      (qosStart u initOk ruleSpec s).2.stopFlag = false := by
  cases initOk with
  | false => exact ⟨iff_of_true (exact_unchanged rfl exact atMost) (.inl rfl), running⟩
  | true =>
    by_cases none : u.ruleList = []
    · have idle : qosStart u true ruleSpec s = ([], { s with ready := true }) := by
        simp [qosStart, none]
      rw [idle]
      exact ⟨iff_of_true (exact_unchanged rfl exact atMost) (.inr (.inl none)), running⟩
    -- the counter is written as 0 before the list is worked off
    · obtain ⟨s₀, isStart⟩ : ∃ s₀, s₀ = stateGen u { s with ruleNum := some 0 } := ⟨_, rfl⟩
      have starts : qosStart u true ruleSpec s =
          ((qosRulesParse u ruleSpec u.ruleList s₀).2.1,
            { (qosRulesParse u ruleSpec u.ruleList s₀).2.2 with ready := true }) := by
        simp [qosStart, none, isStart]
      have runningStart : s₀.stopFlag = false := isStart ▸ running
      have worked : upToFailing u u.ruleList s₀ = upToFailing u u.ruleList s :=
        upToFailing_congr (isStart ▸ rfl) (isStart ▸ rfl) u.ruleList
      have zero : s₀.ruleNum = some 0 := isStart ▸ rfl
      refine ⟨?_, starts ▸ qosRulesParse_running runningStart⟩
      have once : u.ruleList.Nodup := u.distinct
      rw [starts, StartFits, ← worked, ← parse_from_zero runningStart zero once none,
        CountSt.exact_iff, CountSt.exact_iff]
      simp [none]

theorem add_exact (running : s.stopFlag = false) (exact : s.ruleNum.getD 0 = A.card)
    (atMost : A.card ≤ ruleSpec) (u : Uci) (list : List Name) :
    (CountSt.Exact ruleSpec ⟨(qosReloadAdd u ruleSpec list s).2,
        A ∪ (qosReloadAdd u ruleSpec list s).1.toFinset⟩ ↔ AddFits ruleSpec u list A s) ∧
      (qosReloadAdd u ruleSpec list s).2.stopFlag = false := by
  by_cases ready : s.ready = true
  · by_cases none : list = []
    · have idle : qosReloadAdd u ruleSpec list s = ([], s) := by simp [qosReloadAdd, none]
      rw [idle]
      refine ⟨iff_of_true (exact_unchanged rfl exact atMost) (.inr ?_), running⟩
      simp [none, upToFailing, atMost]
    -- what is enabled in the state first is not read by the loop
    · obtain ⟨lines, folded⟩ := foldl_setEnable u list s
      obtain ⟨s₀, isStart⟩ : ∃ s₀, s₀ = { s with enableLines := lines } := ⟨_, rfl⟩
      have adds : qosReloadAdd u ruleSpec list s = (qosRulesParse u ruleSpec list s₀).2 := by
        rw [qosReloadAdd, if_neg (by simp [ready]), if_neg none, folded, isStart]
      have runningStart : s₀.stopFlag = false := isStart ▸ running
      have counter : s₀.ruleNum = s.ruleNum := isStart ▸ rfl
      have worked : upToFailing u list s₀ = upToFailing u list s :=
        upToFailing_congr (isStart ▸ rfl) (isStart ▸ rfl) list
      refine ⟨?_, adds ▸ qosRulesParse_running runningStart⟩
      rw [adds, AddFits, ← worked, ← counter,
        parse_from_exact runningStart (counter ▸ exact) atMost none]
      simp [ready]
  · have notReady : s.ready = false := by simpa using ready
    have idle : qosReloadAdd u ruleSpec list s = ([], s) := by simp [qosReloadAdd, notReady]
    rw [idle]
    exact ⟨iff_of_true (exact_unchanged rfl exact atMost) (.inl notReady), running⟩

theorem delete_exact (running : s.stopFlag = false) (exact : s.ruleNum.getD 0 = A.card)
    (atMost : A.card ≤ ruleSpec) (list : List Name) :
    (CountSt.Exact ruleSpec ⟨qosReloadDelete list s,
        if s.ready then A \ list.toFinset else A⟩ ↔ DeleteFits list A s) ∧
      (qosReloadDelete list s).stopFlag = false := by
  by_cases ready : s.ready = true
  · rw [if_pos ready]
    have fits : DeleteFits list A s ↔ list.Nodup ∧ ∀ r ∈ list, r ∈ A := by simp [DeleteFits, ready]
    rw [CountSt.exact_iff, fits, ← card_sdiff_toFinset_iff]
    have le := Finset.card_le_card (Finset.sdiff_subset : A \ list.toFinset ⊆ A)
    by_cases none : list = []
    · have idle : qosReloadDelete list s = s := by simp [qosReloadDelete, none]
      rw [idle, exact, none]
      simp [running, atMost]
    -- every name of the list is counted off, installed or not
    · obtain ⟨counted, stopped⟩ := deleteLoop_counts list s.ruleNum running
      have deletes : qosReloadDelete list s =
          { (deleteLoop list s.ruleNum s).2 with ruleNum := (deleteLoop list s.ruleNum s).1 } := by
        rw [qosReloadDelete, if_neg (by simp [ready]), if_neg none]
      refine ⟨?_, deletes ▸ stopped⟩
      rw [deletes, counted, exact]
      omega
  · have notReady : s.ready = false := by simpa using ready
    have idle : qosReloadDelete list s = s := by simp [qosReloadDelete, notReady]
    rw [idle, if_neg ready, CountSt.exact_iff]
    exact ⟨iff_of_true ⟨exact, atMost⟩ (.inl notReady), running⟩

end Calls

/-- The counter is exact after every call of a sequence exactly if every call fits. -/
theorem rule_counter_exact_iff (ruleSpec : Nat) (calls : List ServiceCall) :
    Throughout (CountSt.step ruleSpec) (CountSt.Exact ruleSpec) calls CountSt.start ↔
      Allowed (CountSt.step ruleSpec) (CountSt.Fits ruleSpec) calls CountSt.start := by
  refine throughout_iff_allowed (fun x => x.Exact ruleSpec ∧ x.st.stopFlag = false) ?_ ?_ ?_
  · rintro call x y ⟨exact, running⟩ stepped
    cases call with
    | start u initOk sets =>
      cases stepped
      obtain ⟨holds, still⟩ := start_exact (s := x.withSets sets) running exact.counted exact.atMost
        u initOk
      exact ⟨holds, fun fits => ⟨holds.mpr fits, still⟩⟩
    | add u list sets =>
      cases stepped
      obtain ⟨holds, still⟩ := add_exact (s := x.withSets sets) running exact.counted exact.atMost
        u list
      exact ⟨holds, fun fits => ⟨holds.mpr fits, still⟩⟩
    | delete list sets =>
      cases stepped
      obtain ⟨holds, still⟩ := delete_exact (s := x.withSets sets) running exact.counted
        exact.atMost list
      exact ⟨holds, fun fits => ⟨holds.mpr fits, still⟩⟩
  · rintro call x -
    cases call <;> exact ⟨_, rfl⟩
  · refine ⟨(CountSt.exact_iff _ _).mpr ⟨rfl, Nat.zero_le _⟩, rfl⟩

/-! ## A start beyond the spec -/

/-- Two rules against a spec of one: the first is accepted, and `rule_num` stays 0. -/
theorem start_beyond_spec_counts_none :
    ¬ Throughout (CountSt.step 1) (CountSt.Exact 1) [.start twoRules true []] CountSt.start := by
  rintro ⟨exact, -⟩
  have counted := exact.counted
  revert counted
  decide

end IpQos.Verified
