import IpQos.Script.Rules
import Mathlib.Data.List.Nodup

/-! # Rule lists

What `qos_rules_parse` and `qos_time_handle` install of a list.  An installation that is
skipped ends the loop as a failed one does, so a list is worked off as far as its first
rule that is installed already or may not be installed. -/

namespace IpQos.Verified

open IpQos.Script
open IpQos.Lib (matchesWord matchesWord_self)

variable {u : Uci} {s t : RulesSt} {name : Name} {sets : List (List Char)}

/-! ## One installation -/

/-- The interfaces of the rule are set, and its group exists or need not. -/
def eligible (u : Uci) (sets : List (List Char)) (name : Name) : Bool :=
  match u.rule? name with
  | none => false
  | some rule => rule.ifPing.isSome && rule.ifPong.isSome &&
    match rule.ipGroup with
    | .unset => false
    | .selfDefine => true
    | .ipgroupAny => true
    | .named set => grepCw set.toList sets != 0

/-- The sets with the one of a self-defined rule. -/
def withSetOf (u : Uci) (name : Name) (sets : List (List Char)) : List (List Char) :=
  match u.rule? name with
  | none => sets
  | some rule =>
    if rule.ipGroup = .selfDefine ∧ grepCw name.text sets = 0 then sets ++ [name.text] else sets

section Chain

variable {ν : Type} [DecidableEq ν] {cfg : UciConfig ν} {ipset : ν ⊕ String → Bool} {nf : NfSt ν}
  {rule : UciRule ν}

theorem qosNfAddRule_install (cfg : UciConfig ν) (name : ν) (e : Entry ν) (nf : NfSt ν) :
    (qosNfAddRule cfg name e nf).install = nf.install := by
  simp only [qosNfAddRule]
  split <;> rfl

theorem qosRuleInstall_ok (fresh : nf.install rule.name = false)
    (found : cfg.rules.find? (·.name = rule.name) = some rule) (ping : rule.ifPing.isSome = true)
    (pong : rule.ifPong.isSome = true) (group : ipGroupExists ipset rule = true) :
    (qosRuleInstall cfg ipset rule.name nf).1 = 0 ∧
      (qosRuleInstall cfg ipset rule.name nf).2.install =
        Function.update nf.install rule.name true := by
  simp only [qosRuleInstall, fresh, found, group, Option.isNone_eq_false_iff.mpr ping,
    Option.isNone_eq_false_iff.mpr pong, Bool.false_eq_true, or_self, if_false, Bool.not_true,
    qosNfAddRule_install, and_self]

end Chain

/-- The set of a self-defined rule exists once it is registered. -/
theorem grepCw_append_self (name : Name) (sets : List (List Char)) :
    grepCw name.text (sets ++ [name.text]) ≠ 0 := by
  simp [grepCw, matchesWord_self]

/-- A new and eligible rule is installed, with its set. -/
theorem ruleInstall_of_eligible (fresh : s.nf.install name = false)
    (suits : eligible u s.sets name = true) :
    ∃ nf, ruleInstall u name s = (0, { s with nf := nf, sets := withSetOf u name s.sets }) ∧
      nf.install = Function.update s.nf.install name true := by
  unfold eligible at suits
  cases found : u.rule? name with
  | none =>
    rw [found] at suits
    cases suits
  | some rule =>
    simp only [found, Bool.and_eq_true] at suits
    obtain ⟨⟨ping, pong⟩, group⟩ := suits
    obtain rfl : rule.name = name := by simpa using List.find?_some found
    have sets : registerSelfDefine u rule.name s = withSetOf u rule.name s.sets := by
      simp [registerSelfDefine, withSetOf, found, fresh, Option.isNone_iff_eq_none,
        Option.ne_none_iff_isSome.mpr ping, Option.ne_none_iff_isSome.mpr pong]
    -- the set of a self-defined group has just been made
    have exists_ : ipGroupExists (setExists (withSetOf u rule.name s.sets)) rule = true := by
      cases isGroup : rule.ipGroup with
      | unset =>
        rw [isGroup] at group
        cases group
      | selfDefine =>
        simp only [ipGroupExists, isGroup, setExists, withSetOf, found, true_and]
        split
        · simpa using grepCw_append_self rule.name s.sets
        · simpa using ‹_›
      | ipgroupAny => simp [ipGroupExists, isGroup]
      | named set =>
        rw [isGroup] at group
        simpa [ipGroupExists, isGroup, setExists, withSetOf, found] using group
    obtain ⟨status, install⟩ := qosRuleInstall_ok fresh found ping pong exists_
    exact ⟨_, by simp only [ruleInstall, sets, status], install⟩

/-- Otherwise nothing happens. -/
theorem ruleInstall_of_not
    (skipped : ¬ (s.nf.install name = false ∧ eligible u s.sets name = true)) :
    ruleInstall u name s = (1, s) := by
  -- by what stops it: installed, not in the file, an interface missing, or the group
  by_cases installed : s.nf.install name = true
  · have sets : registerSelfDefine u name s = s.sets := by
      unfold registerSelfDefine
      split
      · rfl
      · rw [if_pos (.inl installed)]
    simp only [ruleInstall, sets, qosRuleInstall, installed, if_true]
  · have fresh : s.nf.install name = false := by simpa using installed
    have ineligible : eligible u s.sets name = false := by simpa [fresh] using skipped
    unfold eligible at ineligible
    cases found : u.rule? name with
    | none =>
      have sets : registerSelfDefine u name s = s.sets := by simp [registerSelfDefine, found]
      have found' : u.rules.find? (·.name = name) = none := found
      simp only [ruleInstall, sets, qosRuleInstall, fresh, found', Bool.false_eq_true, if_false]
    | some rule =>
      have found' : u.rules.find? (·.name = name) = some rule := found
      by_cases missing : rule.ifPing.isNone ∨ rule.ifPong.isNone
      · have sets : registerSelfDefine u name s = s.sets := by
          simp only [registerSelfDefine, found, missing, or_true, if_true]
        simp only [ruleInstall, sets, qosRuleInstall, fresh, found', missing, Bool.false_eq_true,
          if_false, if_true]
      · rw [not_or] at missing
        have ping : rule.ifPing.isSome = true := by simpa [Option.isSome_iff_ne_none] using missing.1
        have pong : rule.ifPong.isSome = true := by simpa [Option.isSome_iff_ne_none] using missing.2
        simp only [found, ping, pong, Bool.true_and] at ineligible
        have notSelf : rule.ipGroup ≠ .selfDefine := by
          intro same
          simp [same] at ineligible
        have sets : registerSelfDefine u name s = s.sets := by
          simp [registerSelfDefine, found, notSelf]
        have group : ipGroupExists (setExists s.sets) rule = false := by
          cases isGroup : rule.ipGroup with
          | unset => simp [ipGroupExists, isGroup]
          | selfDefine => exact absurd isGroup notSelf
          | ipgroupAny => simp [isGroup] at ineligible
          | named set => simpa [ipGroupExists, isGroup, setExists] using ineligible
        simp only [ruleInstall, sets, qosRuleInstall, fresh, found', missing, group,
          Bool.false_eq_true, or_self, if_false, if_true, Bool.not_false]

/-! ## A list -/

/-- The rules are installed one after the other as far as the first one that is not. -/
def installUntil (u : Uci) : List Name → RulesSt → RulesSt
  | [], s => s
  | name :: list, s =>
    match ruleInstall u name s with
    | (0, s) => installUntil u list s
    | (_, s) => s

/-- The rule is not installed yet, and may be. -/
def Due (u : Uci) (s : RulesSt) (name : Name) : Prop :=
  s.nf.install name = false ∧ eligible u s.sets name = true

instance (u : Uci) (s : RulesSt) (name : Name) : Decidable (Due u s name) :=
  inferInstanceAs (Decidable (_ ∧ _))

/-- The sets after the rules of a list are installed. -/
def withSetsOf (u : Uci) (list : List Name) (sets : List (List Char)) : List (List Char) :=
  list.foldl (fun sets name => withSetOf u name sets) sets

theorem sublist_withSetOf (u : Uci) (name : Name) (sets : List (List Char)) :
    sets.Sublist (withSetOf u name sets) := by
  unfold withSetOf
  split
  · exact List.Sublist.refl sets
  · split
    · exact List.sublist_append_left _ _
    · exact List.Sublist.refl sets

theorem eligible_mono {sets sets' : List (List Char)} (more : sets.Sublist sets')
    (suits : eligible u sets name = true) : eligible u sets' name = true := by
  unfold eligible at suits ⊢
  cases found : u.rule? name with
  | none => simp [found] at suits
  | some rule =>
    simp only [found, Bool.and_eq_true] at suits ⊢
    refine ⟨suits.1, ?_⟩
    cases isGroup : rule.ipGroup with
    | named set =>
      have some : 0 < grepCw set.toList sets := by
        simpa [isGroup, Nat.pos_iff_ne_zero] using suits.2
      have still : 0 < grepCw set.toList sets' := Nat.lt_of_lt_of_le some more.countP_le
      simpa using Nat.ne_of_gt still
    | unset => simp [isGroup] at suits
    | _ => rfl

/-- Installations take nothing away. -/
theorem installed_installUntil (list : List Name) (installed : s.nf.install name = true) :
    (installUntil u list s).nf.install name = true := by
  induction list generalizing s with
  | nil => exact installed
  | cons first list ih =>
    unfold installUntil
    by_cases due : Due u s first
    · obtain ⟨nf, ran, install⟩ := ruleInstall_of_eligible due.1 due.2
      rw [ran]
      refine ih ?_
      rw [install]
      by_cases same : name = first
      · rw [same, Function.update_self]
      · rwa [Function.update_of_ne same]
    · rw [ruleInstall_of_not due]
      exact installed

/-- Rules that are due, none of them twice, are all installed, and their sets are there. -/
theorem installUntil_append {pre : List Name} (once : pre.Nodup) (due : ∀ p ∈ pre, Due u s p)
    (rest : List Name) :
    ∃ t, installUntil u (pre ++ rest) s = installUntil u rest t ∧
      (∀ n, t.nf.install n = true ↔ s.nf.install n = true ∨ n ∈ pre) ∧
      t.sets = withSetsOf u pre s.sets := by
  induction pre generalizing s with
  | nil => exact ⟨s, rfl, by simp, rfl⟩
  | cons p pre ih =>
    obtain ⟨new, once⟩ := List.nodup_cons.mp once
    obtain ⟨fresh, suits⟩ := due p List.mem_cons_self
    obtain ⟨nf, ran, install⟩ := ruleInstall_of_eligible fresh suits
    -- installing another rule only adds sets
    have dueAfter : ∀ q ∈ pre, Due u { s with nf := nf, sets := withSetOf u p s.sets } q := by
      intro q member
      obtain ⟨freshQ, suitsQ⟩ := due q (List.mem_cons_of_mem p member)
      refine ⟨?_, eligible_mono (sublist_withSetOf u p s.sets) suitsQ⟩
      have other : q ≠ p := fun same => new (same ▸ member)
      simpa [install, Function.update_of_ne other] using freshQ
    obtain ⟨t, runs, installs, sets⟩ := ih once dueAfter
    refine ⟨t, ?_, ?_, sets⟩
    · rw [List.cons_append, installUntil, ran]
      exact runs
    · intro n
      rw [installs n, install]
      by_cases same : n = p
      · simp [same]
      · simp [same]

/-- Either every rule of a list is due in its turn, or there is a first one that is not. -/
theorem exists_first_not_due (u : Uci) (s : RulesSt) (list : List Name) :
    (list.Nodup ∧ ∀ p ∈ list, Due u s p) ∨
      ∃ pre q post, list = pre ++ q :: post ∧ pre.Nodup ∧ (∀ p ∈ pre, Due u s p) ∧
        (q ∈ pre ∨ ¬ Due u s q) := by
  induction list using List.reverseRecOn with
  | nil => exact .inl ⟨.nil, nofun⟩
  | append_singleton front q ih =>
    rcases ih with ⟨once, due⟩ | ⟨pre, first, post, rfl, once, due, off⟩
    · by_cases off : q ∈ front ∨ ¬ Due u s q
      · exact .inr ⟨front, q, [], rfl, once, due, off⟩
      · rw [not_or, not_not] at off
        refine .inl ⟨List.nodup_append.mpr ⟨once, List.nodup_singleton q, ?_⟩, ?_⟩
        · rintro p inFront _ single rfl
          exact off.1 (List.mem_singleton.mp single ▸ inFront)
        · intro p member
          rcases List.mem_append.mp member with inFront | single
          · exact due p inFront
          · exact List.mem_singleton.mp single ▸ off.2
    · exact .inr ⟨pre, first, post ++ [q], by simp, once, due, off⟩

/-- Exactly the rules of the list that may be installed were added. -/
def InstalledAsEligible (u : Uci) (list : List Name) (s t : RulesSt) : Prop :=
  ∀ n, t.nf.install n = true ↔
    s.nf.install n = true ∨ n ∈ list ∧ eligible u s.sets n = true

/-- The first rule that is not due in its turn does not get its group from the rules before
    it, and no rule behind it is due. -/
def NoneLeftBehind (u : Uci) (list : List Name) (s : RulesSt) : Prop :=
  ∀ pre q post, list = pre ++ q :: post → pre.Nodup → (∀ p ∈ pre, Due u s p) →
    (q ∈ pre ∨ ¬ Due u s q) →
    (s.nf.install q = true ∨ q ∈ pre ∨ eligible u (withSetsOf u pre s.sets) q = false) ∧
      ∀ r ∈ post, Due u s r → r ∈ pre

section First

variable {pre post : List Name} {q : Name}

/-- The loop ends at its first rule that is not due, with the rules before it installed. -/
theorem installUntil_stops (off : q ∈ pre ∨ ¬ Due u s q) (due : ∀ p ∈ pre, Due u s p)
    (installs : ∀ n, t.nf.install n = true ↔ s.nf.install n = true ∨ n ∈ pre)
    (stops : s.nf.install q = true ∨ q ∈ pre ∨ eligible u t.sets q = false) :
    InstalledAsEligible u (pre ++ q :: post) s (installUntil u (q :: post) t) ↔
      ∀ r ∈ post, Due u s r → r ∈ pre := by
  -- the first rule that is not due gives a status other than 0
  have ends : installUntil u (q :: post) t = t := by
    have notDue : ¬ Due u t q := by
      rintro ⟨fresh, suits⟩
      rcases stops with before | inPre | ineligible
      · exact Bool.false_ne_true (fresh.symm.trans ((installs q).mpr (.inl before)))
      · exact Bool.false_ne_true (fresh.symm.trans ((installs q).mpr (.inr inPre)))
      · exact Bool.false_ne_true (ineligible.symm.trans suits)
    rw [installUntil, ruleInstall_of_not notDue]
    rfl
  rw [ends]
  constructor
  · rintro independent r member ⟨fresh, suits⟩
    have listed : r ∈ pre ++ q :: post := by simp [member]
    have installed := (independent r).mpr (.inr ⟨listed, suits⟩)
    exact ((installs r).mp installed).resolve_left (by simp [fresh])
  · intro noneBehind n
    rw [installs n]
    constructor
    · rintro (before | inPre)
      · exact .inl before
      · exact .inr ⟨List.mem_append_left _ inPre, (due n inPre).2⟩
    · rintro (before | ⟨listed, suits⟩)
      · exact .inl before
      · by_cases fresh : s.nf.install n = false
        · rcases List.mem_append.mp listed with inPre | atLeast
          · exact .inr inPre
          · rcases List.mem_cons.mp atLeast with rfl | behind
            · exact .inr (off.resolve_right (not_not.mpr ⟨fresh, suits⟩))
            · exact .inr (noneBehind n behind ⟨fresh, suits⟩)
        · exact .inl (by simpa using fresh)

/-- A rule that the sets of the rules before it have made eligible is installed too. -/
theorem installUntil_supplied (off : q ∈ pre ∨ ¬ Due u s q)
    (installs : ∀ n, t.nf.install n = true ↔ s.nf.install n = true ∨ n ∈ pre)
    (fresh : s.nf.install q = false) (new : q ∉ pre) (suits : eligible u t.sets q = true) :
    ¬ InstalledAsEligible u (pre ++ q :: post) s (installUntil u (q :: post) t) := by
  intro independent
  have freshAfter : t.nf.install q = false := by
    by_contra installed
    rcases (installs q).mp (by simpa using installed) with before | inPre
    · exact Bool.false_ne_true (fresh.symm.trans before)
    · exact new inPre
  obtain ⟨nf, ran, install⟩ := ruleInstall_of_eligible freshAfter suits
  have installed : (installUntil u (q :: post) t).nf.install q = true := by
    rw [installUntil, ran]
    exact installed_installUntil post (by simp [install])
  rcases (independent q).mp installed with before | ⟨-, initially⟩
  · exact Bool.false_ne_true (fresh.symm.trans before)
  · exact off.resolve_left new ⟨fresh, initially⟩

/-- A list up to its first rule that is not due. -/
theorem installUntil_at_first (once : pre.Nodup) (due : ∀ p ∈ pre, Due u s p)
    (off : q ∈ pre ∨ ¬ Due u s q) :
    InstalledAsEligible u (pre ++ q :: post) s (installUntil u (pre ++ q :: post) s) ↔
      (s.nf.install q = true ∨ q ∈ pre ∨ eligible u (withSetsOf u pre s.sets) q = false) ∧
        ∀ r ∈ post, Due u s r → r ∈ pre := by
  obtain ⟨t, runs, installs, sets⟩ := installUntil_append once due (q :: post)
  rw [runs, ← sets]
  by_cases stops : s.nf.install q = true ∨ q ∈ pre ∨ eligible u t.sets q = false
  · rw [installUntil_stops off due installs stops]
    exact (and_iff_right stops).symm
  · simp only [not_or, Bool.not_eq_true, Bool.not_eq_false] at stops
    obtain ⟨fresh, new, suits⟩ := stops
    refine iff_of_false (installUntil_supplied off installs fresh new suits) ?_
    rintro ⟨before | inPre | ineligible, -⟩
    · exact Bool.false_ne_true (fresh.symm.trans before)
    · exact new inPre
    · exact Bool.false_ne_true (ineligible.symm.trans suits)

end First

theorem installUntil_exact (u : Uci) (list : List Name) (s : RulesSt) :
    InstalledAsEligible u list s (installUntil u list s) ↔ NoneLeftBehind u list s := by
  constructor
  · rintro independent pre q post rfl once due off
    exact (installUntil_at_first once due off).mp independent
  · intro fits
    rcases exists_first_not_due u s list with ⟨once, due⟩ | ⟨pre, q, post, rfl, once, due, off⟩
    · obtain ⟨t, runs, installs, -⟩ := installUntil_append once due []
      rw [List.append_nil] at runs
      intro n
      rw [runs, installUntil, installs n]
      exact or_congr_right ⟨fun listed => ⟨listed, (due n listed).2⟩, fun both => both.1⟩
    · exact (installUntil_at_first once due off).mpr (fits pre q post rfl once due off)

/-! ## The callers -/

/-- Who works a list of rules off. -/
inductive Caller where
  | rulesParse
  | timeHandle

def Caller.run (u : Uci) (ruleSpec : Nat) (list : List Name) (s : RulesSt) : Caller → RulesSt
  | .rulesParse => (qosRulesParse u ruleSpec list s).2.2
  | .timeHandle => qosTimeHandle u .active list s

/-- The rules of which the loop tries the installation. -/
def Caller.tries (u : Uci) : Caller → Name → Bool
  | .rulesParse, name => u.enabled name && !u.timed name
  | .timeHandle, name => (u.rule? name).isSome

/-- `qos_time_handle` does nothing before the service is ready. -/
def Caller.works (s : RulesSt) : Caller → Prop
  | .rulesParse => True
  | .timeHandle => s.ready = true

/-- An installation does not touch the flag. -/
theorem running_of_ruleInstall {status : Nat} (ran : ruleInstall u name s = (status, t))
    (running : s.stopFlag = false) : t.stopFlag = false := by
  have whole : t = (ruleInstall u name s).2 := by rw [ran]
  rw [whole]
  exact running

/-- Within the spec `qos_rules_parse` leaves its loop at the end of the list or at the first
    installation that fails. -/
theorem rulesLoop_within {ruleSpec : Nat} (list : List Name) (ruleNum : Option Int)
    (running : s.stopFlag = false) (room : ruleNum.getD 0 + list.length ≤ ruleSpec) :
    ∃ n, (rulesLoop u ruleSpec list ruleNum s).ruleNum = some n ∧
      (rulesLoop u ruleSpec list ruleNum s).st =
        installUntil u (list.filter (Caller.tries u .rulesParse)) s := by
  induction list generalizing ruleNum s with
  | nil => exact ⟨ruleNum, rfl, rfl⟩
  | cons name list ih =>
    have below : specReached ruleSpec ruleNum = false := by
      cases ruleNum with
      | none => rfl
      | some n =>
        rw [List.length_cons] at room
        simp only [Option.getD_some] at room
        simp only [specReached, decide_eq_false_iff_not]
        omega
    -- the counter and the rest of the list move together
    have roomAfter : (some (ruleNum.getD 0 + 1) : Option Int).getD 0 + list.length ≤ ruleSpec := by
      rw [List.length_cons] at room
      simp only [Option.getD_some]
      omega
    rw [rulesLoop]
    simp only [running, below, Bool.false_eq_true, if_false]
    by_cases enabled : u.enabled name = true
    · by_cases timed : u.timed name = true
      · have skipped : Caller.tries u .rulesParse name = false := by
          simp [Caller.tries, timed]
        simpa [enabled, timed, List.filter_cons, skipped] using ih _ running roomAfter
      · have tried : Caller.tries u .rulesParse name = true := by
          simp [Caller.tries, enabled, timed]
        simp only [enabled, timed, Bool.not_true, Bool.false_eq_true, if_false,
          List.filter_cons, tried, if_true, installUntil]
        cases ran : ruleInstall u name s with
        | mk status t =>
          cases status with
          | zero => exact ih _ (running_of_ruleInstall ran running) roomAfter
          | succ n => exact ⟨_, rfl, rfl⟩
    · have skipped : Caller.tries u .rulesParse name = false := by
        simp [Caller.tries, enabled]
      simpa [enabled, List.filter_cons, skipped] using ih _ running roomAfter

theorem timeLoop_active (list : List Name) (running : s.stopFlag = false) :
    timeLoop u .active list s = installUntil u (list.filter (Caller.tries u .timeHandle)) s := by
  induction list generalizing s with
  | nil => rfl
  | cons name list ih =>
    rw [timeLoop]
    simp only [running, Bool.false_eq_true, if_false, if_true]
    by_cases known : (u.rule? name).isSome = true
    · have tried : Caller.tries u .timeHandle name = true := known
      rw [if_neg (by simpa using Option.isSome_iff_ne_none.mp known), List.filter_cons,
        if_pos tried, installUntil]
      cases ran : ruleInstall u name s with
      | mk status t =>
        cases status with
        | zero => exact ih (running_of_ruleInstall ran running)
        | succ n => rfl
    · have unknown : (u.rule? name).isNone = true := by simpa using known
      have skipped : Caller.tries u .timeHandle name = false := by simpa [Caller.tries] using unknown
      rw [if_pos unknown, List.filter_cons, skipped]
      exact ih running

/-- Distinct rules that are all due leave none behind. -/
theorem noneLeftBehind_of_due {list : List Name} (once : list.Nodup)
    (due : ∀ p ∈ list, Due u s p) : NoneLeftBehind u list s := by
  rintro pre q post rfl - - (inPre | notDue)
  · exact absurd inPre fun inPre =>
      (List.nodup_append.mp once).2.2 q inPre q List.mem_cons_self rfl
  · exact absurd (due q (by simp)) notDue

/-- The condition of a call: it leaves no rule behind, and a handler that does not work has
    none to install. -/
def Caller.Fits (u : Uci) (list : List Name) (s : RulesSt) (c : Caller) : Prop :=
  (c.works s → NoneLeftBehind u (list.filter (c.tries u)) s) ∧
    (¬ c.works s → ∀ n ∈ list.filter (c.tries u), ¬ Due u s n)

theorem Caller.run_nf {c : Caller} {ruleSpec : Nat} {list : List Name} (works : c.works s)
    (running : s.stopFlag = false) (room : s.ruleNum.getD 0 + list.length ≤ ruleSpec) :
    (c.run u ruleSpec list s).nf = (installUntil u (list.filter (c.tries u)) s).nf := by
  cases c with
  | rulesParse =>
    obtain ⟨n, ruleNum, st⟩ := rulesLoop_within (u := u) list s.ruleNum running room
    simp only [Caller.run, qosRulesParse, ruleNum, st]
  | timeHandle =>
    have ready : s.ready = true := works
    simp only [Caller.run, qosTimeHandle, ready, Bool.not_true, Bool.false_eq_true, if_false]
    rw [timeLoop_active list running]

/-- After either call a rule is installed if it was, or is one of the list that may be: exactly
    if the call leaves none behind. -/
theorem installs_eligible_rules_iff (c : Caller) (u : Uci) (ruleSpec : Nat) (list : List Name)
    (s : RulesSt) (running : s.stopFlag = false)
    (room : s.ruleNum.getD 0 + list.length ≤ ruleSpec) :
    (∀ n, (c.run u ruleSpec list s).nf.install n = true ↔ s.nf.install n = true ∨
      n ∈ list ∧ c.tries u n = true ∧ eligible u s.sets n = true) ↔ c.Fits u list s := by
  have tried : ∀ n, (n ∈ list ∧ c.tries u n = true ∧ eligible u s.sets n = true) ↔
      n ∈ list.filter (c.tries u) ∧ eligible u s.sets n = true := fun n => by
    rw [List.mem_filter, and_assoc]
  simp only [tried]
  by_cases works : c.works s
  · rw [Caller.run_nf works running room]
    refine (installUntil_exact u _ s).trans ?_
    exact ⟨fun fits => ⟨fun _ => fits, fun idle => absurd works idle⟩, fun fits => fits.1 works⟩
  -- the time manager does nothing before the first start
  · have idle : (c.run u ruleSpec list s).nf = s.nf := by
      cases c with
      | rulesParse => exact absurd trivial works
      | timeHandle =>
        have notReady : s.ready = false := by simpa [Caller.works] using works
        simp [Caller.run, qosTimeHandle, notReady]
    rw [idle]
    constructor
    · intro unchanged
      refine ⟨fun working => absurd working works, fun _ n listed ⟨fresh, suits⟩ => ?_⟩
      exact Bool.false_ne_true (fresh.symm.trans ((unchanged n).mpr (.inr ⟨listed, suits⟩)))
    · rintro ⟨-, noneDue⟩ n
      refine ⟨.inl, ?_⟩
      rintro (before | ⟨listed, suits⟩)
      · exact before
      · by_contra fresh
        exact noneDue works n listed ⟨by simpa using fresh, suits⟩

/-! ## A rule that is installed already -/

def ruleR1 : Name := { text := "r1".toList, nonempty := by decide, plain := by simp }

def ruleR2 : Name := { text := "r2".toList, nonempty := by decide, plain := by simp }

/-- An enabled rule for every address. -/
def plainRule (name : Name) : UciRule Name where
  name := name
  enable := true
  rateMax := some 1000
  rateMin := some 10
  rateMaxMate := some 1000
  rateMinMate := some 10
  ifPing := some .lan
  ifPong := some .wanAll
  ipGroup := .ipgroupAny

def twoRules : Uci where
  rules := [plainRule ruleR1, plainRule ruleR2]
  distinct := by decide
  time _ := .any

def readySt : RulesSt where
  nf := .start Name
  sets := []
  ruleNum := some 0
  enableLines _ := []
  ready := true
  stopFlag := false

/-- Behind a new rule the second one is installed. -/
theorem second_new_rule_installed :
    (Caller.rulesParse.run twoRules 20 [ruleR1, ruleR2] readySt).nf.install ruleR2 = true :=
  ((installs_eligible_rules_iff .rulesParse twoRules 20 [ruleR1, ruleR2] readySt rfl
    (by decide)).mpr
    ⟨fun _ => noneLeftBehind_of_due (by decide) (by decide), fun idle => absurd trivial idle⟩
    ruleR2).mpr (.inr (by decide))

/-- With `r1` installed already, `r2` is not installed. -/
theorem installed_rule_ends_list :
    ¬ ∀ n, (Caller.rulesParse.run twoRules 20 [ruleR1, ruleR2]
      (ruleInstall twoRules ruleR1 readySt).2).nf.install n = true ↔
        (ruleInstall twoRules ruleR1 readySt).2.nf.install n = true ∨
          n ∈ [ruleR1, ruleR2] ∧ Caller.rulesParse.tries twoRules n = true ∧
            eligible twoRules (ruleInstall twoRules ruleR1 readySt).2.sets n = true := by
  intro independent
  have both := (independent ruleR2).mpr (.inr (by decide))
  revert both
  decide

end IpQos.Verified
