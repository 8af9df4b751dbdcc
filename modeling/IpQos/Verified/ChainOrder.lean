import IpQos.Script.Chain
import IpQos.Lib.Blocks
import IpQos.Lib.Run
import Mathlib.Data.List.Nodup
import Mathlib.Algebra.Ring.Nat

/-! # The order of the chain

`find_index.lua` computes the place of a rule from the configuration.  The chain is in
the order of the configuration as long as every installation finds the rules before its
own just as the configuration counts them: two entries for an installed rule, none for
another. -/

namespace IpQos.Verified

open IpQos.Script
open IpQos.Lib (Blocks Throughout Allowed)

variable {ν : Type} {cfg : UciConfig ν} {s s' : NfSt ν} {name : ν}

/-! ## The chain as it should be -/

/-- The two entries of a rule, in either order. -/
def RuleBlock (name : ν) (block : List (Entry ν)) : Prop :=
  block = [.mate name, .rule name] ∨ block = [.rule name, .mate name]

/-- The chain around the entries of the rules. -/
def framed (body : List (Entry ν)) : List (Entry ν) :=
  .restoreMark :: .returnMarked :: (body ++ [.saveMark])

theorem take_framed (body : List (Entry ν)) (index : Nat) :
    (framed body).take (index + 2) =
      .restoreMark :: .returnMarked :: (body ++ [Entry.saveMark]).take index := rfl

theorem drop_framed (body : List (Entry ν)) (index : Nat) :
    (framed body).drop (index + 2) = (body ++ [Entry.saveMark]).drop index := rfl

/-- The installed rules in the order of the configuration. -/
def installedNames (cfg : UciConfig ν) (s : NfSt ν) : List ν :=
  (cfg.rules.map (·.name)).filter (s.install ·)

/-- No insertion has failed, and the chain is as configured. -/
structure Ordered (cfg : UciConfig ν) (s : NfSt ν) : Prop where
  accepted : s.refused = 0
  absent : s.chain = none → installedNames cfg s = []
  layout : ∀ chain, s.chain = some chain →
    ∃ body, Blocks RuleBlock (installedNames cfg s) body ∧ chain = framed body

/-- The insertion index counts these entries of a section. -/
def pairs (sec : UciRule ν) : Nat :=
  if sec.enable then
    (if sec.rateMax ≠ some 0 ∨ sec.rateMin ≠ some 0 then 1 else 0) +
      (if sec.rateMaxMate ≠ some 0 ∨ sec.rateMinMate ≠ some 0 then 1 else 0)
  else 0

/-! ## A rule and the sections around it -/

/-- A configured rule with the sections around it. -/
structure Around (cfg : UciConfig ν) (name : ν) (before : List (UciRule ν)) (sec : UciRule ν)
    (after : List (UciRule ν)) : Prop where
  rules : cfg.rules = before ++ sec :: after
  here : sec.name = name
  notBefore : ∀ sec' ∈ before, sec'.name ≠ name
  notAfter : ∀ sec' ∈ after, sec'.name ≠ name

theorem exists_around {sec : UciRule ν} (member : sec ∈ cfg.rules) :
    ∃ before after, Around cfg sec.name before sec after := by
  obtain ⟨before, after, rules⟩ := List.append_of_mem member
  have distinct := cfg.distinct
  rw [rules, List.map_append, List.map_cons] at distinct
  obtain ⟨_, nodup, disjoint⟩ := List.nodup_append.mp distinct
  refine ⟨before, after, rules, rfl, ?_, ?_⟩
  · intro sec' inBefore
    exact disjoint _ (List.mem_map_of_mem inBefore) _ List.mem_cons_self
  · intro sec' inAfter same
    exact (List.nodup_cons.mp nodup).1 (same ▸ List.mem_map_of_mem inAfter)

/-- The installed rules among some sections. -/
def namesOf (secs : List (UciRule ν)) (s : NfSt ν) : List ν :=
  (secs.map (·.name)).filter (s.install ·)

section Around

variable {before after : List (UciRule ν)} {sec : UciRule ν}

theorem Around.installedNames_eq (around : Around cfg name before sec after) (s : NfSt ν) :
    installedNames cfg s =
      namesOf before s ++ (if s.install name then [name] else []) ++ namesOf after s := by
  rw [installedNames, around.rules, List.map_append, List.map_cons, around.here, List.filter_append,
    List.filter_cons]
  split
  · simp [namesOf]
  · simp [namesOf]

/-- Sections that are not the one changed keep their state. -/
theorem namesOf_update {secs : List (UciRule ν)} (other : ∀ sec' ∈ secs, sec'.name ≠ name)
    (same : ∀ n, n ≠ name → s'.install n = s.install n) : namesOf secs s' = namesOf secs s := by
  apply List.filter_congr
  intro n member
  obtain ⟨sec', inSecs, rfl⟩ := List.mem_map.mp member
  exact same _ (other sec' inSecs)

theorem not_mem_namesOf {secs : List (UciRule ν)} (other : ∀ sec' ∈ secs, sec'.name ≠ name) :
    name ∉ namesOf secs s := by
  intro member
  obtain ⟨sec', inSecs, here⟩ := List.mem_map.mp (List.mem_of_mem_filter member)
  exact other sec' inSecs here

end Around

/-! ## The standard order -/

/-- The mate is inserted second, at the same place. -/
def stdEntries (names : List ν) : List (Entry ν) :=
  names.flatMap fun n => [.mate n, .rule n]

/-- What every fitting call keeps. -/
structure Kept (cfg : UciConfig ν) (s : NfSt ν) : Prop where
  accepted : s.refused = 0
  chain : s.chain = some (framed (stdEntries (installedNames cfg s))) ∨
    s.chain = none ∧ installedNames cfg s = []
  listed : ∀ n, s.install n = true → ∃ sec ∈ cfg.rules, sec.name = n

def ownerOf : Entry ν → Option ν
  | .rule n => some n
  | .mate n => some n
  | _ => none

section Standard

variable {names : List ν}

theorem ruleBlock_owner (n : ν) (block : List (Entry ν)) (isBlock : RuleBlock n block) :
    ∀ e ∈ block, ownerOf e = some n := by
  rcases isBlock with rfl | rfl <;> simp [ownerOf]

theorem ruleBlock_length (n : ν) (block : List (Entry ν)) (isBlock : RuleBlock n block) :
    block.length = 2 := by
  rcases isBlock with rfl | rfl <;> rfl

theorem stdEntries_append (names names' : List ν) :
    stdEntries (names ++ names') = stdEntries names ++ stdEntries names' := List.flatMap_append

theorem stdEntries_blocks (names : List ν) : Blocks RuleBlock names (stdEntries names) := by
  induction names with
  | nil => exact .nil
  | cons n names ih => exact .cons (.inl rfl) ih

theorem stdEntries_length (names : List ν) : (stdEntries names).length = 2 * names.length :=
  (stdEntries_blocks names).length ruleBlock_length

theorem stdEntries_owner {e : Entry ν} (member : e ∈ stdEntries names) :
    ∃ n ∈ names, ownerOf e = some n := by
  obtain ⟨n, inNames, block, isBlock, inBlock⟩ := (stdEntries_blocks names).mem member
  exact ⟨n, inNames, ruleBlock_owner n block isBlock e inBlock⟩

theorem not_mem_stdEntries {e : Entry ν} {n : ν} (owner : ownerOf e = some n) (absent : n ∉ names) :
    e ∉ stdEntries names := by
  intro member
  obtain ⟨n', inNames, owner'⟩ := stdEntries_owner member
  cases owner.symm.trans owner'
  exact absent inNames

theorem Kept.ordered (kept : Kept cfg s) : Ordered cfg s where
  accepted := kept.accepted
  absent := by
    intro none
    rcases kept.chain with present | ⟨_, empty⟩
    · rw [none] at present
      cases present
    · exact empty
  layout := by
    intro chain present
    rcases kept.chain with standard | ⟨none, _⟩
    · cases present.symm.trans standard
      exact ⟨_, stdEntries_blocks _, rfl⟩
    · rw [none] at present
      cases present

/-- A chain that is not there is created without rules. -/
theorem Kept.getD (kept : Kept cfg s) :
    s.chain.getD [.restoreMark, .returnMarked, .saveMark] =
      framed (stdEntries (installedNames cfg s)) := by
  rcases kept.chain with present | ⟨none, empty⟩
  · rw [present, Option.getD_some]
  · rw [none, empty]
    rfl

/-- The chain an installation finds. -/
theorem Kept.found {before after : List (UciRule ν)} {sec : UciRule ν} (kept : Kept cfg s)
    (around : Around cfg name before sec after) (fresh : s.install name = false) :
    s.chain.getD [.restoreMark, .returnMarked, .saveMark] =
      framed (stdEntries (namesOf before s ++ namesOf after s)) := by
  rw [kept.getD, around.installedNames_eq, fresh, if_neg Bool.false_ne_true, List.append_nil]

end Standard

/-! ## Installations that fit -/

variable [DecidableEq ν]

/-- The sections in front of a rule. -/
def sectionsBefore (cfg : UciConfig ν) (name : ν) : List (UciRule ν) :=
  cfg.rules.takeWhile (·.name ≠ name)

def pairsBefore (cfg : UciConfig ν) (name : ν) : Nat := ((sectionsBefore cfg name).map pairs).sum

/-- How many rules in front of this one are installed. -/
def installedBefore (cfg : UciConfig ν) (s : NfSt ν) (name : ν) : Nat :=
  ((sectionsBefore cfg name).filter (s.install ·.name)).length

/-- The installation is not skipped: the rule is configured and not installed yet, it has
    interfaces, and its group exists. -/
def Takes (cfg : UciConfig ν) (ipset : ν ⊕ String → Bool) (name : ν) (s : NfSt ν) : Prop :=
  s.install name = false ∧ ∃ sec ∈ cfg.rules, sec.name = name ∧ sec.ifPing.isSome ∧
    sec.ifPong.isSome ∧ ipGroupExists ipset sec

/-- The rules in front of the one to install count twice the rules installed there. -/
def Fitting (cfg : UciConfig ν) (c : Call ν) (s : NfSt ν) : Prop :=
  match c with
  | .install name ipset => Takes cfg ipset name s →
      pairsBefore cfg name = 2 * installedBefore cfg s name
  | .uninstall _ => True

/-! ## The index -/

theorem findIndexStep_found (name : ν) (position : Nat) (secs : List (UciRule ν)) :
    secs.foldl (findIndexStep name) (position, true) = (position, true) := by
  induction secs with
  | nil => rfl
  | cons sec secs ih => exact ih

theorem findIndexStep_before {name : ν} (secs : List (UciRule ν))
    (other : ∀ sec ∈ secs, sec.name ≠ name) (position : Nat) :
    secs.foldl (findIndexStep name) (position, false) =
      (position + (secs.map pairs).sum, false) := by
  induction secs generalizing position with
  | nil => rfl
  | cons sec secs ih =>
    have counted : findIndexStep name (position, false) sec = (position + pairs sec, false) := by
      have notHere := other sec List.mem_cons_self
      unfold findIndexStep pairs
      simp only [Bool.false_eq_true, ↓reduceIte, notHere]
      split_ifs <;> rfl
    rw [List.foldl_cons, counted, ih fun sec' member => other sec' (List.mem_cons_of_mem sec member),
      List.map_cons, List.sum_cons, Nat.add_assoc]

section Index

variable {before after : List (UciRule ν)} {sec : UciRule ν}

theorem Around.sectionsBefore_eq (around : Around cfg name before sec after) :
    sectionsBefore cfg name = before := by
  rw [sectionsBefore, around.rules, List.takeWhile_append_of_pos]
  · rw [List.takeWhile_cons_of_neg (by simp [around.here]), List.append_nil]
  · intro sec' member
    simpa using around.notBefore sec' member

theorem Around.findInsertIndex_eq (around : Around cfg name before sec after) :
    findInsertIndex cfg.rules name = pairsBefore cfg name + 1 := by
  rw [pairsBefore, around.sectionsBefore_eq, findInsertIndex, around.rules, List.foldl_append,
    findIndexStep_before before around.notBefore, List.foldl_cons]
  have found : ∀ position, findIndexStep name (position, false) sec = (position + 1, true) := by
    intro position
    simp [findIndexStep, around.here]
  rw [found, findIndexStep_found, Nat.zero_add]

theorem Around.installedBefore_eq (around : Around cfg name before sec after) (s : NfSt ν) :
    installedBefore cfg s name = (namesOf before s).length := by
  rw [installedBefore, around.sectionsBefore_eq, namesOf, List.filter_map, List.length_map]
  rfl

end Index

/-! ## Installing -/

section Install

variable {before after : List (UciRule ν)} {sec : UciRule ν}

/-- The two insertions of an installation, at one place. -/
theorem addPair_eq (around : Around cfg name before sec after) (s : NfSt ν)
    {chain : List (Entry ν)}
    (present : s.chain.getD [.restoreMark, .returnMarked, .saveMark] = chain) :
    qosNfAddRule cfg name (.mate name) (qosNfAddRule cfg name (.rule name) s) =
      if pairsBefore cfg name + 2 ≤ chain.length then
        { s with chain := some (chain.take (pairsBefore cfg name + 2) ++
            .mate name :: .rule name :: chain.drop (pairsBefore cfg name + 2)) }
      else { s with chain := some chain, refused := s.refused + 1 + 1 } := by
  have index := around.findInsertIndex_eq
  by_cases fits : pairsBefore cfg name + 2 ≤ chain.length
  · have first : qosNfAddRule cfg name (.rule name) s =
        { s with chain := some (chain.take (pairsBefore cfg name + 2) ++
            .rule name :: chain.drop (pairsBefore cfg name + 2)) } := by
      simp [qosNfAddRule, present, index, iptInsert, fits]
    rw [first, if_pos fits]
    simp [qosNfAddRule, index, iptInsert, fits]
  · have first : qosNfAddRule cfg name (.rule name) s =
        { s with chain := some chain, refused := s.refused + 1 } := by
      simp [qosNfAddRule, present, index, iptInsert, fits]
    rw [first, if_neg fits]
    simp [qosNfAddRule, index, iptInsert, fits]

theorem Around.find?_eq (around : Around cfg name before sec after) :
    cfg.rules.find? (·.name = name) = some sec := by
  have skipped : before.find? (·.name = name) = none := by
    rw [List.find?_eq_none]
    intro sec' member
    simpa using around.notBefore sec' member
  rw [around.rules, List.find?_append, skipped, Option.none_or]
  exact List.find?_cons_of_pos (by simp [around.here])

/-- An installation that is not skipped inserts both entries. -/
theorem install_takes {ipset : ν ⊕ String → Bool} (takes : Takes cfg ipset name s) :
    ∃ before sec after, Around cfg name before sec after ∧
      (qosRuleInstall cfg ipset name s).2 =
        { qosNfAddRule cfg name (.mate name) (qosNfAddRule cfg name (.rule name) s) with
          install := Function.update
            (qosNfAddRule cfg name (.mate name) (qosNfAddRule cfg name (.rule name) s)).install
            name true } := by
  obtain ⟨fresh, sec, member, rfl, ping, pong, group⟩ := takes
  obtain ⟨before, after, around⟩ := exists_around member
  refine ⟨before, sec, after, around, ?_⟩
  have interfaces : ¬ (sec.ifPing.isNone = true ∨ sec.ifPong.isNone = true) := by
    simp [Option.isSome_iff_ne_none.mp ping, Option.isSome_iff_ne_none.mp pong]
  simp only [qosRuleInstall, fresh, Bool.false_eq_true, ↓reduceIte, around.find?_eq, interfaces, group,
    Bool.not_true]

theorem install_skips {ipset : ν ⊕ String → Bool} (skips : ¬ Takes cfg ipset name s) :
    (qosRuleInstall cfg ipset name s).2 = s := by
  unfold qosRuleInstall
  split
  · rfl
  · next fresh =>
    split
    · rfl
    · next sec found =>
      split
      · rfl
      · next interfaces =>
        split
        · rfl
        · next group =>
          -- every test is passed, so the call is not skipped
          have here := List.find?_some found
          have pings := not_or.mp interfaces
          refine absurd ⟨by simpa using fresh, sec, List.mem_of_find?_eq_some found, by simpa using here,
            ?_, ?_, by simpa using group⟩ skips
          · simpa [Option.isSome_iff_ne_none] using pings.1
          · simpa [Option.isSome_iff_ne_none] using pings.2

/-- The installed rules after an installation. -/
theorem Around.installedNames_install (around : Around cfg name before sec after)
    (installs : s'.install = Function.update s.install name true) :
    installedNames cfg s' = namesOf before s ++ [name] ++ namesOf after s := by
  have elsewhere : ∀ n, n ≠ name → s'.install n = s.install n := by
    intro n other
    rw [installs, Function.update_of_ne other]
  have here : s'.install name = true := by rw [installs, Function.update_self]
  rw [around.installedNames_eq, if_pos here, namesOf_update around.notBefore elsewhere,
    namesOf_update around.notAfter elsewhere]

/-- `s'` is `s` after an installation that is not skipped. -/
structure Installed (cfg : UciConfig ν) (name : ν) (s s' : NfSt ν) : Prop where
  fresh : s.install name = false
  install : s'.install = Function.update s.install name true
  entries : s'.chain =
      (qosNfAddRule cfg name (.mate name) (qosNfAddRule cfg name (.rule name) s)).chain
  refused : s'.refused =
      (qosNfAddRule cfg name (.mate name) (qosNfAddRule cfg name (.rule name) s)).refused

/-- A fitting installation puts the entries where they belong. -/
theorem Kept.installed (kept : Kept cfg s) (around : Around cfg name before sec after)
    (installed : Installed cfg name s s')
    (fits : pairsBefore cfg name = 2 * installedBefore cfg s name) : Kept cfg s' := by
  have added := addPair_eq around s (kept.found around installed.fresh)
  have index : pairsBefore cfg name = (stdEntries (namesOf before s)).length := by
    rw [fits, around.installedBefore_eq, stdEntries_length]
  -- the position is within the chain, so iptables does not refuse it
  have inRange : pairsBefore cfg name + 2 ≤
      (framed (stdEntries (namesOf before s ++ namesOf after s))).length := by
    rw [index, stdEntries_append]
    simp only [framed, List.length_cons, List.length_append]
    omega
  rw [if_pos inRange, take_framed, drop_framed, index, stdEntries_append, List.append_assoc,
    List.take_left, List.drop_left] at added
  constructor
  · rw [installed.refused, added]
    exact kept.accepted
  · left
    rw [installed.entries, added, around.installedNames_install installed.install,
      stdEntries_append, stdEntries_append]
    simp [framed, stdEntries]
  · intro n isInstalled
    rw [installed.install] at isInstalled
    by_cases here : n = name
    · refine ⟨sec, ?_, here ▸ around.here⟩
      rw [around.rules]
      exact List.mem_append_right _ List.mem_cons_self
    · rw [Function.update_of_ne here] at isInstalled
      exact kept.listed n isInstalled

/-- An installation after which the chain is in order was a fitting one. -/
theorem Kept.fitting (kept : Kept cfg s) (around : Around cfg name before sec after)
    (installed : Installed cfg name s s') (ordered : Ordered cfg s') :
    pairsBefore cfg name = 2 * installedBefore cfg s name := by
  have added := addPair_eq around s (kept.found around installed.fresh)
  have accepted := ordered.accepted
  rw [installed.refused] at accepted
  by_cases inRange : pairsBefore cfg name + 2 ≤
      (framed (stdEntries (namesOf before s ++ namesOf after s))).length
  · rw [if_pos inRange] at added
    have present : s'.chain = some _ := installed.entries.trans (congrArg NfSt.chain added)
    obtain ⟨body, blocks, chain⟩ := ordered.layout _ present
    rw [around.installedNames_install installed.install, List.append_assoc] at blocks
    -- the entries of the rule begin after two for each installed rule in front of it
    rw [take_framed, drop_framed] at chain
    have same : body ++ [Entry.saveMark] = _ := (List.cons.inj (List.cons.inj chain).2).2.symm
    have position := blocks.position ruleBlock_owner ruleBlock_length (by decide)
      (not_mem_namesOf around.notBefore) same rfl ?_
    · rw [around.installedBefore_eq, ← position, List.length_take]
      simp only [framed, List.length_cons, List.length_append] at inRange ⊢
      omega
    · intro e member owner
      rcases List.mem_append.mp (List.mem_of_mem_take member) with inBody | isSave
      · refine not_mem_stdEntries owner ?_ inBody
        rw [List.mem_append, not_or]
        exact ⟨not_mem_namesOf around.notBefore, not_mem_namesOf around.notAfter⟩
      · rw [List.mem_singleton.mp isSave] at owner
        cases owner
  · -- the index is past the end, and both insertions are refused
    rw [if_neg inRange] at added
    rw [added] at accepted
    cases accepted

end Install

/-! ## Uninstalling -/

section Uninstall

theorem qosNfDelEntry_eq {l₁ l₂ : List (Entry ν)} {e : Entry ν} (present : s.chain = some (l₁ ++ e :: l₂))
    (notBefore : e ∉ l₁) (notAfter : e ∉ l₂) :
    qosNfDelEntry e s =
      { s with chain := if (l₁ ++ l₂).length = 3 then none else some (l₁ ++ l₂) } := by
  have once : (l₁ ++ e :: l₂).count e = 1 := by
    rw [List.count_append, List.count_cons_self, List.count_eq_zero.mpr notBefore,
      List.count_eq_zero.mpr notAfter]
  have rest : (l₁ ++ e :: l₂).erase e = l₁ ++ l₂ := by
    rw [List.erase_append_right _ notBefore, List.erase_cons_head]
  simp only [qosNfDelEntry, present, once, rest, Nat.one_ne_zero, ↓reduceIte]

/-- Both entries go, and with the last of them the chain. -/
theorem delPair_eq {names names' : List ν} (notBefore : name ∉ names) (notAfter : name ∉ names')
    (present : s.chain = some (framed (stdEntries (names ++ [name] ++ names')))) :
    qosNfDelRule [.rule name, .mate name] s =
      { s with chain := if names ++ names' = [] then none
          else some (framed (stdEntries (names ++ names'))) } := by
  have outside : ∀ e : Entry ν, ownerOf e = some name →
      e ∉ stdEntries names ∧ e ∉ stdEntries names' ∧ e ≠ .saveMark ∧ e ≠ .restoreMark ∧
        e ≠ .returnMarked := by
    intro e owner
    refine ⟨not_mem_stdEntries owner notBefore, not_mem_stdEntries owner notAfter, ?_, ?_, ?_⟩ <;>
      (rintro rfl; cases owner)
  have main := outside (.rule name) rfl
  have mate := outside (.mate name) rfl
  -- the rule's own entry first, behind that of its mate
  have split : s.chain = some ((.restoreMark :: .returnMarked :: (stdEntries names ++ [.mate name])) ++
      .rule name :: (stdEntries names' ++ [.saveMark])) := by
    rw [present]
    simp [framed, stdEntries]
  have first := qosNfDelEntry_eq split (by simp [main]) (by simp [main])
  -- the mate is left, so the chain is not removed yet
  have remains : ((Entry.restoreMark :: .returnMarked :: (stdEntries names ++ [Entry.mate name])) ++
      (stdEntries names' ++ [Entry.saveMark])).length ≠ 3 := by
    simp only [List.length_cons, List.length_append, List.length_nil]
    omega
  rw [if_neg remains] at first
  have split' : (qosNfDelEntry (.rule name) s).chain =
      some ((.restoreMark :: .returnMarked :: stdEntries names) ++
        .mate name :: (stdEntries names' ++ [.saveMark])) := by
    rw [first]
    simp
  have second := qosNfDelEntry_eq split' (by simp [mate]) (by simp [mate])
  show qosNfDelEntry (.mate name) (qosNfDelEntry (.rule name) s) = _
  rw [second, first]
  have length : ((Entry.restoreMark :: .returnMarked :: stdEntries names) ++
      (stdEntries names' ++ [Entry.saveMark])).length = 3 ↔ names ++ names' = [] := by
    simp only [List.length_cons, List.length_append, stdEntries_length,
      ← List.length_eq_zero_iff, List.length_nil]
    omega
  simp only [length]
  simp [framed, stdEntries]

theorem Kept.uninstalled (kept : Kept cfg s) (name : ν) :
    Kept cfg (qosRuleUninstall name s).2 := by
  by_cases isInstalled : s.install name = true
  · obtain ⟨sec, member, rfl⟩ := kept.listed name isInstalled
    obtain ⟨before, after, around⟩ := exists_around member
    have names := around.installedNames_eq s
    rw [if_pos isInstalled] at names
    -- an installed rule has its entries, so there is a chain
    have present : s.chain = some (framed (stdEntries (installedNames cfg s))) := by
      rcases kept.chain with present | ⟨_, empty⟩
      · exact present
      · rw [names] at empty
        simp at empty
    rw [names] at present
    have deleted := delPair_eq (not_mem_namesOf around.notBefore) (not_mem_namesOf around.notAfter)
      present
    have ran : (qosRuleUninstall sec.name s).2 =
        { qosNfDelRule [.rule sec.name, .mate sec.name] s with
          install := Function.update
            (qosNfDelRule [.rule sec.name, .mate sec.name] s).install sec.name false } := by
      simp [qosRuleUninstall, isInstalled]
    have elsewhere : ∀ n, n ≠ sec.name →
        (qosRuleUninstall sec.name s).2.install n = s.install n := by
      intro n other
      rw [ran, deleted]
      exact Function.update_of_ne other _ _
    have gone : (qosRuleUninstall sec.name s).2.install sec.name = false := by
      rw [ran]
      exact Function.update_self ..
    -- the names around it stay, each in its place
    have names' : installedNames cfg (qosRuleUninstall sec.name s).2 =
        namesOf before s ++ namesOf after s := by
      rw [around.installedNames_eq, gone, if_neg Bool.false_ne_true, List.append_nil,
        namesOf_update around.notBefore elsewhere, namesOf_update around.notAfter elsewhere]
    constructor
    · rw [ran, deleted]
      exact kept.accepted
    · rw [names', ran, deleted]
      by_cases empty : namesOf before s ++ namesOf after s = []
      · exact .inr ⟨if_pos empty, empty⟩
      · exact .inl (if_neg empty)
    · intro n installed
      by_cases here : n = sec.name
      · exact ⟨sec, member, here.symm⟩
      · rw [elsewhere n here] at installed
        exact kept.listed n installed
  · have skipped : (qosRuleUninstall name s).2 = s := by
      simp [qosRuleUninstall, isInstalled]
    rw [skipped]
    exact kept

end Uninstall

/-! ## Runs -/

omit [DecidableEq ν] in
theorem start_kept (cfg : UciConfig ν) : Kept cfg (NfSt.start ν) where
  accepted := rfl
  chain := .inr ⟨rfl, by simp [installedNames, NfSt.start]⟩
  listed := fun _ installed => by cases installed

/-- One call keeps the order exactly if it is fitting. -/
theorem call_ordered_iff (kept : Kept cfg s) {c : Call ν} (ran : call cfg c s = .ok s') :
    (Ordered cfg s' ↔ Fitting cfg c s) ∧ (Fitting cfg c s → Kept cfg s') := by
  cases c with
  | uninstall name =>
    cases ran
    have kept' := kept.uninstalled name
    exact ⟨iff_of_true kept'.ordered trivial, fun _ => kept'⟩
  | install name ipset =>
    cases ran
    by_cases takes : Takes cfg ipset name s
    · obtain ⟨before, sec, after, around, result⟩ := install_takes takes
      -- accepted or refused, the insertions leave the states of the rules alone
      have same : (qosNfAddRule cfg name (.mate name)
          (qosNfAddRule cfg name (.rule name) s)).install = s.install := by
        rw [addPair_eq around s rfl]
        split <;> rfl
      have installed : Installed cfg name s (qosRuleInstall cfg ipset name s).2 := by
        rw [result]
        exact ⟨takes.1, congrArg (Function.update · name true) same, rfl, rfl⟩
      have keep := fun fits => kept.installed around installed fits
      refine ⟨⟨fun ordered _ => kept.fitting around installed ordered, fun fitting => ?_⟩,
        fun fitting => keep (fitting takes)⟩
      exact (keep (fitting takes)).ordered
    · have kept' : Kept cfg (qosRuleInstall cfg ipset name s).2 := by
        rw [install_skips takes]
        exact kept
      exact ⟨iff_of_true kept'.ordered fun takes' => absurd takes' takes, fun _ => kept'⟩

/-- For every list of calls from a clean start: the chain is as configured after each of
    them exactly if each of them is fitting where it is made. -/
theorem chain_ordered_iff (cfg : UciConfig ν) (calls : List (Call ν)) :
    Throughout (call cfg) (Ordered cfg) calls (NfSt.start ν) ↔
      Allowed (call cfg) (Fitting cfg) calls (NfSt.start ν) := by
  apply IpQos.Lib.throughout_iff_allowed (Kept cfg)
  · intro c s s' kept ran
    exact call_ordered_iff kept ran
  · intro c s _
    cases c <;> exact ⟨_, rfl⟩
  · exact start_kept cfg

/-- Enough for an installation: in front of the rule, two pairs for every installed rule and
    none for another. -/
theorem fitting_of_counted {ipset : ν ⊕ String → Bool}
    (counted : ∀ sec ∈ sectionsBefore cfg name, pairs sec = if s.install sec.name then 2 else 0) :
    Fitting cfg (.install name ipset) s := by
  intro _
  rw [pairsBefore, installedBefore]
  generalize sectionsBefore cfg name = secs at counted ⊢
  induction secs with
  | nil => rfl
  | cons sec secs ih =>
    have rest := ih fun sec' member => counted sec' (List.mem_cons_of_mem sec member)
    rw [List.map_cons, List.sum_cons, counted sec List.mem_cons_self, rest, List.filter_cons]
    split
    · rw [List.length_cons]
      omega
    · omega

/-! ## A rule that waits for its time -/

/-- Two enabled rules; the first is installed by the time manager. -/
def timedConfig : UciConfig Nat where
  rules := [1, 2].map fun name =>
    { name, enable := true, rateMax := some 100, rateMin := some 10, rateMaxMate := some 100,
      rateMinMate := some 10, ifPing := some .lan, ifPong := some (.wan 1), ipGroup := .ipgroupAny }
  distinct := by decide

/-- The second rule is to go to position 5 of a chain of three. -/
theorem timed_rule_disorders :
    ¬ Throughout (call timedConfig) (Ordered timedConfig) [.install 2 fun _ => true]
      (NfSt.start Nat) := by
  rintro ⟨ordered, _⟩
  have refused := ordered.accepted
  revert refused
  decide

end IpQos.Verified
