import IpQos.Script.Service
import IpQos.Verified.Classifier
import IpQos.Verified.FailedAllocation
import IpQos.Verified.RuleText

/-! # The chain and the rule table follow the configuration

The functions of the scripts give their commands in an order that keeps the two in step: a rule
is in the module before its entries are in the chain, and its entries are gone before it is taken
back.  What a packet finds on its way, in the middle of a function too, is a rule with the
numbers of its section. -/

namespace IpQos.Verified

open IpQos.App (Libc RuleOption)
open IpQos.Kmod IpQos.Script
open IpQos.Lib (Run numeral)

/-! ## The rule table -/

section Table

variable {given : Name → Option QmarkRule} {name : Name} {qr : QmarkRule} {tbl : List RuletblNode}
  {env : Env} {s s' : St} {op : Op}

/-- The slot of a rule, apart from what the packets leave there. -/
def ruleSlot (qr : QmarkRule) : RuletblNode :=
  { mode := qr.mode, mark := 0, count := 0, on := true, devid := qr.devid, rate := qr.rate,
    rateMate := qr.rateMate, rateMin := qr.rateMin, rateMinMate := qr.rateMinMate }

/-- Every given rule has its slot, and the other slots are empty. -/
structure Agrees (given : Name → Option QmarkRule) (tbl : List RuletblNode) : Prop where
  held : ∀ name qr, given name = some qr →
    (tbl[qr.id - 1]?).map RuletblNode.params = some (ruleSlot qr)
  empty : ∀ i rn, tbl[i]? = some rn → (∀ name qr, given name = some qr → qr.id ≠ i + 1) →
    rn.params = .zero

/-- Without a table nothing is given. -/
structure TableAgrees (given : Name → Option QmarkRule) (s : St) : Prop where
  live : ∀ tbl, s.gRuletbl = .to tbl → Agrees given tbl
  absent : s.gRuletbl.isLive = false → ∀ name, given name = none

/-- A name whose number everybody reads alike. -/
structure Readable (name : Name) : Prop where
  number : onlyDigits name.text ≠ []
  plain : (onlyDigits name.text).head? ≠ some '0'
  word : ruleId name < 2 ^ 31

/-- The numbers of the rules keep them apart. -/
structure Separate (given : Name → Option QmarkRule) : Prop where
  id : ∀ name qr, given name = some qr → qr.id = ruleId name
  readable : ∀ name, (given name).isSome → Readable name
  distinct : ∀ name name', (given name).isSome → (given name').isSome →
    ruleId name = ruleId name' → name = name'

theorem Readable.positive (readable : Readable name) : 1 ≤ ruleId name := by
  obtain ⟨number, plain, word⟩ := readable
  have digits := onlyDigits_digits name.text
  unfold ruleId
  generalize onlyDigits name.text = w at number plain digits
  cases w with
  | nil => exact absurd rfl number
  | cons c cs =>
    have digit := digits c List.mem_cons_self
    have atLeast := IpQos.Lib.digit_le_numeral (w := c :: cs) List.mem_cons_self
    simp only [Char.isDigit, ge_iff_le, Bool.and_eq_true, decide_eq_true_eq] at digit
    have low : 48 ≤ c.toNat := digit.1
    have notZero : c.toNat ≠ 48 := by
      intro same
      apply plain
      rw [List.head?_cons, Option.some.injEq]
      exact Char.toNat_inj.mp same
    have zero : '0'.toNat = 48 := rfl
    omega

theorem Separate.fewer {given' : Name → Option QmarkRule} (separate : Separate given)
    (fewer : ∀ name qr, given' name = some qr → given name = some qr) : Separate given' := by
  have kept : ∀ name, (given' name).isSome → (given name).isSome := by
    intro name is
    obtain ⟨qr, is⟩ := Option.isSome_iff_exists.mp is
    rw [fewer name qr is]
    rfl
  exact ⟨fun name qr is => separate.id name qr (fewer name qr is),
    fun name is => separate.readable name (kept name is),
    fun name name' is is' => separate.distinct name name' (kept name is) (kept name' is')⟩

theorem Separate.more (separate : Separate given) (id : qr.id = ruleId name) (readable : Readable name)
    (only : ∀ name', (given name').isSome → ruleId name' = ruleId name → name' = name) :
    Separate (Function.update given name (some qr)) := by
  -- a name that has a rule now is the new one or had one before
  have before (other : Name) (is : (Function.update given name (some qr) other).isSome) :
      other = name ∨ (given other).isSome := by
    by_cases same : other = name
    · exact .inl same
    · rw [Function.update_of_ne same] at is
      exact .inr is
  constructor
  · intro other qr' is
    by_cases same : other = name
    · rw [same, Function.update_self] at is
      cases is
      rw [same, id]
    · rw [Function.update_of_ne same] at is
      exact separate.id other qr' is
  · intro other is
    rcases before other is with rfl | old
    · exact readable
    · exact separate.readable other old
  · intro other other' is is' same
    rcases before other is with rfl | old <;> rcases before other' is' with rfl | old'
    · rfl
    · exact (only other' old' same.symm).symm
    · exact only other old same
    · exact separate.distinct other other' old old' same

theorem Agrees.congr {tbl' : List RuletblNode} (agrees : Agrees given tbl)
    (same : tbl'.map RuletblNode.params = tbl.map RuletblNode.params) : Agrees given tbl' := by
  have slots (i : ℕ) : (tbl'[i]?).map RuletblNode.params = (tbl[i]?).map RuletblNode.params := by
    rw [← List.getElem?_map, same, List.getElem?_map]
  constructor
  · intro name qr is
    rw [slots]
    exact agrees.held name qr is
  · intro i rn at_i free
    have there := slots i
    rw [at_i, Option.map_some] at there
    obtain ⟨rn', at_i', params⟩ := Option.map_eq_some_iff.mp there.symm
    rw [← params]
    exact agrees.empty i rn' at_i' free

theorem Agrees.fresh (n : ℕ) (none : ∀ name, given name = none) :
    Agrees given (List.replicate n .zero) where
  held := fun name qr is => by simp [none name] at is
  empty := fun i rn at_i _ => by
    rw [List.eq_of_mem_replicate (List.mem_of_getElem? at_i)]
    rfl

theorem Agrees.add (agrees : Agrees given tbl) (separate : Separate given) (fresh : given name = none)
    (positive : 1 ≤ qr.id) (inside : qr.id - 1 < tbl.length)
    (others : ∀ name', (given name').isSome → ruleId name' ≠ qr.id)
    {f : RuletblNode → RuletblNode} (writes : ∀ rn, (f rn).params = ruleSlot qr) :
    Agrees (Function.update given name (some qr)) (tbl.modify (qr.id - 1) f) := by
  constructor
  · intro name' qr' is
    by_cases same : name' = name
    · rw [same, Function.update_self, Option.some.injEq] at is
      subst is
      rw [List.getElem?_modify_eq, List.getElem?_eq_getElem inside]
      exact congrArg some (writes _)
    · rw [Function.update_of_ne same] at is
      have there : (given name').isSome := by simp [is]
      -- another id is another slot
      have elsewhere : qr.id - 1 ≠ qr'.id - 1 := by
        have number := others name' there
        have bound := (separate.readable name' there).positive
        rw [← separate.id name' qr' is] at number bound
        omega
      rw [List.getElem?_modify_ne _ _ elsewhere]
      exact agrees.held name' qr' is
  · intro i rn at_i free
    have elsewhere : qr.id - 1 ≠ i := by
      have number := free name qr (Function.update_self ..)
      omega
    rw [List.getElem?_modify_ne _ _ elsewhere] at at_i
    refine agrees.empty i rn at_i fun name' qr' is => free name' qr' ?_
    rw [Function.update_of_ne, is]
    rintro rfl
    simp [fresh] at is

theorem Agrees.del (agrees : Agrees given tbl) (separate : Separate given) (is : given name = some qr) :
    Agrees (Function.update given name none) (tbl.modify (qr.id - 1) fun _ => .zero) := by
  have here : (given name).isSome := by simp [is]
  constructor
  · intro name' qr' is'
    have other : name' ≠ name := by
      rintro rfl
      simp at is'
    rw [Function.update_of_ne other] at is'
    have there : (given name').isSome := by simp [is']
    -- two rules with one slot would have one number
    have elsewhere : qr.id - 1 ≠ qr'.id - 1 := by
      intro same
      have bound := (separate.readable name here).positive
      have bound' := (separate.readable name' there).positive
      rw [← separate.id name qr is] at bound
      rw [← separate.id name' qr' is'] at bound'
      apply other
      apply separate.distinct name' name there here
      rw [← separate.id name qr is, ← separate.id name' qr' is']
      omega
    rw [List.getElem?_modify_ne _ _ elsewhere]
    exact agrees.held name' qr' is'
  · intro i rn at_i free
    by_cases same : qr.id - 1 = i
    · rw [← same, List.getElem?_modify_eq] at at_i
      obtain ⟨_, _, rfl⟩ := Option.map_eq_some_iff.mp at_i
      rfl
    · rw [List.getElem?_modify_ne _ _ same] at at_i
      refine agrees.empty i rn at_i fun name' qr' is' number => ?_
      by_cases other : name' = name
      · subst other
        cases is.symm.trans is'
        omega
      · exact free name' qr' (by rw [Function.update_of_ne other, is']) number

/-- Only four commands write to the rules. -/
def LeavesRules : Op → Prop
  | .ioctl (.ruleAdd _) | .ioctl (.ruleDel _) | .ioctl .ruleFlush | .ioctl (.specSet _ _) => False
  | _ => True

def SameParams (s s' : St) : Prop :=
  s'.gRuletbl.map (List.map RuletblNode.params) = s.gRuletbl.map (List.map RuletblNode.params)

theorem TableAgrees.congr (agrees : TableAgrees given s) (same : SameParams s s') :
    TableAgrees given s' := by
  unfold SameParams at same
  constructor
  · intro tbl' live'
    rw [live'] at same
    obtain ⟨tbl, live, params⟩ := Ptr.map_eq_to same.symm
    exact (agrees.live tbl live).congr params.symm
  · intro absent
    apply agrees.absent
    rw [← Ptr.isLive_map s.gRuletbl (List.map RuletblNode.params), ← same, Ptr.isLive_map]
    exact absent

theorem qmarkReset_params {flag : Nat} (ran : qmarkReset env flag s = .ok s') : SameParams s s' := by
  unfold qmarkReset at ran
  split at ran
  · cases ran
    rfl
  · obtain ⟨s₁, flush, ran⟩ := bind_eq_ok ran
    have flushed := (Framed.flushMark flush).rules
    obtain ⟨s₂, flushHash, ran⟩ := bind_eq_ok ran
    obtain ⟨p, rfl⟩ := qmarkFlushHash_cases flushHash
    unfold clearCounts at ran
    split at ran
    · cases ran
      exact flushed
    · obtain ⟨tbl, deref, ran⟩ := bind_eq_ok ran
      have live := Ptr.deref_eq_ok deref
      split at ran <;> cases ran
      dsimp only at live
      have cleared : (tbl.map fun rn => { rn with count := 0 }).map RuletblNode.params =
          tbl.map RuletblNode.params := by
        rw [List.map_map]
        rfl
      unfold SameParams
      rw [← flushed, live]
      exact congrArg Ptr.to cleared

theorem opStep_params (leaves : LeavesRules op) (ran : opStep (env, op) s = .ok s') :
    SameParams s s' := by
  cases Effect.of_opStep ran with
  | framed framed => exact framed.rules
  | ruleAdd | ruleDel | ruleFlush | specSet => exact leaves.elim
  | hashFlush flush =>
    obtain ⟨p, rfl⟩ := qmarkFlushHash_cases flush
    rfl
  | reset reset => exact qmarkReset_params reset

/-! ## The commands that write to it -/

theorem modifyRule_inside {id : Nat} {f : RuletblNode → RuletblNode}
    (ran : modifyRule id f s = .ok s') :
    ∃ tbl, s.gRuletbl = .to tbl ∧ subU32 id 1 < tbl.length ∧
      s' = s.setRules (tbl.modify (subU32 id 1) f) := by
  obtain ⟨tbl, deref, ran⟩ := bind_eq_ok ran
  split at ran
  · cases ran
    exact ⟨tbl, Ptr.deref_eq_ok deref, ‹_›, rfl⟩
  · cases ran

theorem TableAgrees.ruleAdd (agrees : TableAgrees given s) (separate : Separate given)
    (fresh : given name = none) (positive : 1 ≤ qr.id) (word : qr.id < 2 ^ 31)
    (others : ∀ name', (given name').isSome → ruleId name' ≠ qr.id)
    (copied : 0 ≤ env.copyFromUser) (ran : opStep (env, .ioctl (.ruleAdd qr)) s = .ok s') :
    TableAgrees (Function.update given name (some qr)) s' := by
  obtain ⟨r, cdev⟩ := opStep_cdev ran
  rw [qmarkCdevIoctl, afterCopy, if_neg (Int.not_lt.mpr copied)] at cdev
  obtain ⟨s₁, add, cdev⟩ := bind_eq_ok cdev
  cases cdev
  obtain ⟨tbl, live, inside, rfl⟩ := modifyRule_inside add
  rw [subU32_one positive (by omega)] at inside ⊢
  have added := (agrees.live tbl live).add (f := addedRule qr) separate fresh positive inside others
    fun _ => rfl
  refine ⟨fun tbl' live' => ?_, fun absent => ?_⟩
  · cases live'
    exact added
  · cases absent

theorem TableAgrees.ruleDel (agrees : TableAgrees given s) (separate : Separate given)
    (is : given name = some qr) {id : Nat} (same : id = qr.id) (copied : 0 ≤ env.copyFromUser)
    {arg : QmarkRule} (named : arg.id = id)
    (ran : opStep (env, .ioctl (.ruleDel arg)) s = .ok s') :
    TableAgrees (Function.update given name none) s' := by
  have readable := separate.readable name (by simp [is])
  have positive := readable.positive
  have word := readable.word
  rw [← separate.id name qr is] at positive word
  obtain ⟨r, cdev⟩ := opStep_cdev ran
  rw [qmarkCdevIoctl, afterCopy, if_neg (Int.not_lt.mpr copied)] at cdev
  obtain ⟨s₁, del, cdev⟩ := bind_eq_ok cdev
  cases cdev
  rw [Shaped.qmarkDelRule_eq, named, same] at del
  obtain ⟨tbl, live, inside, rfl⟩ := modifyRule_inside del
  rw [subU32_one positive (by omega)]
  have deleted := (agrees.live tbl live).del separate is
  refine ⟨fun tbl' live' => ?_, fun absent => ?_⟩
  · cases live'
    exact deleted
  · cases absent

/-- A new table agrees with nothing given, and so does a failed allocation. -/
theorem TableAgrees.renewed (none : ∀ name, given name = none) (n : ℕ) (allocates : Bool)
    (renewed : s'.gRuletbl = if allocates then .to (List.replicate n .zero) else .null) :
    TableAgrees given s' := by
  refine ⟨fun tbl live => ?_, fun _ => none⟩
  rw [renewed] at live
  split at live
  · cases live
    exact .fresh n none
  · cases live

theorem TableAgrees.ruleFlush (ran : opStep (env, .ioctl .ruleFlush) s = .ok s') :
    TableAgrees (fun _ => none) s' := by
  obtain ⟨r, cdev⟩ := opStep_cdev ran
  cases cdev
  apply TableAgrees.renewed (fun _ => rfl) (allotted sizeofRuletblNode s.maxRuleCnt)
    (env.kmalloc .ruletbl)
  unfold qmarkFlushRule qosRuletblInit
  cases env.kmalloc .ruletbl <;> rfl

theorem TableAgrees.specSet {ipSpec ruleSpec : Nat} (agrees : TableAgrees given s)
    (none : ∀ name, given name = none)
    (ran : opStep (env, .ioctl (.specSet ipSpec ruleSpec)) s = .ok s') : TableAgrees given s' := by
  cases Effect.of_opStep ran with
  | framed framed => exact agrees.congr framed.rules
  | specSet set =>
    by_cases dangling : s.gMarktblHead = .dangling
    · rw [qmarkSetSpec_dangling _ _ _ dangling] at set
      cases set
    · rw [qmarkSetSpec_allocated _ _ _ dangling] at set
      split at set <;> cases set
      exact .renewed none (allotted sizeofRuletblNode ruleSpec) (env.kmalloc .ruletbl) rfl

end Table

/-! ## The entries of the rules -/

section Chain

variable {xt : Xtables} {cfg : UciConfig Name} {nf : NfSt Name} {given : Name → Option QmarkRule}
  {name : Name} {dir : Nat} {e e' : Entry Name} {chain : List (Entry Name)}

/-- Every entry is there once, and the rule of an entry is given. -/
structure Belongs (given : Name → Option QmarkRule) (nf : NfSt Name) : Prop where
  once : ∀ chain, nf.chain = some chain → chain.Nodup
  isGiven : ∀ chain, nf.chain = some chain → ∀ e ∈ chain, ∀ name dir,
    ruleOf e = some (name, dir) → (given name).isSome

def Without (e : Entry Name) (nf : NfSt Name) : Prop := ∀ chain, nf.chain = some chain → e ∉ chain

theorem ruleOf_cases (isRule : ruleOf e = some (name, dir)) : e = .rule name ∨ e = .mate name := by
  cases e <;> cases isRule
  · exact .inl rfl
  · exact .inr rfl

/-- The chain that an entry goes into. -/
def baseChain (nf : NfSt Name) : List (Entry Name) :=
  nf.chain.getD [.restoreMark, .returnMarked, .saveMark]

theorem Belongs.base (belongs : Belongs given nf) : (baseChain nf).Nodup ∧
    ∀ e ∈ baseChain nf, ∀ name dir, ruleOf e = some (name, dir) → (given name).isSome := by
  unfold baseChain
  cases present : nf.chain with
  | none =>
    refine ⟨by decide, fun e member name dir isRule => ?_⟩
    rcases ruleOf_cases isRule with rfl | rfl <;> simp at member
  | some chain => exact ⟨belongs.once chain present, belongs.isGiven chain present⟩

theorem Without.base (without : Without e nf) (isRule : ruleOf e = some (name, dir)) :
    e ∉ baseChain nf := by
  unfold baseChain
  cases present : nf.chain with
  | none => rcases ruleOf_cases isRule with rfl | rfl <;> simp
  | some chain => exact without chain present

@[simp] theorem nfAddRule_install (xt : Xtables) (cfg : UciConfig Name) (name : Name) (e : Entry Name)
    (nf : NfSt Name) : (nfAddRule xt cfg name e nf).install = nf.install := by
  unfold nfAddRule qosNfAddRule
  split
  · dsimp only
    split <;> rfl
  · rfl

/-- iptables refuses the entry, or puts it somewhere. -/
theorem nfAddRule_chain (xt : Xtables) (cfg : UciConfig Name) (name : Name) (e : Entry Name)
    (nf : NfSt Name) : ∃ chain, (nfAddRule xt cfg name e nf).chain = some chain ∧
      (chain = baseChain nf ∨ chain.Perm (e :: baseChain nf)) := by
  unfold nfAddRule
  split
  · unfold qosNfAddRule iptInsert
    dsimp only
    rw [← baseChain]
    by_cases fits : 1 ≤ findInsertIndex cfg.rules name + 1 + 1 ∧
        findInsertIndex cfg.rules name + 1 + 1 ≤ (baseChain nf).length + 1
    · rw [if_pos fits]
      refine ⟨_, rfl, .inr ?_⟩
      have split := List.take_append_drop (findInsertIndex cfg.rules name + 1 + 1 - 1) (baseChain nf)
      exact List.perm_middle.trans (.cons e (.of_eq split))
    · rw [if_neg fits]
      exact ⟨_, rfl, .inl rfl⟩
  · exact ⟨_, rfl, .inl rfl⟩

theorem Belongs.added (belongs : Belongs given nf) (without : Without e nf)
    (isRule : ruleOf e = some (name, dir)) (is : (given name).isSome) (name' : Name) :
    Belongs given (nfAddRule xt cfg name' e nf) := by
  obtain ⟨once, isGiven⟩ := belongs.base
  obtain ⟨chain, added, refused | inserted⟩ := nfAddRule_chain xt cfg name' e nf
  · constructor
    · intro chain' present
      cases added.symm.trans present
      rwa [refused]
    · intro chain' present
      cases added.symm.trans present
      rwa [refused]
  · constructor
    · intro chain' present
      cases added.symm.trans present
      exact inserted.nodup_iff.mpr (List.nodup_cons.mpr ⟨without.base isRule, once⟩)
    · intro chain' present e' member name'' dir' isRule'
      cases added.symm.trans present
      cases inserted.mem_iff.mp member with
      | head =>
        cases isRule.symm.trans isRule'
        exact is
      | tail _ old => exact isGiven e' old name'' dir' isRule'

theorem Without.added (without : Without e' nf) (isRule : ruleOf e' = some (name, dir))
    (other : e' ≠ e) (name' : Name) : Without e' (nfAddRule xt cfg name' e nf) := by
  have absent := without.base isRule
  obtain ⟨chain, added, refused | inserted⟩ := nfAddRule_chain xt cfg name' e nf
  · intro chain' present
    cases added.symm.trans present
    rwa [refused]
  · intro chain' present member
    cases added.symm.trans present
    cases inserted.mem_iff.mp member with
    | head => exact other rfl
    | tail _ old => exact absent old

@[simp] theorem qosNfDelEntry_install (e : Entry Name) (nf : NfSt Name) :
    (qosNfDelEntry e nf).install = nf.install := by
  unfold qosNfDelEntry
  split
  · rfl
  · split <;> rfl

theorem nfDelEntry_chain (once : ∀ chain, nf.chain = some chain → chain.Nodup)
    {left : List (Entry Name)} (deleted : (qosNfDelEntry e nf).chain = some left) :
    ∃ chain, nf.chain = some chain ∧ left = chain.erase e := by
  unfold qosNfDelEntry at deleted
  cases present : nf.chain with
  | none =>
    rw [present] at deleted
    cases present.symm.trans deleted
  | some chain =>
    refine ⟨chain, rfl, ?_⟩
    rw [present] at deleted
    dsimp only at deleted
    have few := List.nodup_iff_count_le_one.mp (once chain present) e
    by_cases absent : chain.count e = 0
    · rw [if_pos absent] at deleted
      cases present.symm.trans deleted
      exact (List.erase_of_not_mem (List.count_eq_zero.mp absent)).symm
    · have single : chain.count e = 1 := by omega
      rw [if_neg absent, if_pos single] at deleted
      dsimp only at deleted
      split at deleted
      · cases deleted
      · cases deleted
        rfl

theorem Belongs.deleted (belongs : Belongs given nf) (e : Entry Name) :
    Belongs given (qosNfDelEntry e nf) := by
  constructor
  · intro left deleted
    obtain ⟨chain, present, rfl⟩ := nfDelEntry_chain belongs.once deleted
    exact (belongs.once chain present).erase e
  · intro left deleted e' member
    obtain ⟨chain, present, rfl⟩ := nfDelEntry_chain belongs.once deleted
    exact belongs.isGiven chain present e' (List.mem_of_mem_erase member)

theorem Belongs.without (belongs : Belongs given nf) (e : Entry Name) :
    Without e (qosNfDelEntry e nf) := by
  intro left deleted
  obtain ⟨chain, present, rfl⟩ := nfDelEntry_chain belongs.once deleted
  exact (belongs.once chain present).not_mem_erase

theorem Without.deleted (without : Without e' nf) (belongs : Belongs given nf) (e : Entry Name) :
    Without e' (qosNfDelEntry e nf) := by
  intro left deleted member
  obtain ⟨chain, present, rfl⟩ := nfDelEntry_chain belongs.once deleted
  exact without chain present (List.mem_of_mem_erase member)

/-- A rule that is not given has no entry. -/
theorem Belongs.without_of_none (belongs : Belongs given nf) (fresh : given name = none)
    (isRule : ruleOf e = some (name, dir)) : Without e nf := by
  intro chain present member
  have is := belongs.isGiven chain present e member name dir isRule
  simp [fresh] at is

end Chain

/-! ## The functions as a whole -/

section Functions

variable {xt : Xtables} {name : Name}

/-- The commands of an installation, when there are any. -/
theorem installCmds_cases (u : UciText) (wanModeOne : Bool) (ipset : Name ⊕ String → Bool)
    (name : Name) (nf : NfSt Name) :
    installCmds u wanModeOne ipset name nf = [] ∧
        (qosRuleInstall u.toUciConfig ipset name nf).2 = nf ∨
      nf.install name = false ∧
        installCmds u wanModeOne ipset name nf =
          [.addRule wanModeOne name (u.options name), .nfAddRule u.toUciConfig name (.rule name),
            .nfAddRule u.toUciConfig name (.mate name), .setInstall name true] ∧
        (qosRuleInstall u.toUciConfig ipset name nf).2 =
          let nf := qosNfAddRule u.toUciConfig name (.rule name) nf
          let nf := qosNfAddRule u.toUciConfig name (.mate name) nf
          { nf with install := Function.update nf.install name true } := by
  unfold installCmds qosRuleInstall
  -- the tests in their order; whoever passes them all gives the four commands
  by_cases on : nf.install name = true
  · rw [if_pos on, if_pos on]
    exact .inl ⟨rfl, rfl⟩
  · rw [if_neg on, if_neg on]
    cases u.rules.find? (·.name = name) with
    | none => exact .inl ⟨rfl, rfl⟩
    | some rule =>
      dsimp only
      by_cases noIfs : rule.ifPing.isNone ∨ rule.ifPong.isNone
      · rw [if_pos noIfs, if_pos noIfs]
        exact .inl ⟨rfl, rfl⟩
      · rw [if_neg noIfs, if_neg noIfs]
        by_cases noSet : !ipGroupExists ipset rule
        · rw [if_pos noSet, if_pos noSet]
          exact .inl ⟨rfl, rfl⟩
        · rw [if_neg noSet, if_neg noSet]
          exact .inr ⟨by simpa using on, rfl, rfl⟩

/-- With nothing between them, the commands do to the chain what the function does to it. -/
theorem installCmds_nf (read : (setId xt name).isSome) (u : UciText) (wanModeOne : Bool)
    (ipset : Name ⊕ String → Bool) (nf : NfSt Name) :
    (installCmds u wanModeOne ipset name nf).foldl (Cmd.nf xt) nf =
      (qosRuleInstall u.toUciConfig ipset name nf).2 := by
  rcases installCmds_cases u wanModeOne ipset name nf with ⟨none, same⟩ | ⟨_, taken, same⟩
  · rw [none, same, List.foldl_nil]
  · rw [taken, same]
    simp only [List.foldl_cons, List.foldl_nil, Cmd.nf, nfAddRule, read, if_true]

theorem uninstallCmds_nf (xt : Xtables) (name : Name) (nf : NfSt Name) :
    (uninstallCmds name nf).foldl (Cmd.nf xt) nf = (qosRuleUninstall name nf).2 := by
  unfold uninstallCmds qosRuleUninstall
  split <;> rfl

theorem destroyCmds_nf (xt : Xtables) (s : RulesSt) :
    destroyCmds.foldl (Cmd.nf xt) s.nf = (qosDestroy s).nf := rfl

end Functions

/-! ## Where a function has been left -/

section Phases

variable {xt : Xtables} {libc : Libc} {env : Env} {nf : NfSt Name} {given : Name → Option QmarkRule}
  {name : Name} {wanModeOne : Bool} {o : RuleOptions} {mod mod' : St} {cmd : Cmd} {todo : List Cmd}

/-- A section whose numbers are read as they are written, and none other has its id. -/
structure Installable (given : Name → Option QmarkRule) (wanModeOne : Bool) (name : Name)
    (o : RuleOptions) : Prop where
  number : onlyDigits name.text ≠ []
  plain : (onlyDigits name.text).head? ≠ some '0'
  small : ∀ w ∈ ruleWords wanModeOne name o, numeral w < 2 ^ 31
  aligned : Aligned (ruleWords wanModeOne name o)
  apart : ∀ name', (given name').isSome → ruleId name' = ruleId name → name' = name

/-- The rules that are recorded as installed are the given ones, perhaps without `name`. -/
def RecordedBut (given : Name → Option QmarkRule) (nf : NfSt Name) (name : Name) : Prop :=
  ∀ other, other ≠ name → nf.install other = (given other).isSome

inductive Stage (given : Name → Option QmarkRule) (nf : NfSt Name) : List Cmd → Prop where
  | idle (recorded : ∀ name, nf.install name = (given name).isSome) : Stage given nf []
  | asking {wanModeOne : Bool} {name : Name} {o : RuleOptions} {cfg : UciConfig Name}
      (recorded : ∀ name, nf.install name = (given name).isSome) (fresh : given name = none)
      (installable : Installable given wanModeOne name o) :
      Stage given nf [.addRule wanModeOne name o, .nfAddRule cfg name (.rule name),
        .nfAddRule cfg name (.mate name), .setInstall name true]
  | entering {name : Name} {cfg : UciConfig Name} (es : List (Entry Name))
      (recorded : RecordedBut given nf name) (is : (given name).isSome)
      (own : ∀ e ∈ es, ∃ dir, ruleOf e = some (name, dir)) (once : es.Nodup)
      (without : ∀ e ∈ es, Without e nf) :
      Stage given nf (es.map (.nfAddRule cfg name ·) ++ [.setInstall name true])
  | leaving {name : Name} (es : List (Entry Name))
      (recorded : ∀ name, nf.install name = (given name).isSome) (is : (given name).isSome)
      (rest : ∀ e dir, ruleOf e = some (name, dir) → e ∈ es ∨ Without e nf) :
      Stage given nf (es.map .nfDelEntry ++ [.setInstall name false, .delRule name])
  | withdrawing {name : Name} (recorded : RecordedBut given nf name)
      (off : nf.install name = false) (is : (given name).isSome)
      (gone : ∀ e dir, ruleOf e = some (name, dir) → Without e nf) :
      Stage given nf [.delRule name]
  | clearing : Stage given nf destroyCmds
  | destroying (off : ∀ name, nf.install name = false) :
      Stage given nf [.nfDestroy, .reset, .flushRule]
  | resetting (off : ∀ name, nf.install name = false) (gone : nf.chain = none) :
      Stage given nf [.reset, .flushRule]
  | flushing (off : ∀ name, nf.install name = false) (gone : nf.chain = none) :
      Stage given nf [.flushRule]

/-- What holds between any two commands. -/
structure Attuned (given : Name → Option QmarkRule) (nf : NfSt Name) (mod : St) : Prop where
  belongs : Belongs given nf
  separate : Separate given
  table : TableAgrees given mod

theorem Installable.readable (installable : Installable given wanModeOne name o) : Readable name :=
  ⟨installable.number, installable.plain, installable.small _ List.mem_cons_self⟩

/-- The rule is in the module before it has an entry. -/
theorem Attuned.asked (attuned : Attuned given nf mod) (fresh : given name = none)
    (installable : Installable given wanModeOne name o) (copied : 0 ≤ env.copyFromUser)
    (ran : runOption libc env (Cmd.addRule wanModeOne name o).option mod = .ok mod') :
    Attuned (Function.update given name (some (configured wanModeOne name o))) nf mod' := by
  have readable := installable.readable
  obtain ⟨_, _, small, aligned, only⟩ := installable
  have others : ∀ name', (given name').isSome → ruleId name' ≠ ruleId name := by
    intro name' is same
    rw [only name' is same, fresh] at is
    cases is
  constructor
  · refine ⟨attuned.belongs.once, fun chain present e member name' dir isRule => ?_⟩
    by_cases same : name' = name
    · rw [same, Function.update_self]
      rfl
    · rw [Function.update_of_ne same]
      exact attuned.belongs.isGiven chain present e member name' dir isRule
  · exact attuned.separate.more rfl readable only
  · have read := (addRule_iff libc small).mpr aligned
    unfold runOption Cmd.option at ran
    dsimp only at ran
    rw [read] at ran
    exact attuned.table.ruleAdd attuned.separate fresh readable.positive readable.word others copied ran

/-- A rule without entries is taken back. -/
theorem Attuned.withdrawn (attuned : Attuned given nf mod) (is : (given name).isSome)
    (gone : ∀ e dir, ruleOf e = some (name, dir) → Without e nf) (copied : 0 ≤ env.copyFromUser)
    (ran : runOption libc env (Cmd.delRule name).option mod = .ok mod') :
    Attuned (Function.update given name none) nf mod' := by
  have readable := attuned.separate.readable name is
  obtain ⟨qr, at_name⟩ := Option.isSome_iff_exists.mp is
  constructor
  · refine ⟨attuned.belongs.once, fun chain present e member name' dir isRule => ?_⟩
    have other : name' ≠ name := by
      rintro rfl
      exact gone e dir isRule chain present member
    rw [Function.update_of_ne other]
    exact attuned.belongs.isGiven chain present e member name' dir isRule
  · apply attuned.separate.fewer
    intro name' qr' is'
    have other : name' ≠ name := by
      rintro rfl
      simp at is'
    rwa [Function.update_of_ne other] at is'
  · unfold runOption at ran
    rw [Cmd.option, if_neg readable.number] at ran
    have named := (sscanf_id libc readable.number readable.word).trans
      (attuned.separate.id name qr at_name).symm
    exact attuned.table.ruleDel attuned.separate at_name named copied rfl ran

/-- A step of a function, from each place where it can have been left. -/
theorem Stage.next (stage : Stage given nf (cmd :: todo)) (attuned : Attuned given nf mod)
    (copied : 0 ≤ env.copyFromUser) (ran : runOption libc env cmd.option mod = .ok mod') :
    Stage (cmd.given given) (cmd.nf xt nf) todo ∧
      Attuned (cmd.given given) (cmd.nf xt nf) mod' := by
  generalize left : cmd :: todo = cmds at stage
  -- every stage expects one command, and leads to the next or back to `idle`
  cases stage with
  | idle => cases left
  | asking recorded fresh installable =>
    cases left
    have next := attuned.asked fresh installable copied ran
    refine ⟨.entering [.rule _, .mate _] ?_ ?_ ?_ ?_ ?_, next⟩
    · intro other different
      exact (recorded other).trans
        (congrArg Option.isSome (Function.update_of_ne different _ _).symm)
    · simp [Cmd.given]
    · simp [ruleOf]
    · simp
    · simp only [List.forall_mem_cons]
      exact ⟨attuned.belongs.without_of_none fresh rfl, attuned.belongs.without_of_none fresh rfl,
        nofun⟩
  | @entering name cfg es recorded is own once without =>
    cases es with
    | nil =>
      cases left
      cases ran
      refine ⟨.idle fun other => ?_, ⟨attuned.belongs.once, attuned.belongs.isGiven⟩,
        attuned.separate, attuned.table⟩
      by_cases same : other = name
      · simp [Cmd.nf, Cmd.given, same, is]
      · simp only [Cmd.nf, Function.update_of_ne same]
        exact recorded other same
    | cons e es =>
      cases left
      cases ran
      obtain ⟨dir, isRule⟩ := own e List.mem_cons_self
      obtain ⟨notAgain, once⟩ := List.nodup_cons.mp once
      have absent := without e List.mem_cons_self
      refine ⟨.entering es ?_ is (fun e' member => own e' (List.mem_cons_of_mem e member)) once ?_,
        attuned.belongs.added absent isRule is name, attuned.separate, attuned.table⟩
      · intro other different
        simp [Cmd.nf, Cmd.given, recorded other different]
      · intro e' member
        obtain ⟨dir', isRule'⟩ := own e' (List.mem_cons_of_mem e member)
        refine (without e' (List.mem_cons_of_mem e member)).added isRule' ?_ name
        rintro rfl
        exact notAgain member
  | @leaving name es recorded is rest =>
    cases es with
    | nil =>
      cases left
      cases ran
      -- both entries are out of the chain, so the record can be taken back
      have gone : ∀ e dir, ruleOf e = some (name, dir) → Without e nf := by
        intro e dir isRule
        exact (rest e dir isRule).resolve_left nofun
      refine ⟨.withdrawing ?_ ?_ is gone, ⟨attuned.belongs.once, attuned.belongs.isGiven⟩,
        attuned.separate, attuned.table⟩
      · intro other different
        simp only [Cmd.nf, Function.update_of_ne different]
        exact recorded other
      · simp [Cmd.nf]
    | cons e es =>
      cases left
      cases ran
      refine ⟨.leaving es ?_ is ?_, attuned.belongs.deleted e, attuned.separate, attuned.table⟩
      · intro other
        simp [Cmd.nf, Cmd.given, recorded other]
      · intro e' dir isRule
        rcases rest e' dir isRule with member | without
        · cases member with
          | head => exact .inr (attuned.belongs.without e)
          | tail _ later => exact .inl later
        · exact .inr (without.deleted attuned.belongs e)
  | @withdrawing name recorded off is gone =>
    cases left
    refine ⟨.idle fun other => ?_, attuned.withdrawn is gone copied ran⟩
    by_cases same : other = name
    · simp [Cmd.nf, Cmd.given, same, off]
    · simp only [Cmd.nf, Cmd.given, Function.update_of_ne same]
      exact recorded other same
  | clearing =>
    cases left
    cases ran
    exact ⟨.destroying fun _ => rfl, ⟨attuned.belongs.once, attuned.belongs.isGiven⟩,
      attuned.separate, attuned.table⟩
  | destroying off =>
    cases left
    cases ran
    exact ⟨.resetting off rfl, ⟨nofun, nofun⟩, attuned.separate, attuned.table⟩
  | resetting off gone =>
    cases left
    refine ⟨.flushing off gone, attuned.belongs, attuned.separate, ?_⟩
    have leaves : LeavesRules (.ioctl ((RuleOption.reset ['1']).ioctl libc)) := trivial
    exact attuned.table.congr (opStep_params leaves ran)
  | flushing off gone =>
    cases left
    refine ⟨.idle off, ⟨?_, ?_⟩, ⟨nofun, nofun, nofun⟩, .ruleFlush ran⟩
    · intro chain present
      cases gone.symm.trans present
    · intro chain present
      cases gone.symm.trans present

end Phases

end IpQos.Verified
