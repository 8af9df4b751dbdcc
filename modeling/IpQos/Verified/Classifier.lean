import IpQos.Lib.Coupled
import IpQos.Script.Forward
import IpQos.Verified.ChainOrder
import IpQos.Verified.Respec

/-! # The chain classifies a connection once

With its marks, masks and the order of its entries, the chain is a classifier: a connection
is put into a class by the first entry that its packet matches and that gets a mark for it,
and from then on it stays there, whatever happens to the rules and to the tables. -/

namespace IpQos.Verified

open IpQos.Kmod IpQos.Script
open IpQos.Lib (Coupled Ensures runAll)

/-! ## A classifier -/

/-- The mark of an address: that of its entry, or the one it gets now. -/
def addressMark (env : Env) (key : Be32) (id : Nat) (s : St) : Except Oops (Option Nat × St) := do
  let (_, mark) ← qmarkFindHash key s
  if mark ≠ 0 then return (some mark, s)
  else
    let (ret, mark, s) ← qmarkAllocMarkAuto env key id mark s
    return (if ret = .ok then some mark else none, s)

section

variable {ν : Type} (idOf : ν → Nat) (env : Env) (hits : Entry ν → Bool) (skb : SkBuff)

/-- The entries of rules, with their direction. -/
def ruleOf : Entry ν → Option (ν × Nat)
  | .rule name => some (name, 0)
  | .mate name => some (name, 1)
  | _ => none

def isSave : Entry ν → Bool
  | .saveMark => true
  | _ => false

/-- The first entry that matches and gets a mark decides. -/
def firstMark : List (Entry ν) → St → Except Oops (Option Nat × St)
  | [], s => .ok (none, s)
  | e :: chain, s =>
    match ruleOf e with
    | none => firstMark chain s
    | some (name, dir) =>
      if hits e then do
        let (mark, s) ← addressMark env ((targetOf idOf name dir).ipAddr skb) (idOf name) s
        if mark.isSome then return (mark, s) else firstMark chain s
      else firstMark chain s

/-- What becomes of a packet of a connection in the class `cls`, 0 for none: its mark, the
    class of the connection, and the module. -/
def classify (chain : List (Entry ν)) (cls : Nat) (s : St) : Except Oops (Nat × Nat × St) :=
  if cls ≠ 0 then .ok (cls, cls, s)
  else do
    let (mark, s) ← firstMark idOf env hits skb (chain.takeWhile (!isSave ·)) s
    match mark with
    | some mark => return (mark, mark &&& qosMarkRuleMask, s)
    | none =>
      -- a mark that an entry behind connmark save gives is not kept
      let (mark, s) ← firstMark idOf env hits skb (chain.dropWhile (!isSave ·)) s
      return (mark.getD 0, 0, s)

end

/-- The router with classes in the place of connection marks; `foreign` are the bits of the
    other modules. -/
structure ClassSt (κ ν : Type) where
  nf : NfSt ν
  mod : St
  cls : κ → Nat
  foreign : κ → Nat
  passed : List SkBuff

def ClassSt.start (κ ν : Type) (mod : St) : ClassSt κ ν :=
  { nf := NfSt.start ν, mod, cls := fun _ => 0, foreign := fun _ => 0, passed := [] }

section

variable {κ ν : Type} [DecidableEq κ] [DecidableEq ν]

def classStep (cfg : UciConfig ν) (idOf : ν → Nat) (l : Env × FwEvent κ ν) (a : ClassSt κ ν) :
    Except Oops (ClassSt κ ν) :=
  match l.2 with
  | .packet conn skb hits =>
    match a.nf.chain with
    | none => return { a with passed := skb :: a.passed }
    | some chain => do
      let (mark, cls, mod) ← classify idOf l.1 hits skb chain (a.cls conn) a.mod
      return { a with
        mod
        cls := Function.update a.cls conn cls
        passed := { skb with mark := setMark skb.mark qosMarkRuleMask mark } :: a.passed }
  | .script c => return { a with nf := callNf cfg c a.nf }
  | .destroy => return { a with nf := { a.nf with chain := none, install := fun _ => false } }
  | .module op => do
    let mod ← opStep (l.1, op) a.mod
    return { a with mod }
  | .others conn bits => return { a with foreign := Function.update a.foreign conn bits }
  | .gone conn =>
    return { a with
      cls := Function.update a.cls conn 0
      foreign := Function.update a.foreign conn 0 }

end

/-! ## Marks under the mask of the rules -/

section Marks

variable {p m n : Nat}

theorem ruleMask_eq : qosMarkRuleMask = targetMask := rfl

theorem setMark_lt (mark : m < 2 ^ 32) : setMark p qosMarkRuleMask m < 2 ^ 32 :=
  Nat.xor_lt_two_pow (Nat.and_lt_two_pow _ (by decide)) mark

theorem and_ruleMask_lt : m &&& qosMarkRuleMask < 2 ^ 32 := Nat.and_lt_two_pow _ (by decide)

/-- The last mark merged in counts. -/
theorem setMark_setMark (word : p < 2 ^ 32) (mark : n < 2 ^ 32)
    (inside : n &&& qosMarkRuleMask = n) :
    setMark (setMark p qosMarkRuleMask n) qosMarkRuleMask m = setMark p qosMarkRuleMask m := by
  apply Nat.eq_of_testBit_eq
  intro i
  rw [testBit_setMark (setMark_lt mark), testBit_setMark word, testBit_setMark word, ← inside,
    Nat.testBit_and]
  cases qosMarkRuleMask.testBit i with
  | true => rw [Bool.not_true, Bool.and_false, Bool.and_false]
  | false => rw [Bool.and_false, Bool.xor_false, Bool.not_false, Bool.and_true, Bool.and_true]

/-- A mark that the entries of the rules recognise. -/
structure Marking (m : Nat) : Prop where
  word : m < 2 ^ 32
  inside : m &&& qosMarkRuleMask ≠ 0

theorem Marking.of_inTable (inTable : InTable (m >>> markBase) 255) : Marking m := by
  have small : m >>> markBase < 2 ^ 8 := Nat.lt_of_le_of_lt inTable.2 (by decide)
  refine ⟨Nat.lt_trans (mark_small small) (by decide), fun outside => ?_⟩
  rw [ruleMask_eq, targetMask_eq, IpQos.Lib.and_field_eq_zero_iff] at outside
  -- without a bit in the field the number of the mark would be 0
  have zero : m >>> markBase = 0 := by
    apply Nat.eq_of_testBit_eq
    intro i
    rw [Nat.testBit_shiftRight, Nat.zero_testBit]
    by_cases low : i < 8
    · exact outside _ (Nat.le_add_right _ _) (Nat.add_lt_add_left low _)
    · exact testBit_high small (Nat.add_le_add_left (Nat.le_of_not_lt low) markBase)
  exact absurd inTable.1 (by rw [zero]; decide)

end Marks

/-! ## The tables -/

section Tables

variable {env : Env} {s s' : St} {op : Op} {skb skb' : SkBuff} {info : TgInfo}

/-- The indices are in range and every mark fits the mask. -/
structure InMask (s : St) : Prop where
  indexed : Indexed s
  small : s.maxIpCnt ≤ 255

theorem InMask.opStep (sized : InMask s) (words : op.Words) (spec : SpecWithin 255 op)
    (ran : Kmod.opStep (env, op) s = .ok s') : InMask s' := by
  have kept := sized.indexed.step (l := (env, op)) words
  rw [ran] at kept
  exact ⟨kept.returned, (Effect.of_opStep ran).maxIpCnt_le sized.small spec⟩

/-- The target looks the address up and merges the mark in. -/
theorem qmarkHandle_eq (env : Env) (skb : SkBuff) (info : TgInfo) (s : St) :
    qmarkHandle env skb info s = (addressMark env (info.ipAddr skb) info.id s).map fun r =>
      (r.1.elim skb fun mark => { skb with mark := setMark skb.mark info.mask mark }, r.2) := by
  unfold qmarkHandle addressMark
  cases qmarkFindHash (info.ipAddr skb) s with
  | error e => rfl
  | ok found =>
    obtain ⟨code, mark⟩ := found
    simp only [ok_bind]
    by_cases marked : mark = 0
    · simp only [if_pos marked, if_neg (not_not.mpr marked)]
      cases qmarkAllocMarkAuto env (info.ipAddr skb) info.id mark s with
      | error e => rfl
      | ok given =>
        obtain ⟨ret, mark', s'⟩ := given
        simp only [ok_bind]
        by_cases ok : ret = .ok
        · simp only [if_neg (not_not.mpr ok), if_pos ok]
          rfl
        · simp only [if_pos ok, if_neg ok]
          rfl
    · simp only [if_neg marked, if_pos marked]
      rfl

theorem InMask.qmarkHandle (sized : InMask s) (word : info.id < 2 ^ 32)
    (ran : Kmod.qmarkHandle env skb info s = .ok (skb', s')) : InMask s' := by
  have kept := sized.indexed.qmarkHandle (G := False) env skb info word False.elim False.elim
  rw [ran] at kept
  exact ⟨kept.returned, (Framed.qmarkHandle ran).maxIpCnt ▸ sized.small⟩

/-- A mark given to an address is one that the entries of the rules recognise. -/
theorem addressMark_marking (sized : InMask s) {key : Be32} {id mark : Nat} (word : id < 2 ^ 32)
    (ran : addressMark env key id s = .ok (some mark, s')) : Marking mark := by
  have indexed := sized.indexed
  unfold addressMark qmarkFindHash qosMarktblHashtblGet at ran
  have sound := indexed.marktblHashGet (G := False) key False.elim
  cases get : marktblHashGet key s with
  | error e =>
    rw [get] at ran
    cases ran
  | ok found =>
    rw [get] at ran sound
    cases found with
    | some e =>
      have inTable := (sound.returned e rfl).mark
      simp only [ok_bind, pure_eq_ok] at ran
      -- 0 stands for no entry, and it has no bit
      have marked : e.mark ≠ 0 := by
        intro zero
        rw [zero] at inTable
        exact absurd inTable.1 (by decide)
      rw [if_pos marked] at ran
      cases ran
      exact .of_inTable ⟨inTable.1, inTable.2.trans sized.small⟩
    | none =>
      simp only [ok_bind, pure_eq_ok, ne_eq, not_true_eq_false, if_false] at ran
      obtain ⟨⟨ret, mark', s₁⟩, auto, ran⟩ := bind_eq_ok ran
      dsimp only at ran
      cases qmarkAllocMarkAuto_cases indexed word get auto with
      | inl failed =>
        rw [if_neg failed.1] at ran
        cases ran
      | inr added =>
        obtain ⟨rfl, ⟨b, below, rfl⟩, _⟩ := added
        cases ran
        have small := sized.small
        apply Marking.of_inTable
        apply bitMark_inTable (Nat.lt_of_lt_of_le below small)
        exact (bitMark_fits (by omega)).1

end Tables

/-! ## The order of the entries -/

section Order

variable {ν : Type} {cfg : UciConfig ν} {nf : NfSt ν} {name : ν} {e : Entry ν}
  {chain rules before after : List (Entry ν)}

/-- The entries of a list are those of rules. -/
def Ruled (rules : List (Entry ν)) : Prop := ∀ e ∈ rules, (ruleOf e).isSome

theorem Ruled.tail (ruled : Ruled (e :: rules)) : Ruled rules :=
  fun e' member => ruled e' (List.mem_cons_of_mem e member)

theorem Ruled.inserted (ruled : Ruled rules) (isRule : (ruleOf e).isSome) (k : Nat) :
    Ruled (rules.take k ++ e :: rules.drop k) := by
  intro e' member
  rcases List.mem_append.mp member with front | back
  · exact ruled e' (List.mem_of_mem_take front)
  · cases back with
    | head => exact isRule
    | tail _ back => exact ruled e' (List.mem_of_mem_drop back)

theorem Ruled.saved (ruled : Ruled rules) : ∀ e ∈ rules, (!isSave e) = true := by
  intro e member
  have isRule := ruled e member
  cases e with
  | saveMark => cases isRule
  | _ => rfl

theorem Ruled.before_save (ruled : Ruled before) :
    (Entry.restoreMark :: .returnMarked :: (before ++ .saveMark :: after)).takeWhile
      (!isSave ·) = .restoreMark :: .returnMarked :: before := by
  rw [List.takeWhile_cons_of_pos rfl, List.takeWhile_cons_of_pos rfl,
    List.takeWhile_append_of_pos ruled.saved, List.takeWhile_cons_of_neg (by simp [isSave]),
    List.append_nil]

theorem Ruled.from_save (ruled : Ruled before) :
    (Entry.restoreMark :: .returnMarked :: (before ++ .saveMark :: after)).dropWhile
      (!isSave ·) = .saveMark :: after := by
  rw [List.dropWhile_cons_of_pos rfl, List.dropWhile_cons_of_pos rfl,
    List.dropWhile_append_of_pos ruled.saved, List.dropWhile_cons_of_neg (by simp [isSave])]

/-- Connmark restore and the return come first, connmark save once behind them; the rules may
    stand on both sides of it. -/
inductive Formed : List (Entry ν) → Prop where
  | intro (before after : List (Entry ν)) (front : Ruled before) (back : Ruled after) :
      Formed (.restoreMark :: .returnMarked :: (before ++ .saveMark :: after))

theorem Formed.inserted (formed : Formed chain) (isRule : (ruleOf e).isSome) (k : Nat) :
    Formed (chain.take (k + 2) ++ e :: chain.drop (k + 2)) := by
  obtain ⟨before, after, front, back⟩ := formed
  show Formed (.restoreMark :: .returnMarked :: ((before ++ .saveMark :: after).take k ++
    e :: (before ++ .saveMark :: after).drop k))
  by_cases inFront : k ≤ before.length
  · have inner : before.take k ++ e :: (before.drop k ++ .saveMark :: after) =
        (before.take k ++ e :: before.drop k) ++ .saveMark :: after := by
      rw [List.append_assoc, List.cons_append]
    rw [List.take_append_of_le_length inFront, List.drop_append_of_le_length inFront, inner]
    exact .intro _ after (front.inserted isRule k) back
  · obtain ⟨j, rfl⟩ : ∃ j, k = before.length + (j + 1) := ⟨k - before.length - 1, by omega⟩
    rw [List.take_length_add_append, List.drop_length_add_append, List.take_succ_cons,
      List.drop_succ_cons, List.append_assoc]
    exact .intro before _ front (back.inserted isRule j)

/-- The chain is formed while it is there. -/
def FormedNf (nf : NfSt ν) : Prop := ∀ chain, nf.chain = some chain → Formed chain

theorem FormedNf.getD (formedNf : FormedNf nf) :
    Formed (nf.chain.getD [.restoreMark, .returnMarked, .saveMark]) := by
  cases present : nf.chain with
  | none => exact .intro [] [] nofun nofun
  | some chain => exact formedNf chain present

variable [DecidableEq ν]

theorem Ruled.erase (ruled : Ruled rules) (e : Entry ν) : Ruled (rules.erase e) :=
  fun e' member => ruled e' (List.mem_of_mem_erase member)

theorem Formed.erase (formed : Formed chain) (isRule : (ruleOf e).isSome) :
    Formed (chain.erase e) := by
  obtain ⟨before, after, front, back⟩ := formed
  have others : ∀ e', ruleOf e' = none → ¬ (e' == e) = true := by
    rintro e' none same
    rw [eq_of_beq same] at none
    rw [none] at isRule
    cases isRule
  rw [List.erase_cons_tail (others _ rfl), List.erase_cons_tail (others _ rfl)]
  by_cases inFront : e ∈ before
  · rw [List.erase_append_left _ inFront]
    exact .intro _ after (front.erase e) back
  · rw [List.erase_append_right _ inFront, List.erase_cons_tail (others _ rfl)]
    exact .intro before _ front (back.erase e)

/-- The index of a configured rule lies behind the return. -/
theorem FormedNf.added (formedNf : FormedNf nf) {before : List (UciRule ν)}
    {sec : UciRule ν} {after : List (UciRule ν)} (around : Around cfg name before sec after)
    (isRule : (ruleOf e).isSome) : FormedNf (qosNfAddRule cfg name e nf) := by
  have index := around.findInsertIndex_eq
  have formed := formedNf.getD
  generalize present : nf.chain.getD [.restoreMark, .returnMarked, .saveMark] = chain at formed
  intro chain' added
  by_cases fits : pairsBefore cfg name + 2 ≤ chain.length
  · have inserted : some (chain.take (pairsBefore cfg name + 2) ++
        e :: chain.drop (pairsBefore cfg name + 2)) = some chain' := by
      rw [← added]
      simp [qosNfAddRule, present, index, iptInsert, fits]
    cases inserted
    exact formed.inserted isRule (pairsBefore cfg name)
  · have refused : some chain = some chain' := by
      rw [← added]
      simp [qosNfAddRule, present, index, iptInsert, fits]
    cases refused
    exact formed

theorem FormedNf.deleted (formedNf : FormedNf nf) (isRule : (ruleOf e).isSome) :
    FormedNf (qosNfDelEntry e nf) := by
  unfold qosNfDelEntry
  cases present : nf.chain with
  | none => exact formedNf
  | some chain =>
    have formed := formedNf chain present
    have formed' : Formed (if chain.count e = 1 then chain.erase e else chain) := by
      split
      · exact formed.erase isRule
      · exact formed
    dsimp only
    split
    · exact formedNf
    · intro chain' kept
      dsimp only at kept
      generalize (if chain.count e = 1 then chain.erase e else chain) = left at kept formed'
      split at kept
      · cases kept
      · cases kept
        exact formed'

theorem FormedNf.callNf (formedNf : FormedNf nf) (c : Call ν) :
    FormedNf (callNf cfg c nf) := by
  cases c with
  | install name ipset =>
    show FormedNf (qosRuleInstall cfg ipset name nf).2
    by_cases takes : Takes cfg ipset name nf
    · obtain ⟨before, sec, after, around, installed⟩ := install_takes takes
      rw [installed]
      have first := formedNf.added (e := .rule name) around rfl
      exact first.added (e := .mate name) around rfl
    · rw [install_skips takes]
      exact formedNf
  | uninstall name =>
    show FormedNf (qosRuleUninstall name nf).2
    unfold qosRuleUninstall
    split
    · exact formedNf
    · have first := formedNf.deleted (e := .rule name) rfl
      exact first.deleted (e := .mate name) rfl

end Order

/-! ## A packet in the chain -/

section Passages

variable {ν : Type} {cm : Connmark} {idOf : ν → Nat} {env : Env} {hits : Entry ν → Bool}
  {e : Entry ν} {name : ν} {dir : Nat} {rules chain : List (Entry ν)} {x : Passage} {skb : SkBuff}

theorem walkChain_rule (isRule : ruleOf e = some (name, dir)) (chain : List (Entry ν))
    (x : Passage) :
    walkChain cm idOf env hits (e :: chain) x =
      ruleEntry idOf env hits e name dir x >>= walkChain cm idOf env hits chain := by
  cases e with
  | rule => cases isRule; rfl
  | mate => cases isRule; rfl
  | _ => cases isRule

theorem walkChain_append (ruled : Ruled rules) (chain : List (Entry ν)) (x : Passage) :
    walkChain cm idOf env hits (rules ++ chain) x =
      walkChain cm idOf env hits rules x >>= walkChain cm idOf env hits chain := by
  induction rules generalizing x with
  | nil => rfl
  | cons e rules ih =>
    obtain ⟨⟨name, dir⟩, isRule⟩ := Option.isSome_iff_exists.mp (ruled e List.mem_cons_self)
    rw [List.cons_append, walkChain_rule isRule, walkChain_rule isRule, bind_assoc]
    exact bind_congr fun y => ih ruled.tail y

/-- A marked packet meets no rule. -/
theorem walkChain_past (ruled : Ruled rules) (marked : x.skb.mark &&& qosMarkRuleMask ≠ 0) :
    walkChain cm idOf env hits rules x = .ok x := by
  induction rules with
  | nil => rfl
  | cons e rules ih =>
    obtain ⟨⟨name, dir⟩, isRule⟩ := Option.isSome_iff_exists.mp (ruled e List.mem_cons_self)
    rw [walkChain_rule isRule, ruleEntry, if_neg fun both => marked both.2, pure_eq_ok, ok_bind]
    exact ih ruled.tail

/-- The classifier looks at the addresses of a packet only. -/
theorem firstMark_mark (mark : Nat) (chain : List (Entry ν)) (s : St) :
    firstMark idOf env hits { skb with mark } chain s = firstMark idOf env hits skb chain s := by
  induction chain generalizing s with
  | nil => rfl
  | cons e chain ih =>
    unfold firstMark
    simp only [ih]
    rfl

/-- The packet after the entries of the rules. -/
def merged (skb : SkBuff) (mark : Option Nat) : SkBuff :=
  mark.elim skb fun mark => { skb with mark := setMark skb.mark qosMarkRuleMask mark }

/-- The entries of the rules mark a packet that comes without a mark as the classifier says. -/
theorem walkChain_rules (cm : Connmark) (env : Env) (hits : Entry ν → Bool)
    (ids : ∀ name, idOf name < 2 ^ 32) (ruled : Ruled rules) (sized : InMask x.mod)
    (word : x.skb.mark < 2 ^ 32) (clear : x.skb.mark &&& qosMarkRuleMask = 0) :
    Coupled (fun y r => y = { x with skb := merged x.skb r.1, mod := r.2 } ∧ InMask r.2 ∧
        ∀ mark, r.1 = some mark → Marking mark)
      (walkChain cm idOf env hits rules x) (firstMark idOf env hits x.skb rules x.mod) := by
  induction rules generalizing x with
  | nil => exact .ok ⟨rfl, sized, nofun⟩
  | cons e rules ih =>
    obtain ⟨⟨name, dir⟩, isRule⟩ := Option.isSome_iff_exists.mp (ruled e List.mem_cons_self)
    rw [walkChain_rule isRule]
    unfold firstMark ruleEntry
    rw [isRule]
    dsimp only
    -- the entry runs the target if it matches, the packet being clear under the mask
    by_cases hit : hits e = true
    · rw [if_pos ⟨hit, clear⟩, if_pos hit]
      have kept : ∀ skb' s', qmarkHandle env x.skb (targetOf idOf name dir) x.mod =
          .ok (skb', s') → InMask s' := fun _ _ => sized.qmarkHandle (ids name)
      have sound : ∀ mark s', addressMark env ((targetOf idOf name dir).ipAddr x.skb) (idOf name)
          x.mod = .ok (some mark, s') → Marking mark :=
        fun _ _ => addressMark_marking sized (ids name)
      rw [qmarkHandle_eq env x.skb (targetOf idOf name dir) x.mod] at kept ⊢
      have sameId : (targetOf idOf name dir).id = idOf name := rfl
      rw [sameId] at kept ⊢
      generalize addressMark env ((targetOf idOf name dir).ipAddr x.skb) (idOf name) x.mod = given
        at kept sound ⊢
      cases given with
      | error err => exact .error err
      | ok given =>
        obtain ⟨mark, s'⟩ := given
        have sized' := kept _ s' rfl
        cases mark with
        -- an address that gets no mark leaves the packet to the next entry
        | none => exact ih (x := { x with mod := s' }) ruled.tail sized' word clear
        | some mark =>
          have marking := sound mark s' rfl
          -- a marked packet matches no further entry
          have marked : setMark x.skb.mark qosMarkRuleMask mark &&& qosMarkRuleMask ≠ 0 := by
            rw [setMark_and word]
            exact marking.inside
          show Coupled _ (walkChain cm idOf env hits rules _) _
          rw [walkChain_past ruled.tail marked]
          refine .ok ⟨rfl, sized', ?_⟩
          rintro _ ⟨⟩
          exact marking
    · rw [if_neg fun both => hit both.1, if_neg hit]
      exact ih ruled.tail sized word clear

/-- What the chain makes of a packet, its connection and the tables. -/
structure Passed (skb : SkBuff) (foreign : Nat) (y : Passage) (r : Nat × Nat × St) : Prop where
  skb : y.skb = { skb with mark := setMark skb.mark qosMarkRuleMask r.1 }
  ctMark : y.ctMark = setMark foreign qosMarkRuleMask r.2.1
  mod : y.mod = r.2.2
  inside : r.2.1 &&& qosMarkRuleMask = r.2.1
  sized : InMask r.2.2

/-- Behind connmark save a connection without a class is left without. -/
theorem walkChain_unsaved (ids : ∀ name, idOf name < 2 ^ 32) (ruled : Ruled rules) {s : St}
    (sized : InMask s) (word : skb.mark < 2 ^ 32) (foreign : Nat) :
    Coupled (Passed skb foreign)
      (walkChain cm idOf env hits rules
        ⟨{ skb with mark := setMark skb.mark qosMarkRuleMask 0 },
          setMark foreign qosMarkRuleMask 0, s⟩)
      (firstMark idOf env hits skb rules s >>= fun r => pure (r.1.getD 0, 0, r.2)) := by
  have clear : setMark skb.mark qosMarkRuleMask 0 &&& qosMarkRuleMask = 0 := by
    rw [setMark_and word, Nat.zero_and]
  have through := walkChain_rules cm env hits
    (x := ⟨{ skb with mark := setMark skb.mark qosMarkRuleMask 0 },
      setMark foreign qosMarkRuleMask 0, s⟩) ids ruled sized (setMark_lt (by decide)) clear
  rw [firstMark_mark] at through
  rw [← bind_pure (walkChain cm idOf env hits rules _)]
  apply through.bind
  rintro y ⟨mark, s'⟩ ⟨rfl, sized', _⟩
  refine .ok ⟨?_, rfl, rfl, Nat.zero_and _, sized'⟩
  cases mark with
  | none => rfl
  | some mark =>
    have once := setMark_setMark (m := mark) word (by decide) (Nat.zero_and _)
    exact congrArg (fun mark => { skb with mark }) once

theorem chain_classifies (documented : cm.Documented) (ids : ∀ name, idOf name < 2 ^ 32)
    (formed : Formed chain) {s : St} (sized : InMask s) (word : skb.mark < 2 ^ 32)
    {foreign cls : Nat} (foreignWord : foreign < 2 ^ 32)
    (inside : cls &&& qosMarkRuleMask = cls) :
    Coupled (Passed skb foreign)
      (walkChain cm idOf env hits chain ⟨skb, setMark foreign qosMarkRuleMask cls, s⟩)
      (classify idOf env hits skb chain cls s) := by
  obtain ⟨before, after, front, back⟩ := formed
  have clsWord : cls < 2 ^ 32 := inside ▸ and_ruleMask_lt
  have restored : cm.restoreMark qosMarkRuleMask qosMarkRuleMask skb.mark
      (setMark foreign qosMarkRuleMask cls) = setMark skb.mark qosMarkRuleMask cls := by
    rw [documented.restore _ _ _ _ word (setMark_lt clsWord), setMark_and foreignWord, inside]
  unfold walkChain
  dsimp only
  rw [restored]
  unfold walkChain
  dsimp only
  rw [setMark_and word, inside]
  by_cases unmarked : cls = 0
  · subst unmarked
    unfold classify
    rw [if_neg (not_not.mpr rfl), if_neg (not_not.mpr rfl), front.before_save, front.from_save,
      walkChain_append front]
    have clear : setMark skb.mark qosMarkRuleMask 0 &&& qosMarkRuleMask = 0 := by
      rw [setMark_and word, Nat.zero_and]
    have through := walkChain_rules cm env hits
      (x := ⟨{ skb with mark := setMark skb.mark qosMarkRuleMask 0 },
        setMark foreign qosMarkRuleMask 0, s⟩) ids front sized (setMark_lt (by decide)) clear
    rw [firstMark_mark] at through
    apply through.bind
    rintro y ⟨mark, s'⟩ ⟨rfl, sized', sound⟩
    -- connmark save
    unfold walkChain
    cases mark with
    | none =>
      have saved : cm.saveMark qosMarkRuleMask qosMarkRuleMask
          (setMark skb.mark qosMarkRuleMask 0) (setMark foreign qosMarkRuleMask 0) =
          setMark foreign qosMarkRuleMask 0 := by
        rw [documented.save _ _ _ _ (setMark_lt (by decide)) (setMark_lt (by decide)), clear,
          setMark_setMark foreignWord (by decide) (Nat.zero_and _)]
      dsimp only [merged, Option.elim]
      rw [saved]
      exact walkChain_unsaved ids back sized' word foreign
    | some mark =>
      have marking := sound mark rfl
      have once : setMark (setMark skb.mark qosMarkRuleMask 0) qosMarkRuleMask mark =
          setMark skb.mark qosMarkRuleMask mark :=
        setMark_setMark word (by decide) (Nat.zero_and _)
      have marked := setMark_and word qosMarkRuleMask mark
      have saved : cm.saveMark qosMarkRuleMask qosMarkRuleMask
          (setMark skb.mark qosMarkRuleMask mark) (setMark foreign qosMarkRuleMask 0) =
          setMark foreign qosMarkRuleMask (mark &&& qosMarkRuleMask) := by
        rw [documented.save _ _ _ _ (setMark_lt marking.word) (setMark_lt (by decide)), marked,
          setMark_setMark foreignWord (by decide) (Nat.zero_and _)]
      dsimp only [merged, Option.elim]
      rw [once, saved, walkChain_past back (by rw [marked]; exact marking.inside)]
      exact .ok ⟨rfl, rfl, rfl, by rw [Nat.and_assoc, Nat.and_self], sized'⟩
  · unfold classify
    rw [if_pos unmarked, if_pos unmarked]
    exact .ok ⟨rfl, rfl, rfl, inside, sized⟩

end Passages

/-! ## Runs -/

section Runs

variable {κ ν : Type} [DecidableEq κ] [DecidableEq ν] {cm : Connmark} {cfg : UciConfig ν}
  {idOf : ν → Nat}

/-- Marks are of 32 bits, and no operation outgrows the mask. -/
def EventFits : FwEvent κ ν → Prop
  | .packet _ skb _ => skb.mark < 2 ^ 32
  | .module op => op.Words ∧ SpecWithin 255 op
  | .others _ bits => bits < 2 ^ 32
  | _ => True

/-- The router is the classifier with its classes merged into the marks. -/
structure Portrays (x : FwSt κ ν) (a : ClassSt κ ν) : Prop where
  nf : x.nf = a.nf
  mod : x.mod = a.mod
  ctMark : ∀ conn, x.ctMark conn = setMark (a.foreign conn) qosMarkRuleMask (a.cls conn)
  passed : x.passed = a.passed

structure ClassSound (a : ClassSt κ ν) : Prop where
  formed : FormedNf a.nf
  sized : InMask a.mod
  foreign : ∀ conn, a.foreign conn < 2 ^ 32
  inside : ∀ conn, a.cls conn &&& qosMarkRuleMask = a.cls conn

theorem marks_update {ctMark cls foreign : κ → Nat} (conn : κ) {ct c f : Nat}
    (here : ct = setMark f qosMarkRuleMask c)
    (everywhere : ∀ conn, ctMark conn = setMark (foreign conn) qosMarkRuleMask (cls conn))
    (other : κ) :
    Function.update ctMark conn ct other =
      setMark (Function.update foreign conn f other) qosMarkRuleMask
        (Function.update cls conn c other) := by
  by_cases same : other = conn
  · subst same
    rw [Function.update_self, Function.update_self, Function.update_self]
    exact here
  · rw [Function.update_of_ne same, Function.update_of_ne same, Function.update_of_ne same]
    exact everywhere other

theorem fwStep_portrays (cfg : UciConfig ν) (documented : cm.Documented) (ids : ∀ name, idOf name < 2 ^ 32)
    {l : Env × FwEvent κ ν} (fits : EventFits l.2) {x : FwSt κ ν} {a : ClassSt κ ν}
    (related : Portrays x a ∧ ClassSound a) :
    Coupled (fun x a => Portrays x a ∧ ClassSound a) (fwStep cm cfg idOf l x)
      (classStep cfg idOf l a) := by
  obtain ⟨⟨nf, mod, ctMark, passed⟩, formed, sized, foreign, inside⟩ := related
  obtain ⟨env, event⟩ := l
  cases event with
  | packet conn skb hits =>
    unfold fwStep classStep
    dsimp only
    rw [nf, mod, passed]
    cases present : a.nf.chain with
    | none => exact .ok ⟨⟨rfl, rfl, ctMark, rfl⟩, formed, sized, foreign, inside⟩
    | some chain =>
      dsimp only
      rw [ctMark conn]
      -- the mark of the connection is its class merged into the bits of the others
      apply (chain_classifies documented ids (formed chain present) sized fits (foreign conn)
        (inside conn)).bind
      rintro y ⟨mark, cls, s'⟩ through
      have marks := marks_update conn through.ctMark ctMark
      rw [Function.update_eq_self] at marks
      refine .ok ⟨⟨rfl, through.mod, marks, ?_⟩, formed, through.sized, foreign, ?_⟩
      · exact congrArg (· :: a.passed) through.skb
      · apply (Function.forall_update_iff a.cls fun _ c => c &&& qosMarkRuleMask = c).mpr
        exact ⟨through.inside, fun other _ => inside other⟩
  | script c =>
    exact .ok ⟨⟨congrArg (callNf cfg c) nf, mod, ctMark, passed⟩, formed.callNf c, sized,
      foreign, inside⟩
  | destroy =>
    refine .ok ⟨⟨?_, mod, ctMark, passed⟩, nofun, sized, foreign, inside⟩
    exact congrArg (fun nf : NfSt ν => { nf with chain := none, install := fun _ => false }) nf
  | module op =>
    unfold fwStep classStep
    dsimp only
    rw [mod]
    apply (Coupled.self (opStep (env, op) a.mod)).bind
    rintro s' _ ⟨rfl, ran⟩
    exact .ok ⟨⟨nf, rfl, ctMark, passed⟩, formed, sized.opStep fits.1 fits.2 ran, foreign, inside⟩
  | others conn bits =>
    -- the others write around the mask, so the class stays
    have here : setMark bits qosMarkRuleMask (x.ctMark conn &&& qosMarkRuleMask) =
        setMark bits qosMarkRuleMask (a.cls conn) := by
      rw [ctMark, setMark_and (foreign conn), inside]
    have marks := marks_update conn here ctMark
    rw [Function.update_eq_self] at marks
    refine .ok ⟨⟨nf, mod, marks, passed⟩, formed, sized, ?_, inside⟩
    apply (Function.forall_update_iff a.foreign fun _ f => f < 2 ^ 32).mpr
    exact ⟨fits, fun other _ => foreign other⟩
  | gone conn =>
    have here : 0 = setMark 0 qosMarkRuleMask 0 := rfl
    refine .ok ⟨⟨nf, mod, marks_update conn here ctMark, passed⟩, formed, sized, ?_, ?_⟩
    · apply (Function.forall_update_iff a.foreign fun _ f => f < 2 ^ 32).mpr
      exact ⟨by decide, fun other _ => foreign other⟩
    · apply (Function.forall_update_iff a.cls fun _ c => c &&& qosMarkRuleMask = c).mpr
      exact ⟨Nat.zero_and _, fun other _ => inside other⟩

section Reached

variable {s : St} {x y : FwSt κ ν} {a a' : ClassSt κ ν} {conn : κ}

theorem runAll_portrays (cfg : UciConfig ν) (documented : cm.Documented) (ids : ∀ name, idOf name < 2 ^ 32)
    {labels : List (Env × FwEvent κ ν)} (fits : ∀ l ∈ labels, EventFits l.2)
    (related : Portrays x a ∧ ClassSound a) :
    Coupled (fun x a => Portrays x a ∧ ClassSound a) (runAll (fwStep cm cfg idOf) labels x)
      (runAll (classStep cfg idOf) labels a) :=
  Coupled.runAll labels (fun l member _ _ => fwStep_portrays cfg documented ids (fits l member)) related

omit [DecidableEq κ] [DecidableEq ν] in
theorem start_portrays (reached : Reached s) (small : s.maxIpCnt ≤ 255) :
    Portrays (FwSt.start κ ν s) (ClassSt.start κ ν s) ∧ ClassSound (ClassSt.start κ ν s) := by
  have unmarked : 0 = setMark 0 qosMarkRuleMask 0 := by decide
  exact ⟨⟨rfl, rfl, fun _ => unmarked, rfl⟩, nofun, ⟨reached.indexed, small⟩,
    fun _ => Nat.two_pow_pos 32, fun _ => Nat.zero_and _⟩

/-- The chain, wherever the scripts have put the entries of the rules, does what the classifier
    does: in every run of packets, installations and operations on the module the two fail
    alike, their tables and chains are the same, and every mark of a packet or a connection is
    the class merged into the bits of the others. -/
theorem chain_refines_classifier (documented : cm.Documented) (ids : ∀ name, idOf name < 2 ^ 32)
    (reached : Reached s) (small : s.maxIpCnt ≤ 255) {labels : List (Env × FwEvent κ ν)}
    (fits : ∀ l ∈ labels, EventFits l.2) :
    Coupled Portrays (runAll (fwStep cm cfg idOf) labels (FwSt.start κ ν s))
      (runAll (classStep cfg idOf) labels (ClassSt.start κ ν s)) :=
  (runAll_portrays cfg documented ids fits (start_portrays reached small)).mono fun _ _ both => both.1

/-- Only the end of a connection takes its class away. -/
theorem classStep_keeps {l : Env × FwEvent κ ν} (lives : l.2 ≠ .gone conn)
    (classed : a.cls conn ≠ 0) (ran : classStep cfg idOf l a = .ok a') :
    a'.cls conn = a.cls conn := by
  obtain ⟨env, event⟩ := l
  cases event with
  | packet other skb hits =>
    unfold classStep at ran
    dsimp only at ran
    cases present : a.nf.chain with
    | none =>
      rw [present] at ran
      cases ran
      rfl
    | some chain =>
      rw [present] at ran
      obtain ⟨⟨mark, cls, s'⟩, classified, ran⟩ := bind_eq_ok ran
      cases ran
      dsimp only
      -- a connection with a class is not classified again
      by_cases same : conn = other
      · subst same
        rw [classify, if_pos classed] at classified
        cases classified
        rw [Function.update_self]
      · rw [Function.update_of_ne same]
  | script | destroy | others =>
    cases ran
    rfl
  | module op =>
    obtain ⟨s', _, ran⟩ := bind_eq_ok ran
    cases ran
    rfl
  | gone other =>
    cases ran
    have differ : conn ≠ other := fun same => lives (congrArg FwEvent.gone same.symm)
    exact Function.update_of_ne differ _ _

theorem runAll_keeps {labels : List (Env × FwEvent κ ν)} (lives : ∀ l ∈ labels, l.2 ≠ .gone conn)
    (classed : a.cls conn ≠ 0) (ran : runAll (classStep cfg idOf) labels a = .ok a') :
    a'.cls conn = a.cls conn := by
  induction labels generalizing a with
  | nil =>
    cases ran
    rfl
  | cons l labels ih =>
    unfold runAll at ran
    cases stepped : classStep cfg idOf l a with
    | error e =>
      rw [stepped] at ran
      cases ran
    | ok next =>
      rw [stepped] at ran
      have kept := classStep_keeps (lives l List.mem_cons_self) classed stepped
      rw [← kept] at classed ⊢
      exact ih (fun l' member => lives l' (List.mem_cons_of_mem l member)) classed ran

/-- The packet of a connection with a class leaves with it, and nothing else happens. -/
theorem packet_passes (documented : cm.Documented) (ids : ∀ name, idOf name < 2 ^ 32)
    (related : Portrays y a ∧ ClassSound a) (classed : a.cls conn ≠ 0) {chain : List (Entry ν)}
    (present : y.nf.chain = some chain) {env : Env} {skb : SkBuff} {hits : Entry ν → Bool}
    (word : skb.mark < 2 ^ 32) :
    fwStep cm cfg idOf (env, .packet conn skb hits) y =
      .ok { y with
        passed := { skb with mark := setMark skb.mark qosMarkRuleMask (a.cls conn) } :: y.passed } := by
  -- the classifier first, and the chain by the refinement
  have shown := fwStep_portrays cfg (l := (env, .packet conn skb hits)) documented ids word
    related
  have same : classStep cfg idOf (env, .packet conn skb hits) a =
      .ok { a with
        passed := { skb with mark := setMark skb.mark qosMarkRuleMask (a.cls conn) } :: a.passed } := by
    unfold classStep classify
    dsimp only
    rw [← related.1.nf, present]
    dsimp only
    rw [if_pos classed, ok_bind, Function.update_eq_self, related.1.nf]
    rfl
  rw [same] at shown
  obtain ⟨nf, mod, ctMark, passed⟩ := related.1
  generalize fwStep cm cfg idOf (env, .packet conn skb hits) y = next at shown
  cases shown with
  | @ok x' _ kept =>
    obtain ⟨⟨nf', mod', ctMark', passed'⟩, _⟩ := kept
    obtain ⟨nfX, modX, ctMarkX, passedX⟩ := x'
    dsimp only at nf' mod' ctMark' passed'
    have marks : ctMarkX = y.ctMark := funext fun conn => (ctMark' conn).trans (ctMark conn).symm
    rw [nf', mod', marks, passed', ← nf, ← mod, ← passed]

/-- A marked connection keeps its mark until it is gone, whatever is installed, uninstalled,
    flushed or asked of the module; each of its packets leaves with it and touches no table. -/
theorem connection_class_kept (conn : κ) (documented : cm.Documented)
    (ids : ∀ name, idOf name < 2 ^ 32) (reached : Reached s) (small : s.maxIpCnt ≤ 255)
    {labels later : List (Env × FwEvent κ ν)} (fits : ∀ l ∈ labels ++ later, EventFits l.2)
    (ran : runAll (fwStep cm cfg idOf) labels (FwSt.start κ ν s) = .ok x)
    (marked : x.ctMark conn &&& qosMarkRuleMask ≠ 0)
    (lives : ∀ l ∈ later, l.2 ≠ .gone conn)
    (ranLater : runAll (fwStep cm cfg idOf) later x = .ok y) :
    y.ctMark conn &&& qosMarkRuleMask = x.ctMark conn &&& qosMarkRuleMask ∧
      ∀ (env : Env) (skb : SkBuff) (hits : Entry ν → Bool), skb.mark < 2 ^ 32 →
        y.nf.chain.isSome →
        fwStep cm cfg idOf (env, .packet conn skb hits) y =
          .ok { y with
            passed := { skb with
              mark := setMark skb.mark qosMarkRuleMask
                (x.ctMark conn &&& qosMarkRuleMask) } :: y.passed } := by
  have started : Portrays (FwSt.start κ ν s) (ClassSt.start κ ν s) ∧ ClassSound (ClassSt.start κ ν s) :=
    start_portrays reached small
  -- both parts of the run are followed by the classifier, which keeps the class
  have first := runAll_portrays cfg documented ids
    (fun l member => fits l (List.mem_append_left later member)) started
  rw [ran] at first
  generalize runAll (classStep cfg idOf) labels (ClassSt.start κ ν s) = abstract at first
  cases first with
  | @ok _ a related =>
    have second := runAll_portrays cfg documented ids
      (fun l member => fits l (List.mem_append_right labels member)) related
    rw [ranLater] at second
    cases ranLater' : runAll (classStep cfg idOf) later a with
    | error e =>
      rw [ranLater'] at second
      cases second
    | ok a' =>
      rw [ranLater'] at second
      cases second with
      | ok related' =>
        have classOf {x : FwSt κ ν} {a : ClassSt κ ν} (related : Portrays x a ∧ ClassSound a) :
            x.ctMark conn &&& qosMarkRuleMask = a.cls conn := by
          rw [related.1.ctMark, setMark_and (related.2.foreign conn), related.2.inside]
        rw [classOf related] at marked
        have kept := runAll_keeps lives marked ranLater'
        rw [classOf related, classOf related', kept]
        refine ⟨rfl, fun env skb hits word present => ?_⟩
        obtain ⟨chain, present⟩ := Option.isSome_iff_exists.mp present
        rw [← kept] at marked ⊢
        exact packet_passes documented ids related' marked present word

end Reached

end Runs

/-! ## Two packets -/

/-- CONNMARK as its manual page has it. -/
def manualConnmark : Connmark where
  restoreMark nfmask ctmask nfmark ctmark := setMark nfmark nfmask (ctmark &&& ctmask)
  saveMark nfmask ctmask nfmark ctmark := setMark ctmark ctmask (nfmark &&& nfmask)

theorem manualConnmark_documented : manualConnmark.Documented :=
  ⟨fun _ _ _ _ _ _ => rfl, fun _ _ _ _ _ _ => rfl⟩

def oneRuleConfig : UciConfig Nat where
  rules := [⟨1, true, some 100, some 0, some 100, some 0, some .lan, some .wanAll, .ipgroupAny⟩]
  distinct := by decide

/-- The rule is installed, and a packet that bit 19 comes with matches it. -/
def matchedPacket : List (Env × FwEvent Nat Nat) :=
  [(plainEnv, .script (.install 1 fun _ => true)),
    (plainEnv, .packet 5 ⟨0x80000, 7, 9⟩ fun e => e == .rule 1)]

/-- The table is flushed, and another module sets bit 20 for the connection. -/
def laterEvents : List (Env × FwEvent Nat Nat) :=
  [(plainEnv, .module (.ioctl .hashFlush)), (plainEnv, .others 5 0x100000)]

theorem twoPackets_fit : ∀ l ∈ matchedPacket ++ laterEvents, EventFits l.2 := by
  simp only [matchedPacket, laterEvents, List.cons_append, List.nil_append, List.forall_mem_cons,
    List.not_mem_nil, false_implies, implies_true, and_true]
  exact ⟨trivial, (by decide : (0x80000 : Nat) < 2 ^ 32), ⟨trivial, trivial⟩,
    (by decide : (0x100000 : Nat) < 2 ^ 32)⟩

theorem twoPackets_run :
    ∃ s x y, Reached s ∧ s.maxIpCnt ≤ 255 ∧
      runAll (fwStep manualConnmark oneRuleConfig fun _ => 1) matchedPacket (FwSt.start Nat Nat s) = .ok x ∧
      runAll (fwStep manualConnmark oneRuleConfig fun _ => 1) laterEvents x = .ok y ∧
      x.ctMark 5 = 0x800 ∧ y.nf.chain.isSome ∧ y.passed = [⟨0x80800, 7, 9⟩] := by
  have ran : (runAll opStep layoutTrace (qosMarktblInit plainEnv).2 >>= fun s =>
      runAll (fwStep manualConnmark oneRuleConfig fun _ => 1) matchedPacket (FwSt.start Nat Nat s) >>=
        fun x => (runAll (fwStep manualConnmark oneRuleConfig fun _ => 1) laterEvents x).map fun y =>
          (decide (s.maxIpCnt ≤ 255), x.ctMark 5, y.nf.chain.isSome, y.passed)) =
      .ok (true, 0x800, true, [⟨0x80800, 7, 9⟩]) := by decide +kernel
  obtain ⟨s, start, ran⟩ := bind_eq_ok ran
  obtain ⟨x, first, ran⟩ := bind_eq_ok ran
  obtain ⟨y, later, same⟩ := map_eq_ok ran
  simp only [Prod.mk.injEq, decide_eq_true_eq] at same
  exact ⟨s, x, y, reached_of_trace layoutTrace layoutTrace_words start, same.1, first, later,
    same.2⟩

theorem twoPackets_classified :
    ∃ s, Reached s ∧
      Coupled Portrays
        (runAll (fwStep manualConnmark oneRuleConfig fun _ => 1) (matchedPacket ++ laterEvents)
          (FwSt.start Nat Nat s))
        (runAll (classStep oneRuleConfig fun _ => 1) (matchedPacket ++ laterEvents)
          (ClassSt.start Nat Nat s)) := by
  obtain ⟨s, x, y, reached, small, _⟩ := twoPackets_run
  exact ⟨s, reached, chain_refines_classifier manualConnmark_documented (fun _ => by decide)
    reached small twoPackets_fit⟩

/-- A second packet of the connection, another mark on it. -/
theorem secondPacket_kept :
    ∃ y next : FwSt Nat Nat, fwStep manualConnmark oneRuleConfig (fun _ => 1)
        (plainEnv, .packet 5 ⟨0x3, 9, 7⟩ fun _ => true) y = .ok next ∧
      next.mod = y.mod ∧ next.passed = [⟨0x803, 9, 7⟩, ⟨0x80800, 7, 9⟩] := by
  obtain ⟨s, x, y, reached, small, ran, ranLater, marked, chain, passed⟩ := twoPackets_run
  have lives : ∀ l ∈ laterEvents, l.2 ≠ FwEvent.gone 5 := by
    simp only [laterEvents, List.forall_mem_cons, List.not_mem_nil, false_implies, implies_true,
      and_true]
    exact ⟨nofun, nofun⟩
  have kept := connection_class_kept 5 manualConnmark_documented
    (fun _ => by decide) reached small twoPackets_fit ran (by rw [marked]; decide) lives ranLater
  refine ⟨y, _, kept.2 plainEnv ⟨0x3, 9, 7⟩ _ (by decide) chain, rfl, ?_⟩
  rw [passed, marked]
  rfl

end IpQos.Verified
