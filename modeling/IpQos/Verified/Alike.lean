import IpQos.Lib.Coupled
import IpQos.Verified.Frames
import IpQos.Verified.Operations

/-! # States that look alike

Two states that differ in the marks of some rules only: of private rules, and of rules
without entries.  No packet, event, `HASH_DEL`, `HASH_CHK` or `RULE_ADD` tells them
apart, for a mark that differs is written before it is read.  The simulation is proved
along the code, one lemma for each function. -/

namespace IpQos.Verified

open IpQos.Kmod
open IpQos.Lib (Allowed Coupled contents modifyFirst)

/-! ## States that look alike -/

/-- How many entries refer to the record at index `i` of the rule table. -/
def indexed (s : St) (i : Nat) : Nat := s.registry.entries.countP (subU32 ·.id 1 = i)

/-- Records with `n` entries that differ in a mark nobody reads, if at all. -/
structure RuleAlike (n : Nat) (ra rb : RuletblNode) : Prop where
  same : rb = { ra with mark := rb.mark }
  count : ra.count = (n : Int).bmod (2 ^ 32)
  mark : ra.mode = privMode ∨ n = 0 ∨ rb.mark = ra.mark

def TablesAlike (n : Nat → Nat) (ta tb : List RuletblNode) : Prop :=
  ∀ i, Option.Rel (RuleAlike (n i)) ta[i]? tb[i]?

/-- The same state but for the rule tables, and those alike. -/
inductive Alike : St → St → Prop where
  | intro (s : St) {ta tb : List RuletblNode} (tables : TablesAlike (indexed s) ta tb) :
      Alike (s.setRules ta) (s.setRules tb)

/-- The same results from states alike. -/
def SameResult {α : Type} (x y : α × St) : Prop := x.1 = y.1 ∧ Alike x.2 y.2

def SameResults {α β : Type} (x y : α × β × St) : Prop := x.1 = y.1 ∧ SameResult x.2 y.2

theorem RuleAlike.counts {n : Nat} {ra rb : RuletblNode} (alike : RuleAlike n ra rb) :
    rb.count = ra.count := by
  rw [alike.same]

theorem RuleAlike.modes {n : Nat} {ra rb : RuletblNode} (alike : RuleAlike n ra rb) :
    rb.mode = ra.mode := by
  rw [alike.same]

theorem TablesAlike.modify {n n' : Nat → Nat} {ta tb : List RuletblNode} {k : Nat}
    {f : RuletblNode → RuletblNode} (tables : TablesAlike n ta tb)
    (others : ∀ i, i ≠ k → n' i = n i)
    (here : ∀ ra rb, ta[k]? = some ra → tb[k]? = some rb → RuleAlike (n k) ra rb →
      RuleAlike (n' k) (f ra) (f rb)) :
    TablesAlike n' (ta.modify k f) (tb.modify k f) := by
  intro i
  have alike := tables i
  rw [List.getElem?_modify, List.getElem?_modify]
  -- both tables have the slot, or neither
  by_cases same : k = i
  · subst same
    cases left : ta[k]? with
    | none =>
      cases right : tb[k]? with
      | none => exact .none
      | some rb => rw [left, right] at alike; cases alike
    | some ra =>
      cases right : tb[k]? with
      | none => rw [left, right] at alike; cases alike
      | some rb =>
        rw [left, right] at alike
        cases alike with
        | some alike =>
          simp only [↓reduceIte, Option.map_eq_map, Option.map_some]
          exact .some (here ra rb left right alike)
  · simp only [same, ↓reduceIte, Option.map_eq_map, Option.map_id']
    rw [others i (Ne.symm same)]
    exact alike

/-! ## Access to the tables -/

section

variable {env : Env} {a b s : St} {ta tb : List RuletblNode} {id mark : Nat} {ip : Be32}

@[simp] theorem deref_setRules (s : St) (tbl : List RuletblNode) :
    (s.setRules tbl).gRuletbl.deref = .ok tbl := rfl

@[simp] theorem setRules_setRules (s : St) (tbl tbl' : List RuletblNode) :
    (s.setRules tbl).setRules tbl' = s.setRules tbl' := rfl

/-- The record of rule `id` in states alike. -/
theorem ruleAt_alike (tables : TablesAlike (indexed s) ta tb) :
    Coupled (fun ra rb => RuleAlike (indexed s (subU32 id 1)) ra rb ∧
        ta[subU32 id 1]? = some ra ∧ tb[subU32 id 1]? = some rb)
      (ruleAt id (s.setRules ta)) (ruleAt id (s.setRules tb)) := by
  have alike := tables (subU32 id 1)
  unfold ruleAt
  rw [deref_setRules, deref_setRules, ok_bind, ok_bind]
  cases left : ta[subU32 id 1]? with
  | none =>
    cases right : tb[subU32 id 1]? with
    | none => exact .error _
    | some rb => rw [left, right] at alike; cases alike
  | some ra =>
    cases right : tb[subU32 id 1]? with
    | none => rw [left, right] at alike; cases alike
    | some rb =>
      rw [left, right] at alike
      cases alike with
      | some alike => exact .ok ⟨alike, rfl, rfl⟩

/-- The same update of rule `id` in tables alike, with the entries the rule has then. -/
theorem modifyRule_alike {n n' : Nat → Nat} {f : RuletblNode → RuletblNode}
    (tables : TablesAlike n ta tb) (others : ∀ i, i ≠ subU32 id 1 → n' i = n i)
    (here : ∀ ra rb, ta[subU32 id 1]? = some ra → tb[subU32 id 1]? = some rb →
      RuleAlike (n (subU32 id 1)) ra rb → RuleAlike (n' (subU32 id 1)) (f ra) (f rb)) :
    Coupled (fun a b => a = s.setRules (ta.modify (subU32 id 1) f) ∧
        b = s.setRules (tb.modify (subU32 id 1) f) ∧
        TablesAlike n' (ta.modify (subU32 id 1) f) (tb.modify (subU32 id 1) f))
      (modifyRule id f (s.setRules ta)) (modifyRule id f (s.setRules tb)) := by
  have alike := tables (subU32 id 1)
  unfold modifyRule
  rw [deref_setRules, deref_setRules, ok_bind, ok_bind, setRules_setRules, setRules_setRules]
  generalize subU32 id 1 = k at *
  have bounds : k < ta.length ↔ k < tb.length := by
    rw [← isSome_getElem? ta k, ← isSome_getElem? tb k]
    generalize ta[k]? = left at *
    generalize tb[k]? = right at *
    cases alike with
    | none => rfl
    | some alike => rfl
  by_cases inRange : k < ta.length
  · rw [if_pos inRange, if_pos (bounds.mp inRange)]
    exact .ok ⟨rfl, rfl, tables.modify others here⟩
  · rw [if_neg inRange, if_neg (bounds.not.mp inRange)]
    exact .error _

/-- The update keeps the records alike as they are. -/
theorem modifyRule_keeps {f : RuletblNode → RuletblNode}
    (keeps : ∀ n ra rb, RuleAlike n ra rb → RuleAlike n (f ra) (f rb)) (alike : Alike a b) :
    Coupled Alike (modifyRule id f a) (modifyRule id f b) := by
  cases alike with
  | intro s tables =>
    apply (modifyRule_alike tables (fun _ _ => rfl) fun ra rb _ _ => keeps _ ra rb).mono
    rintro _ _ ⟨rfl, rfl, tables'⟩
    exact .intro s tables'

/-! ## The hash table -/

@[simp] theorem elemOverLimit_setRules (s : St) (tbl : List RuletblNode) :
    elemOverLimit (s.setRules tbl) = elemOverLimit s := rfl

@[simp] theorem testMark_setRules (mark : Nat) (s : St) (tbl : List RuletblNode) :
    testMark mark (s.setRules tbl) = testMark mark s := rfl

@[simp] theorem marktblHashGet_setRules (key : Be32) (s : St) (tbl : List RuletblNode) :
    marktblHashGet key (s.setRules tbl) = marktblHashGet key s := rfl

@[simp] theorem gMarktblHead_setRules (s : St) (tbl : List RuletblNode) :
    (s.setRules tbl).gMarktblHead = s.gMarktblHead := rfl

@[simp] theorem setRules_setHead (s : St) (tbl : List RuletblNode) (head : MarktblHead) :
    (s.setRules tbl).setHead head = (s.setHead head).setRules tbl := rfl

theorem indexed_eq {head : MarktblHead} (live : s.gMarktblHead = .to head) (i : Nat) :
    indexed s i = (contents head.ht).countP (subU32 ·.id 1 = i) := by
  unfold indexed St.registry
  rw [live]

theorem indexed_setHead (s : St) (head : MarktblHead) (i : Nat) :
    indexed (s.setHead head) i = (contents head.ht).countP (subU32 ·.id 1 = i) := rfl

theorem indexed_push {head : MarktblHead} {i : Nat} {chain : List MarktblNode}
    (live : s.gMarktblHead = .to head) (home : head.ht[i]? = some chain) (node : MarktblNode)
    (n k : Nat) :
    indexed (s.setHead { head with elemNum := n, ht := head.ht.modify i (node :: ·) }) k =
      indexed s k + if subU32 node.id 1 = k then 1 else 0 := by
  rw [indexed_setHead, indexed_eq live, IpQos.Lib.contents_push node home, Multiset.countP_cons]

theorem indexed_eraseP {head : MarktblHead} {i : Nat} {chain : List MarktblNode}
    {node : MarktblNode} {p : MarktblNode → Bool} (live : s.gMarktblHead = .to head)
    (home : head.ht[i]? = some chain) (found : chain.find? p = some node) (n k : Nat) :
    indexed s k =
      indexed (s.setHead { head with elemNum := n, ht := head.ht.modify i (·.eraseP p) }) k +
        if subU32 node.id 1 = k then 1 else 0 := by
  rw [indexed_setHead, indexed_eq live, IpQos.Lib.contents_eraseP home found, Multiset.countP_cons]

theorem bucket_eq_ok {head : MarktblHead} {i : Nat} {chain : List MarktblNode}
    (ran : bucket head i = .ok chain) : head.ht[i]? = some chain := by
  unfold bucket at ran
  cases found : head.ht[i]? with
  | none =>
    rw [found] at ran
    cases ran
  | some chain' =>
    rw [found] at ran
    cases ran
    rfl

/-- Wherever the mark of rule `id` will be read, both tables have the same. -/
def Agree (id : Nat) (ta tb : List RuletblNode) : Prop :=
  ∀ ra rb, ta[subU32 id 1]? = some ra → tb[subU32 id 1]? = some rb →
    ra.mode = privMode ∨ rb.mark = ra.mark

theorem marktblHashAdd_alike (tables : TablesAlike (indexed s) ta tb) (agree : Agree id ta tb) :
    Coupled SameResult (marktblHashAdd env ip id mark (s.setRules ta))
      (marktblHashAdd env ip id mark (s.setRules tb)) := by
  unfold marktblHashAdd
  simp only [elemOverLimit_setRules, gMarktblHead_setRules]
  apply (Coupled.self (elemOverLimit s)).bind
  rintro limited _ ⟨rfl, _⟩
  apply Coupled.ite
  · intro _
    exact .ok ⟨rfl, .intro s tables⟩
  · intro _
    apply (Coupled.self s.gMarktblHead.deref).bind
    rintro head _ ⟨rfl, deref⟩
    apply (Coupled.self (hashIndex head ip)).bind
    rintro i _ ⟨rfl, _⟩
    apply (Coupled.self (bucket head i)).bind
    rintro chain _ ⟨rfl, home⟩
    cases found : chain.find? (marktblHashCmp ip) with
    | some node => exact .error _
    | none =>
      apply Coupled.ite
      · intro _
        -- the rule of the new entry counts one more on both sides, no other does
        have more := indexed_push (Ptr.deref_eq_ok deref) (bucket_eq_ok home)
          { srcIp := ip, id, mark, count := 0 } (u32 (head.elemNum + 1))
        apply (modifyRule_alike tables ?_ ?_).bind
        · rintro _ _ ⟨rfl, rfl, tables'⟩
          exact .ok ⟨rfl, .intro (s.setHead _) tables'⟩
        · intro k other
          rw [more, if_neg (Ne.symm other)]
          rfl
        · intro ra rb left right alike
          refine ⟨?_, ?_, ?_⟩
          · rw [alike.same]
          · show atomicInc ra.count = _
            rw [more, if_pos rfl, alike.count, atomicInc, Int.bmod_add_bmod]
            rfl
          · show ra.mode = privMode ∨ _ ∨ rb.mark = ra.mark
            -- the first entry of a rule: the sides may only differ where nobody reads
            have settled := agree ra rb left right
            tauto
      · intro _
        exact .ok ⟨rfl, .intro s tables⟩

theorem qmarkAddHash_alike (tables : TablesAlike (indexed s) ta tb) (agree : Agree id ta tb) :
    Coupled SameResult (qmarkAddHash env ip id mark (s.setRules ta))
      (qmarkAddHash env ip id mark (s.setRules tb)) := by
  unfold qmarkAddHash qosMarktblHashtblAdd
  simp only [testMark_setRules]
  apply (Coupled.self (testMark mark s)).bind
  rintro allocated _ ⟨rfl, _⟩
  apply Coupled.ite
  · intro _
    exact .ok ⟨rfl, .intro s tables⟩
  · intro _
    exact marktblHashAdd_alike tables agree

theorem marktblHashRemove_alike (alike : Alike a b) :
    Coupled SameResults (marktblHashRemove ip a) (marktblHashRemove ip b) := by
  obtain ⟨s, tables⟩ := alike
  unfold marktblHashRemove
  simp only [gMarktblHead_setRules, setRules_setHead]
  apply (Coupled.self s.gMarktblHead.deref).bind
  rintro head _ ⟨rfl, deref⟩
  apply (Coupled.self (hashIndex head ip)).bind
  rintro i _ ⟨rfl, _⟩
  apply (Coupled.self (bucket head i)).bind
  rintro chain _ ⟨rfl, home⟩
  cases found : chain.find? (marktblHashCmp ip) with
  | none => exact .ok ⟨rfl, rfl, .intro s tables⟩
  | some entry =>
    apply Coupled.ite
    · intro _
      exact .ok ⟨rfl, rfl, .intro s tables⟩
    · intro _
      -- the rule of the entry had at least one, so its marks are the same
      have fewer := indexed_eraseP (Ptr.deref_eq_ok deref) (bucket_eq_ok home) found
        (subU32 head.elemNum 1)
      apply (modifyRule_alike tables ?_ ?_).bind
      · rintro _ _ ⟨rfl, rfl, tables'⟩
        exact .ok ⟨rfl, rfl, .intro (s.setHead _) tables'⟩
      · intro k other
        rw [fewer, if_neg (Ne.symm other)]
        rfl
      · intro ra rb _ _ alike
        have before := fewer (subU32 entry.id 1)
        rw [if_pos rfl] at before
        rw [before] at alike
        refine ⟨?_, ?_, ?_⟩
        · rw [alike.same]
        · show atomicDec ra.count = _
          rw [alike.count, atomicDec, Int.bmod_sub_bmod]
          congr 1
          omega
        · show ra.mode = privMode ∨ _ ∨ rb.mark = ra.mark
          rcases alike.mark with isPrivate | none | same
          · exact .inl isPrivate
          · cases none
          · exact .inr (.inr same)

theorem countP_modifyFirst {p : MarktblNode → Bool} {f : MarktblNode → MarktblNode}
    (keeps : ∀ node, (f node).id = node.id) (chain : List MarktblNode) (k : Nat) :
    (modifyFirst p f chain).countP (subU32 ·.id 1 = k) = chain.countP (subU32 ·.id 1 = k) := by
  induction chain with
  | nil => rfl
  | cons node chain ih =>
    unfold modifyFirst
    split
    · rw [List.countP_cons, List.countP_cons, keeps]
    · rw [List.countP_cons, List.countP_cons, ih]

/-- An entry changed without touching its rule. -/
theorem modifyNode_alike {f : MarktblNode → MarktblNode} (keeps : ∀ node, (f node).id = node.id)
    (alike : Alike a b) : Coupled Alike (modifyNode ip f a) (modifyNode ip f b) := by
  obtain ⟨s, tables⟩ := alike
  unfold modifyNode
  simp only [gMarktblHead_setRules, setRules_setHead]
  apply (Coupled.self s.gMarktblHead.deref).bind
  rintro head _ ⟨rfl, deref⟩
  apply (Coupled.self (hashIndex head ip)).bind
  rintro i _ ⟨rfl, _⟩
  apply (Coupled.self (bucket head i)).bind
  rintro chain _ ⟨rfl, home⟩
  apply Coupled.ok
  apply Alike.intro
  intro k
  obtain ⟨others, before, after⟩ := IpQos.Lib.contents_modify (bucket_eq_ok home)
  have same : indexed s k = indexed (s.setHead { head with
      ht := head.ht.modify i (modifyFirst (marktblHashCmp ip) f) }) k := by
    rw [indexed_setHead, indexed_eq (Ptr.deref_eq_ok deref), before, after, Multiset.countP_add,
      Multiset.countP_add, Multiset.coe_countP, Multiset.coe_countP]
    rw [countP_modifyFirst keeps]
  rw [← same]
  exact tables k

theorem setCount_alike (g : Int → Int) (alike : Alike a b) :
    Coupled Alike (modifyNode ip (fun n => { n with count := g n.count }) a)
      (modifyNode ip (fun n => { n with count := g n.count }) b) :=
  modifyNode_alike (fun _ => rfl) alike

/-! ## The bitmap -/

/-- The rule tables are those of before. -/
def OnlyBits (s : St) (ta tb : List RuletblNode) (a b : St) : Prop :=
  ∃ s' : St, indexed s' = indexed s ∧ a = s'.setRules ta ∧ b = s'.setRules tb

theorem allocMark_alike (s : St) (ta tb : List RuletblNode) :
    Coupled (fun x y => x.1 = y.1 ∧ OnlyBits s ta tb x.2 y.2)
      (allocMark (s.setRules ta)) (allocMark (s.setRules tb)) := by
  show Coupled _ (s.markBitmap.deref >>= _) (s.markBitmap.deref >>= _)
  apply (Coupled.self s.markBitmap.deref).bind
  rintro bm _ ⟨rfl, _⟩
  apply Coupled.ite
  · intro _
    exact .ok ⟨rfl, s, rfl, rfl, rfl⟩
  · intro _
    apply (Coupled.self (writeBit s.maxIpCnt bm _ true)).bind
    rintro bm' _ ⟨rfl, _⟩
    exact .ok ⟨rfl, s.setBits bm', rfl, rfl, rfl⟩

theorem freeMark_alike (alike : Alike a b) : Coupled Alike (freeMark mark a) (freeMark mark b) := by
  obtain ⟨s, tables⟩ := alike
  show Coupled Alike (s.markBitmap.deref >>= _) (s.markBitmap.deref >>= _)
  apply (Coupled.self s.markBitmap.deref).bind
  rintro bm _ ⟨rfl, _⟩
  apply (Coupled.self (writeBit s.maxIpCnt bm _ false)).bind
  rintro bm' _ ⟨rfl, _⟩
  exact .ok (.intro { s.setBits bm' with freed := mark :: s.freed } tables)

theorem qmarkAllocMark_alike (s : St) (ta tb : List RuletblNode) :
    Coupled (fun x y => x.1 = y.1 ∧ x.2.1 = y.2.1 ∧ OnlyBits s ta tb x.2.2 y.2.2)
      (qmarkAllocMark (s.setRules ta)) (qmarkAllocMark (s.setRules tb)) := by
  apply (allocMark_alike s ta tb).bind
  rintro ⟨mark, a'⟩ ⟨_, b'⟩ ⟨rfl, onlyBits⟩
  apply Coupled.ite
  · intro _
    exact .ok ⟨rfl, rfl, onlyBits⟩
  · intro _
    exact .ok ⟨rfl, rfl, onlyBits⟩

/-! ## Allocation -/

theorem clearMark_keeps (n : Nat) (ra rb : RuletblNode) (alike : RuleAlike n ra rb) :
    RuleAlike n { ra with mark := 0 } { rb with mark := 0 } := by
  refine ⟨?_, alike.count, .inr (.inr rfl)⟩
  rw [alike.same]

/-- The branch both removal and rollback test. -/
theorem RuleAlike.branch {n : Nat} {ra rb : RuletblNode} (alike : RuleAlike n ra rb) :
    (privMode = ra.mode ∨ 0 = ra.count) = (privMode = rb.mode ∨ 0 = rb.count) := by
  rw [alike.modes, alike.counts]

/-- The requests, and the divisions on the way, depend on the parameters of a rule. -/
theorem qmarkTcAddRule_alike {n : Nat} {ra rb : RuletblNode} (env : Env) (mark : Nat)
    (tables : TablesAlike (indexed s) ta tb) (alike : RuleAlike n ra rb) :
    Coupled Alike (qmarkTcAddRule env ra mark (s.setRules ta))
      (qmarkTcAddRule env rb mark (s.setRules tb)) := by
  rw [qmarkTcAddRule_eq, qmarkTcAddRule_eq, alike.same]
  apply Coupled.ite
  · intro _
    exact .ok (.intro
      { s with sent := addRequests env s.qmarkLanDev s.qmarkWanDev ra mark ++ s.sent } tables)
  · intro _
    exact .error _

theorem qmarkTcDelRule_alike {n : Nat} {ra rb : RuletblNode} (env : Env) (mark : Nat)
    (tables : TablesAlike (indexed s) ta tb) (alike : RuleAlike n ra rb) :
    Coupled Alike (qmarkTcDelRule env ra mark (s.setRules ta))
      (qmarkTcDelRule env rb mark (s.setRules tb)) := by
  rw [qmarkTcDelRule_eq, qmarkTcDelRule_eq, alike.same]
  exact .ok (.intro
    { s with sent := delRequests env s.qmarkLanDev s.qmarkWanDev ra mark ++ s.sent } tables)

theorem allocMarkAutoAdd_alike (tables : TablesAlike (indexed s) ta tb) (agree : Agree id ta tb) :
    Coupled SameResults (allocMarkAutoAdd env ip id mark (s.setRules ta))
      (allocMarkAutoAdd env ip id mark (s.setRules tb)) := by
  unfold allocMarkAutoAdd
  apply (qmarkAddHash_alike tables agree).bind
  rintro ⟨ret, a₁⟩ ⟨_, b₁⟩ ⟨rfl, alike₁⟩
  obtain ⟨s₁, tables₁⟩ := alike₁
  apply Coupled.ite
  · intro _
    apply (ruleAt_alike tables₁).bind
    rintro ra rb ⟨alike, _, _⟩
    -- mode and count agree, so both take the same branch
    simp only [← alike.branch]
    apply Coupled.ite
    · intro _
      apply (modifyRule_keeps clearMark_keeps (.intro s₁ tables₁)).bind
      intro a₂ b₂ alike₂
      apply (freeMark_alike alike₂).bind
      intro a₃ b₃ alike₃
      exact .ok ⟨rfl, rfl, alike₃⟩
    · intro _
      exact .ok ⟨rfl, rfl, .intro s₁ tables₁⟩
  · intro _
    apply (ruleAt_alike tables₁).bind
    rintro ra rb ⟨alike, _, _⟩
    apply (qmarkTcAddRule_alike env mark tables₁ alike).bind
    intro a₂ b₂ alike₂
    exact .ok ⟨rfl, rfl, alike₂⟩

theorem agree_of_stored (id mark : Nat) (ta tb : List RuletblNode) :
    Agree id (ta.modify (subU32 id 1) fun rn => { rn with mark := mark })
      (tb.modify (subU32 id 1) fun rn => { rn with mark := mark }) := by
  intro ra rb left right
  rw [List.getElem?_modify_eq] at left right
  obtain ⟨_, _, rfl⟩ := Option.map_eq_some_iff.mp left
  obtain ⟨_, _, rfl⟩ := Option.map_eq_some_iff.mp right
  exact .inr rfl

/-- The mark of a share rule is read when the rule has entries, and written otherwise. -/
theorem qmarkAllocMarkAuto_alike (alike : Alike a b) :
    Coupled SameResults (qmarkAllocMarkAuto env ip id mark a)
      (qmarkAllocMarkAuto env ip id mark b) := by
  cases alike with
  | @intro s ta tb tables =>
    unfold qmarkAllocMarkAuto
    apply Coupled.ite
    · intro _
      exact .ok ⟨rfl, rfl, .intro s tables⟩
    · intro _
      apply (ruleAt_alike tables).bind
      rintro ra rb ⟨alike, left, right⟩
      rw [alike.modes, alike.counts]
      apply Coupled.ite
      · intro isPrivate
        apply (qmarkAllocMark_alike s ta tb).bind
        rintro ⟨ret, mark', a₁⟩ ⟨_, _, b₁⟩ ⟨rfl, rfl, s₁, same, rfl, rfl⟩
        have tables₁ : TablesAlike (indexed s₁) ta tb := same ▸ tables
        apply Coupled.ite
        · intro _
          exact .ok ⟨rfl, rfl, .intro s₁ tables₁⟩
        · intro _
          apply allocMarkAutoAdd_alike tables₁
          intro ra' rb' left' _
          rw [left] at left'
          cases left'
          exact .inl isPrivate.symm
      · intro isShare
        apply Coupled.ite
        · intro _
          apply (qmarkAllocMark_alike s ta tb).bind
          rintro ⟨ret, mark', a₁⟩ ⟨_, _, b₁⟩ ⟨rfl, rfl, s₁, same, rfl, rfl⟩
          have tables₁ : TablesAlike (indexed s₁) ta tb := same ▸ tables
          apply Coupled.ite
          · intro _
            exact .ok ⟨rfl, rfl, .intro s₁ tables₁⟩
          · intro _
            apply (modifyRule_alike tables₁ (fun _ _ => rfl) ?_).bind
            · rintro _ _ ⟨rfl, rfl, tables₂⟩
              exact allocMarkAutoAdd_alike tables₂ (agree_of_stored id mark' ta tb)
            · intro ra' rb' _ _ alike'
              refine ⟨?_, alike'.count, .inr (.inr rfl)⟩
              rw [alike'.same]
        · intro used
          -- the rule has entries, so the marks are the same
          have same : rb.mark = ra.mark := by
            rcases alike.mark with isPrivate | none | same
            · exact absurd isPrivate.symm isShare
            · rw [alike.count, none] at used
              exact absurd rfl used
            · exact same
          rw [same]
          apply allocMarkAutoAdd_alike tables
          intro ra' rb' left' right'
          rw [left] at left'
          rw [right] at right'
          cases left'
          cases right'
          exact .inr same

theorem qmarkFindHash_alike (alike : Alike a b) : qmarkFindHash ip b = qmarkFindHash ip a := by
  obtain ⟨s, _⟩ := alike
  rfl

theorem qmarkHandle_alike (skb : SkBuff) (info : TgInfo) (alike : Alike a b) :
    Coupled SameResult (qmarkHandle env skb info a) (qmarkHandle env skb info b) := by
  unfold qmarkHandle
  rw [qmarkFindHash_alike alike]
  apply (Coupled.self (qmarkFindHash (info.ipAddr skb) a)).bind
  rintro ⟨code, mark⟩ _ ⟨rfl, _⟩
  apply Coupled.ite
  · intro _
    apply (qmarkAllocMarkAuto_alike alike).bind
    rintro ⟨ret, mark', a'⟩ ⟨_, _, b'⟩ ⟨rfl, rfl, alike'⟩
    apply Coupled.ite
    · intro _
      exact .ok ⟨rfl, alike'⟩
    · intro _
      exact .ok ⟨rfl, alike'⟩
  · intro _
    exact .ok ⟨rfl, alike⟩

/-! ## Release -/

theorem qosMarktblHashtblDel_alike (alike : Alike a b) :
    Coupled SameResults (qosMarktblHashtblDel ip a) (qosMarktblHashtblDel ip b) := by
  apply (marktblHashRemove_alike alike).bind
  rintro ⟨ret, node, a'⟩ ⟨_, _, b'⟩ ⟨rfl, rfl, alike'⟩
  dsimp only
  split
  · exact .ok ⟨rfl, rfl, alike'⟩
  · exact .ok ⟨rfl, rfl, alike'⟩

theorem marktblHashGet_alike (alike : Alike a b) : marktblHashGet ip b = marktblHashGet ip a := by
  obtain ⟨s, _⟩ := alike
  rfl

theorem qmarkDelHash_alike (alike : Alike a b) :
    Coupled SameResults (qmarkDelHash ip mark a) (qmarkDelHash ip mark b) := by
  unfold qmarkDelHash
  -- the hash tables are equal; only `rule.mark` of a rule without entries may differ
  rw [marktblHashGet_alike alike]
  apply (Coupled.self (marktblHashGet ip a)).bind
  rintro node _ ⟨rfl, _⟩
  cases node with
  | none => exact .ok ⟨rfl, rfl, alike⟩
  | some node =>
    apply (setCount_alike atomicDec alike).bind
    intro a₁ b₁ alike₁
    apply Coupled.ite
    · intro _
      apply (qosMarktblHashtblDel_alike alike₁).bind
      rintro ⟨ret, mark', a₂⟩ ⟨_, _, b₂⟩ ⟨rfl, rfl, alike₂⟩
      obtain ⟨s₂, tables₂⟩ := alike₂
      apply (ruleAt_alike tables₂).bind
      rintro ra rb ⟨alike, _, _⟩
      simp only [← alike.branch]
      apply Coupled.ite
      · intro _
        apply (modifyRule_keeps clearMark_keeps (.intro s₂ tables₂)).bind
        intro a₃ b₃ alike₃
        apply (freeMark_alike alike₃).bind
        intro a₄ b₄ alike₄
        exact .ok ⟨rfl, rfl, alike₄⟩
      · intro _
        exact .ok ⟨rfl, rfl, .intro s₂ tables₂⟩
    · intro _
      exact .ok ⟨rfl, rfl, alike₁⟩

theorem conntrackDestroy_alike (alike : Alike a b) :
    Coupled Alike (conntrackDestroy env ip a) (conntrackDestroy env ip b) := by
  unfold conntrackDestroy
  rw [marktblHashGet_alike alike]
  apply (Coupled.self (marktblHashGet ip a)).bind
  rintro node _ ⟨rfl, _⟩
  cases node with
  | none => exact .ok alike
  | some node =>
    apply (setCount_alike atomicDec alike).bind
    intro a₁ b₁ alike₁
    apply Coupled.ite
    · intro _
      apply (qosMarktblHashtblDel_alike alike₁).bind
      rintro ⟨ret, mark', a₂⟩ ⟨_, _, b₂⟩ ⟨rfl, rfl, alike₂⟩
      obtain ⟨s₂, tables₂⟩ := alike₂
      apply (ruleAt_alike tables₂).bind
      rintro ra rb ⟨alike, _, _⟩
      simp only [← alike.branch]
      apply Coupled.ite
      · intro _
        apply (modifyRule_keeps clearMark_keeps (.intro s₂ tables₂)).bind
        intro a₃ b₃ alike₃
        -- `rule.mark` is cleared in both before the rule is handed on
        obtain ⟨s₃, tables₃⟩ := alike₃
        apply (ruleAt_alike tables₃).bind
        rintro ra' rb' ⟨alike', _, _⟩
        apply (qmarkTcDelRule_alike env mark' tables₃ alike').bind
        intro a₄ b₄ alike₄
        exact freeMark_alike alike₄
      · intro _
        exact .ok (.intro s₂ tables₂)
    · intro _
      exact .ok alike₁

theorem conntrackMark_alike (alike : Alike a b) :
    Coupled Alike (conntrackMark ip a) (conntrackMark ip b) := by
  unfold conntrackMark
  rw [marktblHashGet_alike alike]
  apply (Coupled.self (marktblHashGet ip a)).bind
  rintro node _ ⟨rfl, _⟩
  cases node with
  | none => exact .ok alike
  | some node => exact setCount_alike atomicInc alike

theorem qmarkConntrackEvent_alike (events : Nat) (ct : Option NfConn) (alike : Alike a b) :
    Coupled Alike (qmarkConntrackEvent env events ct a) (qmarkConntrackEvent env events ct b) := by
  cases ct with
  | none => exact .ok alike
  | some ct =>
    apply Coupled.ite
    · intro _
      apply Coupled.ite
      · intro _
        exact conntrackDestroy_alike alike
      · intro _
        apply Coupled.ite
        · intro _
          exact conntrackMark_alike alike
        · intro _
          exact .ok alike
    · intro _
      exact .ok alike

/-! ## Operations from states alike -/

/-- `RULE_ADD` keeps the mode of a rule that has entries. -/
def KeepsMode (qr : QmarkRule) (s : St) : Prop :=
  indexed s (subU32 qr.id 1) = 0 ∨ (ruleAt qr.id s).map RuletblNode.mode = .ok qr.mode

instance (qr : QmarkRule) (s : St) : Decidable (KeepsMode qr s) :=
  inferInstanceAs (Decidable (_ ∨ _))

/-- The operations that may tell two states apart. -/
def Observing (l : Env × Op) (s : St) : Prop :=
  match l.2 with
  | .packet _ _ | .conntrack _ _ | .ioctl (.hashDel _) | .ioctl (.hashChk _) => True
  | .ioctl (.ruleAdd qr) => KeepsMode qr s
  | _ => False

theorem qmarkAddRule_alike {qr : QmarkRule} (alike : Alike a b) (keeps : KeepsMode qr a) :
    Coupled Alike
      (qmarkAddRule qr.id qr.mode qr.devid qr.rate qr.rateMate qr.rateMin qr.rateMinMate a)
      (qmarkAddRule qr.id qr.mode qr.devid qr.rate qr.rateMate qr.rateMin qr.rateMinMate b) := by
  cases alike with
  | @intro s ta tb tables =>
    apply (modifyRule_alike tables (fun _ _ => rfl) ?_).mono
    · rintro _ _ ⟨rfl, rfl, tables'⟩
      exact .intro s tables'
    · intro ra rb left _ alike
      refine ⟨?_, alike.count, ?_⟩
      · rw [alike.same]
      · rcases keeps with none | mode
        · exact .inr (.inl none)
        · have here : ruleAt qr.id (s.setRules ta) = .ok ra := by
            unfold ruleAt
            rw [deref_setRules, ok_bind, left]
          rw [here] at mode
          have mode : ra.mode = qr.mode := Except.ok.inj mode
          rw [← mode]
          exact alike.mark

theorem afterCopy_alike {x y : Except Oops (Reply × St)} (alike : Alike a b)
    (body : Coupled SameResult x y) :
    Coupled SameResult (afterCopy env a x) (afterCopy env b y) := by
  apply Coupled.ite
  · intro _
    exact .ok ⟨rfl, alike⟩
  · intro _
    exact body

theorem qmarkCdevIoctl_alike {cmd : QmarkIoc} (alike : Alike a b)
    (observing : Observing (env, .ioctl cmd) a) :
    Coupled SameResult (qmarkCdevIoctl env cmd a) (qmarkCdevIoctl env cmd b) := by
  cases cmd with
  | ruleAdd qr =>
    apply afterCopy_alike alike
    apply (qmarkAddRule_alike alike observing).bind
    intro a' b' alike'
    exact .ok ⟨rfl, alike'⟩
  | hashDel qh =>
    apply afterCopy_alike alike
    apply Coupled.ite
    · intro _
      exact .ok ⟨rfl, alike⟩
    · intro _
      apply (qmarkDelHash_alike alike).bind
      rintro ⟨ret, mark, a'⟩ ⟨_, _, b'⟩ ⟨rfl, rfl, alike'⟩
      apply Coupled.ite
      · intro _
        exact .ok ⟨rfl, alike'⟩
      · intro _
        exact .ok ⟨rfl, alike'⟩
  | hashChk qh =>
    apply afterCopy_alike alike
    rw [qmarkFindHash_alike alike]
    apply Coupled.ite
    · intro _
      exact .ok ⟨rfl, alike⟩
    · intro _
      apply (Coupled.self (qmarkFindHash qh.ip a)).bind
      rintro ⟨code, mark⟩ _ ⟨rfl, _⟩
      apply Coupled.ite
      · intro _
        exact .ok ⟨rfl, alike⟩
      · intro _
        exact .ok ⟨rfl, alike⟩
  -- the other commands do not observe
  | _ => exact observing.elim

theorem exec_alike {op : Op} (alike : Alike a b) (observing : Observing (env, op) a) :
    Coupled SameResult (exec env op a) (exec env op b) := by
  cases op with
  | ioctl cmd =>
    apply (qmarkCdevIoctl_alike alike observing).bind
    rintro ⟨r, a'⟩ ⟨_, b'⟩ ⟨rfl, alike'⟩
    exact .ok ⟨rfl, alike'⟩
  | packet skb info =>
    apply (qmarkHandle_alike skb info alike).bind
    rintro ⟨skb', a'⟩ ⟨_, b'⟩ ⟨rfl, alike'⟩
    exact .ok ⟨rfl, alike'⟩
  | conntrack events ct =>
    apply (qmarkConntrackEvent_alike events ct alike).bind
    intro a' b' alike'
    exact .ok ⟨rfl, alike'⟩

/-- Operations one after the other return the same from states alike. -/
theorem execAll_alike {ops : List (Env × Op)} (alike : Alike a b)
    (allowed : Allowed opStep Observing ops a) :
    Coupled SameResult (execAll ops a) (execAll ops b) := by
  induction ops generalizing a b with
  | nil => exact .ok ⟨rfl, alike⟩
  | cons l ops ih =>
    obtain ⟨env, op⟩ := l
    obtain ⟨observing, rest⟩ := allowed
    apply (exec_alike alike observing).known.bind
    rintro ⟨out, a'⟩ ⟨_, b'⟩ ⟨⟨rfl, alike'⟩, ran⟩
    have stepped : opStep (env, op) a = .ok a' := by
      unfold opStep
      rw [ran]
      rfl
    rw [stepped] at rest
    apply (ih alike' rest).bind
    rintro ⟨outs, a''⟩ ⟨_, b''⟩ ⟨rfl, alike''⟩
    exact .ok ⟨rfl, alike''⟩

end

end IpQos.Verified
