import IpQos.Verified.Indexed

/-! # Accesses out of range

The module checks no id, no mark and no size that it is given.  `InRange` says of an
operation and the state it meets whether every access it makes stays inside the tables;
it is exact in every state that operations lead to, whatever allocations failed on the
way. -/

namespace IpQos.Verified

open IpQos.Kmod
open IpQos.Lib (Ensures Run Allowed runAll)

variable {env : Env} {s s' : St}

/-! ## The condition -/

/-- Nothing refuses the entry of a `HASH_ADD` before its id is used. -/
def Insertable (env : Env) (qh : QmarkHash) (s : St) : Prop :=
  testMark qh.mark s = .ok true ∧ elemOverLimit s = .ok false ∧
    marktblHashGet qh.ip s = .ok none ∧ env.kmalloc .marktblNode = true

/-- The mark that a further member of a share rule is given. -/
def MemberFits (id : Nat) (s : St) : Prop :=
  match ruleAt id s with
  | .ok rn => rn.mode ≠ privMode → rn.count ≠ 0 → MarkFits rn.mark s
  | .error _ => True

def CmdInRange (env : Env) (cmd : QmarkIoc) (s : St) : Prop :=
  match cmd with
  | .ruleAdd qr | .ruleDel qr => 0 ≤ env.copyFromUser → IdFits qr.id s
  | .hashAdd qh => 0 ≤ env.copyFromUser → qh.ip ≠ 0 →
      MarkFits qh.mark s ∧ (Insertable env qh s → IdFits qh.id s)
  | .hashDel qh | .hashChk qh => 0 ≤ env.copyFromUser → qh.ip ≠ 0 → Bucketed s
  | .markFree mark => 0 ≤ env.copyFromUser → MarkFits mark s
  | .tcAdd | .tcDel => IdFits 1 s
  | _ => True

/-- A packet uses its rule only when its address has no entry. -/
def PacketInRange (skb : SkBuff) (info : TgInfo) (s : St) : Prop :=
  Bucketed s ∧ (marktblHashGet (info.ipAddr skb) s = .ok none → s.resetFlag = false →
    IdFits info.id s ∧ MemberFits info.id s)

def EventInRange (events : Nat) (ct : Option NfConn) (s : St) : Prop :=
  match ct with
  | none => True
  | some ct => ct.tracked = true →
      events &&& ipctDestroy ≠ 0 ∨ events &&& ipctMark ≠ 0 → Bucketed s

def InRange (l : Env × Op) (s : St) : Prop :=
  match l.2 with
  | .ioctl cmd => CmdInRange l.1 cmd s
  | .packet skb info => PacketInRange skb info s
  | .conntrack events ct => EventInRange events ct s

/-- The states that operations lead to from module init, also when allocations fail. -/
def Reached (s : St) : Prop :=
  ∃ env, (qosMarktblInit env).1 = .ok ∧
    Run opStep (fun l _ => l.2.Words) (qosMarktblInit env).2 s

/-! ## The condition is enough -/

theorem MemberFits.of_ruleAt {id : Nat} (fits : MemberFits id s) {rn : RuletblNode}
    (found : ruleAt id s = .ok rn) (shared : rn.mode ≠ privMode) (members : rn.count ≠ 0) :
    MarkFits rn.mark s := by
  unfold MemberFits at fits
  rw [found] at fits
  exact fits shared members

/-- The listing commands read the tables from the front, up to their sizes. -/
theorem ensures_walkTable {G : Prop} {α : Type} (p : Ptr (List α)) (cnt : Nat) :
    Ensures (Straying G) (fun _ => True) (walkTable p cnt) := by
  apply Ensures.ite
  · intro _
    exact .ok trivial
  · intro _
    apply (ensures_deref p).bind
    intro tbl _
    apply Ensures.ite
    · intro _
      exact .error Straying.overrun
    · intro _
      exact .ok trivial

theorem ensures_marktblHashList {G : Prop} (s : St) :
    Ensures (Straying G) (fun _ => True) (marktblHashList s) :=
  (ensures_deref _).bind fun _ _ => .ok trivial

namespace Indexed

theorem afterCopy {G : Prop} (indexed : Indexed s) {body : Except Oops (Reply × St)}
    (runs : 0 ≤ env.copyFromUser → Ensures (Straying G) (fun r => Indexed r.2) body) :
    Ensures (Straying G) (fun r => Indexed r.2) (Kmod.afterCopy env s body) := by
  apply Ensures.ite
  · intro _
    exact .ok indexed
  · intro copied
    exact runs (Int.not_lt.mp copied)

/-- A command that returns nothing but the state. -/
theorem replied {G : Prop} {x : Except Oops St} (r : Reply)
    (ran : Ensures (Straying G) Indexed x) :
    Ensures (Straying G) (fun r => Indexed r.2) (x >>= fun s => .ok (r, s)) :=
  ran.bind fun _ indexed => .ok indexed

/-- A command that only prints. -/
theorem printed {G : Prop} (indexed : Indexed s) {x : Except Oops Unit}
    (ran : Ensures (Straying G) (fun _ => True) x) :
    Ensures (Straying G) (fun r => Indexed r.2) (x >>= fun _ => .ok (Reply.done, s)) :=
  ran.bind fun _ _ => .ok indexed

theorem qmarkCdevIoctl (indexed : Indexed s) (env : Env) {cmd : QmarkIoc} (words : (Op.ioctl cmd).Words) :
    Ensures (Straying (CmdInRange env cmd s)) (fun r => Indexed r.2)
      (Kmod.qmarkCdevIoctl env cmd s) := by
  cases cmd with
  | ruleAdd qr =>
    apply indexed.afterCopy
    intro copied
    have added := indexed.modifyRule (f := fun rn => { rn with
      on := true, mode := qr.mode, devid := qr.devid, rate := qr.rate, rateMate := qr.rateMate,
      rateMin := qr.rateMin, rateMinMate := qr.rateMinMate }) words
      (fun inRange : CmdInRange env (.ruleAdd qr) s => inRange copied) (fun _ kept => kept)
    exact replied .done (added.mono fun _ h => h.1)
  | ruleDel qr =>
    apply indexed.afterCopy
    intro copied
    have cleared := indexed.modifyRule (f := fun _ => .zero) words
      (fun inRange : CmdInRange env (.ruleDel qr) s => inRange copied) (fun _ _ => .inl rfl)
    -- `memset` and the assignment after it write the same record
    have off : Ensures (Straying (CmdInRange env (.ruleDel qr) s)) Indexed
        (Kmod.qmarkDelRule qr.id s) := by
      apply cleared.bind
      rintro s₁ ⟨indexed₁, valid, _, ruleCnt, _, _⟩
      have again := indexed₁.modifyRule (G := CmdInRange env (.ruleDel qr) s)
        (f := fun rn => { rn with on := false }) words (fun _ _ => ruleCnt ▸ valid)
        (fun _ kept => kept)
      exact again.mono fun _ h => h.1
    exact replied .done off
  | ruleFlush => exact .ok (indexed.qmarkFlushRule env)
  | hashAdd qh =>
    apply indexed.afterCopy
    intro copied
    apply Ensures.ite
    · intro _
      exact .ok indexed
    · intro nonzero
      have add := indexed.qmarkAddHash (G := CmdInRange env (.hashAdd qh) s) env qh.ip
        words.1 words.2 (fun inRange => (inRange copied nonzero).1)
        (fun inRange test limited get kmalloc =>
          (inRange copied nonzero).2 ⟨test, limited, get, kmalloc⟩)
      apply add.bind
      rintro ⟨ret, s₁⟩ ⟨indexed₁, _⟩
      apply Ensures.ite
      · intro _
        exact .ok indexed₁
      · intro _
        exact .ok indexed₁
  | hashDel qh =>
    apply indexed.afterCopy
    intro copied
    apply Ensures.ite
    · intro _
      exact .ok indexed
    · intro nonzero
      have del := indexed.qmarkDelHash qh.ip 0
        (fun inRange : CmdInRange env (.hashDel qh) s => inRange copied nonzero)
      apply del.bind
      rintro ⟨ret, mark, s₁⟩ indexed₁
      apply Ensures.ite
      · intro _
        exact .ok indexed₁
      · intro _
        exact .ok indexed₁
  | hashChk qh =>
    apply indexed.afterCopy
    intro copied
    apply Ensures.ite
    · intro _
      exact .ok indexed
    · intro nonzero
      -- only the bucket of the address is looked at
      have get := indexed.marktblHashGet qh.ip
        (fun inRange : CmdInRange env (.hashChk qh) s => inRange copied nonzero)
      have find : Ensures (Straying (CmdInRange env (.hashChk qh) s)) (fun _ => True)
          (Kmod.qmarkFindHash qh.ip s) := by
        apply get.bind
        intro found _
        cases found with
        | none => exact .ok trivial
        | some e => exact .ok trivial
      apply find.bind
      intro r _
      apply Ensures.ite
      · intro _
        exact .ok indexed
      · intro _
        exact .ok indexed
  | hashFlush => exact replied .done (indexed.qmarkFlushHash env)
  | markAlo =>
    apply indexed.qmarkAllocMark.bind
    rintro ⟨ret, mark, s₁⟩ ⟨indexed₁, _⟩
    apply Ensures.ite
    · intro _
      exact .ok indexed₁
    · intro _
      exact .ok indexed₁
  | markFree mark =>
    apply indexed.afterCopy
    intro copied
    exact replied .done (indexed.freeMark words
      fun inRange : CmdInRange env (.markFree mark) s => inRange copied)
  | markFlush => exact replied .done indexed.flushMark
  | reset flag =>
    apply indexed.afterCopy
    intro _
    exact replied .done (indexed.qmarkReset env flag)
  | netdevSet lanDev wanDev =>
    apply indexed.afterCopy
    intro _
    exact .ok (indexed.others ..)
  | specSet maxIpCnt maxRuleCnt =>
    apply indexed.afterCopy
    intro _
    exact replied .done (qmarkSetSpec env words.1 words.2 s)
  | tcAdd =>
    apply (indexed.ruleAt (by decide) (G := CmdInRange env .tcAdd s) id).bind
    intro rn _
    exact replied .done (indexed.qmarkTcAddRule env rn _)
  | tcDel =>
    apply (indexed.ruleAt (by decide) (G := CmdInRange env .tcDel s) id).bind
    intro rn _
    exact replied .done ((indexed.qmarkTcDelRule env rn _).mono fun _ kept => kept.1)
  | ruleLst => exact indexed.printed (ensures_walkTable _ _)
  | hashLst => exact indexed.printed (ensures_marktblHashList s)
  | dump =>
    apply indexed.printed
    apply (ensures_walkTable _ _).bind
    intro _ _
    apply (ensures_marktblHashList s).bind
    intro _ _
    exact ensures_walkTable _ _

theorem qmarkConntrackEvent (indexed : Indexed s) (env : Env) (events : Nat) (ct : Option NfConn) :
    Ensures (Straying (EventInRange events ct s)) Indexed
      (Kmod.qmarkConntrackEvent env events ct s) := by
  cases ct with
  | none => exact .ok indexed
  | some ct =>
    apply Ensures.ite
    · intro tracked
      apply Ensures.ite
      · intro destroys
        apply indexed.conntrackDestroy
        exact fun inRange => inRange tracked (.inl destroys)
      · intro _
        apply Ensures.ite
        · intro marks
          apply indexed.conntrackMark
          exact fun inRange => inRange tracked (.inr marks)
        · intro _
          exact .ok indexed
    · intro _
      exact .ok indexed

/-- Every operation keeps the indices, and one that is in range does not stray. -/
theorem step (indexed : Indexed s) {l : Env × Op} (words : l.2.Words) :
    Ensures (Straying (InRange l s)) Indexed (opStep l s) := by
  obtain ⟨env, op⟩ := l
  cases op with
  | ioctl cmd =>
    exact ensures_outcome (indexed.qmarkCdevIoctl env words)
  | packet skb info =>
    have ran := indexed.qmarkHandle env skb info words.2
      (fun inRange : PacketInRange skb info s => inRange.1)
      (fun inRange missed flag => ⟨(inRange.2 missed flag).1, fun _ found shared members =>
        (inRange.2 missed flag).2.of_ruleAt found shared members⟩)
    exact ensures_outcome ran
  | conntrack events ct =>
    exact ensures_outcome (indexed.qmarkConntrackEvent env events ct)

theorem markBitmapExit (indexed : Indexed s) : Indexed (Kmod.markBitmapExit s) := by
  refine ⟨indexed.ipCnt_lt, indexed.ruleCnt_lt, ?_, indexed.rules, indexed.head⟩
  intro bm live
  cases live

theorem qosRuletblExit (indexed : Indexed s) : Indexed (Kmod.qosRuletblExit s) := by
  refine ⟨indexed.ipCnt_lt, indexed.ruleCnt_lt, indexed.bits, ?_, indexed.head⟩
  intro tbl live
  cases live

theorem init (env : Env) : Indexed (qosMarktblInit env).2 := by
  have static : Indexed St.static := of_absent (by decide) (by decide) rfl rfl rfl
  have bits : Indexed (Kmod.markBitmapInit env St.static.maxIpCnt St.static).2 :=
    static.markBitmapInit env rfl
  unfold qosMarktblInit
  dsimp only
  split
  · rename_i s₁ ran₁
    rw [ran₁] at bits
    have rules := bits.qosRuletblInit env
    dsimp only at rules ⊢
    split
    · rename_i s₂ ran₂
      rw [ran₂] at rules
      have head := rules.qosMarktblHashtblInit (G := True) env
      dsimp only at head ⊢
      split
      · rename_i s₃ ran₃
        rw [ran₃] at head
        exact head.returned
      · rename_i ran₃
        rw [ran₃] at head
        exact head.returned.qosRuletblExit.markBitmapExit
      -- the branch of an overrun, which the default size never takes
      · exact rules
    · rename_i ran₂
      rw [ran₂] at rules
      exact rules.markBitmapExit
  · rename_i ran₁
    rw [ran₁] at bits
    exact bits

end Indexed

theorem Reached.indexed (reached : Reached s) : Indexed s := by
  obtain ⟨env, _, run⟩ := reached
  apply run.invariant Indexed (Indexed.init env)
  intro l y z indexed words stepped
  have ensures := indexed.step words
  rw [stepped] at ensures
  exact ensures.returned

/-! ## The condition is necessary -/

def Strays {α : Type} (x : Except Oops α) : Prop := ∃ e, x = .error e ∧ e.Stray

namespace Strays

theorem beyond {α : Type} {i size : Nat} (past : ¬ i < size) :
    Strays (.error (.beyond i size) : Except Oops α) := ⟨_, rfl, Oops.beyond_stray past⟩

theorem bind {α β : Type} {x : Except Oops α} {f : α → Except Oops β} (strays : Strays x) :
    Strays (x >>= f) := by
  obtain ⟨e, rfl, stray⟩ := strays
  exact ⟨e, rfl, stray⟩

theorem afterCopy {body : Except Oops (Reply × St)} (copied : 0 ≤ env.copyFromUser)
    (strays : Strays body) : Strays (Kmod.afterCopy env s body) := by
  unfold Kmod.afterCopy
  rw [if_neg (Int.not_lt.mpr copied)]
  exact strays

theorem of_isLive {α : Type} {p : Ptr α} (live : p.isLive = true) : ∃ a, p = .to a := by
  match p with
  | .null => cases live
  | .dangling => cases live
  | .to a => exact ⟨a, rfl⟩

variable (indexed : Indexed s)
include indexed

theorem ruleAt {id : Nat} (word : id < 2 ^ 32) (outside : ¬ IdFits id s) :
    Strays (Kmod.ruleAt id s) := by
  obtain ⟨isLive, notInTable⟩ := Classical.not_imp.mp outside
  obtain ⟨tbl, live⟩ := of_isLive isLive
  have past : ¬ subU32 id 1 < s.maxRuleCnt :=
    fun below => notInTable ((subU32_lt_iff word indexed.ruleCnt_lt).mp below)
  have none : tbl[subU32 id 1]? = none :=
    List.getElem?_eq_none_iff.mpr ((indexed.rules_le live).trans (Nat.le_of_not_lt past))
  unfold Kmod.ruleAt
  rw [live, Ptr.deref_to, ok_bind, none]
  exact beyond past

theorem modifyRule {id : Nat} {f : RuletblNode → RuletblNode} (word : id < 2 ^ 32)
    (outside : ¬ IdFits id s) : Strays (Kmod.modifyRule id f s) := by
  obtain ⟨isLive, notInTable⟩ := Classical.not_imp.mp outside
  obtain ⟨tbl, live⟩ := of_isLive isLive
  have past : ¬ subU32 id 1 < s.maxRuleCnt :=
    fun below => notInTable ((subU32_lt_iff word indexed.ruleCnt_lt).mp below)
  have absent : ¬ subU32 id 1 < tbl.length :=
    fun below => past (Nat.lt_of_lt_of_le below (indexed.rules_le live))
  unfold Kmod.modifyRule
  rw [live, Ptr.deref_to, ok_bind, if_neg absent]
  exact beyond past

theorem bitmap {mark : Nat} (word : mark < 2 ^ 32) (outside : ¬ MarkFits mark s) :
    ∃ bm, s.markBitmap = .to bm ∧ ¬ subU32 (mark >>> markBase) 1 < s.maxIpCnt ∧
      bm.length ≤ subU32 (mark >>> markBase) 1 := by
  obtain ⟨isLive, notInTable⟩ := Classical.not_imp.mp outside
  obtain ⟨bm, live⟩ := of_isLive isLive
  have past : ¬ subU32 (mark >>> markBase) 1 < s.maxIpCnt :=
    fun below => notInTable ((indexed.markIndex word).mp below)
  exact ⟨bm, live, past, (indexed.bits_le live).trans (Nat.le_of_not_lt past)⟩

theorem testMark {mark : Nat} (word : mark < 2 ^ 32) (outside : ¬ MarkFits mark s) :
    Strays (Kmod.testMark mark s) := by
  obtain ⟨bm, live, past, absent⟩ := bitmap indexed word outside
  unfold Kmod.testMark
  rw [live, Ptr.deref_to, ok_bind, readBit, List.getElem?_eq_none_iff.mpr absent]
  exact beyond past

theorem freeMark {mark : Nat} (word : mark < 2 ^ 32) (outside : ¬ MarkFits mark s) :
    Strays (Kmod.freeMark mark s) := by
  obtain ⟨bm, live, past, absent⟩ := bitmap indexed word outside
  unfold Kmod.freeMark
  rw [live, Ptr.deref_to, ok_bind, writeBit, if_neg (Nat.not_lt.mpr absent)]
  exact (beyond past).bind

theorem marktblHashGet (key : Be32) (outside : ¬ Bucketed s) : Strays (Kmod.marktblHashGet key s) := by
  obtain ⟨isLive, empty⟩ := Classical.not_imp.mp outside
  obtain ⟨head, live⟩ := of_isLive isLive
  have zero : head.size = 0 := by
    rw [(indexed.head head live).2.1]
    exact Nat.eq_zero_of_not_pos empty
  unfold Kmod.marktblHashGet hashIndex
  rw [live, Ptr.deref_to, ok_bind, if_pos zero]
  exact ⟨.remainderByZero, rfl, trivial⟩

theorem qmarkAddHash {qh : QmarkHash} (words : qh.id < 2 ^ 32 ∧ qh.mark < 2 ^ 32)
    (outside : ¬ (MarkFits qh.mark s ∧ (Insertable env qh s → IdFits qh.id s))) :
    Strays (Kmod.qmarkAddHash env qh.ip qh.id qh.mark s) := by
  -- the test of the mark comes first, the rule of the id last
  by_cases fits : MarkFits qh.mark s
  · obtain ⟨insertable, idOutside⟩ := Classical.not_imp.mp (not_and.mp outside fits)
    obtain ⟨test, limited, get, kmalloc⟩ := insertable
    obtain ⟨head, i, chain, live, index, here, miss⟩ :
        ∃ head i chain, s.gMarktblHead.deref = .ok head ∧ hashIndex head qh.ip = .ok i ∧
          bucket head i = .ok chain ∧ chain.find? (marktblHashCmp qh.ip) = none := by
      obtain ⟨head, live, get⟩ := bind_eq_ok get
      obtain ⟨i, index, get⟩ := bind_eq_ok get
      obtain ⟨chain, here, get⟩ := bind_eq_ok get
      exact ⟨head, i, chain, live, index, here, Except.ok.inj get⟩
    -- nothing refuses the entry on the way, so its rule counts it
    have counts := modifyRule (f := fun rn => { rn with count := atomicInc rn.count }) indexed
      words.1 idOutside
    simp only [Kmod.qmarkAddHash, qosMarktblHashtblAdd, Kmod.marktblHashAdd, test, limited, ok_bind,
      live, index, here, miss, kmalloc, Bool.not_true, Bool.false_eq_true, if_false, if_true]
    exact counts.bind
  · exact (testMark indexed words.2 fits).bind

theorem qmarkHandle {skb : SkBuff} {info : TgInfo} (words : info.id < 2 ^ 32)
    (outside : ¬ PacketInRange skb info s) : Strays (Kmod.qmarkHandle env skb info s) := by
  by_cases bucketed : Bucketed s
  · have missed := not_and.mp outside bucketed
    obtain ⟨get, missed⟩ := Classical.not_imp.mp missed
    obtain ⟨flag, ruleOutside⟩ := Classical.not_imp.mp missed
    -- a packet without entry goes on to the rule of its id
    have find : qmarkFindHash (info.ipAddr skb) s = .ok (.noExist, 0) := by
      unfold qmarkFindHash qosMarktblHashtblGet
      rw [get]
      rfl
    have notSet : ¬ s.resetFlag = true := Bool.eq_false_iff.mp flag
    unfold Kmod.qmarkHandle
    rw [find, ok_bind]
    dsimp only
    rw [if_pos rfl]
    apply Strays.bind
    unfold qmarkAllocMarkAuto
    rw [if_neg notSet]
    by_cases idFits : IdFits info.id s
    · have outsideMember := not_and.mp ruleOutside idFits
      unfold MemberFits at outsideMember
      split at outsideMember
      · rename_i rn found
        obtain ⟨shared, outsideMember⟩ := Classical.not_imp.mp outsideMember
        obtain ⟨members, markOutside⟩ := Classical.not_imp.mp outsideMember
        have kept := (indexed.ruleAt (G := False) words False.elim)
        rw [found] at kept
        rw [found, ok_bind, if_neg (fun priv => shared priv.symm),
          if_neg (fun zero => members zero.symm)]
        -- a member borrows the mark of its rule, which is tested first
        have word := Indexed.kept_word kept.returned.2
        exact ((testMark indexed word markOutside).bind).bind
      · exact absurd trivial outsideMember
    · exact (ruleAt indexed words idFits).bind
  · exact ((marktblHashGet indexed _ bucketed).bind).bind

theorem qmarkCdevIoctl {cmd : QmarkIoc} (words : (Op.ioctl cmd).Words)
    (outside : ¬ CmdInRange env cmd s) : Strays (Kmod.qmarkCdevIoctl env cmd s) := by
  cases cmd with
  | ruleAdd qr =>
    obtain ⟨copied, idOutside⟩ := Classical.not_imp.mp outside
    exact afterCopy copied (modifyRule indexed words idOutside).bind
  | ruleDel qr =>
    obtain ⟨copied, idOutside⟩ := Classical.not_imp.mp outside
    exact afterCopy copied ((modifyRule indexed words idOutside).bind).bind
  | hashAdd qh =>
    obtain ⟨copied, outside⟩ := Classical.not_imp.mp outside
    obtain ⟨nonzero, outside⟩ := Classical.not_imp.mp outside
    apply afterCopy copied
    rw [if_neg nonzero]
    exact (qmarkAddHash indexed words outside).bind
  | hashDel qh =>
    obtain ⟨copied, outside⟩ := Classical.not_imp.mp outside
    obtain ⟨nonzero, unbucketed⟩ := Classical.not_imp.mp outside
    apply afterCopy copied
    rw [if_neg nonzero]
    exact ((marktblHashGet indexed qh.ip unbucketed).bind).bind
  | hashChk qh =>
    obtain ⟨copied, outside⟩ := Classical.not_imp.mp outside
    obtain ⟨nonzero, unbucketed⟩ := Classical.not_imp.mp outside
    apply afterCopy copied
    rw [if_neg nonzero]
    exact ((marktblHashGet indexed qh.ip unbucketed).bind).bind
  | markFree mark =>
    obtain ⟨copied, markOutside⟩ := Classical.not_imp.mp outside
    exact afterCopy copied (freeMark indexed words markOutside).bind
  | tcAdd => exact (ruleAt indexed (by decide) outside).bind
  | tcDel => exact (ruleAt indexed (by decide) outside).bind
  | ruleLst | ruleFlush | hashLst | hashFlush | markAlo | markFlush | dump | reset | netdevSet
  | specSet => exact absurd trivial outside

theorem qmarkConntrackEvent {events : Nat} {ct : Option NfConn}
    (outside : ¬ EventInRange events ct s) :
    Strays (Kmod.qmarkConntrackEvent env events ct s) := by
  cases ct with
  | none => exact absurd trivial outside
  | some ct =>
    obtain ⟨tracked, outside⟩ := Classical.not_imp.mp outside
    obtain ⟨handled, unbucketed⟩ := Classical.not_imp.mp outside
    have looked := marktblHashGet indexed ct.ipAddr unbucketed
    unfold Kmod.qmarkConntrackEvent
    dsimp only
    rw [if_pos tracked]
    split
    · exact looked.bind
    · rename_i notDestroy
      have marks := handled.resolve_left notDestroy
      rw [if_pos marks]
      exact looked.bind

theorem opStep {l : Env × Op} (words : l.2.Words) (outside : ¬ InRange l s) :
    Strays (Kmod.opStep l s) := by
  obtain ⟨env, op⟩ := l
  cases op with
  | ioctl cmd => exact ((qmarkCdevIoctl indexed words outside).bind).bind
  | packet skb info => exact ((qmarkHandle indexed words.2 outside).bind).bind
  | conntrack events ct => exact ((qmarkConntrackEvent indexed outside).bind).bind

end Strays

/-! ## Runs -/

/-- In every state that operations lead to, an operation stays inside the tables if and
    only if it is in range. -/
theorem in_range_iff (reached : Reached s) {l : Env × Op} (words : l.2.Words) :
    ¬ Strays (opStep l s) ↔ InRange l s := by
  constructor
  · intro safe
    by_contra outside
    exact safe (Strays.opStep reached.indexed words outside)
  · rintro inRange ⟨e, ran, stray⟩
    have ensures := reached.indexed.step words
    rw [ran] at ensures
    exact ensures.failed ⟨inRange, stray⟩

/-- One share rule with a member. -/
def memberTrace : List (Env × Op) :=
  [(plainEnv, .ioctl (.specSet 2 2)),
    (plainEnv, .ioctl (.ruleAdd ⟨1, shareMode, 2, 100, 0, 0, 0⟩)),
    (plainEnv, .packet ⟨0, 7, 9⟩ ⟨0x7f800, 1, 0⟩)]

theorem reached_of_trace (labels : List (Env × Op)) (words : ∀ l ∈ labels, l.2.Words)
    (ran : runAll opStep labels (qosMarktblInit plainEnv).2 = .ok s) : Reached s :=
  ⟨plainEnv, rfl, Run.of_runAll (Allowed.of_forall (fun l member _ => words l member) _) ran⟩

/-- A second member is in range. -/
theorem memberTrace_in_range :
    ∃ s, runAll opStep memberTrace (qosMarktblInit plainEnv).2 = .ok s ∧
      ¬ Strays (opStep (plainEnv, .packet ⟨0, 8, 9⟩ ⟨0x7f800, 1, 0⟩) s) := by
  refine ⟨_, rfl, (in_range_iff (reached_of_trace memberTrace ?_ rfl) ?_).mpr ?_⟩
  · intro l member
    simp only [memberTrace, List.mem_cons, List.not_mem_nil, or_false] at member
    rcases member with rfl | rfl | rfl
    · exact ⟨by decide, by decide⟩
    · show 1 < 2 ^ 32
      decide
    · exact ⟨by decide, by decide⟩
  · exact ⟨by decide, by decide⟩
  · refine ⟨fun _ => by decide, fun _ _ => ⟨fun _ => by decide, ?_⟩⟩
    intro _ _ _
    decide

/-- `RULE_ADD` of rule 0 writes in front of the rule table. -/
theorem ruleAdd_strays :
    ¬ ∀ (s : St) (l : Env × Op), Reached s → l.2.Words → ¬ Strays (opStep l s) := by
  intro safe
  let badRule : QmarkRule := ⟨0, privMode, 2, 100, 0, 0, 0⟩
  have words : (Op.ioctl (.ruleAdd badRule)).Words := Nat.zero_lt_succ _
  apply safe (qosMarktblInit plainEnv).2 (plainEnv, .ioctl (.ruleAdd badRule))
    ⟨plainEnv, rfl, .refl⟩ words
  apply Strays.opStep (Indexed.init plainEnv) words
  intro inRange
  have inTable : InTable 0 _ := inRange (Int.le_refl 0) rfl
  cases inTable.1

end IpQos.Verified
