import IpQos.Kmod.Lifetime
import IpQos.Lib.Coupled
import IpQos.Verified.Alike
import Mathlib.Tactic.Abel

/-! # Nothing is leaked and nothing freed twice

What the module must hold is worked out from its tables alone.  The module with its ledger
and the module without one run the same code side by side: they fail alike, and where they
succeed the ledger is what the tables own, so that unloading leaves nothing behind. -/

namespace IpQos.Verified

open IpQos.Kmod
open IpQos.Lib (Coupled contents modifyFirst release releaseAll runAll)

/-! ## What the tables own -/

def ownedIf {α : Type} (f : α → Multiset Resource) : Ptr α → Multiset Resource
  | .to a => f a
  | _ => 0

/-- The entries of the hash table, the bucket array and the head. -/
def ownedByHead (head : MarktblHead) : Multiset Resource :=
  (contents head.ht).map (fun node => .marktblNode node.srcIp) + {.marktblHt} + {.marktblHead}

/-- A dangling pointer owns nothing. -/
def owned (s : St) : Multiset Resource :=
  ownedIf (fun _ => {.markBitmap}) s.markBitmap + ownedIf (fun _ => {.ruletbl}) s.gRuletbl +
    ownedIf ownedByHead s.gMarktblHead

/-- The module with tables `s`; `d.held` is what it holds apart from them. -/
def carry (d : ModSt) (s : St) : ModSt := { d with tables := s, held := d.held + owned s }

/-- The bitmap and the rule table are never left dangling. -/
structure Anchored (s : St) : Prop where
  bits : s.markBitmap ≠ .dangling
  rules : s.gRuletbl ≠ .dangling

section

variable {env : Env} {s s' : St} {d m : ModSt} {r : Resource} {id mark : Nat} {ip : Be32}

theorem owned_bits (s : St) :
    owned s = ownedIf (fun _ => {.markBitmap}) s.markBitmap +
      owned { s with markBitmap := .null } := by
  show _ + _ + _ = _ + (0 + _ + _)
  abel

theorem owned_rules (s : St) :
    owned s = ownedIf (fun _ => {.ruletbl}) s.gRuletbl + owned { s with gRuletbl := .null } := by
  show _ + _ + _ = _ + (_ + 0 + _)
  abel

theorem owned_head (s : St) :
    owned s = ownedIf ownedByHead s.gMarktblHead + owned { s with gMarktblHead := .null } := by
  show _ + _ + _ = _ + (_ + _ + 0)
  abel

theorem owned_setBits {bm : List Bool} (live : s.markBitmap = .to bm) (bm' : List Bool) :
    owned (s.setBits bm') = owned s := by
  unfold owned
  rw [live]
  rfl

theorem owned_setRules {tbl : List RuletblNode} (live : s.gRuletbl = .to tbl)
    (tbl' : List RuletblNode) : owned (s.setRules tbl') = owned s := by
  unfold owned
  rw [live]
  rfl

theorem modifyRule_eq_setRules {f : RuletblNode → RuletblNode}
    (ran : modifyRule id f s = .ok s') :
    ∃ tbl tbl', s.gRuletbl = .to tbl ∧ s' = s.setRules tbl' := by
  obtain ⟨tbl, deref, ran⟩ := bind_eq_ok ran
  split at ran
  · cases ran
    exact ⟨tbl, _, Ptr.deref_eq_ok deref, rfl⟩
  · cases ran

theorem owned_modifyRule {f : RuletblNode → RuletblNode} (ran : modifyRule id f s = .ok s') :
    owned s' = owned s := by
  obtain ⟨tbl, tbl', live, rfl⟩ := modifyRule_eq_setRules ran
  exact owned_setRules live tbl'

theorem owned_freeMark (ran : freeMark mark s = .ok s') : owned s' = owned s := by
  obtain ⟨bm, deref, ran⟩ := bind_eq_ok ran
  obtain ⟨bm', _, ran⟩ := bind_eq_ok ran
  cases ran
  exact owned_setBits (Ptr.deref_eq_ok deref) bm'

theorem owned_allocMark (ran : allocMark s = .ok (mark, s')) : owned s' = owned s := by
  obtain ⟨bm, deref, ran⟩ := bind_eq_ok ran
  dsimp only at ran
  split at ran
  · cases ran
    rfl
  · obtain ⟨bm', _, ran⟩ := bind_eq_ok ran
    cases ran
    exact owned_setBits (Ptr.deref_eq_ok deref) bm'

theorem owned_qmarkAllocMark {ret : RetCode} (ran : qmarkAllocMark s = .ok (ret, mark, s')) :
    owned s' = owned s := by
  obtain ⟨⟨mark', s₁⟩, taken, ran⟩ := bind_eq_ok ran
  dsimp only at ran
  split at ran <;> cases ran <;> exact owned_allocMark taken

theorem owned_flushMark (ran : flushMark s = .ok s') : owned s' = owned s := by
  obtain ⟨bm, deref, ran⟩ := bind_eq_ok ran
  cases ran
  exact owned_setBits (Ptr.deref_eq_ok deref) _

theorem owned_clearCounts (ran : clearCounts s = .ok s') : owned s' = owned s := by
  unfold clearCounts at ran
  split at ran
  · cases ran
    rfl
  · obtain ⟨tbl, deref, ran⟩ := bind_eq_ok ran
    split at ran
    · cases ran
    · cases ran
      exact owned_setRules (Ptr.deref_eq_ok deref) _

theorem owned_qmarkTcAddRule {rn : RuletblNode} (ran : qmarkTcAddRule env rn mark s = .ok s') :
    owned s' = owned s := by
  rw [qmarkTcAddRule_done ran]
  rfl

theorem owned_qmarkTcDelRule {rn : RuletblNode} (ran : qmarkTcDelRule env rn mark s = .ok s') :
    owned s' = owned s := by
  rw [qmarkTcDelRule_done ran]
  rfl

theorem map_srcIp_modifyFirst {p : MarktblNode → Bool} {f : MarktblNode → MarktblNode}
    (keeps : ∀ node, (f node).srcIp = node.srcIp) (chain : List MarktblNode) :
    (modifyFirst p f chain).map MarktblNode.srcIp = chain.map MarktblNode.srcIp := by
  induction chain with
  | nil => rfl
  | cons node chain ih =>
    unfold modifyFirst
    split
    · rw [List.map_cons, List.map_cons, keeps]
    · rw [List.map_cons, List.map_cons, ih]

/-- An entry changed stays where it is. -/
theorem owned_modifyNode {f : MarktblNode → MarktblNode}
    (keeps : ∀ node, (f node).srcIp = node.srcIp) (ran : modifyNode ip f s = .ok s') :
    owned s' = owned s := by
  obtain ⟨head, deref, ran⟩ := bind_eq_ok ran
  obtain ⟨i, _, ran⟩ := bind_eq_ok ran
  obtain ⟨chain, home, ran⟩ := bind_eq_ok ran
  cases ran
  have live := Ptr.deref_eq_ok deref
  obtain ⟨others, before, after⟩ := IpQos.Lib.contents_modify (bucket_eq_ok home)
  have same : (contents (head.ht.modify i (modifyFirst (marktblHashCmp ip) f))).map
      MarktblNode.srcIp = (contents head.ht).map MarktblNode.srcIp := by
    rw [after, before, Multiset.map_add, Multiset.map_add, Multiset.map_coe, Multiset.map_coe,
      map_srcIp_modifyFirst keeps]
  have resources := congrArg (Multiset.map Resource.marktblNode) same
  rw [Multiset.map_map, Multiset.map_map] at resources
  unfold owned
  rw [live]
  show _ + ownedByHead _ = _ + ownedByHead head
  unfold ownedByHead
  exact congrArg (fun nodes => _ + (nodes + _ + _)) resources

theorem owned_push {head : MarktblHead} {i : Nat} {chain : List MarktblNode}
    (live : s.gMarktblHead = .to head) (home : head.ht[i]? = some chain) (node : MarktblNode)
    (n : Nat) :
    owned (s.setHead { head with elemNum := n, ht := head.ht.modify i (node :: ·) }) =
      .marktblNode node.srcIp ::ₘ owned s := by
  have pushed : ownedByHead { head with elemNum := n, ht := head.ht.modify i (node :: ·) } =
      .marktblNode node.srcIp ::ₘ ownedByHead head := by
    unfold ownedByHead
    dsimp only
    rw [IpQos.Lib.contents_push node home, Multiset.map_cons, Multiset.cons_add, Multiset.cons_add]
  unfold owned
  rw [live]
  show _ + ownedByHead _ = _ ::ₘ (_ + ownedByHead head)
  rw [pushed, Multiset.add_cons]
  rfl

theorem owned_eraseP {head : MarktblHead} {i : Nat} {chain : List MarktblNode}
    {node : MarktblNode} {p : MarktblNode → Bool} (live : s.gMarktblHead = .to head)
    (home : head.ht[i]? = some chain) (found : chain.find? p = some node) (n : Nat) :
    owned s = .marktblNode node.srcIp ::ₘ
      owned (s.setHead { head with elemNum := n, ht := head.ht.modify i (·.eraseP p) }) := by
  have erased : ownedByHead head = .marktblNode node.srcIp ::ₘ
      ownedByHead { head with elemNum := n, ht := head.ht.modify i (·.eraseP p) } := by
    unfold ownedByHead
    dsimp only
    rw [IpQos.Lib.contents_eraseP home found, Multiset.map_cons, Multiset.cons_add,
      Multiset.cons_add]
  unfold owned
  rw [live]
  show _ + ownedByHead head = _ ::ₘ (_ + ownedByHead _)
  rw [erased, Multiset.add_cons]
  rfl

/-! ## The ledger beside the tables -/

theorem free_of_held {held : Multiset Resource} (holds : m.held = r ::ₘ held) :
    Held.free r m = .ok { m with held := held } := by
  unfold Held.free
  rw [holds, IpQos.Lib.release_cons]

@[simp] theorem free_acquire (r : Resource) (m : ModSt) :
    Held.free r (Held.acquire r m) = .ok m := free_of_held rfl

theorem freeAll_of_held {rs : List Resource} {held : Multiset Resource} (holds : m.held = rs + held) :
    Held.freeAll rs m = .ok { m with held := held } := by
  unfold Held.freeAll
  rw [holds, IpQos.Lib.releaseAll_add]

theorem setTables_carry (same : owned s' = owned s) :
    Held.setTables (carry d s) s' = carry d s' := by
  unfold carry Held.setTables
  rw [same]

theorem setTables_acquire (more : owned s' = r ::ₘ owned s) :
    Held.setTables (Held.acquire r (carry d s)) s' = carry d s' := by
  unfold carry Held.acquire Held.setTables
  rw [more, Multiset.add_cons]

theorem held_carry (less : owned s = r ::ₘ owned s') :
    (carry d s).held = r ::ₘ (carry d s').held := by
  show d.held + owned s = _ ::ₘ (d.held + owned s')
  rw [less, Multiset.add_cons]

theorem free_carry (less : owned s = r ::ₘ owned s') :
    Held.free r (Held.setTables (carry d s) s') = .ok (carry d s') := by
  have holds : (Held.setTables (carry d s) s').held = r ::ₘ (carry d s').held := held_carry less
  rw [free_of_held holds]
  rfl

theorem onTables_carry {f : St → Except Oops St} (keeps : ∀ s', f s = .ok s' → owned s' = owned s) :
    Coupled (fun m s => m = carry d s) (Held.onTables f (carry d s)) (f s) := by
  unfold Held.onTables
  show Coupled _ (f s >>= _) (f s)
  cases ran : f s with
  | error e => exact .error e
  | ok s' => exact .ok (setTables_carry (keeps s' ran))

/-! ## The hash table -/

/-- Results that are the same, beside states of which one carries the ledger of the other. -/
def CarryResult {α : Type} (d : ModSt) (x : α × ModSt) (y : α × St) : Prop :=
  x.1 = y.1 ∧ x.2 = carry d y.2

theorem marktblHashAdd_carry :
    Coupled (CarryResult d) (Held.marktblHashAdd env ip id mark (carry d s))
      (marktblHashAdd env ip id mark s) := by
  unfold Held.marktblHashAdd marktblHashAdd
  apply (Coupled.self (elemOverLimit s)).bind
  rintro limited _ ⟨rfl, _⟩
  apply Coupled.ite
  · intro _
    exact .ok ⟨rfl, rfl⟩
  · intro _
    apply (Coupled.self s.gMarktblHead.deref).bind
    rintro head _ ⟨rfl, deref⟩
    apply (Coupled.self (hashIndex head ip)).bind
    rintro i _ ⟨rfl, _⟩
    apply (Coupled.self (bucket head i)).bind
    rintro chain _ ⟨rfl, home⟩
    cases found : chain.find? (marktblHashCmp ip) with
    -- the duplicate branch: both dereference NULL
    | some node => exact .error _
    | none =>
      unfold Held.kmalloc
      cases granted : env.kmalloc .marktblNode with
      | false => exact .ok ⟨rfl, rfl⟩
      | true =>
        apply (Coupled.self (modifyRule id (fun rn => { rn with count := atomicInc rn.count }) s)).bind
        rintro s' _ ⟨rfl, counted⟩
        refine .ok ⟨rfl, setTables_acquire ?_⟩
        -- the table is still there, so what it owns grows by the one node
        have live : s'.gMarktblHead = .to head := by
          obtain ⟨tbl, tbl', _, rfl⟩ := modifyRule_eq_setRules counted
          exact Ptr.deref_eq_ok deref
        rw [owned_push live (bucket_eq_ok home), owned_modifyRule counted]

theorem qosMarktblHashtblAdd_carry :
    Coupled (CarryResult d) (Held.qosMarktblHashtblAdd env ip id mark (carry d s))
      (qosMarktblHashtblAdd env ip id mark s) := by
  unfold Held.qosMarktblHashtblAdd qosMarktblHashtblAdd
  apply (Coupled.self (testMark mark s)).bind
  rintro allocated _ ⟨rfl, _⟩
  apply Coupled.ite
  · intro _
    exact .ok ⟨rfl, rfl⟩
  · intro _
    exact marktblHashAdd_carry

/-- An entry unlinked is no longer owned. -/
theorem owned_marktblHashRemove {ret : RetCode} {node : Option MarktblNode}
    (ran : marktblHashRemove ip s = .ok (ret, node, s')) :
    (∃ entry, ret = .ok ∧ node = some entry ∧ owned s = .marktblNode entry.srcIp ::ₘ owned s') ∨
      node = none ∧ s' = s := by
  obtain ⟨head, deref, ran⟩ := bind_eq_ok ran
  obtain ⟨i, _, ran⟩ := bind_eq_ok ran
  obtain ⟨chain, home, ran⟩ := bind_eq_ok ran
  cases found : chain.find? (marktblHashCmp ip) with
  | none =>
    rw [found] at ran
    cases ran
    exact .inr ⟨rfl, rfl⟩
  | some entry =>
    rw [found] at ran
    dsimp only at ran
    split at ran
    · cases ran
      exact .inr ⟨rfl, rfl⟩
    · obtain ⟨s₁, counted, ran⟩ := bind_eq_ok ran
      cases ran
      refine .inl ⟨entry, rfl, rfl, ?_⟩
      rw [owned_modifyRule counted]
      exact owned_eraseP (Ptr.deref_eq_ok deref) (bucket_eq_ok home) found _

theorem qosMarktblHashtblDel_carry :
    Coupled (fun x y => x.1 = y.1 ∧ CarryResult d x.2 y.2)
      (Held.qosMarktblHashtblDel ip (carry d s)) (qosMarktblHashtblDel ip s) := by
  unfold Held.qosMarktblHashtblDel qosMarktblHashtblDel
  apply (Coupled.self (marktblHashRemove ip s)).bind
  rintro ⟨ret, node, s'⟩ _ ⟨rfl, ran⟩
  rcases owned_marktblHashRemove ran with ⟨entry, rfl, rfl, less⟩ | ⟨rfl, rfl⟩
  · dsimp only
    rw [free_carry less]
    exact .ok ⟨rfl, rfl, rfl⟩
  · cases ret <;> exact .ok ⟨rfl, rfl, rfl⟩

/-! ## Tables freed and allocated -/

/-- The entries are freed first, then the bucket array, then the head. -/
theorem qosMarktblHashtblExit_carry :
    Coupled (fun m s' => m = carry d s' ∧ s' = { s with gMarktblHead := .null })
      (Held.qosMarktblHashtblExit (carry d s)) (qosMarktblHashtblExit s) := by
  have sameHead : (carry d s).tables.gMarktblHead = s.gMarktblHead := rfl
  unfold Held.qosMarktblHashtblExit qosMarktblHashtblExit Held.marktblHashClean marktblHashClean
  rw [sameHead]
  match live : s.gMarktblHead with
  | .null =>
    refine .ok ⟨rfl, ?_⟩
    rw [← live]
  | .dangling => exact .error _
  | .to head =>
    -- the nodes, which are freed first, stand in front
    have entries : (carry d s).held =
        (head.ht.flatten.map fun node => Resource.marktblNode node.srcIp : List Resource) +
          (Resource.marktblHt ::ₘ Resource.marktblHead ::ₘ
            (carry d { s with gMarktblHead := .null }).held) := by
      show d.held + owned s = _ + (_ ::ₘ _ ::ₘ (d.held + _))
      rw [owned_head, live, ← Multiset.singleton_add, ← Multiset.singleton_add, ← Multiset.map_coe]
      show d.held + (ownedByHead head + _) = _
      unfold ownedByHead contents
      abel
    simp only [Ptr.deref_to, ok_bind, freeAll_of_held entries]
    show Coupled _ (Held.free _ _ >>= _) _
    rw [free_of_held rfl, ok_bind, free_of_held rfl]
    exact .ok ⟨rfl, rfl⟩

theorem qosRuletblExit_carry (anchored : s.gRuletbl ≠ .dangling) :
    Held.qosRuletblExit (carry d s) = .ok (carry d (qosRuletblExit s)) := by
  have sameRules : (carry d s).tables.gRuletbl = s.gRuletbl := rfl
  unfold Held.qosRuletblExit qosRuletblExit
  rw [sameRules]
  match live : s.gRuletbl with
  | .null =>
    show Except.ok (carry d s) = _
    rw [← live]
  | .dangling => exact absurd live anchored
  | .to tbl =>
    have less := owned_rules s
    rw [live] at less
    dsimp only
    rw [free_of_held (held_carry less)]
    rfl

theorem markBitmapExit_carry (anchored : s.markBitmap ≠ .dangling) :
    Held.markBitmapExit (carry d s) = .ok (carry d (markBitmapExit s)) := by
  have sameBits : (carry d s).tables.markBitmap = s.markBitmap := rfl
  unfold Held.markBitmapExit markBitmapExit
  rw [sameBits]
  match live : s.markBitmap with
  | .null =>
    show Except.ok (carry d s) = _
    rw [← live]
  | .dangling => exact absurd live anchored
  | .to bm =>
    have less := owned_bits s
    rw [live] at less
    dsimp only
    rw [free_of_held (held_carry less)]
    rfl

theorem markBitmapInit_carry (none : s.markBitmap = .null) (cnt : Nat) :
    Held.markBitmapInit env cnt (carry d s) =
      ((markBitmapInit env cnt s).1, carry d (markBitmapInit env cnt s).2) := by
  unfold Held.markBitmapInit markBitmapInit Held.kmalloc
  cases env.kmalloc .markBitmap with
  | false =>
    refine congrArg (Prod.mk _) (setTables_carry ?_)
    rw [← none]
    rfl
  | true =>
    refine congrArg (Prod.mk _) (setTables_acquire ?_)
    rw [owned_bits, owned_bits s, none]
    show {_} + _ = _ ::ₘ (0 + _)
    rw [Multiset.singleton_add, Multiset.zero_add]
    rfl

theorem qosRuletblInit_carry (none : s.gRuletbl = .null) :
    Held.qosRuletblInit env (carry d s) =
      ((qosRuletblInit env s).1, carry d (qosRuletblInit env s).2) := by
  unfold Held.qosRuletblInit qosRuletblInit Held.kmalloc
  cases env.kmalloc .ruletbl with
  | false =>
    refine congrArg (Prod.mk _) (setTables_carry ?_)
    rw [← none]
    rfl
  | true =>
    refine congrArg (Prod.mk _) (setTables_acquire ?_)
    rw [owned_rules, owned_rules s, none]
    show {_} + _ = _ ::ₘ (0 + _)
    rw [Multiset.singleton_add, Multiset.zero_add]
    rfl

/-- The head is freed again when there is no bucket array. -/
theorem qosMarktblHashtblInit_carry (none : s.gMarktblHead = .null) :
    Coupled (CarryResult d) (Held.qosMarktblHashtblInit env (carry d s))
      (qosMarktblHashtblInit env s) := by
  -- there was no table, so the rest is all that is owned
  have elsewhere := owned_head s
  rw [none] at elsewhere
  unfold Held.qosMarktblHashtblInit qosMarktblHashtblInit Held.kmalloc
  cases env.kmalloc .marktblHead with
  | false =>
    refine .ok ⟨rfl, setTables_carry ?_⟩
    rw [← none]
    rfl
  | true =>
    cases env.kmalloc .marktblHt with
    | false =>
      show Coupled _ (Held.free _ (Held.acquire .marktblHead (carry d s)) >>= _) _
      rw [free_acquire, ok_bind]
      refine .ok ⟨rfl, setTables_carry ?_⟩
      rw [elsewhere, owned_head]
      rfl
    | true =>
      apply Coupled.ite
      · intro _
        exact .error _
      intro _
      refine .ok ⟨rfl, ?_⟩
      -- new: the head and the array of buckets, all of them empty
      have empty : owned (s.setHead
          { elemNum := 0, size := s.maxIpCnt, ht := List.replicate s.maxIpCnt [] }) =
            Resource.marktblHt ::ₘ Resource.marktblHead ::ₘ owned s := by
        rw [elsewhere, owned_head]
        show Multiset.map _ (contents _) + _ + _ + _ = _ ::ₘ _ ::ₘ (0 + _)
        rw [IpQos.Lib.contents_replicate_nil, ← Multiset.singleton_add, ← Multiset.singleton_add]
        show 0 + _ + _ + _ = _
        abel
      unfold carry
      dsimp only
      rw [empty, Multiset.add_cons, Multiset.add_cons]
      rfl

/-! ## Entry points -/

theorem recount_carry (c : Int → Int) :
    Coupled (fun m s => m = carry d s)
      (Held.onTables (modifyNode ip fun n => { n with count := c n.count }) (carry d s))
      (modifyNode ip (fun n => { n with count := c n.count }) s) :=
  onTables_carry fun _ => owned_modifyNode fun _ => rfl

theorem conntrackDestroy_carry :
    Coupled (fun m s => m = carry d s) (Held.conntrackDestroy env ip (carry d s))
      (conntrackDestroy env ip s) := by
  unfold Held.conntrackDestroy conntrackDestroy
  apply (Coupled.self (marktblHashGet ip s)).bind
  rintro found _ ⟨rfl, _⟩
  cases found with
  | none => exact .ok rfl
  | some node =>
    apply (recount_carry atomicDec).bind
    rintro _ s₁ rfl
    apply Coupled.ite
    · intro _
      -- the deletion is the one step that gives memory back
      apply qosMarktblHashtblDel_carry.bind
      rintro ⟨_, mark, m⟩ ⟨_, mark', s₂⟩ ⟨_, sameMark, carried⟩
      obtain rfl : mark = mark' := sameMark
      obtain rfl : m = carry d s₂ := carried
      apply (Coupled.self (ruleAt node.id s₂)).bind
      rintro rn _ ⟨rfl, _⟩
      apply Coupled.ite
      · intro _
        -- the mark and its class are no memory
        apply onTables_carry
        intro s' ran
        obtain ⟨s₃, cleared, ran⟩ := bind_eq_ok ran
        obtain ⟨rn, _, ran⟩ := bind_eq_ok ran
        obtain ⟨s₄, unshaped, freed⟩ := bind_eq_ok ran
        rw [owned_freeMark freed, owned_qmarkTcDelRule unshaped, owned_modifyRule cleared]
      · intro _
        exact .ok rfl
    · intro _
      exact .ok rfl

theorem qmarkConntrackEvent_carry (events : Nat) (ct : Option NfConn) :
    Coupled (fun m s => m = carry d s) (Held.qmarkConntrackEvent env events ct (carry d s))
      (qmarkConntrackEvent env events ct s) := by
  unfold Held.qmarkConntrackEvent qmarkConntrackEvent
  cases ct with
  | none => exact .ok rfl
  | some ct =>
    apply Coupled.ite
    · intro _
      apply Coupled.ite
      · intro _
        exact conntrackDestroy_carry
      · intro _
        apply Coupled.ite
        · intro _
          apply onTables_carry
          intro s' ran
          obtain ⟨found, _, ran⟩ := bind_eq_ok ran
          cases found with
          | none =>
            cases ran
            rfl
          | some node =>
            have keeps : ∀ n : MarktblNode, ({ n with count := atomicInc n.count } : MarktblNode).srcIp = n.srcIp :=
              fun _ => rfl
            exact owned_modifyNode keeps ran
        · intro _
          exact .ok rfl
    · intro _
      exact .ok rfl

theorem qmarkDelHash_carry :
    Coupled (fun m r => m = carry d r.2.2) (Held.qmarkDelHash ip (carry d s))
      (qmarkDelHash ip mark s) := by
  unfold Held.qmarkDelHash qmarkDelHash
  apply (Coupled.self (marktblHashGet ip s)).bind
  rintro found _ ⟨rfl, _⟩
  cases found with
  | none => exact .ok rfl
  | some node =>
    apply (recount_carry atomicDec).bind
    rintro _ s₁ rfl
    apply Coupled.ite
    · intro _
      apply qosMarktblHashtblDel_carry.bind
      rintro ⟨_, mark, m⟩ ⟨_, mark', s₂⟩ ⟨_, sameMark, carried⟩
      obtain rfl : mark = mark' := sameMark
      obtain rfl : m = carry d s₂ := carried
      apply (Coupled.self (ruleAt node.id s₂)).bind
      rintro rn _ ⟨rfl, _⟩
      apply Coupled.ite
      · intro _
        unfold Held.onTables
        rw [bind_assoc]
        apply (Coupled.self (modifyRule node.id (fun rn => { rn with mark := 0 }) s₂)).bind
        rintro s₃ _ ⟨rfl, cleared⟩
        apply (Coupled.self (freeMark mark s₃)).bind
        rintro s₄ _ ⟨rfl, freed⟩
        exact .ok (setTables_carry ((owned_freeMark freed).trans (owned_modifyRule cleared)))
      · intro _
        exact .ok rfl
    · intro _
      exact .ok rfl

theorem allocMarkAutoAdd_carry :
    Coupled (fun m r => m = carry d r.2.2) (Held.allocMarkAutoAdd env ip id mark (carry d s))
      (allocMarkAutoAdd env ip id mark s) := by
  unfold Held.allocMarkAutoAdd allocMarkAutoAdd qmarkAddHash
  apply qosMarktblHashtblAdd_carry.bind
  rintro ⟨ret, m⟩ ⟨ret', s₁⟩ ⟨same, carried⟩
  obtain rfl : ret = ret' := same
  obtain rfl : m = carry d s₁ := carried
  unfold Held.onTables
  by_cases failed : ret ≠ .ok
  · simp only [if_pos failed, bind_assoc]
    apply (Coupled.self (ruleAt id s₁)).bind
    rintro rn _ ⟨rfl, _⟩
    by_cases last : privMode = rn.mode ∨ 0 = rn.count
    · simp only [if_pos last, bind_assoc]
      apply (Coupled.self (modifyRule id (fun rn => { rn with mark := 0 }) s₁)).bind
      rintro s₂ _ ⟨rfl, cleared⟩
      apply (Coupled.self (freeMark mark s₂)).bind
      rintro s₃ _ ⟨rfl, freed⟩
      exact .ok (setTables_carry ((owned_freeMark freed).trans (owned_modifyRule cleared)))
    · simp only [if_neg last]
      exact .ok rfl
  · simp only [if_neg failed, bind_assoc]
    apply (Coupled.self (ruleAt id s₁)).bind
    rintro rn _ ⟨rfl, _⟩
    apply (Coupled.self (qmarkTcAddRule env rn mark s₁)).bind
    rintro s₂ _ ⟨rfl, shaped⟩
    exact .ok (setTables_carry (owned_qmarkTcAddRule shaped))

theorem qmarkAllocMarkAuto_carry (old : Nat) :
    Coupled (fun m r => m = carry d r.2.2) (Held.qmarkAllocMarkAuto env ip id (carry d s))
      (qmarkAllocMarkAuto env ip id old s) := by
  unfold Held.qmarkAllocMarkAuto qmarkAllocMarkAuto
  apply Coupled.ite
  · intro _
    exact .ok rfl
  · intro _
    apply (Coupled.self (ruleAt id s)).bind
    rintro rn _ ⟨rfl, _⟩
    apply Coupled.ite
    · intro _
      apply (Coupled.self (qmarkAllocMark s)).bind
      rintro ⟨ret, mark, s₁⟩ _ ⟨rfl, taken⟩
      -- taking a mark owns nothing new, so the state is still a `carry`
      have same := setTables_carry (d := d) (owned_qmarkAllocMark taken)
      apply Coupled.ite
      · intro _
        exact .ok same
      · intro _
        show Coupled _ (Held.allocMarkAutoAdd env ip id mark (Held.setTables (carry d s) s₁)) _
        rw [same]
        exact allocMarkAutoAdd_carry
    · intro _
      apply Coupled.ite
      · intro _
        apply (Coupled.self (qmarkAllocMark s)).bind
        rintro ⟨ret, mark, s₁⟩ _ ⟨rfl, taken⟩
        apply Coupled.ite
        · intro _
          exact .ok (setTables_carry (owned_qmarkAllocMark taken))
        · intro _
          apply (Coupled.self (modifyRule id (fun rn => { rn with mark := mark }) s₁)).bind
          rintro s₂ _ ⟨rfl, stored⟩
          have same := setTables_carry (d := d)
            ((owned_modifyRule stored).trans (owned_qmarkAllocMark taken))
          show Coupled _ (Held.allocMarkAutoAdd env ip id mark (Held.setTables (carry d s) s₂)) _
          rw [same]
          exact allocMarkAutoAdd_carry
      · intro _
        exact allocMarkAutoAdd_carry

theorem qmarkHandle_carry (skb : SkBuff) (info : TgInfo) :
    Coupled (fun m r => m = carry d r.2) (Held.qmarkHandle env skb info (carry d s))
      (qmarkHandle env skb info s) := by
  unfold Held.qmarkHandle qmarkHandle
  apply (Coupled.self (qmarkFindHash (info.ipAddr skb) s)).bind
  rintro ⟨code, mark⟩ _ ⟨rfl, _⟩
  by_cases missed : mark = 0
  · simp only [if_pos missed]
    rw [← bind_pure (Held.qmarkAllocMarkAuto env (info.ipAddr skb) info.id (carry d s))]
    apply (qmarkAllocMarkAuto_carry mark).bind
    rintro _ ⟨ret, mark', s'⟩ rfl
    dsimp only
    split <;> exact .ok rfl
  · simp only [if_neg missed]
    exact .ok rfl

/-! ## Tables allocated again -/

theorem qmarkFlushRule_carry (anchored : s.gRuletbl ≠ .dangling) :
    Held.qmarkFlushRule env (carry d s) = .ok (carry d (qmarkFlushRule env s)) := by
  unfold Held.qmarkFlushRule qmarkFlushRule
  rw [qosRuletblExit_carry anchored, ok_bind, qosRuletblInit_carry rfl]
  rfl

theorem qmarkFlushHash_carry :
    Coupled (fun m s => m = carry d s) (Held.qmarkFlushHash env (carry d s))
      (qmarkFlushHash env s) := by
  unfold Held.qmarkFlushHash qmarkFlushHash
  apply qosMarktblHashtblExit_carry.bind
  rintro _ _ ⟨rfl, rfl⟩
  apply (qosMarktblHashtblInit_carry rfl).bind
  rintro _ _ ⟨_, carried⟩
  exact .ok carried

theorem qmarkSetSpec_carry (anchored : Anchored s) (ipSpec ruleSpec : Nat) :
    Coupled (fun m s => m = carry d s) (Held.qmarkSetSpec env ipSpec ruleSpec (carry d s))
      (qmarkSetSpec env ipSpec ruleSpec s) := by
  unfold Held.qmarkSetSpec qmarkSetSpec
  apply qosMarktblHashtblExit_carry.bind
  rintro _ s₁ ⟨rfl, exited⟩
  have rules : s₁.gRuletbl ≠ .dangling := exited ▸ anchored.rules
  have bits : (qosRuletblExit s₁).markBitmap ≠ .dangling := exited ▸ anchored.bits
  rw [qosRuletblExit_carry rules, ok_bind, markBitmapExit_carry bits, ok_bind]
  -- the three tables are gone, and the new sizes change nothing that is held
  have noHead : s₁.gMarktblHead = .null := by rw [exited]
  generalize sized : ({ markBitmapExit (qosRuletblExit s₁) with
    maxRuleCnt := ruleSpec, maxIpCnt := ipSpec } : St) = s₂
  have carried : Held.setTables (carry d (markBitmapExit (qosRuletblExit s₁))) s₂ = carry d s₂ :=
    setTables_carry (by rw [← sized]; rfl)
  have noBits : s₂.markBitmap = .null := by rw [← sized]; rfl
  have noRules : (markBitmapInit env ipSpec s₂).2.gRuletbl = .null := by
    rw [← sized]
    unfold markBitmapInit
    split <;> rfl
  have noHead : (qosRuletblInit env (markBitmapInit env ipSpec s₂).2).2.gMarktblHead = .null := by
    rw [← noHead, ← sized]
    unfold qosRuletblInit markBitmapInit
    split <;> split <;> rfl
  show Coupled _ (Held.qosMarktblHashtblInit env (Held.qosRuletblInit env (Held.markBitmapInit env
      ipSpec (Held.setTables (carry d (markBitmapExit (qosRuletblExit s₁)))
        { markBitmapExit (qosRuletblExit s₁) with
          maxRuleCnt := ruleSpec, maxIpCnt := ipSpec })).2).2 >>= _)
    (qosMarktblHashtblInit env _ >>= _)
  rw [sized, carried, markBitmapInit_carry noBits, qosRuletblInit_carry noRules]
  apply (qosMarktblHashtblInit_carry noHead).bind
  rintro _ _ ⟨_, carried⟩
  exact .ok carried

theorem qmarkReset_carry (flag : Nat) :
    Coupled (fun m s => m = carry d s) (Held.qmarkReset env flag (carry d s))
      (qmarkReset env flag s) := by
  unfold Held.qmarkReset qmarkReset resetSection
  apply Coupled.ite
  · intro _
    exact .ok rfl
  · intro _
    show Coupled _ (Held.onTables flushMark (carry d { s with resetFlag := true }) >>= _) _
    apply (onTables_carry fun _ => owned_flushMark).bind
    rintro _ s₁ rfl
    apply qmarkFlushHash_carry.bind
    rintro _ s₂ rfl
    exact onTables_carry fun _ => owned_clearCounts

/-! ## Operations -/

theorem owned_afterCopy {r : Reply} {body : Except Oops (Reply × St)}
    (ran : afterCopy env s body = .ok (r, s')) (keeps : body = .ok (r, s') → owned s' = owned s) :
    owned s' = owned s := by
  unfold afterCopy at ran
  split at ran
  · cases ran
    rfl
  · exact keeps ran

/-- A command that touches the tables only. -/
theorem onTables_ioctl {cmd : QmarkIoc}
    (keeps : ∀ r s', qmarkCdevIoctl env cmd s = .ok (r, s') → owned s' = owned s) :
    Coupled (fun m x => m = carry d x.2)
      (Held.onTables (fun s => do
        let (_, s) ← qmarkCdevIoctl env cmd s
        return s) (carry d s))
      (qmarkCdevIoctl env cmd s) := by
  unfold Held.onTables
  rw [bind_assoc, ← bind_pure (qmarkCdevIoctl env cmd s)]
  show Coupled _ (qmarkCdevIoctl env cmd s >>= _) _
  apply (Coupled.self (qmarkCdevIoctl env cmd s)).bind
  rintro ⟨r, s'⟩ _ ⟨rfl, ran⟩
  exact .ok (setTables_carry (keeps r s' ran))

theorem qmarkCdevIoctl_carry (anchored : Anchored s) (cmd : QmarkIoc) :
    Coupled (fun m x => m = carry d x.2) (Held.qmarkCdevIoctl env cmd (carry d s))
      (qmarkCdevIoctl env cmd s) := by
  -- most commands leave what the tables own as it is; those that do not have a lemma of their own
  cases cmd with
  | ruleAdd qr =>
    apply onTables_ioctl
    intro r s' ran
    apply owned_afterCopy ran
    intro ran
    obtain ⟨s₁, add, ran⟩ := bind_eq_ok ran
    cases ran
    exact owned_modifyRule add
  | ruleDel qr =>
    apply onTables_ioctl
    intro r s' ran
    apply owned_afterCopy ran
    intro ran
    obtain ⟨s₁, del, ran⟩ := bind_eq_ok ran
    cases ran
    obtain ⟨s₂, zero, off⟩ := bind_eq_ok del
    exact (owned_modifyRule off).trans (owned_modifyRule zero)
  | ruleFlush =>
    show Coupled _ (Held.qmarkFlushRule env (carry d s)) _
    rw [qmarkFlushRule_carry anchored.rules]
    exact .ok rfl
  | hashAdd qh =>
    unfold Held.qmarkCdevIoctl qmarkCdevIoctl afterCopy
    by_cases failed : env.copyFromUser < 0
    · simp only [failed, true_or, if_true]
      exact .ok rfl
    · by_cases noIp : qh.ip = 0
      · simp only [failed, noIp, or_true, if_true, if_false]
        exact .ok rfl
      · simp only [failed, noIp, or_self, if_false]
        apply qosMarktblHashtblAdd_carry.bind
        rintro ⟨ret, m⟩ ⟨ret', s₁⟩ ⟨_, carried⟩
        dsimp only
        split <;> exact .ok carried
  | hashDel qh =>
    unfold Held.qmarkCdevIoctl qmarkCdevIoctl afterCopy
    by_cases failed : env.copyFromUser < 0
    · simp only [failed, true_or, if_true]
      exact .ok rfl
    · by_cases noIp : qh.ip = 0
      · simp only [failed, noIp, or_true, if_true, if_false]
        exact .ok rfl
      · simp only [failed, noIp, or_self, if_false]
        rw [← bind_pure (Held.qmarkDelHash qh.ip (carry d s))]
        apply qmarkDelHash_carry.bind
        rintro _ ⟨ret, mark, s₁⟩ rfl
        dsimp only
        split <;> exact .ok rfl
  | hashFlush =>
    show Coupled _ (Held.qmarkFlushHash env (carry d s)) (qmarkFlushHash env s >>= _)
    rw [← bind_pure (Held.qmarkFlushHash env (carry d s))]
    apply qmarkFlushHash_carry.bind
    rintro _ s₁ rfl
    exact .ok rfl
  | reset flag =>
    apply Coupled.ite
    · intro _
      exact .ok rfl
    · intro _
      rw [← bind_pure (Held.qmarkReset env flag (carry d s))]
      apply (qmarkReset_carry flag).bind
      rintro _ s₁ rfl
      exact .ok rfl
  | specSet maxIpCnt maxRuleCnt =>
    apply Coupled.ite
    · intro _
      exact .ok rfl
    · intro _
      rw [← bind_pure (Held.qmarkSetSpec env maxIpCnt maxRuleCnt (carry d s))]
      apply (qmarkSetSpec_carry anchored maxIpCnt maxRuleCnt).bind
      rintro _ s₁ rfl
      exact .ok rfl
  | hashChk qh =>
    apply onTables_ioctl
    intro r s' ran
    apply owned_afterCopy ran
    intro ran
    split at ran
    · cases ran
      rfl
    · obtain ⟨⟨code, mark⟩, _, ran⟩ := bind_eq_ok ran
      dsimp only at ran
      split at ran <;> cases ran <;> rfl
  | markAlo =>
    apply onTables_ioctl
    intro r s' ran
    obtain ⟨⟨ret, mark, s₁⟩, taken, ran⟩ := bind_eq_ok ran
    dsimp only at ran
    split at ran <;> cases ran <;> exact owned_qmarkAllocMark taken
  | markFree mark =>
    apply onTables_ioctl
    intro r s' ran
    apply owned_afterCopy ran
    intro ran
    obtain ⟨s₁, freed, ran⟩ := bind_eq_ok ran
    cases ran
    exact owned_freeMark freed
  | markFlush =>
    apply onTables_ioctl
    intro r s' ran
    obtain ⟨s₁, flushed, ran⟩ := bind_eq_ok ran
    cases ran
    exact owned_flushMark flushed
  | netdevSet lanDev wanDev =>
    apply onTables_ioctl
    intro r s' ran
    apply owned_afterCopy ran
    intro ran
    cases ran
    rfl
  | tcAdd =>
    apply onTables_ioctl
    intro r s' ran
    obtain ⟨rn, _, ran⟩ := bind_eq_ok ran
    obtain ⟨s₁, sent, ran⟩ := bind_eq_ok ran
    cases ran
    exact owned_qmarkTcAddRule sent
  | tcDel =>
    apply onTables_ioctl
    intro r s' ran
    obtain ⟨rn, _, ran⟩ := bind_eq_ok ran
    obtain ⟨s₁, sent, ran⟩ := bind_eq_ok ran
    cases ran
    exact owned_qmarkTcDelRule sent
  -- the listing commands only read
  | ruleLst | hashLst | dump =>
    apply onTables_ioctl
    intro r s' ran
    obtain ⟨_, _, ran⟩ := bind_eq_ok ran
    cases ran
    rfl

theorem opStep_carry (anchored : Anchored s) (l : Env × Op) :
    Coupled (fun m s => m = carry d s) (Held.opStep l (carry d s)) (opStep l s) := by
  obtain ⟨env, op⟩ := l
  unfold Held.opStep opStep exec
  cases op with
  | ioctl cmd =>
    dsimp only
    rw [bind_assoc, ← bind_pure (Held.qmarkCdevIoctl env cmd (carry d s))]
    apply (qmarkCdevIoctl_carry anchored cmd).bind
    rintro _ ⟨r, s₁⟩ rfl
    exact .ok rfl
  | packet skb info =>
    dsimp only
    rw [bind_assoc, ← bind_pure (Held.qmarkHandle env skb info (carry d s))]
    apply (qmarkHandle_carry skb info).bind
    rintro _ ⟨skb', s₁⟩ rfl
    exact .ok rfl
  | conntrack events ct =>
    dsimp only
    rw [bind_assoc, ← bind_pure (Held.qmarkConntrackEvent env events ct (carry d s))]
    apply (qmarkConntrackEvent_carry events ct).bind
    rintro _ s₁ rfl
    exact .ok rfl

/-! ## What is never left dangling -/

theorem Anchored.congr (anchored : Anchored s) (bits : s'.markBitmap = s.markBitmap)
    (rules : s'.gRuletbl = s.gRuletbl) : Anchored s' :=
  ⟨bits ▸ anchored.bits, rules ▸ anchored.rules⟩

theorem Ptr.map_ne_dangling {α β : Type} {p : Ptr α} {q : Ptr α} {f : α → β}
    (same : q.map f = p.map f) (anchored : p ≠ .dangling) : q ≠ .dangling := by
  rintro rfl
  match p with
  | .null => cases same
  | .dangling => exact anchored rfl
  | .to a => cases same

theorem Anchored.framed (anchored : Anchored s) (framed : Framed s s') : Anchored s' :=
  ⟨Ptr.map_ne_dangling framed.bits anchored.bits, Ptr.map_ne_dangling framed.rules anchored.rules⟩

theorem Anchored.modifyRule (anchored : Anchored s) {f : RuletblNode → RuletblNode}
    (ran : Kmod.modifyRule id f s = .ok s') : Anchored s' := by
  obtain ⟨tbl, tbl', _, rfl⟩ := modifyRule_eq_setRules ran
  exact ⟨anchored.bits, nofun⟩

theorem Anchored.qosRuletblInit (bits : s.markBitmap ≠ .dangling) :
    Anchored (Kmod.qosRuletblInit env s).2 := by
  unfold Kmod.qosRuletblInit
  split
  · exact ⟨bits, nofun⟩
  · exact ⟨bits, nofun⟩

theorem Anchored.qosMarktblHashtblInit {ret : RetCode} (anchored : Anchored s)
    (ran : Kmod.qosMarktblHashtblInit env s = .ok (ret, s')) : Anchored s' := by
  unfold Kmod.qosMarktblHashtblInit at ran
  split at ran
  · split at ran
    · split at ran <;> cases ran
      exact ⟨anchored.bits, anchored.rules⟩
    · cases ran
      exact ⟨anchored.bits, anchored.rules⟩
  · cases ran
    exact ⟨anchored.bits, anchored.rules⟩

theorem hashtblExit_cleared (ran : qosMarktblHashtblExit s = .ok s') :
    s' = { s with gMarktblHead := .null } := by
  have coupled := qosMarktblHashtblExit_carry (d := Held.ModSt.static) (s := s)
  rw [ran] at coupled
  generalize Held.qosMarktblHashtblExit _ = exited at coupled
  cases coupled with
  | ok related => exact related.2

theorem Anchored.qmarkFlushHash (anchored : Anchored s) (ran : Kmod.qmarkFlushHash env s = .ok s') :
    Anchored s' := by
  obtain ⟨s₁, exited, ran⟩ := bind_eq_ok ran
  obtain ⟨⟨ret, s₂⟩, made, ran⟩ := bind_eq_ok ran
  cases ran
  apply Anchored.qosMarktblHashtblInit _ made
  rw [hashtblExit_cleared exited]
  exact ⟨anchored.bits, anchored.rules⟩

theorem Anchored.step (anchored : Anchored s) {l : Env × Op} (ran : opStep l s = .ok s') :
    Anchored s' := by
  obtain ⟨env, op⟩ := l
  cases Effect.of_opStep ran with
  -- only the commands that replace a table can leave one dangling
  | framed framed => exact anchored.framed framed
  | ruleAdd add => exact anchored.modifyRule add
  | ruleDel del =>
    obtain ⟨s₁, zero, off⟩ := bind_eq_ok del
    exact (anchored.modifyRule zero).modifyRule off
  | ruleFlush => exact Anchored.qosRuletblInit anchored.bits
  | hashFlush flush => exact anchored.qmarkFlushHash flush
  | reset reset =>
    unfold qmarkReset at reset
    split at reset
    · cases reset
      exact ⟨anchored.bits, anchored.rules⟩
    · obtain ⟨s₁, flushed, reset⟩ := bind_eq_ok reset
      obtain ⟨s₂, emptied, zeroed⟩ := bind_eq_ok reset
      have flagged : Anchored { s with resetFlag := true } := ⟨anchored.bits, anchored.rules⟩
      -- the flag, the bitmap, the hash table, and then the counts
      have first := flagged.framed (Framed.flushMark flushed)
      have second := first.qmarkFlushHash emptied
      unfold clearCounts at zeroed
      split at zeroed
      · cases zeroed
        exact second
      · obtain ⟨tbl, _, zeroed⟩ := bind_eq_ok zeroed
        split at zeroed
        · cases zeroed
        · cases zeroed
          exact ⟨second.bits, nofun⟩
  | specSet set =>
    obtain ⟨s₁, exited, set⟩ := bind_eq_ok set
    obtain ⟨⟨ret, s₂⟩, made, set⟩ := bind_eq_ok set
    cases set
    apply Anchored.qosMarktblHashtblInit _ made
    apply Anchored.qosRuletblInit
    unfold markBitmapInit
    split <;> nofun

/-- The relation that the two machines stay in. -/
def Carried (d m : ModSt) (s : St) : Prop := m = carry d s ∧ Anchored s

theorem Carried.step (l : Env × Op) (m : ModSt) (s : St) (carried : Carried d m s) :
    Coupled (Carried d) (Held.opStep l m) (opStep l s) := by
  obtain ⟨rfl, anchored⟩ := carried
  have coupled := opStep_carry (d := d) anchored l
  generalize Held.opStep l (carry d s) = next at coupled
  generalize ran : opStep l s = next' at coupled
  cases coupled with
  | error e => exact .error e
  | ok same => exact .ok ⟨same, anchored.step ran⟩

/-! ## Loading -/

theorem carry_acquire (r : Resource) (d : ModSt) (s : St) :
    Held.acquire r (carry d s) = carry (Held.acquire r d) s := by
  unfold Held.acquire carry
  rw [Multiset.cons_add]

/-- What is held apart from the tables. -/
theorem free_base {held : Multiset Resource} (holds : d.held = r ::ₘ held) :
    Held.free r (carry d s) = .ok (carry { d with held := held } s) := by
  have holds' : (carry d s).held = r ::ₘ (held + owned s) := by
    show d.held + owned s = _
    rw [holds, Multiset.cons_add]
  rw [free_of_held holds']
  rfl

theorem qmarkTcSockExit_carry {held : Multiset Resource} (sock : d.qmarkSock = true)
    (holds : d.held = .sock ::ₘ held) :
    Held.qmarkTcSockExit (carry d s) =
      .ok (carry { d with qmarkSock := false, held := held } s) := by
  unfold Held.qmarkTcSockExit
  show (if d.qmarkSock then _ else _) = _
  rw [if_pos sock, free_base holds]
  rfl

theorem qmarkTcSockInit_carry (l : Held.Loading) (none : d.qmarkSock = false) :
    Held.qmarkTcSockInit l (carry d s) =
        .ok (.ok, carry { Held.acquire .sock d with qmarkSock := true } s) ∨
      Held.qmarkTcSockInit l (carry d s) = .ok (.error, carry d s) := by
  unfold Held.qmarkTcSockInit
  split
  · right
    unfold Held.qmarkTcSockExit
    show ((if d.qmarkSock then _ else _) >>= _) = _
    rw [none]
    rfl
  · rw [carry_acquire]
    split
    · exact .inl rfl
    · right
      show (Held.qmarkTcSockExit (carry { Held.acquire .sock d with qmarkSock := true } s) >>= _) = _
      rw [qmarkTcSockExit_carry rfl rfl, ← none]
      rfl

section

variable {major : Nat} {held : Multiset Resource}

theorem allocCdevErr_eq (holds : m.held = .chrdevRegion major ::ₘ held) :
    Held.allocCdevErr major m = .ok (.error, { m with held := held }) := by
  unfold Held.allocCdevErr
  rw [free_of_held holds]
  rfl

theorem addCdevErr_eq (holds : m.held = .cdev ::ₘ .chrdevRegion major ::ₘ held) :
    Held.addCdevErr major m = .ok (.error, { m with held := held }) := by
  unfold Held.addCdevErr
  rw [free_of_held holds, ok_bind, allocCdevErr_eq rfl]

theorem createDeviceErr_eq (holds : m.held = .devClass ::ₘ .cdev ::ₘ .chrdevRegion major ::ₘ held) :
    Held.createDeviceErr major m = .ok (.error, { m with held := held }) := by
  unfold Held.createDeviceErr
  rw [free_of_held holds, ok_bind, addCdevErr_eq rfl]

/-- Whatever goes wrong, the label jumped to releases what the steps before have acquired. -/
theorem qmarkDevInitFrom_cases (l : Held.Loading) (holds : m.held = .chrdevRegion major ::ₘ held) :
    (∃ cls cdev, Held.qmarkDevInitFrom l major m =
        .ok (.error, { m with qmarkClass := cls, qmarkCdev := cdev, held := held })) ∨
      ∃ device, (device = 0 ∨ device = {Resource.device}) ∧
        Held.qmarkDevInitFrom l major m = .ok (.ok, { m with
          qmarkClass := .valid, qmarkCdev := true
          held := device + .devClass ::ₘ .cdev ::ₘ m.held }) := by
  -- step by step, each with its own label
  unfold Held.qmarkDevInitFrom Held.acquire
  by_cases noCdev : (!l.cdevAlloc) = true
  · rw [if_pos noCdev]
    exact .inl ⟨_, false, allocCdevErr_eq holds⟩
  rw [if_neg noCdev]
  dsimp only
  by_cases noAdd : (!l.cdevAdd) = true
  · rw [if_pos noAdd]
    exact .inl ⟨_, true, addCdevErr_eq (congrArg _ holds)⟩
  rw [if_neg noAdd]
  by_cases noClass : (!l.classCreate) = true
  · rw [if_pos noClass]
    exact .inl ⟨.err, true, addCdevErr_eq (congrArg _ holds)⟩
  rw [if_neg noClass]
  cases l.deviceCreate with
  | null =>
    have acquired := congrArg (fun held => Resource.devClass ::ₘ .cdev ::ₘ held) holds
    exact .inl ⟨.valid, true, createDeviceErr_eq acquired⟩
  | err =>
    refine .inr ⟨0, .inl rfl, ?_⟩
    rw [Multiset.zero_add]
  | created =>
    refine .inr ⟨{.device}, .inr rfl, ?_⟩
    rw [Multiset.singleton_add]

/-- A module just loaded has no major number yet. -/
theorem qmarkDevInit_cases (l : Held.Loading) (fresh : m.qmarkCdevMajor = 0) :
    (∃ major cls cdev, Held.qmarkDevInit l m =
        .ok (.error, { m with qmarkCdevMajor := major, qmarkClass := cls, qmarkCdev := cdev })) ∨
      ∃ major device, (device = 0 ∨ device = {Resource.device}) ∧
        Held.qmarkDevInit l m = .ok (.ok, { m with
          qmarkCdevMajor := major, qmarkClass := .valid, qmarkCdev := true
          held := device + .devClass ::ₘ .cdev ::ₘ .chrdevRegion major ::ₘ m.held }) := by
  unfold Held.qmarkDevInit
  rw [if_neg (not_not_intro fresh)]
  cases l.allocChrdevRegion with
  | none => exact .inl ⟨m.qmarkCdevMajor, m.qmarkClass, m.qmarkCdev, rfl⟩
  | some major =>
    rcases qmarkDevInitFrom_cases (m := { Held.acquire (.chrdevRegion major) m with
      qmarkCdevMajor := major }) l rfl with ⟨cls, cdev, ran⟩ | ⟨device, which, ran⟩
    · exact .inl ⟨major, cls, cdev, ran⟩
    · exact .inr ⟨major, device, which, ran⟩

/-! ## Unloading -/

theorem qmarkTcSockExit_eq (sock : m.qmarkSock = true) (holds : m.held = .sock ::ₘ held) :
    Held.qmarkTcSockExit m = .ok { m with qmarkSock := false, held := held } := by
  unfold Held.qmarkTcSockExit
  rw [if_pos sock, free_of_held holds]
  rfl

theorem deviceDestroy_eq {device : Multiset Resource} (which : device = 0 ∨ device = {.device})
    (holds : m.held = device + held) (other : Resource.device ∉ held) :
    Held.deviceDestroy m = { m with held := held } := by
  unfold Held.deviceDestroy
  rcases which with rfl | rfl
  · rw [holds, Multiset.zero_add, Multiset.erase_of_notMem other]
  · rw [holds, Multiset.singleton_add, Multiset.erase_cons_head]

/-- What `qmark_dev_init` leaves. -/
structure DeviceUp (m : ModSt) (held : Multiset Resource) : Prop where
  cls : m.qmarkClass = .valid
  cdev : m.qmarkCdev = true
  holds : ∃ device, (device = 0 ∨ device = {Resource.device}) ∧
    m.held = device + .devClass ::ₘ .cdev ::ₘ .chrdevRegion m.qmarkCdevMajor ::ₘ held

theorem qmarkDevExit_eq (up : DeviceUp m held) (other : Resource.device ∉ held) :
    ∃ m', Held.qmarkDevExit m = .ok m' ∧ m'.held = held ∧ m'.qmarkSock = m.qmarkSock ∧
      m'.tables = m.tables := by
  obtain ⟨device, which, holds⟩ := up.holds
  have others : Resource.device ∉
      Resource.devClass ::ₘ .cdev ::ₘ .chrdevRegion m.qmarkCdevMajor ::ₘ held := by
    simp [other]
  unfold Held.qmarkDevExit Held.qmarkClassExit
  rw [up.cls]
  dsimp only
  rw [deviceDestroy_eq which holds others, free_of_held rfl]
  simp only [ok_bind, pure_eq_ok, up.cdev, if_true]
  rw [free_of_held rfl, ok_bind, free_of_held rfl]
  exact ⟨_, rfl, rfl, rfl, rfl⟩

theorem notMem_ownedIf {α : Type} {f : α → Multiset Resource} (absent : ∀ a, r ∉ f a)
    (p : Ptr α) : r ∉ ownedIf f p := by
  match p with
  | .null => exact Multiset.notMem_zero r
  | .dangling => exact Multiset.notMem_zero r
  | .to a => exact absent a

theorem device_notMem_owned (s : St) : Resource.device ∉ owned s := by
  unfold owned
  rw [Multiset.mem_add, Multiset.mem_add, not_or, not_or]
  refine ⟨⟨notMem_ownedIf ?_ _, notMem_ownedIf ?_ _⟩, notMem_ownedIf ?_ _⟩
  · simp
  · simp
  · simp [ownedByHead]

theorem DeviceUp.carried (up : DeviceUp d held) (s : St) :
    DeviceUp (carry d s) (held + owned s) := by
  obtain ⟨device, which, holds⟩ := up.holds
  refine ⟨up.cls, up.cdev, device, which, ?_⟩
  show d.held + owned s = _
  rw [holds, Multiset.add_assoc, Multiset.cons_add, Multiset.cons_add, Multiset.cons_add]
  rfl

/-- What is left to release once the tables are gone but for the bitmap. -/
theorem devExit_eq (sock : d.qmarkSock = true) (up : DeviceUp d {.sock})
    (bits : s.markBitmap ≠ .dangling) :
    ∃ m, (Held.qmarkDevExit (carry d s) >>= Held.qmarkTcSockExit >>= Held.markBitmapExit) = .ok m ∧
      m.held = owned (markBitmapExit s) := by
  have other : Resource.device ∉ {Resource.sock} + owned s := by
    simp [device_notMem_owned]
  obtain ⟨m, ran, holds, sock', tables⟩ := qmarkDevExit_eq (up.carried s) other
  rw [Multiset.singleton_add] at holds
  rw [ran, ok_bind, qmarkTcSockExit_eq (sock'.trans sock) holds, ok_bind]
  have rest : ({ m with qmarkSock := false, held := owned s } : ModSt) =
      carry { m with qmarkSock := false, held := 0 } s := by
    unfold carry
    rw [Multiset.zero_add, tables]
    rfl
  rw [rest, markBitmapExit_carry bits]
  exact ⟨_, rfl, Multiset.zero_add _⟩

/-- Unloading fails exactly on a head that `qos_marktbl_hashtbl_init` has freed. -/
def Unloads (m : ModSt) (s : St) : Prop :=
  (s.gMarktblHead = .dangling ∧ Held.qosMarktblExit m = .error .useAfterFree) ∨
    (s.gMarktblHead ≠ .dangling ∧ ∃ m', Held.qosMarktblExit m = .ok m' ∧ m'.held = 0)

theorem qosMarktblHashtblExit_cases (d : ModSt) (s : St) :
    (s.gMarktblHead = .dangling ∧
        Held.qosMarktblHashtblExit (carry d s) = .error .useAfterFree) ∨
      (s.gMarktblHead ≠ .dangling ∧ Held.qosMarktblHashtblExit (carry d s) =
        .ok (carry d { s with gMarktblHead := .null })) := by
  have coupled := qosMarktblHashtblExit_carry (d := d) (s := s)
  generalize Held.qosMarktblHashtblExit (carry d s) = exited at *
  unfold qosMarktblHashtblExit marktblHashClean at coupled
  match live : s.gMarktblHead with
  | .dangling =>
    rw [live] at coupled
    cases coupled
    exact .inl ⟨rfl, rfl⟩
  | .null =>
    rw [live] at coupled
    cases coupled with
    | ok related =>
      obtain ⟨rfl, same⟩ := related
      exact .inr ⟨nofun, by rw [← same]⟩
  | .to head =>
    rw [live] at coupled
    cases coupled with
    | ok related => exact .inr ⟨nofun, congrArg Except.ok related.1⟩

theorem unloads (sock : d.qmarkSock = true) (up : DeviceUp d {.sock}) (anchored : Anchored s) :
    Unloads (carry (Held.acquire .notifier d) s) s := by
  unfold Unloads Held.qosMarktblExit
  rw [← carry_acquire, free_acquire, ok_bind]
  rcases qosMarktblHashtblExit_cases d s with ⟨dangling, exited⟩ | ⟨sound, exited⟩
  · rw [exited]
    exact .inl ⟨dangling, rfl⟩
  · refine .inr ⟨sound, ?_⟩
    have rules : ({ s with gMarktblHead := .null } : St).gRuletbl ≠ .dangling := anchored.rules
    have bits : (qosRuletblExit { s with gMarktblHead := .null }).markBitmap ≠ .dangling :=
      anchored.bits
    obtain ⟨m, ran, holds⟩ := devExit_eq sock up bits
    rw [exited, ok_bind, qosRuletblExit_carry rules, ok_bind, ← bind_assoc, ran]
    exact ⟨m, rfl, holds⟩

/-! ## Loading, step by step -/

theorem sockExit_carry (bits : s.markBitmap ≠ .dangling) :
    Held.sockExit (carry d s) = .ok (.error, carry d (markBitmapExit s)) := by
  unfold Held.sockExit
  rw [markBitmapExit_carry bits]
  rfl

theorem ruletblExit_eq (sock : d.qmarkSock = true) (up : DeviceUp d {.sock})
    (bits : s.markBitmap ≠ .dangling) :
    ∃ m, Held.ruletblExit (carry d s) = .ok (.error, m) ∧ m.held = owned (markBitmapExit s) := by
  obtain ⟨m, ran, holds⟩ := devExit_eq sock up bits
  have labels : Held.ruletblExit (carry d s) =
      (Held.qmarkDevExit (carry d s) >>= Held.qmarkTcSockExit >>= Held.markBitmapExit) >>=
        fun m => .ok (.error, m) := by
    unfold Held.ruletblExit Held.devExit Held.sockExit
    simp only [bind_assoc, pure_eq_ok]
  rw [labels, ran]
  exact ⟨m, rfl, holds⟩

theorem marktblExit_eq (sock : d.qmarkSock = true) (up : DeviceUp d {.sock})
    (anchored : Anchored s) (noHead : ownedIf ownedByHead s.gMarktblHead = 0) :
    ∃ m, Held.marktblExit (carry d s) = .ok (.error, m) ∧ m.held = 0 := by
  obtain ⟨m, ran, holds⟩ := ruletblExit_eq (s := qosRuletblExit s) sock up anchored.bits
  unfold Held.marktblExit
  rw [qosRuletblExit_carry anchored.rules, ok_bind, ran]
  refine ⟨m, rfl, holds.trans ?_⟩
  show 0 + 0 + ownedIf ownedByHead s.gMarktblHead = 0
  rw [noHead, Multiset.zero_add, Multiset.zero_add]

theorem ctnotifierExit_eq (sock : d.qmarkSock = true) (up : DeviceUp d {.sock})
    (anchored : Anchored s) (sound : s.gMarktblHead ≠ .dangling) :
    ∃ m, Held.ctnotifierExit (carry d s) = .ok (.error, m) ∧ m.held = 0 := by
  rcases qosMarktblHashtblExit_cases d s with ⟨dangling, _⟩ | ⟨_, exited⟩
  · exact absurd dangling sound
  · unfold Held.ctnotifierExit
    rw [exited, ok_bind]
    exact marktblExit_eq sock up ⟨anchored.bits, anchored.rules⟩ rfl

theorem static_eq_carry : Held.ModSt.static = carry Held.ModSt.static St.static := by
  have nothing : owned St.static = 0 := by
    show 0 + 0 + 0 = _
    rw [Multiset.zero_add, Multiset.zero_add]
  unfold carry
  rw [nothing, Multiset.add_zero]
  rfl

/-- A load that fails has released all it took; one that succeeds holds the tables and what
    belongs to the socket, the device and the notifier. -/
inductive LoadResult (env : Env) : Except Oops (RetCode × ModSt) → Prop where
  | failed {ret : RetCode} {m : ModSt} (failed : ret ≠ .ok) (empty : m.held = 0) :
      LoadResult env (.ok (ret, m))
  | loaded {d : ModSt} (sock : d.qmarkSock = true) (up : DeviceUp d {.sock})
      (anchored : Anchored (qosMarktblInit env).2) :
      LoadResult env (.ok (.ok, carry (Held.acquire .notifier d) (qosMarktblInit env).2))

theorem LoadResult.of_label {x : Except Oops (RetCode × ModSt)}
    (unwound : ∃ m, x = .ok (.error, m) ∧ m.held = 0) : LoadResult env x := by
  obtain ⟨m, rfl, empty⟩ := unwound
  exact .failed nofun empty

/-- Where the bitmap is the only table there is. -/
structure BitmapOnly (s : St) : Prop where
  bits : s.markBitmap ≠ .dangling
  noRules : s.gRuletbl = .null
  noHead : s.gMarktblHead = .null

theorem BitmapOnly.owned_exit (only : BitmapOnly s) : owned (markBitmapExit s) = 0 := by
  show 0 + ownedIf _ s.gRuletbl + ownedIf _ s.gMarktblHead = 0
  rw [only.noRules, only.noHead]
  rfl

/-- A hash table that is there is whole, and one that is not leaves nothing behind. -/
theorem qosMarktblHashtblInit_head {ret : RetCode}
    (ran : qosMarktblHashtblInit env s = .ok (ret, s')) :
    (ret = .ok ∧ s'.gMarktblHead ≠ .dangling) ∨
      (ret ≠ .ok ∧ ownedIf ownedByHead s'.gMarktblHead = 0) := by
  unfold qosMarktblHashtblInit at ran
  split at ran
  · split at ran
    · split at ran <;> cases ran
      exact .inl ⟨rfl, nofun⟩
    · cases ran
      exact .inr ⟨nofun, rfl⟩
  · cases ran
    exact .inr ⟨nofun, rfl⟩

/-- The default number of buckets fits the array allocated for them. -/
theorem qosMarktblHashtblInit_default (env : Env) (size : s.maxIpCnt = tcMaxIpCnt) :
    ∃ ret s', qosMarktblHashtblInit env s = .ok (ret, s') := by
  have fits : ¬ allotted sizeofHlistHead s.maxIpCnt < s.maxIpCnt := by
    rw [size]
    decide
  unfold qosMarktblHashtblInit
  rw [if_neg fits]
  split
  · split <;> exact ⟨_, _, rfl⟩
  · exact ⟨_, _, rfl⟩

/-- `s` is what `qos_marktbl_init` has when only the rules and the hash table are missing. -/
structure Loaded (env : Env) (s : St) : Prop where
  only : BitmapOnly s
  size : s.maxIpCnt = tcMaxIpCnt
  whole : ∀ s', (qosRuletblInit env s).1 = .ok →
    qosMarktblHashtblInit env (qosRuletblInit env s).2 = .ok (.ok, s') →
      (qosMarktblInit env).2 = s'

theorem initTables_result (l : Held.Loading) (env : Env) (sock : d.qmarkSock = true)
    (up : DeviceUp d {.sock}) (loaded : Loaded env s) :
    LoadResult env (Held.initTables l env (carry d s)) := by
  have anchored : Anchored (qosRuletblInit env s).2 := Anchored.qosRuletblInit loaded.only.bits
  have noHead : (qosRuletblInit env s).2.gMarktblHead = .null := by
    unfold qosRuletblInit
    split <;> exact loaded.only.noHead
  have size : (qosRuletblInit env s).2.maxIpCnt = tcMaxIpCnt := by
    unfold qosRuletblInit
    split <;> exact loaded.size
  unfold Held.initTables
  rw [qosRuletblInit_carry loaded.only.noRules]
  dsimp only
  by_cases noRules : (qosRuletblInit env s).1 ≠ .ok
  · rw [if_pos noRules]
    apply LoadResult.of_label
    obtain ⟨m, ran, holds⟩ := ruletblExit_eq sock up anchored.bits
    refine ⟨m, ran, holds.trans ?_⟩
    apply BitmapOnly.owned_exit
    refine ⟨anchored.bits, ?_, noHead⟩
    unfold qosRuletblInit at noRules ⊢
    split at noRules
    · exact absurd rfl noRules
    · split
      · contradiction
      · rfl
  rw [if_neg noRules]
  -- the hash table may fail after its head was acquired
  have coupled : Coupled _ (Held.qosMarktblHashtblInit env (carry d (qosRuletblInit env s).2)) _ :=
    qosMarktblHashtblInit_carry noHead
  obtain ⟨ret, s', made⟩ := qosMarktblHashtblInit_default env size
  have anchored' : Anchored s' := anchored.qosMarktblHashtblInit made
  rw [made] at coupled
  generalize Held.qosMarktblHashtblInit env (carry d (qosRuletblInit env s).2) = held at *
  cases coupled with
  | @ok r _ related =>
    obtain ⟨ret', m⟩ := r
    obtain ⟨rfl, rfl⟩ : ret' = ret ∧ m = carry d s' := related
    rw [ok_bind]
    dsimp only
    rcases qosMarktblHashtblInit_head made with ⟨rfl, sound⟩ | ⟨failed, nothing⟩
    · rw [if_neg (not_not.mpr rfl)]
      by_cases noNotifier : (!l.registerNotifier) = true
      · rw [if_pos noNotifier]
        apply LoadResult.of_label
        exact ctnotifierExit_eq sock up anchored' sound
      -- all three tables are there: this is the state of the table model
      · obtain rfl := loaded.whole s' (not_not.mp noRules) made
        rw [if_neg noNotifier, carry_acquire]
        exact .loaded sock up anchored'
    · rw [if_pos failed]
      apply LoadResult.of_label
      exact marktblExit_eq sock up anchored' nothing

theorem devExit_label (sock : d.qmarkSock = true) (holds : d.held = .sock ::ₘ 0)
    (only : BitmapOnly s) : ∃ m, Held.devExit (carry d s) = .ok (.error, m) ∧ m.held = 0 := by
  unfold Held.devExit
  rw [qmarkTcSockExit_carry sock holds, ok_bind, sockExit_carry only.bits]
  refine ⟨_, rfl, ?_⟩
  show 0 + owned (markBitmapExit s) = 0
  rw [only.owned_exit, Multiset.zero_add]

theorem initDevices_result (l : Held.Loading) (env : Env) (loaded : Loaded env s) :
    LoadResult env (Held.initDevices l env (carry Held.ModSt.static s)) := by
  let d : ModSt := { Held.acquire .sock Held.ModSt.static with qmarkSock := true }
  unfold Held.initDevices
  rcases qmarkTcSockInit_carry (d := Held.ModSt.static) (s := s) l rfl with socket | socket
  · rw [socket]
    rcases qmarkDevInit_cases (m := carry d s) l rfl with
      ⟨major, cls, cdev, dev⟩ | ⟨major, device, which, dev⟩
    · apply LoadResult.of_label
      simp only [ok_bind, ne_eq, not_true_eq_false, if_false]
      rw [dev]
      exact devExit_label (d := { d with
        qmarkCdevMajor := major, qmarkClass := cls, qmarkCdev := cdev }) rfl rfl loaded.only
    · simp only [ok_bind, ne_eq, not_true_eq_false, if_false]
      rw [dev]
      -- what is held once the device is up, besides the bitmap
      let up : ModSt := { d with
        qmarkCdevMajor := major, qmarkClass := .valid, qmarkCdev := true
        held := device + .devClass ::ₘ .cdev ::ₘ .chrdevRegion major ::ₘ {.sock} }
      have shape : ({ carry d s with
          qmarkCdevMajor := major, qmarkClass := .valid, qmarkCdev := true
          held := device + .devClass ::ₘ .cdev ::ₘ .chrdevRegion major ::ₘ (carry d s).held } : ModSt) =
            carry up s := by
        have joined : device + .devClass ::ₘ .cdev ::ₘ .chrdevRegion major ::ₘ (carry d s).held =
            up.held + owned s := by
          show _ = device + _ + owned s
          rw [Multiset.add_assoc, Multiset.cons_add, Multiset.cons_add, Multiset.cons_add]
          rfl
        rw [joined]
        rfl
      show LoadResult env (Held.initTables l env _)
      rw [shape]
      exact initTables_result l env rfl ⟨rfl, rfl, device, which, rfl⟩ loaded
  · rw [socket]
    apply LoadResult.of_label
    refine ⟨_, sockExit_carry loaded.only.bits, ?_⟩
    show 0 + owned (markBitmapExit s) = 0
    rw [loaded.only.owned_exit, Multiset.zero_add]

theorem qosMarktblInit_result (l : Held.Loading) (env : Env) :
    LoadResult env (Held.qosMarktblInit l env) := by
  have bitmap : Held.markBitmapInit env tcMaxIpCnt (carry Held.ModSt.static St.static) = _ :=
    markBitmapInit_carry rfl tcMaxIpCnt
  rw [← static_eq_carry] at bitmap
  unfold Held.qosMarktblInit
  rw [show Held.markBitmapInit env Held.ModSt.static.tables.maxIpCnt Held.ModSt.static = _
    from bitmap]
  unfold markBitmapInit
  cases granted : env.kmalloc .markBitmap with
  | false => exact .failed nofun rfl
  | true =>
    show LoadResult env (Held.initDevices l env (carry Held.ModSt.static
      (St.static.setBits (List.replicate (allottedBits tcMaxIpCnt) false))))
    -- the tables that loading leaves are those of the table model
    refine initDevices_result l env ⟨⟨nofun, rfl, rfl⟩, rfl, fun s' rulesOk headOk => ?_⟩
    have bits : markBitmapInit env tcMaxIpCnt St.static =
        (.ok, St.static.setBits (List.replicate (allottedBits tcMaxIpCnt) false)) := by
      simp only [markBitmapInit, granted, if_true]
    have rules : qosRuletblInit env
        (St.static.setBits (List.replicate (allottedBits tcMaxIpCnt) false)) = (.ok, _) :=
      Prod.ext rulesOk rfl
    have size : St.static.maxIpCnt = tcMaxIpCnt := rfl
    simp only [qosMarktblInit, size, bits]
    rw [rules]
    dsimp only
    rw [headOk]

/-- Between loading and unloading the module holds what its tables own and `base`. -/
def Accounted (base : Multiset Resource) (m : ModSt) (s : St) : Prop :=
  m.tables = s ∧ m.held = base + owned s ∧ Unloads m s

/-- Loading never faults, and leaves nothing held when it fails.  Once loaded the module runs
    as its tables do, whatever can be allocated: it never frees what it does not hold, holds
    what its tables own, and is unloaded without a rest unless the head dangles. -/
theorem held_follows_tables (l : Held.Loading) (env : Env) :
    match Held.qosMarktblInit l env with
    | .ok (.ok, m) => ∃ base, ∀ ops : List (Env × Op),
        Coupled (Accounted base) (runAll Held.opStep ops m) (runAll opStep ops (qosMarktblInit env).2)
    | .ok (_, m) => m.held = 0
    | .error _ => False := by
  have result := qosMarktblInit_result l env
  generalize Held.qosMarktblInit l env = loading at result
  cases result with
  | @failed ret m failed empty =>
    cases ret with
    | ok => exact absurd rfl failed
    | _ => exact empty
  | @loaded d sock up anchored =>
    refine ⟨(Held.acquire .notifier d).held, fun ops => ?_⟩
    have start : Carried (Held.acquire .notifier d)
        (carry (Held.acquire .notifier d) (qosMarktblInit env).2) (qosMarktblInit env).2 :=
      ⟨rfl, anchored⟩
    apply (Coupled.runAll ops (fun l _ => Carried.step l) start).mono
    rintro _ s ⟨rfl, anchored⟩
    exact ⟨rfl, rfl, unloads sock up anchored⟩

end

end

end IpQos.Verified
