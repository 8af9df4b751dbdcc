import IpQos.Lib.Field
import IpQos.Verified.Operations

/-! # Connections and the entries they rely on

A connection carries the mark its first packet was given, and no later packet asks
the table again.  The entry is kept by a reference count that only follows the
conntrack events, so what keeps a carried mark valid is a tally: the count of an
entry is the number of its connections whose MARK event has been delivered. -/

namespace IpQos.Verified

open IpQos.Kmod
open IpQos.Lib (Run Allowed runAll field testBit_field)
open Registry

/-! ## Model -/

/-- A live connection; `ct.mark` is what was saved from its first packet. -/
structure Conn where
  ct : NfConn
  marked : Bool
  deriving DecidableEq, Repr

structure Net where
  s : St
  conns : Multiset Conn

inductive NetStep where
  | first (skb : SkBuff) (info : TgInfo) (ct : NfConn)
  | mark (c : Conn)
  | later (c : Conn) (skb : SkBuff) (info : TgInfo)
  | destroy (c : Conn)
  | reset (flag : Nat)

/-- A packet of a connection without mark.  The chain restores and saves the bits under the mask
    of its target. -/
def unmarkedPacket (env : Env) (skb : SkBuff) (info : TgInfo) (ct : NfConn) (x : Net) :
    Except Oops Net := do
  -- what is restored is 0
  let skb := { skb with mark := Kmod.setMark skb.mark info.mask 0 }
  let (skb, s) ← qmarkHandle env skb info x.s
  return { s, conns :=
    { ct := { ct with mark := skb.mark &&& info.mask }, marked := false } ::ₘ x.conns }

def netStep (l : Env × NetStep) (x : Net) : Except Oops Net :=
  match l.2 with
  | .first skb info ct => unmarkedPacket l.1 skb info ct x
  | .mark c => do
    let s ← qmarkConntrackEvent l.1 ipctMark (some c.ct) x.s
    return { s, conns := { c with marked := true } ::ₘ x.conns.erase c }
  | .later c skb info =>
    -- a restored mark makes the chain return before the qmark target
    if c.ct.mark ≠ 0 then return x
    else unmarkedPacket l.1 skb info c.ct { x with conns := x.conns.erase c }
  | .destroy c => do
    let s ← qmarkConntrackEvent l.1 ipctDestroy (some c.ct) x.s
    return { s, conns := x.conns.erase c }
  | .reset flag => do
    let s ← qmarkReset l.1 flag x.s
    return { x with s }

/-- A packet of the connection at a target of an installed rule. -/
def Arrives (skb : SkBuff) (info : TgInfo) (ct : NfConn) (x : Net) : Prop :=
  skb.mark < 2 ^ 32 ∧ info.ipAddr skb = ct.ipAddr ∧ x.s.registry.ValidId info.id

/-- The life of an IPv4 connection: a first packet, any number of later ones, a MARK event for
    the mark it is given, and at the end one DESTROY event. -/
def Lifecycle (l : Env × NetStep) (x : Net) : Prop :=
  match l.2 with
  | .first skb info ct => Arrives skb info ct x ∧ ct.l3num = afInet ∧ ct.untracked = false
  | .mark c => c ∈ x.conns ∧ c.marked = false
  | .later c skb info => c ∈ x.conns ∧ Arrives skb info c.ct x
  | .destroy c => c ∈ x.conns ∧ (c.ct.mark ≠ 0 → c.marked = true)
  | .reset _ => AllocatesTables l.1

/-- The mask keeps every bit of the marks of `n` addresses. -/
def Covers (mask n : Nat) : Prop := ∀ b < n, markOf b &&& mask = markOf b

instance (mask n : Nat) : Decidable (Covers mask n) := inferInstanceAs (Decidable (∀ b < n, _))

/-- Steps after which no carried mark is left behind.  The mask covers the marks.  The
    tables are reset while no connection carries a mark.  The last counted connection of an
    address is not destroyed while another one still waits for its MARK event. -/
def Orderly (l : Env × NetStep) (x : Net) : Prop :=
  match l.2 with
  | .first _ info _ => x.conns.card < 2 ^ 31 - 1 ∧ Covers info.mask x.s.maxIpCnt
  | .later c _ info => c.ct.mark = 0 → Covers info.mask x.s.maxIpCnt
  | .destroy c => c.ct.mark ≠ 0 →
    (∃ d ∈ x.conns.erase c, d.ct.ipAddr = c.ct.ipAddr ∧ d.ct.mark ≠ 0 ∧ d.marked = true) ∨
      ∀ d ∈ x.conns.erase c, d.ct.ipAddr = c.ct.ipAddr → d.ct.mark ≠ 0 → d.marked = true
  | .reset flag => flag ≠ 0 → ∀ c ∈ x.conns, c.ct.mark = 0
  | _ => True

/-- Every mark carried by a connection is the mark of the entry of its address, and an
    entry of another address has it only in the same share group. -/
def CarriedKept (x : Net) : Prop :=
  ∀ c ∈ x.conns, c.ct.mark ≠ 0 →
    ∃ e ∈ x.s.registry.entries, e.srcIp = c.ct.ipAddr ∧ e.mark = c.ct.mark ∧
      ∀ e' ∈ x.s.registry.entries, e'.srcIp ≠ c.ct.ipAddr → e'.mark = c.ct.mark →
        e'.id = e.id ∧ (x.s.registry.rule e.id).mode ≠ privMode

/-! ## The tally -/

def counted (conns : Multiset Conn) (ip : Be32) : Nat :=
  conns.countP fun c => c.ct.ipAddr = ip ∧ c.ct.mark ≠ 0 ∧ c.marked = true

structure Tallied (t : Registry) (conns : Multiset Conn) : Prop where
  few : conns.card < 2 ^ 31
  ipv4 : ∀ c ∈ conns, c.ct.l3num = afInet ∧ c.ct.untracked = false
  kept : ∀ c ∈ conns, c.ct.mark ≠ 0 → ∃ e ∈ t.entries, e.srcIp = c.ct.ipAddr ∧ e.mark = c.ct.mark
  tally : ∀ e ∈ t.entries, e.mark &&& 0xfff800 ≠ 0 → e.count = counted conns e.srcIp

theorem counted_cons (c : Conn) (conns : Multiset Conn) (ip : Be32) :
    counted (c ::ₘ conns) ip = counted conns ip +
      if c.ct.ipAddr = ip ∧ c.ct.mark ≠ 0 ∧ c.marked = true then 1 else 0 :=
  Multiset.countP_cons ..

theorem counted_split {c : Conn} {conns : Multiset Conn} (member : c ∈ conns) (ip : Be32) :
    counted conns ip = counted (conns.erase c) ip +
      if c.ct.ipAddr = ip ∧ c.ct.mark ≠ 0 ∧ c.marked = true then 1 else 0 := by
  rw [← counted_cons, Multiset.cons_erase member]

theorem counted_pos {conns : Multiset Conn} {ip : Be32} :
    0 < counted conns ip ↔
      ∃ d ∈ conns, d.ct.ipAddr = ip ∧ d.ct.mark ≠ 0 ∧ d.marked = true := by
  simp [counted, Multiset.countP_pos]

namespace Tallied

variable {t t' : Registry} {conns : Multiset Conn} {env : Env} {ip : Be32} {id : Nat}

/-- Steps that leave the entries alone. -/
theorem congr (tallied : Tallied t conns) (entries : t'.entries = t.entries) :
    Tallied t' conns where
  few := tallied.few
  ipv4 := tallied.ipv4
  kept := entries ▸ tallied.kept
  tally := entries ▸ tallied.tally

/-- A connection that has not been counted yet joins. -/
theorem join (tallied : Tallied t conns) {c : Conn} (few : conns.card < 2 ^ 31 - 1)
    (ipv4 : c.ct.l3num = afInet ∧ c.ct.untracked = false) (unmarked : c.marked = false)
    (kept : c.ct.mark ≠ 0 → ∃ e ∈ t.entries, e.srcIp = c.ct.ipAddr ∧ e.mark = c.ct.mark) :
    Tallied t (c ::ₘ conns) where
  few := by
    rw [Multiset.card_cons]
    omega
  ipv4 := by
    intro d member
    cases Multiset.mem_cons.mp member with
    | inl new => exact new ▸ ipv4
    | inr old => exact tallied.ipv4 d old
  kept := by
    intro d member
    cases Multiset.mem_cons.mp member with
    | inl new => exact new ▸ kept
    | inr old => exact tallied.kept d old
  tally := by
    intro e member tracked
    rw [counted_cons, tallied.tally e member tracked]
    simp [unmarked]

/-- A new entry has no connections yet: each of them would have had an entry. -/
theorem insert (tallied : Tallied t conns) {mark : Nat} (fresh : t.Fresh ip)
    (entries : t'.entries = { srcIp := ip, id, mark, count := 0 } ::ₘ t.entries) :
    Tallied t' conns where
  few := tallied.few
  ipv4 := tallied.ipv4
  kept := by
    intro c member carries
    obtain ⟨e, inTable, here, same⟩ := tallied.kept c member carries
    exact ⟨e, entries ▸ Multiset.mem_cons_of_mem inTable, here, same⟩
  tally := by
    intro e member tracked
    rw [entries] at member
    cases Multiset.mem_cons.mp member with
    | inl new =>
      have none : counted conns ip = 0 := by
        by_contra some
        obtain ⟨d, live, here, carries, _⟩ := counted_pos.mp (Nat.pos_of_ne_zero some)
        obtain ⟨e', inTable, same, _⟩ := tallied.kept d live carries
        exact fresh e' inTable (same.trans here)
      rw [new]
      simp [none]
    | inr old => exact tallied.tally e old tracked

/-- Connections come and go without being counted. -/
theorem recount (tallied : Tallied t conns) {conns' : Multiset Conn}
    (few : conns'.card < 2 ^ 31) (same : ∀ d ∈ conns', ∃ c ∈ conns, d.ct = c.ct)
    (equal : ∀ e ∈ t.entries, e.mark &&& 0xfff800 ≠ 0 →
      counted conns' e.srcIp = counted conns e.srcIp) : Tallied t conns' where
  few := few
  ipv4 := by
    intro d member
    obtain ⟨c, live, sameCt⟩ := same d member
    exact sameCt ▸ tallied.ipv4 c live
  kept := by
    intro d member carries
    obtain ⟨c, live, sameCt⟩ := same d member
    rw [sameCt] at carries ⊢
    exact tallied.kept c live carries
  tally := by
    intro e inTable tracked
    rw [equal e inTable tracked]
    exact tallied.tally e inTable tracked

/-- The count of the entry follows the connections of its address. -/
theorem touch (tallied : Tallied t conns) {e : MarktblNode} {rest : Multiset MarktblNode}
    (split : t.entries = e ::ₘ rest) (nodup : (t.entries.map (·.srcIp)).Nodup)
    {conns' : Multiset Conn} {n : Int} (few : conns'.card < 2 ^ 31)
    (same : ∀ d ∈ conns', ∃ c ∈ conns, d.ct = c.ct) (here : n = counted conns' e.srcIp)
    (elsewhere : ∀ ip, ip ≠ e.srcIp → counted conns' ip = counted conns ip) :
    Tallied (t.touch e rest n) conns' where
  few := few
  ipv4 := by
    intro d member
    obtain ⟨c, live, sameCt⟩ := same d member
    exact sameCt ▸ tallied.ipv4 c live
  kept := by
    intro d member carries
    obtain ⟨c, live, sameCt⟩ := same d member
    rw [sameCt] at carries ⊢
    obtain ⟨e', inTable, home, mark⟩ := tallied.kept c live carries
    -- the entry keeps its address and its mark
    obtain ⟨a, stays, srcIp, _, sameMark⟩ := Registry.touch_keeps split n e' inTable
    exact ⟨a, stays, srcIp.trans home, sameMark.trans mark⟩
  tally := by
    intro e' member tracked
    cases Multiset.mem_cons.mp member with
    | inl touched =>
      rw [touched]
      exact here
    | inr other =>
      rw [elsewhere e'.srcIp (Registry.rest_elsewhere split nodup e' other)]
      exact tallied.tally e' (split ▸ Multiset.mem_cons_of_mem other) tracked

/-- The entry goes with the last connection of its address. -/
theorem drop (tallied : Tallied t conns) {e : MarktblNode} {rest : Multiset MarktblNode}
    (split : t.entries = e ::ₘ rest) (nodup : (t.entries.map (·.srcIp)).Nodup)
    (entries : t'.entries = rest) {conns' : Multiset Conn} (few : conns'.card < 2 ^ 31)
    (same : ∀ d ∈ conns', ∃ c ∈ conns, d.ct = c.ct)
    (gone : ∀ d ∈ conns', d.ct.ipAddr = e.srcIp → d.ct.mark = 0)
    (elsewhere : ∀ ip, ip ≠ e.srcIp → counted conns' ip = counted conns ip) :
    Tallied t' conns' where
  few := few
  ipv4 := by
    intro d member
    obtain ⟨c, live, sameCt⟩ := same d member
    exact sameCt ▸ tallied.ipv4 c live
  kept := by
    intro d member carries
    obtain ⟨c, live, sameCt⟩ := same d member
    have notGone := gone d member
    rw [sameCt] at carries notGone ⊢
    obtain ⟨e', inTable, home, mark⟩ := tallied.kept c live carries
    rw [split] at inTable
    cases Multiset.mem_cons.mp inTable with
    | inl removed =>
      subst e'
      -- no connection of the address carries a mark any more
      exact absurd (notGone home.symm) carries
    | inr other => exact ⟨e', entries ▸ other, home, mark⟩
  tally := by
    intro e' member tracked
    rw [entries] at member
    rw [elsewhere e'.srcIp (Registry.rest_elsewhere split nodup e' member)]
    exact tallied.tally e' (split ▸ Multiset.mem_cons_of_mem member) tracked

end Tallied

/-! ## One step -/

theorem testBit_setMark {p : Nat} (word : p < 2 ^ 32) (mask mark i : Nat) :
    (Kmod.setMark p mask mark).testBit i = ((p.testBit i && !mask.testBit i) ^^ mark.testBit i) := by
  have all : (0xffffffff : Nat) = field 0 32 := rfl
  unfold Kmod.setMark
  rw [Nat.testBit_xor, Nat.testBit_and, Nat.testBit_xor, all, testBit_field]
  cases set : p.testBit i with
  | false => rfl
  | true =>
    have below : i < 32 := by
      by_contra past
      rw [Nat.testBit_lt_two_pow (Nat.lt_of_lt_of_le word
        (Nat.pow_le_pow_right (by decide) (Nat.le_of_not_lt past)))] at set
      cases set
    rw [decide_eq_true ⟨Nat.zero_le i, below⟩, Bool.true_xor]

/-- Under the mask the packet has the mark that was merged in. -/
theorem setMark_and {p : Nat} (word : p < 2 ^ 32) (mask mark : Nat) :
    Kmod.setMark p mask mark &&& mask = mark &&& mask := by
  apply Nat.eq_of_testBit_eq
  intro i
  rw [Nat.testBit_and, testBit_setMark word, Nat.testBit_and]
  cases mask.testBit i with
  | true => rw [Bool.not_true, Bool.and_false, Bool.false_xor]
  | false => rw [Bool.and_false, Bool.and_false]

/-- Restoring 0 clears the bits under the mask. -/
theorem setMark_zero_lt {p : Nat} (word : p < 2 ^ 32) (mask : Nat) :
    Kmod.setMark p mask 0 < 2 ^ 32 := by
  unfold Kmod.setMark
  rw [Nat.xor_zero]
  exact Nat.lt_of_le_of_lt Nat.and_le_left word

theorem markEvent_eq (env : Env) (ct : NfConn) (s : St) :
    qmarkConntrackEvent env ipctMark (some ct) s =
      if ct.tracked then conntrackMark ct.ipAddr s else .ok s := by
  have notDestroy : ipctMark &&& ipctDestroy = 0 := by decide
  have isMark : ipctMark ≠ 0 := by decide
  simp [qmarkConntrackEvent, notDestroy, isMark]

theorem destroyEvent_eq (env : Env) (ct : NfConn) (s : St) :
    qmarkConntrackEvent env ipctDestroy (some ct) s =
      if ct.tracked then conntrackDestroy env ct.ipAddr s else .ok s := by
  have isDestroy : ipctDestroy ≠ 0 := by decide
  simp [qmarkConntrackEvent, isDestroy]

theorem tracked_iff {ct : NfConn} (ipv4 : ct.l3num = afInet ∧ ct.untracked = false) :
    ct.tracked = true ↔ ct.mark &&& 0xfff800 ≠ 0 := by
  simp [NfConn.tracked, ipv4]

structure NetInv (x : Net) : Prop where
  good : Good x.s
  tallied : Tallied x.s.registry x.conns

namespace NetInv

variable {env : Env} {x x' : Net}

/-- A connection without mark is given that of the entry of its address, or none. -/
theorem unmarked (inv : NetInv x) {skb : SkBuff} {info : TgInfo} {ct : NfConn}
    (arrives : Arrives skb info ct x) (ipv4 : ct.l3num = afInet ∧ ct.untracked = false)
    (few : x.conns.card < 2 ^ 31 - 1) (covers : Covers info.mask x.s.maxIpCnt)
    (ran : unmarkedPacket env skb info ct x = .ok x') : NetInv x' := by
  obtain ⟨word, sameIp, valid⟩ := arrives
  obtain ⟨⟨wf, con⟩, tallied⟩ := inv
  have word' := setMark_zero_lt word info.mask
  obtain ⟨⟨skb', s'⟩, handled, same⟩ := bind_eq_ok ran
  cases same
  -- a known address, a new one that is accepted, and one that gets no mark
  rcases qmarkHandle_done wf.represents con valid handled with
    ⟨e, member, here, rfl, rfl⟩ | ⟨fresh, ret, mark, t', rfl, rep, allocated⟩
  · refine ⟨⟨wf, con⟩, tallied.join few ipv4 rfl fun _ => ⟨e, member, ?_, ?_⟩⟩
    · exact here.trans sameIp
    · obtain ⟨b, below, mark, _⟩ := con.marked e member
      simp only [setMark_and word']
      rw [mark, covers b below]
  · have good := Good.of_represents rep (allocated.consistent con valid fresh)
    by_cases accepted : ret = .ok
    · subst ret
      have entries := allocated.entries_of_ok
      rw [← rep.2] at entries
      refine ⟨good, (tallied.insert fresh entries).join few ipv4 rfl fun _ => ?_⟩
      have member : _ ∈ s'.registry.entries := entries ▸ Multiset.mem_cons_self _ _
      refine ⟨_, member, sameIp, ?_⟩
      obtain ⟨b, below, sameMark, _⟩ := good.2.marked _ member
      have sameCnt : s'.registry.ipCnt = x.s.maxIpCnt :=
        (congrArg Registry.ipCnt rep.2).trans allocated.sameConfig.ipCnt
      simp only [if_true, setMark_and word'] at sameMark ⊢
      rw [sameMark, covers b (sameCnt ▸ below)]
    · have entries := allocated.entries_of_fail accepted
      rw [← rep.2] at entries
      refine ⟨good, (tallied.congr entries).join few ipv4 rfl fun carries => ?_⟩
      simp only [accepted, if_false, setMark_and word, Nat.zero_and, ne_eq,
        not_true_eq_false] at carries

/-- A connection without mark leaves no trace. -/
theorem forget (inv : NetInv x) {c : Conn} (member : c ∈ x.conns) (bare : c.ct.mark = 0) :
    NetInv { x with conns := x.conns.erase c } := by
  refine ⟨inv.good, inv.tallied.recount ?_ ?_ ?_⟩
  · exact Nat.lt_of_le_of_lt (Multiset.card_erase_le ..) inv.tallied.few
  · exact fun d live => ⟨d, Multiset.mem_of_mem_erase live, rfl⟩
  · intro e _ _
    rw [counted_split member, if_neg (by simp [bare])]
    rfl

theorem later (inv : NetInv x) {c : Conn} {skb : SkBuff} {info : TgInfo}
    (lifecycle : Lifecycle (env, .later c skb info) x)
    (orderly : Orderly (env, .later c skb info) x)
    (stepped : netStep (env, .later c skb info) x = .ok x') : NetInv x' := by
  obtain ⟨member, arrives⟩ := lifecycle
  unfold netStep at stepped
  dsimp only at stepped
  by_cases bare : c.ct.mark = 0
  · rw [if_neg (not_not.mpr bare)] at stepped
    have card : (x.conns.erase c).card + 1 = x.conns.card := Multiset.card_erase_add_one member
    have limit := inv.tallied.few
    have few : (x.conns.erase c).card < 2 ^ 31 - 1 := by omega
    -- it is as if the connection had just come
    exact (inv.forget member bare).unmarked arrives (inv.tallied.ipv4 c member) few (orderly bare)
      stepped
  · rw [if_pos bare] at stepped
    cases stepped
    exact inv

/-- A connection whose mark the handler does not recognise counts for no entry. -/
theorem uncounted (inv : NetInv x) {c : Conn} (member : c ∈ x.conns)
    (ignored : ¬ c.ct.tracked = true) :
    ∀ e ∈ x.s.registry.entries, e.mark &&& 0xfff800 ≠ 0 →
      ¬ (c.ct.ipAddr = e.srcIp ∧ c.ct.mark ≠ 0) := by
  rintro e inTable tracked ⟨here, carries⟩
  obtain ⟨e', inTable', home, mark⟩ := inv.tallied.kept c member carries
  obtain rfl : e' = e := inv.good.2.eq_of_srcIp inTable' inTable (home.trans here)
  rw [tracked_iff (inv.tallied.ipv4 c member), ← mark] at ignored
  exact ignored tracked

/-- The entry of a connection whose mark the handler recognises. -/
theorem entry (inv : NetInv x) {c : Conn} (member : c ∈ x.conns) (tracked : c.ct.tracked = true) :
    c.ct.mark ≠ 0 ∧ ∃ e ∈ x.s.registry.entries, e.srcIp = c.ct.ipAddr ∧ e.mark = c.ct.mark ∧
      e.count = counted x.conns e.srcIp := by
  rw [tracked_iff (inv.tallied.ipv4 c member)] at tracked
  have carries : c.ct.mark ≠ 0 := by
    intro zero
    simp [zero] at tracked
  obtain ⟨e, inTable, here, mark⟩ := inv.tallied.kept c member carries
  exact ⟨carries, e, inTable, here, mark, inv.tallied.tally e inTable (mark ▸ tracked)⟩

theorem mark (inv : NetInv x) {c : Conn} (lifecycle : Lifecycle (env, .mark c) x)
    (stepped : netStep (env, .mark c) x = .ok x') : NetInv x' := by
  obtain ⟨member, unmarked⟩ := lifecycle
  have card : (x.conns.erase c).card + 1 = x.conns.card := Multiset.card_erase_add_one member
  have few : ({ c with marked := true } ::ₘ x.conns.erase c).card < 2 ^ 31 := by
    rw [Multiset.card_cons, card]
    exact inv.tallied.few
  have same : ∀ d ∈ { c with marked := true } ::ₘ x.conns.erase c, ∃ c' ∈ x.conns, d.ct = c'.ct := by
    intro d live
    cases Multiset.mem_cons.mp live with
    | inl changed => exact ⟨c, member, changed ▸ rfl⟩
    | inr other => exact ⟨d, Multiset.mem_of_mem_erase other, rfl⟩
  -- a connection is not counted before its first mark event
  have before : ∀ ip, counted x.conns ip = counted (x.conns.erase c) ip := by
    intro ip
    rw [counted_split member, if_neg (by simp [unmarked])]
    rfl
  simp only [netStep, markEvent_eq] at stepped
  by_cases tracked : c.ct.tracked = true
  · rw [if_pos tracked] at stepped
    obtain ⟨carries, e, inTable, here, _, count⟩ := inv.entry member tracked
    obtain ⟨wf, con⟩ := inv.good
    obtain ⟨t', s', run, rep, counts⟩ :=
      conntrackMark_spec wf.represents con.ipCnt_pos c.ct.ipAddr
    rw [run] at stepped
    cases stepped
    refine ⟨.of_represents rep (counts.consistent con), ?_⟩
    rw [rep.2]
    cases counts with
    | unknown fresh => exact absurd here (fresh e inTable)
    | @raised e' rest split here' =>
      have inTable' : e' ∈ x.s.registry.entries := split ▸ Multiset.mem_cons_self e' rest
      -- the entry the event has found is the one of the connection's address
      obtain rfl : e' = e := con.eq_of_srcIp inTable' inTable (here'.trans here.symm)
      refine inv.tallied.touch split con.nodup few same ?_ ?_
      · have bound : counted (x.conns.erase c) e'.srcIp ≤ (x.conns.erase c).card :=
          Multiset.countP_le_card ..
        have limit := inv.tallied.few
        rw [count, before, counted_cons, if_pos ⟨here.symm, carries, rfl⟩]
        exact atomicInc_eq (by omega) (by omega)
      · intro ip ne
        have elsewhere : ¬ c.ct.ipAddr = ip := fun same => ne (same.symm.trans here.symm)
        rw [before, counted_cons, if_neg (by simp [elsewhere])]
        rfl
  · rw [if_neg tracked] at stepped
    cases stepped
    refine ⟨inv.good, inv.tallied.recount few same ?_⟩
    intro e inTable recognised
    have outside := inv.uncounted member tracked e inTable recognised
    rw [before, counted_cons, if_neg (fun counts => outside ⟨counts.1, counts.2.1⟩)]
    rfl

theorem destroy (inv : NetInv x) {c : Conn} (lifecycle : Lifecycle (env, .destroy c) x)
    (orderly : Orderly (env, .destroy c) x)
    (stepped : netStep (env, .destroy c) x = .ok x') : NetInv x' := by
  obtain ⟨member, marked⟩ := lifecycle
  have few : (x.conns.erase c).card < 2 ^ 31 :=
    Nat.lt_of_le_of_lt (Multiset.card_erase_le ..) inv.tallied.few
  have same : ∀ d ∈ x.conns.erase c, ∃ c' ∈ x.conns, d.ct = c'.ct :=
    fun d live => ⟨d, Multiset.mem_of_mem_erase live, rfl⟩
  simp only [netStep, destroyEvent_eq] at stepped
  by_cases tracked : c.ct.tracked = true
  · rw [if_pos tracked] at stepped
    obtain ⟨carries, e, inTable, here, _, count⟩ := inv.entry member tracked
    rw [counted_split member, if_pos ⟨here.symm, carries, marked carries⟩] at count
    have elsewhere : ∀ ip, ip ≠ e.srcIp → counted (x.conns.erase c) ip = counted x.conns ip := by
      intro ip ne
      have outside : ¬ c.ct.ipAddr = ip := fun same => ne (same.symm.trans here.symm)
      rw [counted_split member, if_neg (by simp [outside])]
      rfl
    have bound : counted (x.conns.erase c) e.srcIp ≤ (x.conns.erase c).card :=
      Multiset.countP_le_card ..
    have card : (x.conns.erase c).card + 1 = x.conns.card := Multiset.card_erase_add_one member
    have limit := inv.tallied.few
    have lowered : atomicDec e.count = counted (x.conns.erase c) e.srcIp := by
      rw [count, atomicDec_eq (by omega) (by omega)]
      omega
    obtain ⟨wf, con⟩ := inv.good
    obtain ⟨t', s', run, rep, dropped⟩ :=
      conntrackDestroy_spec env wf.represents con c.ct.ipAddr
    rw [run] at stepped
    cases stepped
    refine ⟨.of_represents rep (dropped.consistent con), ?_⟩
    rw [rep.2]
    -- with the count at zero the last connection of the address is gone
    have gone : atomicDec e.count ≤ 0 →
        ∀ d ∈ x.conns.erase c, d.ct.ipAddr = e.srcIp → d.ct.mark = 0 := by
      intro idle d live home
      by_contra carriesD
      have markedD : ∃ d ∈ x.conns.erase c,
          d.ct.ipAddr = e.srcIp ∧ d.ct.mark ≠ 0 ∧ d.marked = true := by
        rcases orderly carries with ⟨d', liveD, homeD, carriesD', markedD⟩ | allMarked
        · exact ⟨d', liveD, homeD.trans here.symm, carriesD', markedD⟩
        · exact ⟨d, live, home, carriesD, allMarked d live (home.trans here) carriesD⟩
      have pos := counted_pos.mpr markedD
      omega
    have unique : ∀ e' rest, x.s.registry.entries = e' ::ₘ rest → e'.srcIp = c.ct.ipAddr → e' = e :=
      fun e' rest split here' => con.eq_of_srcIp (split ▸ Multiset.mem_cons_self e' rest) inTable
        (here'.trans here.symm)
    cases dropped with
    | unknown fresh => exact absurd here (fresh e inTable)
    | @kept e' rest split here' used =>
      obtain rfl := unique e' rest split here'
      exact inv.tallied.touch split con.nodup few same lowered elsewhere
    | @left e' rest split here' idle isShare others =>
      obtain rfl := unique e' rest split here'
      exact inv.tallied.drop split con.nodup rfl few same (gone idle) elsewhere
    | @freed e' rest b split here' idle last inRange mark =>
      obtain rfl := unique e' rest split here'
      exact inv.tallied.drop split con.nodup rfl few same (gone idle) elsewhere
  · rw [if_neg tracked] at stepped
    cases stepped
    refine ⟨inv.good, inv.tallied.recount few same ?_⟩
    intro e inTable recognised
    have outside := inv.uncounted member tracked e inTable recognised
    rw [counted_split member, if_neg (fun counts => outside ⟨counts.1, counts.2.1⟩)]
    rfl

theorem reset (inv : NetInv x) {flag : Nat} (lifecycle : Lifecycle (env, .reset flag) x)
    (orderly : Orderly (env, .reset flag) x)
    (stepped : netStep (env, .reset flag) x = .ok x') : NetInv x' := by
  obtain ⟨⟨wf, con⟩, tallied⟩ := inv
  obtain ⟨s', run, rep⟩ := qmarkReset_spec lifecycle wf.represents flag
  simp only [netStep, run] at stepped
  cases stepped
  by_cases off : 0 = flag
  · rw [if_pos off] at rep
    have entries : s'.registry.entries = x.s.registry.entries := by rw [rep.2]
    exact ⟨.of_represents rep (con.congr rfl rfl rfl rfl rfl), tallied.congr entries⟩
  · rw [if_neg off] at rep
    refine ⟨.of_represents rep (con.clear.congr rfl rfl rfl rfl rfl), ?_⟩
    have entries : s'.registry.entries = 0 := congrArg Registry.entries rep.2
    refine ⟨tallied.few, tallied.ipv4, ?_, by simp [entries]⟩
    intro c member carries
    exact absurd (orderly (Ne.symm off) c member) carries

theorem step (inv : NetInv x) {l : Env × NetStep} (lifecycle : Lifecycle l x)
    (orderly : Orderly l x) (stepped : netStep l x = .ok x') : NetInv x' := by
  obtain ⟨env, label⟩ := l
  cases label with
  | first skb info ct =>
    exact inv.unmarked lifecycle.1 lifecycle.2 orderly.1 orderly.2 stepped
  | mark c => exact inv.mark lifecycle stepped
  | later c skb info => exact inv.later lifecycle orderly stepped
  | destroy c => exact inv.destroy lifecycle orderly stepped
  | reset flag => exact inv.reset lifecycle orderly stepped

theorem carriedKept (inv : NetInv x) : CarriedKept x := by
  intro c member carries
  obtain ⟨e, inTable, here, mark⟩ := inv.tallied.kept c member carries
  refine ⟨e, inTable, here, mark, ?_⟩
  intro e' inTable' ne sameMark
  obtain ⟨sameId, isShare⟩ := inv.good.2.apart e' inTable' e inTable
    (fun same => ne (same.trans here)) (sameMark.trans mark.symm)
  exact ⟨sameId, sameId ▸ isShare⟩

end NetInv

/-! ## Runs -/

/-- In orderly runs from empty tables every carried mark stays the mark of its address. -/
theorem carried_kept {s₀ : St} (start : Started s₀) {x : Net}
    (run : Run netStep (fun l y => Lifecycle l y ∧ Orderly l y) { s := s₀, conns := 0 } x) :
    CarriedKept x := by
  have startInv : NetInv { s := s₀, conns := 0 } := by
    refine ⟨start.good, by simp, by simp, by simp, ?_⟩
    simp [start.empty]
  have inv : NetInv x := run.invariant NetInv startInv
    fun l y z invY allowed stepped => invY.step allowed.1 allowed.2 stepped
  exact inv.carriedKept

def webCt (mark : Nat) : NfConn := ⟨afInet, false, mark, ⟨7, 9⟩, ⟨9, 7⟩⟩

/-- A packet that another module has marked outside of the mask. -/
def webPacket : NetStep := .first ⟨0x80000, 7, 9⟩ ⟨0x7f800, 1, 0⟩ (webCt 0)

/-- A further packet of such a connection, which has the mark `mark`. -/
def nextPacket (mark : Nat) (marked : Bool) : NetStep :=
  .later ⟨webCt mark, marked⟩ ⟨0x80000, 7, 9⟩ ⟨0x7f800, 1, 0⟩

/-- Three connections of one address.  The first two are turned away during a reset; one of
    them ends, the other one is given a mark by its next packet and ends before the third. -/
def overlappingTrace : List (Env × NetStep) :=
  [(plainEnv, .reset 1), (plainEnv, webPacket), (plainEnv, webPacket), (plainEnv, .reset 0),
   (plainEnv, nextPacket 0 false), (plainEnv, .destroy ⟨webCt 0, false⟩),
   (plainEnv, .mark ⟨webCt 0x800, false⟩), (plainEnv, nextPacket 0x800 true), (plainEnv, webPacket),
   (plainEnv, .mark ⟨webCt 0x800, false⟩), (plainEnv, .destroy ⟨webCt 0x800, true⟩)]

theorem webPacket_lifecycle {x : Net} (valid : x.s.registry.ValidId 1) :
    Lifecycle (plainEnv, webPacket) x := ⟨⟨by decide, rfl, valid⟩, rfl, rfl⟩

theorem nextPacket_lifecycle {x : Net} {mark : Nat} {marked : Bool}
    (live : (⟨webCt mark, marked⟩ : Conn) ∈ x.conns) (valid : x.s.registry.ValidId 1) :
    Lifecycle (plainEnv, nextPacket mark marked) x := ⟨live, by decide, rfl, valid⟩

theorem overlappingTrace_allowed :
    Allowed netStep (fun l y => Lifecycle l y ∧ Orderly l y) overlappingTrace
      { s := smallSt, conns := 0 } := by
  refine ⟨⟨plainEnv_alloc, fun _ c member => nomatch member⟩, ?_⟩
  refine ⟨⟨webPacket_lifecycle (by decide), show Multiset.card _ < _ by decide, by decide⟩, ?_⟩
  refine ⟨⟨webPacket_lifecycle (by decide), show Multiset.card _ < _ by decide, by decide⟩, ?_⟩
  refine ⟨⟨plainEnv_alloc, fun on => absurd rfl on⟩, ?_⟩
  refine ⟨⟨nextPacket_lifecycle (by decide) (by decide), fun _ => by decide⟩, ?_⟩
  refine ⟨⟨⟨by decide, fun carries => absurd rfl carries⟩, fun carries => absurd rfl carries⟩, ?_⟩
  refine ⟨⟨⟨by decide, rfl⟩, trivial⟩, ?_⟩
  refine ⟨⟨nextPacket_lifecycle (by decide) (by decide), fun bare => absurd bare (by decide)⟩, ?_⟩
  refine ⟨⟨webPacket_lifecycle (by decide), show Multiset.card _ < _ by decide, by decide⟩, ?_⟩
  exact ⟨⟨⟨by decide, rfl⟩, trivial⟩,
    ⟨⟨by decide, fun _ => rfl⟩, fun _ => .inl ⟨⟨webCt 0x800, true⟩, by decide, by decide⟩⟩, trivial⟩

theorem overlappingTrace_kept :
    ∃ x, runAll netStep overlappingTrace { s := smallSt, conns := 0 } = .ok x ∧ CarriedKept x :=
  ⟨_, rfl, carried_kept smallSt_started (Run.of_runAll overlappingTrace_allowed rfl)⟩

/-! ## Marks left behind -/

/-- A reset under a live connection. -/
def resetTrace : List (Env × NetStep) := [(plainEnv, webPacket), (plainEnv, .reset 1)]

/-- A connection whose MARK event is overtaken by the end of another one. -/
def overtakenTrace : List (Env × NetStep) :=
  [(plainEnv, webPacket), (plainEnv, .mark ⟨webCt 0x800, false⟩), (plainEnv, webPacket),
   (plainEnv, .destroy ⟨webCt 0x800, true⟩)]

/-- Room for the mark 0x1800, of which the mask 0x800 saves one bit. -/
def threeSt : St :=
  { smallSt with
    gMarktblHead := .to { elemNum := 0, size := 3, ht := [[], [], []] }
    markBitmap := .to [false, false, false]
    maxIpCnt := 3 }

theorem threeSt_started : Started threeSt where
  good := .of_represents (newTables_represents threeSt (by decide))
    (Consistent.respec (by decide) (by decide))
  empty := rfl

def narrowPacket (ip : Be32) : NetStep :=
  .first ⟨0, ip, 9⟩ ⟨0x800, 1, 0⟩ ⟨afInet, false, 0, ⟨ip, 9⟩, ⟨9, ip⟩⟩

/-- Marks that the mask does not cover. -/
def narrowTrace : List (Env × NetStep) :=
  [(plainEnv, narrowPacket 5), (plainEnv, narrowPacket 6), (plainEnv, narrowPacket 7)]

theorem resetTrace_allowed : Allowed netStep Lifecycle resetTrace { s := smallSt, conns := 0 } :=
  ⟨webPacket_lifecycle (by decide), plainEnv_alloc, trivial⟩

theorem overtakenTrace_allowed :
    Allowed netStep Lifecycle overtakenTrace { s := smallSt, conns := 0 } := by
  refine ⟨webPacket_lifecycle (by decide), ⟨by decide, rfl⟩, ?_⟩
  exact ⟨webPacket_lifecycle (by decide), ⟨by decide, fun _ => rfl⟩, trivial⟩

theorem narrowTrace_allowed : Allowed netStep Lifecycle narrowTrace { s := threeSt, conns := 0 } :=
  ⟨⟨⟨by decide, rfl, by decide⟩, rfl, rfl⟩, ⟨⟨by decide, rfl, by decide⟩, rfl, rfl⟩,
    ⟨⟨by decide, rfl, by decide⟩, rfl, rfl⟩, trivial⟩

/-- The first two traces end with a carried mark and an empty table, the third with a
    carried mark that is not the one of its entry. -/
theorem carried_left_behind :
    (∃ x, Run netStep Lifecycle { s := smallSt, conns := 0 } x ∧
      runAll netStep resetTrace { s := smallSt, conns := 0 } = .ok x ∧ ¬ CarriedKept x) ∧
    (∃ x, Run netStep Lifecycle { s := smallSt, conns := 0 } x ∧
      runAll netStep overtakenTrace { s := smallSt, conns := 0 } = .ok x ∧ ¬ CarriedKept x) ∧
    ∃ x, Started threeSt ∧ Run netStep Lifecycle { s := threeSt, conns := 0 } x ∧
      runAll netStep narrowTrace { s := threeSt, conns := 0 } = .ok x ∧ ¬ CarriedKept x := by
  refine ⟨?_, ?_, ?_⟩
  · refine ⟨_, Run.of_runAll resetTrace_allowed rfl, rfl, ?_⟩
    intro kept
    obtain ⟨e, inTable, _⟩ := kept ⟨webCt 0x800, false⟩ (by decide) (by decide)
    have empty : e ∈ (0 : Multiset MarktblNode) := inTable
    cases empty
  · refine ⟨_, Run.of_runAll overtakenTrace_allowed rfl, rfl, ?_⟩
    intro kept
    obtain ⟨e, inTable, _⟩ := kept ⟨webCt 0x800, false⟩ (by decide) (by decide)
    have empty : e ∈ (0 : Multiset MarktblNode) := inTable
    cases empty
  · refine ⟨_, threeSt_started, Run.of_runAll narrowTrace_allowed rfl, rfl, ?_⟩
    intro kept
    obtain ⟨e, inTable, here, mark, _⟩ :=
      kept ⟨⟨afInet, false, 0x800, ⟨7, 9⟩, ⟨9, 7⟩⟩, false⟩ (by decide) (by decide)
    revert e
    decide

end IpQos.Verified
