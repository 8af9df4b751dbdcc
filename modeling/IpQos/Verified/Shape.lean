import IpQos.Verified.Frames
import IpQos.Verified.Operations

/-! # The shape of the tables

As long as the tables can be allocated they are live and of the sizes the globals
say, and a rule that is off has no parameters.  Entries, bits and counts may contradict
each other: the shape survives every operation. -/

namespace IpQos.Verified

open IpQos.Kmod
open IpQos.Lib (Run)

structure Shaped (s : St) : Prop where
  head : ∃ head, s.gMarktblHead = .to head
  bits : ∃ bm, s.markBitmap = .to bm ∧ bm.length = s.maxIpCnt
  rules : ∃ tbl, s.gRuletbl = .to tbl ∧ tbl.length = s.maxRuleCnt ∧
    ∀ rn ∈ tbl, rn.on = false → rn.params = .zero
  unwrapped : Unwrapped s.maxIpCnt s.maxRuleCnt

/-- Every operation, as long as the tables can be allocated, in their full sizes. -/
def Allocating (l : Env × Op) (_ : St) : Prop :=
  AllocatesTables l.1 ∧
    match l.2 with
    | .ioctl (.specSet maxIpCnt maxRuleCnt) => Unwrapped maxIpCnt maxRuleCnt
    | _ => True

/-- The states that operations lead to from module init. -/
def Reachable (s : St) : Prop :=
  ∃ env, AllocatesTables env ∧ Run opStep Allocating (qosMarktblInit env).2 s

theorem Ptr.map_eq_to {α β : Type} {p : Ptr α} {f : α → β} {b : β} (mapped : p.map f = .to b) :
    ∃ a, p = .to a ∧ f a = b := by
  match p with
  | .null => cases mapped
  | .dangling => cases mapped
  | .to a =>
    cases mapped
    exact ⟨a, rfl, rfl⟩

variable {env : Env} {s s' : St}

/-- What `qmark_set_spec` leaves once the tables are allocated. -/
def respecified (s : St) (ipSpec ruleSpec : Nat) : St :=
  { s with
    maxIpCnt := ipSpec
    maxRuleCnt := ruleSpec
    markBitmap := .to (List.replicate ipSpec false)
    gRuletbl := .to (List.replicate ruleSpec .zero)
    gMarktblHead := .to { elemNum := 0, size := ipSpec, ht := List.replicate ipSpec [] } }

namespace Shaped

theorem framed (shaped : Shaped s) (framed : Framed s s') : Shaped s' := by
  obtain ⟨⟨head, liveHead⟩, ⟨bm, liveBits, bitCnt⟩, ⟨tbl, liveRules, ruleCnt, off⟩, unwrapped⟩ := shaped
  have mapHead := framed.head
  have mapBits := framed.bits
  have mapRules := framed.rules
  rw [liveHead] at mapHead
  rw [liveBits] at mapBits
  rw [liveRules] at mapRules
  obtain ⟨head', liveHead', _⟩ := Ptr.map_eq_to mapHead
  obtain ⟨bm', liveBits', length⟩ := Ptr.map_eq_to mapBits
  obtain ⟨tbl', liveRules', params⟩ := Ptr.map_eq_to mapRules
  refine ⟨⟨head', liveHead'⟩, ⟨bm', liveBits', ?_⟩, ⟨tbl', liveRules', ?_, ?_⟩, ?_⟩
  · rw [length, bitCnt, framed.maxIpCnt]
  · rw [← List.length_map RuletblNode.params, params, List.length_map, ruleCnt, framed.maxRuleCnt]
  · intro rn' member isOff
    have inMap : rn'.params ∈ tbl.map RuletblNode.params := params ▸ List.mem_map_of_mem member
    obtain ⟨rn, inTable, same⟩ := List.mem_map.mp inMap
    rw [← same]
    apply off rn inTable
    have sameOn : rn.params.on = rn'.params.on := congrArg RuletblNode.on same
    exact sameOn.trans isOff
  · rw [framed.maxIpCnt, framed.maxRuleCnt]
    exact unwrapped

theorem modifyRule (shaped : Shaped s) {id : Nat} {f : RuletblNode → RuletblNode}
    (ran : Kmod.modifyRule id f s = .ok s')
    (off : ∀ rn, (rn.on = false → rn.params = .zero) →
      (f rn).on = false → (f rn).params = .zero) : Shaped s' := by
  obtain ⟨tbl, deref, ran⟩ := bind_eq_ok ran
  obtain ⟨tbl', live, ruleCnt, offs⟩ := shaped.rules
  rw [live] at deref
  cases deref
  split at ran
  · cases ran
    refine ⟨shaped.head, shaped.bits, ⟨_, rfl, ?_, ?_⟩, shaped.unwrapped⟩
    · rw [List.length_modify]
      exact ruleCnt
    · exact IpQos.Lib.forall_mem_modify _ offs off
  · cases ran

/-- Clearing `on` in a record that `memset` has cleared changes nothing. -/
theorem qmarkDelRule_eq (id : Nat) (s : St) :
    qmarkDelRule id s = Kmod.modifyRule id (fun _ => .zero) s := by
  unfold qmarkDelRule Kmod.modifyRule
  cases deref : s.gRuletbl.deref with
  | error e => rfl
  | ok tbl =>
    rw [ok_bind]
    by_cases inRange : subU32 id 1 < tbl.length
    · have again : (s.setRules (tbl.modify (subU32 id 1) fun _ => .zero)).gRuletbl.deref =
          .ok (tbl.modify (subU32 id 1) fun _ => .zero) := rfl
      rw [if_pos inRange, ok_bind, again, ok_bind, List.length_modify, if_pos inRange]
      apply congrArg Except.ok
      show s.setRules _ = s.setRules _
      rw [List.modify_modify_eq]
      rfl
    · rw [if_neg inRange, error_bind]

/-! ## Tables flushed and allocated again -/

theorem replicate_off (n : Nat) :
    ∀ rn ∈ List.replicate n RuletblNode.zero, rn.on = false → rn.params = .zero := by
  intro rn member _
  rw [List.eq_of_mem_replicate member]
  rfl

theorem qmarkFlushHash_eq (shaped : Shaped s) (alloc : AllocatesTables env) :
    Kmod.qmarkFlushHash env s = .ok
      (s.setHead { elemNum := 0, size := s.maxIpCnt, ht := List.replicate s.maxIpCnt [] }) := by
  obtain ⟨head, live⟩ := shaped.head
  exact Verified.qmarkFlushHash_eq alloc live shaped.unwrapped.buckets

theorem flushMark_eq {bm : List Bool} (live : s.markBitmap = .to bm) :
    flushMark s = .ok (s.setBits (List.replicate bm.length false)) := by
  simp only [flushMark, live, Ptr.deref_to, ok_bind, List.map_const']
  rfl

theorem flushMark (shaped : Shaped s) (ran : Kmod.flushMark s = .ok s') : Shaped s' :=
  shaped.framed (Framed.flushMark ran)

theorem qmarkFlushHash (shaped : Shaped s) (alloc : AllocatesTables env)
    (ran : Kmod.qmarkFlushHash env s = .ok s') : Shaped s' := by
  rw [shaped.qmarkFlushHash_eq alloc] at ran
  cases ran
  exact ⟨⟨_, rfl⟩, shaped.bits, shaped.rules, shaped.unwrapped⟩

theorem qmarkFlushRule (shaped : Shaped s) (alloc : AllocatesTables env) :
    Shaped (Kmod.qmarkFlushRule env s) := by
  unfold Kmod.qmarkFlushRule qosRuletblInit
  rw [alloc.2.1, if_pos rfl]
  exact ⟨shaped.head, shaped.bits,
    ⟨_, rfl, List.length_replicate.trans shaped.unwrapped.rules, replicate_off _⟩, shaped.unwrapped⟩

theorem setFlag (shaped : Shaped s) (b : Bool) : Shaped { s with resetFlag := b } :=
  ⟨shaped.head, shaped.bits, shaped.rules, shaped.unwrapped⟩

theorem clearCounts_eq {tbl : List RuletblNode} (live : s.gRuletbl = .to tbl)
    (ruleCnt : tbl.length = s.maxRuleCnt) :
    clearCounts s = .ok (s.setRules (tbl.map fun rn => { rn with count := 0 })) :=
  Verified.clearCounts_eq live ruleCnt

theorem qmarkReset (shaped : Shaped s) (alloc : AllocatesTables env) {flag : Nat}
    (ran : Kmod.qmarkReset env flag s = .ok s') : Shaped s' := by
  unfold Kmod.qmarkReset at ran
  split at ran
  · cases ran
    exact shaped.setFlag false
  · obtain ⟨s₁, flush, ran⟩ := bind_eq_ok ran
    obtain ⟨s₂, empty, zero⟩ := bind_eq_ok ran
    have shaped₂ : Shaped s₂ := ((shaped.setFlag true).flushMark flush).qmarkFlushHash alloc empty
    obtain ⟨tbl, live, ruleCnt, off⟩ := shaped₂.rules
    rw [clearCounts_eq live ruleCnt] at zero
    cases zero
    apply shaped₂.framed
    apply Framed.setRules live
    rw [List.map_map]
    rfl

theorem qmarkSetSpec_eq (shaped : Shaped s) (alloc : AllocatesTables env) {ipSpec ruleSpec : Nat}
    (unwrapped : Unwrapped ipSpec ruleSpec) :
    qmarkSetSpec env ipSpec ruleSpec s = .ok (respecified s ipSpec ruleSpec) := by
  obtain ⟨head, live⟩ := shaped.head
  exact Verified.qmarkSetSpec_eq alloc live unwrapped

theorem of_respecified (s : St) {ipSpec ruleSpec : Nat} (unwrapped : Unwrapped ipSpec ruleSpec) :
    Shaped (respecified s ipSpec ruleSpec) :=
  ⟨⟨_, rfl⟩, ⟨_, rfl, List.length_replicate⟩, ⟨_, rfl, List.length_replicate, replicate_off _⟩,
    unwrapped⟩

/-! ## Operations -/

theorem init (alloc : AllocatesTables env) : Shaped (qosMarktblInit env).2 := by
  rw [qosMarktblInit_eq alloc]
  exact of_respecified St.static unwrapped_static

theorem step (shaped : Shaped s) {l : Env × Op} (allocating : Allocating l s)
    (ran : opStep l s = .ok s') : Shaped s' := by
  obtain ⟨env, op⟩ := l
  cases Effect.of_opStep ran with
  | framed framed => exact shaped.framed framed
  | ruleAdd add =>
    apply shaped.modifyRule add
    intro rn _ isOff
    cases isOff
  | ruleDel del =>
    rw [qmarkDelRule_eq] at del
    exact shaped.modifyRule del fun _ _ _ => rfl
  | ruleFlush => exact shaped.qmarkFlushRule allocating.1
  | hashFlush flush => exact shaped.qmarkFlushHash allocating.1 flush
  | reset reset => exact shaped.qmarkReset allocating.1 reset
  | specSet set =>
    rw [shaped.qmarkSetSpec_eq allocating.1 allocating.2] at set
    cases set
    exact of_respecified s allocating.2

end Shaped

theorem Reachable.shaped (reachable : Reachable s) : Shaped s := by
  obtain ⟨env, alloc, run⟩ := reachable
  apply run.invariant Shaped (.init alloc)
  intro l y z shaped allocating ran
  exact shaped.step allocating ran

end IpQos.Verified
