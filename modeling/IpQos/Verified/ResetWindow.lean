import IpQos.Verified.Frames
import IpQos.Verified.GroupMarks

/-! # The window of a reset

Between `qmark_reset(1)` and `qmark_reset(0)` the scripts rebuild the classes, and
the table should stay empty.  The flag is tested once, at the start of a call, so
what keeps the window closed is that no call stands between its test and its
allocation when the section of `qmark_reset(1)` runs.  A call that has its mark
already finds the mark cleared, and is refused. -/

namespace IpQos.Verified

open IpQos.Kmod
open IpQos.Lib (Run Allowed runAll contents)

/-! ## Empty tables -/

/-- The flag is set, the table is empty and no bit is set, wherever the pointers go. -/
structure Emptied (s : St) : Prop where
  flag : s.resetFlag = true
  entries : s.registry.entries = 0
  bits : ∀ b, s.registry.bit b = false

namespace Emptied

variable {s s' : St}

/-- Steps that change neither the bitmap nor the hash table. -/
theorem congr (emptied : Emptied s) (flag : s'.resetFlag = s.resetFlag)
    (head : s'.gMarktblHead = s.gMarktblHead) (bits : s'.markBitmap = s.markBitmap) :
    Emptied s' where
  flag := flag.trans emptied.flag
  entries := by
    have entries := emptied.entries
    unfold St.registry at entries ⊢
    rw [head]
    exact entries
  bits := by
    intro b
    have isClear := emptied.bits b
    unfold St.registry at isClear ⊢
    rw [bits]
    exact isClear

theorem modifyRule (emptied : Emptied s) {id : Nat} {f : RuletblNode → RuletblNode}
    (ran : Kmod.modifyRule id f s = .ok s') : Emptied s' := by
  obtain ⟨tbl, _, ran⟩ := bind_eq_ok ran
  split at ran
  · cases ran
    exact emptied.congr rfl rfl rfl
  · cases ran

theorem readBit_eq {bm : List Bool} {size i : Nat} {b : Bool} (bits : s.markBitmap = .to bm)
    (read : readBit size bm i = .ok b) : s.registry.bit i = b := by
  unfold readBit at read
  cases found : bm[i]? with
  | none =>
    rw [found] at read
    cases read
  | some b' =>
    rw [found] at read
    cases read
    simp [St.registry, bits, found]

/-- No mark passes the test. -/
theorem testMark (emptied : Emptied s) {mark : Nat} {b : Bool}
    (ran : Kmod.testMark mark s = .ok b) : b = false := by
  obtain ⟨bm, deref, read⟩ := bind_eq_ok ran
  exact (readBit_eq (Ptr.deref_eq_ok deref) read).symm.trans (emptied.bits _)

/-- No address is inserted. -/
theorem qmarkAddHash (emptied : Emptied s) {env : Env} {ip : Be32} {id mark : Nat} {ret : RetCode}
    (ran : Kmod.qmarkAddHash env ip id mark s = .ok (ret, s')) : s' = s := by
  obtain ⟨allocated, tested, ran⟩ := bind_eq_ok ran
  rw [emptied.testMark tested] at ran
  cases ran
  rfl

theorem freeMark (emptied : Emptied s) {mark : Nat} (ran : Kmod.freeMark mark s = .ok s') :
    Emptied s' := by
  obtain ⟨bm, deref, ran⟩ := bind_eq_ok ran
  have liveBits := Ptr.deref_eq_ok deref
  obtain ⟨bm', write, ran⟩ := bind_eq_ok ran
  cases ran
  unfold writeBit at write
  split at write
  · cases write
    refine ⟨emptied.flag, emptied.entries, ?_⟩
    intro b
    have isClear := emptied.bits b
    simp only [St.registry, liveBits, St.setBits, List.getD_eq_getElem?_getD] at isClear ⊢
    rw [List.getElem?_set]
    split
    · rfl
    · exact isClear
  · cases write

/-- Every bucket of an empty table is empty. -/
theorem marktblHashGet (emptied : Emptied s) {ip : Be32} {node : Option MarktblNode}
    (ran : Kmod.marktblHashGet ip s = .ok node) : node = none := by
  obtain ⟨head, deref, ran⟩ := bind_eq_ok ran
  have liveHead := Ptr.deref_eq_ok deref
  obtain ⟨i, _, ran⟩ := bind_eq_ok ran
  obtain ⟨chain, home, ran⟩ := bind_eq_ok ran
  cases ran
  have noEntries : contents head.ht = 0 := by
    have entries := emptied.entries
    simpa [St.registry, liveHead] using entries
  unfold bucket at home
  cases found : head.ht[i]? with
  | none =>
    rw [found] at home
    cases home
  | some chain' =>
    rw [found] at home
    cases home
    have inTable : chain ∈ head.ht := List.mem_of_getElem? found
    -- a chain of an empty table has nothing in it
    have empty : chain = [] := by
      rw [List.eq_nil_iff_forall_not_mem]
      intro node member
      have inContents : node ∈ contents head.ht := by
        unfold contents
        exact List.mem_flatten.mpr ⟨chain, inTable, member⟩
      rw [noEntries] at inContents
      cases inContents
    rw [empty]
    rfl

theorem qmarkConntrackEvent (emptied : Emptied s) {env : Env} {events : Nat} {ct : Option NfConn}
    (ran : Kmod.qmarkConntrackEvent env events ct s = .ok s') : s' = s := by
  cases ct with
  | none =>
    cases ran
    rfl
  | some ct =>
    simp only [Kmod.qmarkConntrackEvent] at ran
    split at ran
    · split at ran
      · obtain ⟨node, get, ran⟩ := bind_eq_ok ran
        rw [emptied.marktblHashGet get] at ran
        cases ran
        rfl
      · split at ran
        · obtain ⟨node, get, ran⟩ := bind_eq_ok ran
          rw [emptied.marktblHashGet get] at ran
          cases ran
          rfl
        · cases ran
          rfl
    · cases ran
      rfl

/-! ### The section of `qmark_reset(1)` -/

theorem flushMark_bits (ran : flushMark s = .ok s') :
    (∀ b, s'.registry.bit b = false) ∧ s'.resetFlag = s.resetFlag := by
  obtain ⟨bm, _, ran⟩ := bind_eq_ok ran
  cases ran
  exact ⟨map_false_getD bm, rfl⟩

theorem qmarkFlushHash_entries {env : Env} (ran : qmarkFlushHash env s = .ok s') :
    s'.registry.entries = 0 ∧ s'.markBitmap = s.markBitmap ∧ s'.resetFlag = s.resetFlag := by
  obtain ⟨s₁, exit, ran⟩ := bind_eq_ok ran
  have left : s₁.markBitmap = s.markBitmap ∧ s₁.resetFlag = s.resetFlag := by
    unfold qosMarktblHashtblExit at exit
    split at exit
    · cases exit
      exact ⟨rfl, rfl⟩
    · obtain ⟨s₂, clean, exit⟩ := bind_eq_ok exit
      obtain ⟨head, _, clean⟩ := bind_eq_ok clean
      cases clean
      cases exit
      exact ⟨rfl, rfl⟩
  obtain ⟨⟨ret, s₂⟩, made, ran⟩ := bind_eq_ok ran
  cases ran
  unfold qosMarktblHashtblInit at made
  split at made
  · split at made
    · split at made <;> cases made
      exact ⟨IpQos.Lib.contents_replicate_nil _, left⟩
    · cases made
      exact ⟨rfl, left⟩
  · cases made
    exact ⟨rfl, left⟩

theorem clearCounts_tables (ran : clearCounts s = .ok s') :
    s'.gMarktblHead = s.gMarktblHead ∧ s'.markBitmap = s.markBitmap ∧
      s'.resetFlag = s.resetFlag := by
  unfold clearCounts at ran
  split at ran
  · cases ran
    exact ⟨rfl, rfl, rfl⟩
  · obtain ⟨tbl, _, ran⟩ := bind_eq_ok ran
    split at ran <;> cases ran
    exact ⟨rfl, rfl, rfl⟩

/-- What the section leaves. -/
theorem of_resetSection {env : Env} (flag : s.resetFlag = true)
    (ran : resetSection env s = .ok s') : Emptied s' := by
  obtain ⟨s₁, flush, ran⟩ := bind_eq_ok ran
  obtain ⟨s₂, empty, zero⟩ := bind_eq_ok ran
  obtain ⟨bits, flag₁⟩ := flushMark_bits flush
  obtain ⟨entries, bits₂, flag₂⟩ := qmarkFlushHash_entries empty
  obtain ⟨head, bits₃, flag₃⟩ := clearCounts_tables zero
  have emptied : Emptied s₂ := by
    refine ⟨flag₂.trans (flag₁.trans flag), entries, ?_⟩
    intro b
    have isClear := bits b
    unfold St.registry at isClear ⊢
    rw [bits₂]
    exact isClear
  exact emptied.congr flag₃ head bits₃

/-! ## Calls on empty tables -/

/-- The call has passed the test of the flag and not allocated. -/
def Early (c : Call) : Prop :=
  c.pc = .testMode ∨ c.pc = .allocPriv ∨ c.pc = .testCount ∨ c.pc = .allocFirst

instance (c : Call) : Decidable (Early c) := inferInstanceAs (Decidable (_ ∨ _ ∨ _ ∨ _))

/-- A call that is not early inserts nothing and does not become early. -/
theorem stepCall (emptied : Emptied s) {env : Env} {c c' : Call} (late : ¬ Early c)
    (ran : Kmod.stepCall env c s = .ok (c', s')) : Emptied s' ∧ ¬ Early c' := by
  unfold Kmod.stepCall at ran
  cases pc : c.pc with
  | testMode | allocPriv | testCount | allocFirst => simp [Early, pc] at late
  | find =>
    simp only [pc] at ran
    obtain ⟨result, _, ran⟩ := bind_eq_ok ran
    split at ran <;> cases ran <;> exact ⟨emptied, by simp [Early]⟩
  | testReset =>
    simp only [pc, emptied.flag, ↓reduceIte] at ran
    cases ran
    exact ⟨emptied, by simp [Early]⟩
  | storeMark | clearMark =>
    simp only [pc] at ran
    obtain ⟨s₁, write, ran⟩ := bind_eq_ok ran
    cases ran
    exact ⟨emptied.modifyRule write, by simp [Early]⟩
  | loadMark | retestMode | retestCount =>
    simp only [pc] at ran
    obtain ⟨rn, _, ran⟩ := bind_eq_ok ran
    try split at ran
    all_goals
      cases ran
      exact ⟨emptied, by simp [Early]⟩
  | addHash =>
    simp only [pc] at ran
    obtain ⟨⟨ret, s₁⟩, add, ran⟩ := bind_eq_ok ran
    -- every bit is clear, so `test_mark` turns the entry away
    have emptied₁ : Emptied s₁ := emptied.qmarkAddHash add ▸ emptied
    split at ran <;> cases ran <;> exact ⟨emptied₁, by simp [Early]⟩
  | freeMark =>
    simp only [pc] at ran
    obtain ⟨s₁, free, ran⟩ := bind_eq_ok ran
    cases ran
    exact ⟨emptied.freeMark free, by simp [Early]⟩
  | tcAdd =>
    simp only [pc] at ran
    obtain ⟨rn, _, ran⟩ := bind_eq_ok ran
    obtain ⟨s₁, shape, ran⟩ := bind_eq_ok ran
    cases ran
    rw [qmarkTcAddRule_done shape]
    exact ⟨emptied.congr rfl rfl rfl, by simp [Early]⟩
  | ret code =>
    simp only [pc] at ran
    cases ran
    exact ⟨emptied, late⟩

end Emptied

/-! ## Runs -/

variable {ι : Type}

/-- `qmark_reset(1)` does not enter its section while a call is early, and `qmark_reset(0)`
    does not overtake it. -/
def Closing (l : Label ι) (x : Sys ι) : Prop :=
  match l with
  | .resetFlush _ => x.resets ≠ 0 → ∀ i, ¬ Emptied.Early (x.call i)
  | .resetOff => x.resets = 0
  | _ => True

instance [Fintype ι] (l : Label ι) (x : Sys ι) : Decidable (Closing l x) :=
  match l with
  | .resetFlush _ => inferInstanceAs (Decidable (_ → ∀ _, _))
  | .resetOff => inferInstanceAs (Decidable (_ = _))
  | .call _ _ | .event _ _ _ | .resetOn => .isTrue trivial

/-- What holds in and before the window. -/
structure WindowInv (x : Sys ι) : Prop where
  begun : x.resets ≠ 0 → x.st.resetFlag = true
  window : x.window = true → Emptied x.st ∧ ∀ i, ¬ Emptied.Early (x.call i)

variable [DecidableEq ι]

theorem WindowInv.step {x y : Sys ι} (inv : WindowInv x) {l : Label ι} (closing : Closing l x)
    (ran : sysStep l x = .ok y) : WindowInv y := by
  cases l with
  | call i env =>
    obtain ⟨⟨c, s⟩, stepped, ran⟩ := bind_eq_ok ran
    cases ran
    refine ⟨?_, ?_⟩
    · intro begun
      exact (Framed.stepCall stepped).resetFlag.trans (inv.begun begun)
    · intro window
      obtain ⟨emptied, late⟩ := inv.window window
      obtain ⟨emptied', late'⟩ := emptied.stepCall (late i) stepped
      refine ⟨emptied', ?_⟩
      intro j
      by_cases same : j = i
      · subst same
        simpa [Sys.setCall] using late'
      · simpa [Sys.setCall, same] using late j
  | event env events ct =>
    obtain ⟨s, notified, ran⟩ := bind_eq_ok ran
    cases ran
    refine ⟨?_, ?_⟩
    · intro begun
      exact (Framed.qmarkConntrackEvent notified).resetFlag.trans (inv.begun begun)
    · intro window
      obtain ⟨emptied, late⟩ := inv.window window
      exact ⟨emptied.qmarkConntrackEvent notified ▸ emptied, late⟩
  | resetOn =>
    cases ran
    refine ⟨fun _ => rfl, ?_⟩
    intro window
    obtain ⟨emptied, late⟩ := inv.window window
    exact ⟨⟨rfl, emptied.entries, emptied.bits⟩, late⟩
  | resetFlush env =>
    simp only [sysStep] at ran
    split at ran
    · cases ran
      exact inv
    · rename_i pending
      obtain ⟨s, flushed, ran⟩ := bind_eq_ok ran
      cases ran
      -- the flag is set since the write of this `qmark_reset(1)`
      have emptied := Emptied.of_resetSection (inv.begun pending) flushed
      exact ⟨fun _ => emptied.flag, fun _ => ⟨emptied, closing pending⟩⟩
  | resetOff =>
    cases ran
    refine ⟨?_, ?_⟩
    · intro begun
      exact absurd closing begun
    · intro window
      cases window

/-- The table is empty from the return of `qmark_reset(1)` to the start of `qmark_reset(0)`. -/
def StaysEmpty (x : Sys ι) : Prop := x.window = true → x.st.registry.entries = 0

instance (x : Sys ι) : Decidable (StaysEmpty x) := inferInstanceAs (Decidable (_ → _))

/-- With no call early when the section runs, the window stays empty. -/
theorem window_stays_empty {s : St} {call : ι → Call} {x : Sys ι}
    (run : Run sysStep Closing (Sys.start s call) x) : StaysEmpty x := by
  have start : WindowInv (Sys.start s call) := by
    refine ⟨?_, ?_⟩
    · intro begun
      exact absurd rfl begun
    · intro window
      cases window
  have inv : WindowInv x := run.invariant WindowInv start fun _ _ _ inv closing ran =>
    inv.step closing ran
  intro window
  exact (inv.window window).1.entries

/-- The first member has read its count before the section, and allocates after it. -/
def lateMember : List (Label Bool) :=
  steps [(false, 3)] ++ [.resetOn, .resetFlush plainEnv] ++ steps [(false, 4)]

theorem window_not_empty :
    ¬ ∀ (s : St) (call : Bool → Call) (x : Sys Bool), Good s → Waiting call →
      Run sysStep (fun _ _ => True) (Sys.start s call) x → StaysEmpty x := by
  intro always
  have allowed : Allowed sysStep (fun _ _ => True) lateMember (Sys.start sharedSt twoMembers) := by
    decide
  have ends : (runAll sysStep lateMember (Sys.start sharedSt twoMembers)).map (fun x =>
      decide (StaysEmpty x)) = .ok false := by decide
  obtain ⟨x, ran, entered⟩ := map_eq_ok ends
  apply of_decide_eq_false entered
  exact always sharedSt twoMembers x sharedSt_started.good twoMembers_waiting
    (Run.of_runAll allowed ran)

/-- One call has its mark when the section runs, the other begins after it. -/
def refusedMembers : List (Label Bool) :=
  steps [(false, 4)] ++ [.resetOn, .resetFlush plainEnv] ++ steps [(false, 3), (true, 1)]

theorem refusedMembers_stay_out :
    ∃ x, runAll sysStep refusedMembers (Sys.start sharedSt twoMembers) = .ok x ∧
      x.window = true ∧ StaysEmpty x := by
  have allowed : Allowed sysStep Closing refusedMembers (Sys.start sharedSt twoMembers) := by
    decide
  have ends : (runAll sysStep refusedMembers (Sys.start sharedSt twoMembers)).map Sys.window =
      .ok true := by decide
  obtain ⟨x, ran, window⟩ := map_eq_ok ends
  exact ⟨x, ran, window, window_stays_empty (Run.of_runAll allowed ran)⟩

end IpQos.Verified
