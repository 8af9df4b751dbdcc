import IpQos.Script.TcTree
import IpQos.Kmod.Tc
import Mathlib.Data.Set.Insert
import Mathlib.Data.List.Perm.Basic

/-! # The tree of interface classes

The first rule that reaches bare devices builds the tree, and every later rule finds
the roots there and returns.  Which classes there are thus depends on the branch the
first rule takes. -/

namespace IpQos.Verified

open IpQos.Script
open IpQos.Kmod (RuletblNode parentClassid u32)

/-- The class ids on a device. -/
def classesOn (t : TcState) (dev : String) : Set Nat :=
  {c | ∃ root, t dev = some root ∧ ∃ cl ∈ root.classes, cl.classid = c}

/-- An interface that can have a class of its own: its line rate is configured. -/
def Rated (h : Host) (dir : Dir) (iface : IfName) : Prop :=
  iface ≠ .lan ∧ (h.linerate iface dir).isSome

/-- The class of the root and one class for each listed interface that is rated and whose
    number fits. -/
def scriptClasses (h : Host) (dir : Dir) : Set Nat :=
  {c | c = rootClass ∨
    ∃ iface ∈ h.ifaceList, Rated h dir iface ∧ tcClassid (iface.digits + 1) = some c}

/-- The class of the root, which needs a line rate of some interface. -/
def sumClasses (h : Host) : Set Nat :=
  {c | c = rootClass ∧ ∃ iface ∈ h.ifaceList, iface ≠ .lan}

/-- What a rule of this interface builds on a bare device. -/
def builtClasses (h : Host) (dir : Dir) (ifPong : IfName) : Set Nat :=
  if ifPong = .wanAll then sumClasses h else scriptClasses h dir

theorem tcClassid_one : tcClassid 1 = some rootClass := by decide

/-! ## What a command adds -/

/-- `t'` has the classes `S` besides those of `t` on a device with a root, and nothing else
    is changed. -/
structure Adds (dev : String) (S : Set Nat) (t t' : TcState) : Prop where
  rooted : (t' dev).isSome
  classes : classesOn t' dev = classesOn t dev ∪ S
  elsewhere : ∀ d, d ≠ dev → t' d = t d

section Adds

variable {dev : String} {S S' : Set Nat} {t t' t'' : TcState} {h : Host} {dir : Dir}

theorem Adds.nothing (rooted : (t dev).isSome) : Adds dev ∅ t t where
  rooted := rooted
  classes := (Set.union_empty _).symm
  elsewhere := fun _ _ => rfl

theorem Adds.trans (first : Adds dev S t t') (second : Adds dev S' t' t'') :
    Adds dev (S ∪ S') t t'' where
  rooted := second.rooted
  classes := by rw [second.classes, first.classes, Set.union_assoc]
  elsewhere := fun d other => (second.elsewhere d other).trans (first.elsewhere d other)

theorem classesOn_rooted {root : HtbRoot} (here : t dev = some root) :
    classesOn t dev = {c | ∃ cl ∈ root.classes, cl.classid = c} := by
  ext c
  constructor
  · rintro ⟨root', here', member⟩
    cases here.symm.trans here'
    exact member
  · exact fun member => ⟨root, here, member⟩

/-- A class that is there already is refused, which adds nothing to the ids either. -/
theorem tcClassAdd_adds (rooted : (t dev).isSome) (parent : Nat) (classid ceil : Option Nat)
    (fits : ceil.isSome) :
    Adds dev {c | classid = some c} t (tcClassAdd dev parent classid (some rateMax) ceil t) := by
  obtain ⟨root, here⟩ := Option.isSome_iff_exists.mp rooted
  obtain ⟨ceil, rfl⟩ := Option.isSome_iff_exists.mp fits
  cases classid with
  | none =>
    have same : tcClassAdd dev parent none (some rateMax) (some ceil) t = t := by
      simp [tcClassAdd]
    rw [same]
    have empty : {c : Nat | none = some c} = ∅ := by simp
    exact empty ▸ .nothing rooted
  | some id =>
    have single : {c : Nat | some id = some c} = {id} := by
      ext c
      simp [eq_comm]
    rw [single]
    -- tc refuses a class that is there, so adding twice is adding once
    by_cases exists' : ∃ cl ∈ root.classes, cl.classid = id
    · have same : tcClassAdd dev parent (some id) (some rateMax) (some ceil) t = t := by
        simp only [tcClassAdd, here, if_pos (Or.inr exists')]
      rw [same]
      refine ⟨rooted, ?_, fun _ _ => rfl⟩
      rw [classesOn_rooted here]
      symm
      apply Set.union_eq_self_of_subset_right
      exact Set.singleton_subset_iff.mpr exists'
    · have fresh : ¬ (rateMax = 0 ∨ ∃ cl ∈ root.classes, cl.classid = id) :=
        not_or.mpr ⟨by decide, exists'⟩
      simp only [tcClassAdd, here, if_neg fresh]
      refine ⟨by simp, ?_, fun d other => Function.update_of_ne other _ _⟩
      rw [classesOn_rooted (Function.update_self ..), classesOn_rooted here]
      ext c
      simp [or_and_right, exists_or, eq_comm, or_comm]

/-- No line rate, no class: tc does not read `kbit`. -/
theorem tcClassAdd_no_ceil (parent : Nat) (classid rate : Option Nat) :
    tcClassAdd dev parent classid rate none t = t := by
  unfold tcClassAdd
  split
  · contradiction
  · rfl

theorem getIfaceLinerate_listed {iface : IfName} (listed : iface ∈ h.ifaceList) (dir : Dir) :
    (getIfaceLinerate h iface dir).isSome = (h.linerate iface dir).isSome := by
  cases rate : h.linerate iface dir with
  | none => simp [getIfaceLinerate, rate]
  | some digits => by_cases zero : digits = 0 <;> simp [getIfaceLinerate, rate, zero, listed]

theorem addIfaceClasses_cons (iface : IfName) (ifaces : List IfName) :
    addIfaceClasses h dev dir (iface :: ifaces) t =
      addIfaceClasses h dev dir ifaces
        (if iface = .lan then t
        else tcClassAdd dev rootClass (tcClassid (iface.digits + 1)) (some rateMax)
          (getIfaceLinerate h iface dir) t) := rfl

theorem addIfaceClasses_adds (ifaces : List IfName) (listed : ∀ i ∈ ifaces, i ∈ h.ifaceList)
    (rooted : (t dev).isSome) (dir : Dir) :
    Adds dev {c | ∃ iface ∈ ifaces, Rated h dir iface ∧ tcClassid (iface.digits + 1) = some c} t
      (addIfaceClasses h dev dir ifaces t) := by
  induction ifaces generalizing t with
  | nil => simpa [addIfaceClasses] using Adds.nothing rooted
  | cons iface ifaces ih =>
    have here := listed iface List.mem_cons_self
    have rest : ∀ i ∈ ifaces, i ∈ h.ifaceList :=
      fun i member => listed i (List.mem_cons_of_mem iface member)
    rw [addIfaceClasses_cons]
    by_cases isLan : iface = .lan
    · rw [if_pos isLan]
      simpa [isLan, Rated] using ih rest rooted
    · rw [if_neg isLan]
      have numeric := getIfaceLinerate_listed here dir
      cases rate : getIfaceLinerate h iface dir with
      | none =>
        -- tc reads no number in `ceil kbit`
        have unrated : ¬ Rated h dir iface := by
          rintro ⟨_, configured⟩
          simp [rate, configured] at numeric
        rw [tcClassAdd_no_ceil]
        simpa [unrated] using ih rest rooted
      | some ceil =>
        have rated : Rated h dir iface := ⟨isLan, by simpa [rate] using numeric.symm⟩
        have first := tcClassAdd_adds rooted rootClass (tcClassid (iface.digits + 1)) (some ceil) rfl
        convert first.trans (ih rest first.rooted) using 1
        ext c
        simp [rated]

theorem buildIfaceClasses_adds (rooted : (t dev).isSome) (dir : Dir) :
    Adds dev (scriptClasses h dir) t (buildIfaceClasses h dev dir t) := by
  have root := tcClassAdd_adds rooted rootHandle (tcClassid 1) (some rateMax) rfl
  have interfaces := addIfaceClasses_adds h.ifaceList (fun _ member => member) root.rooted dir
  show Adds dev _ t (addIfaceClasses h dev dir h.ifaceList _)
  convert root.trans interfaces using 1
  ext c
  simp [scriptClasses, tcClassid_one, eq_comm]

/-- The sum is a number as soon as one interface is not `LAN`. -/
theorem sumLinerates_isSome (h : Host) (dir : Dir) (ifaces : List IfName) :
    (sumLinerates h dir ifaces).isSome ↔ ∃ iface ∈ ifaces, iface ≠ .lan := by
  -- generalized over the value the sum starts with
  suffices total : ∀ start : Option Nat,
      (ifaces.foldl (fun rootceil iface =>
        if iface = .lan then rootceil
        else some (rootceil.getD 0 + (getIfaceLinerate h iface dir).getD 0)) start).isSome ↔
      start.isSome ∨ ∃ iface ∈ ifaces, iface ≠ .lan by
    apply (total none).trans
    simp only [Option.isSome_none, Bool.false_eq_true, false_or]
  intro start
  induction ifaces generalizing start with
  | nil => simp
  | cons iface ifaces ih =>
    rw [List.foldl_cons, ih]
    by_cases isLan : iface = .lan
    · simp [isLan]
    · simp [isLan]

theorem buildOneClass_adds (rooted : (t dev).isSome) (dir : Dir) :
    Adds dev (sumClasses h) t (buildOneClass h dev dir t) := by
  have numeric := sumLinerates_isSome h dir h.ifaceList
  unfold buildOneClass
  by_cases listed : ∃ iface ∈ h.ifaceList, iface ≠ .lan
  · obtain ⟨sum, total⟩ := Option.isSome_iff_exists.mp (numeric.mpr listed)
    rw [total]
    have added := tcClassAdd_adds rooted rootHandle (tcClassid 1)
      (some (if sum > rateMax then rateMax else sum)) rfl
    show Adds dev _ t (tcClassAdd dev rootHandle (tcClassid 1) (some rateMax) (some _) t)
    convert added using 1
    ext c
    simp [sumClasses, tcClassid_one, listed, eq_comm]
  · have empty : sumLinerates h dir h.ifaceList = none := by
      rw [← Option.not_isSome_iff_eq_none, numeric]
      exact listed
    simp only [empty, Option.map_none, tcClassAdd_no_ceil]
    convert Adds.nothing rooted using 1
    ext c
    simp [sumClasses, listed]

/-- A bare device gets a root without classes. -/
theorem qosTcDevInit_adds (present : h.present dev) (bare : t dev = none) :
    Adds dev ∅ t (qosTcDevInit h dev false t) := by
  have added : qosTcDevInit h dev false t =
      Function.update t dev (some { classes := [], redirect := false }) := by
    simp [qosTcDevInit, qosTcDevCheckRoot, tcQdiscAddRoot, tcQdiscDelRoot, bare, present]
  rw [added]
  refine ⟨by simp, ?_, fun d other => Function.update_of_ne other _ _⟩
  ext c
  simp [classesOn, bare]

/-- Either branch, from a bare device. -/
theorem built (present : h.present dev) (bare : t dev = none) (dir : Dir) (ifPong : IfName) :
    Adds dev (builtClasses h dir ifPong) t
      (if ifPong = .wanAll then buildOneClass h dev dir (qosTcDevInit h dev false t)
      else buildIfaceClasses h dev dir (qosTcDevInit h dev false t)) := by
  have init := qosTcDevInit_adds present bare
  unfold builtClasses
  split
  · simpa using init.trans (buildOneClass_adds init.rooted dir)
  · simpa using init.trans (buildIfaceClasses_adds init.rooted dir)

end Adds

/-! ## One rule -/

section Rules

variable {h : Host} {t : TcState}

theorem tcQdiscAddRoot_other {dev d : String} (other : d ≠ dev) :
    tcQdiscAddRoot h dev t d = t d := by
  unfold tcQdiscAddRoot
  split
  · exact Function.update_of_ne other _ _
  · rfl

theorem tcFilterAddRedirect_other {dev d : String} (other : d ≠ dev) :
    tcFilterAddRedirect h dev t d = t d := by
  unfold tcFilterAddRedirect
  cases t dev with
  | none => rfl
  | some root =>
    dsimp only
    split
    · exact Function.update_of_ne other _ _
    · rfl

theorem qosTcDevInit_other {dev d : String} (other : d ≠ dev) (isWan : Bool) :
    qosTcDevInit h dev isWan t d = t d := by
  have fresh : tcQdiscAddRoot h dev (tcQdiscDelRoot dev t) d = t d := by
    rw [tcQdiscAddRoot_other other]
    exact Function.update_of_ne other _ _
  unfold qosTcDevInit
  split
  · rfl
  · dsimp only
    split
    · rw [tcFilterAddRedirect_other other, fresh]
    · exact fresh

/-- The loop over the WAN devices leaves the other devices alone. -/
theorem initWanDevs_other {d : String} (other : ∀ i, i ≠ .lan → d ≠ h.bindDevice i)
    (ifaces : List IfName) : (initWanDevs h ifaces t).2 d = t d := by
  unfold initWanDevs
  show _ = (("", t) : String × TcState).2 d
  -- whatever device and tree the loop is at
  generalize (("", t) : String × TcState) = start
  induction ifaces generalizing start with
  | nil => rfl
  | cons iface ifaces ih =>
    rw [List.foldl_cons, ih]
    dsimp only
    split_ifs with invalid isLan
    · rfl
    · rfl
    · exact qosTcDevInit_other (other iface isLan) true

/-- The uplink branch builds on `ifb0` unless it has a root. -/
theorem uplink_eq (modeOff : h.wanModeOne = false) (ifSrc : IfName) {ifDst : IfName}
    (notLan : ifDst ≠ .lan) :
    ∃ t₁ : TcState, t₁ (h.bindDevice .lan) = t (h.bindDevice .lan) ∧ t₁ ifbDev = t ifbDev ∧
      qosTcDevBuildRoot h ifSrc ifDst .uplink t =
        if qosTcDevCheckRoot ifbDev t₁ then t₁
        else if ifDst = .wanAll then buildOneClass h ifbDev .uplink (qosTcDevInit h ifbDev false t₁)
        else buildIfaceClasses h ifbDev .uplink (qosTcDevInit h ifbDev false t₁) := by
  by_cases all : ifDst = .wanAll
  · refine ⟨(initWanDevs h h.ifaceList t).2, ?_, ?_, ?_⟩
    · exact initWanDevs_other (fun i notLan => (h.wan_ne_lan i notLan).symm) _
    · exact initWanDevs_other (fun i notLan => (h.wan_ne_ifb i notLan).symm) _
    · simp [qosTcDevBuildRoot, all, modeOff]
  · refine ⟨qosTcDevInit h (h.bindDevice ifDst) true t, ?_, ?_, ?_⟩
    · exact qosTcDevInit_other (h.wan_ne_lan ifDst notLan).symm true
    · exact qosTcDevInit_other (h.wan_ne_ifb ifDst notLan).symm true
    · simp [qosTcDevBuildRoot, all, modeOff]

theorem downlink_eq (modeOff : h.wanModeOne = false) (valid : h.validDev (h.bindDevice .lan))
    (ifSrc ifDst : IfName) :
    qosTcDevBuildRoot h ifSrc ifDst .downlink t =
      if qosTcDevCheckRoot (h.bindDevice .lan) t then t
      else if ifSrc = .wanAll then
        buildOneClass h (h.bindDevice .lan) .downlink (qosTcDevInit h (h.bindDevice .lan) false t)
      else
        buildIfaceClasses h (h.bindDevice .lan) .downlink
          (qosTcDevInit h (h.bindDevice .lan) false t) := by
  by_cases all : ifSrc = .wanAll
  · simp [qosTcDevBuildRoot, all, modeOff, valid]
  · simp [qosTcDevBuildRoot, all, modeOff, valid]

/-- `qos_tc_init` for one rule. -/
def treeOf (h : Host) (t : TcState) (r : RuleIfs) : TcState :=
  qosTcDevBuildRoot h r.ifPong r.ifPing .downlink
    (qosTcDevBuildRoot h r.ifPing r.ifPong .uplink t)

/-- The devices work, and the mode is the one with `ifb0`. -/
structure Equipped (h : Host) : Prop where
  modeOff : h.wanModeOne = false
  lanValid : h.validDev (h.bindDevice .lan)
  lanPresent : h.present (h.bindDevice .lan)
  ifbPresent : h.present ifbDev

/-- The devices that carry classes of single addresses, one for each direction. -/
def carrier (h : Host) : Dir → String
  | .downlink => h.bindDevice .lan
  | .uplink => ifbDev

/-- The first rule: its branch decides what is built, on both devices. -/
theorem treeOf_bare (works : Equipped h) {r : RuleIfs} (pong : r.ifPong ≠ .lan)
    (bare : ∀ dir, t (carrier h dir) = none) (dir : Dir) :
    (treeOf h t r (carrier h dir)).isSome ∧
      classesOn (treeOf h t r) (carrier h dir) = builtClasses h dir r.ifPong := by
  obtain ⟨t₁, lan, ifb, uplink⟩ := uplink_eq (t := t) works.modeOff r.ifPing pong
  have bareIfb : t₁ ifbDev = none := ifb.trans (bare .uplink)
  have unrooted : ¬ qosTcDevCheckRoot ifbDev t₁ := by simp [qosTcDevCheckRoot, bareIfb]
  have onIfb := built works.ifbPresent bareIfb .uplink r.ifPong
  rw [if_neg unrooted] at uplink
  rw [← uplink] at onIfb
  -- the uplink call has left the LAN device alone
  have bareLan := (onIfb.elsewhere _ h.lan_ne_ifb).trans (lan.trans (bare .downlink))
  have onLan := built works.lanPresent bareLan .downlink r.ifPong
  have downlink := downlink_eq (t := qosTcDevBuildRoot h r.ifPing r.ifPong .uplink t)
    works.modeOff works.lanValid r.ifPong r.ifPing
  rw [qosTcDevCheckRoot, bareLan, Option.isSome_none, if_neg Bool.false_ne_true] at downlink
  rw [← downlink] at onLan
  cases dir with
  | downlink =>
    refine ⟨onLan.rooted, onLan.classes.trans ?_⟩
    simp [classesOn, bareLan]
  | uplink =>
    have kept : treeOf h t r ifbDev = _ := onLan.elsewhere _ h.lan_ne_ifb.symm
    refine ⟨kept ▸ onIfb.rooted, ?_⟩
    have empty : classesOn t₁ ifbDev = ∅ := by simp [classesOn, bareIfb]
    rw [← Set.empty_union (builtClasses h .uplink r.ifPong), ← empty, ← onIfb.classes]
    simp only [classesOn, carrier, kept]

/-- A later rule finds the roots and returns. -/
theorem treeOf_rooted (works : Equipped h) {r : RuleIfs} (pong : r.ifPong ≠ .lan)
    (rooted : ∀ dir, (t (carrier h dir)).isSome) (dir : Dir) :
    treeOf h t r (carrier h dir) = t (carrier h dir) := by
  obtain ⟨t₁, lan, ifb, uplink⟩ := uplink_eq (t := t) works.modeOff r.ifPing pong
  have ifbRooted : qosTcDevCheckRoot ifbDev t₁ := by
    rw [qosTcDevCheckRoot, ifb]
    exact rooted .uplink
  rw [if_pos ifbRooted] at uplink
  have lanRooted : qosTcDevCheckRoot (h.bindDevice .lan) t₁ := by
    rw [qosTcDevCheckRoot, lan]
    exact rooted .downlink
  rw [treeOf, uplink, downlink_eq works.modeOff works.lanValid, if_pos lanRooted]
  cases dir with
  | downlink => exact lan
  | uplink => exact ifb

/-! ## All rules -/

/-- What the first rule built stays. -/
theorem qosTcInit_rooted (works : Equipped h) (rules : List RuleIfs)
    (pong : ∀ r ∈ rules, r.ifPong ≠ .lan) (rooted : ∀ dir, (t (carrier h dir)).isSome) (dir : Dir) :
    qosTcInit h rules t (carrier h dir) = t (carrier h dir) := by
  induction rules generalizing t with
  | nil => rfl
  | cons r rules ih =>
    have kept := treeOf_rooted works (pong r List.mem_cons_self) rooted
    show qosTcInit h rules (treeOf h t r) (carrier h dir) = t (carrier h dir)
    rw [ih (fun r' member => pong r' (List.mem_cons_of_mem r member)) ?_, kept dir]
    intro d
    rw [kept d]
    exact rooted d

/-- The first rule of the list decides. -/
theorem classesOn_qosTcInit (works : Equipped h) {r : RuleIfs} {rules : List RuleIfs}
    (pong : ∀ r' ∈ r :: rules, r'.ifPong ≠ .lan) (bare : ∀ dir, t (carrier h dir) = none)
    (dir : Dir) :
    classesOn (qosTcInit h (r :: rules) t) (carrier h dir) = builtClasses h dir r.ifPong := by
  have first := treeOf_bare works (pong r List.mem_cons_self) bare
  have kept := qosTcInit_rooted works rules
    (fun r' member => pong r' (List.mem_cons_of_mem r member)) (fun d => (first d).1) dir
  rw [← (first dir).2]
  show classesOn (qosTcInit h rules (treeOf h t r)) (carrier h dir) = _
  simp only [classesOn, kept]

end Rules

/-- Every rule finds the parent of its classes on both devices, and the classes are the
    same for every order of the rules. -/
structure TreeFits (h : Host) (rules : List RuleIfs) (t : TcState) : Prop where
  parents : ∀ r ∈ rules, ∀ rn : RuletblNode, rn.devid = r.wid h → ∀ dir,
    parentClassid rn ∈ classesOn (qosTcInit h rules t) (carrier h dir)
  orderFree : ∀ rules', rules'.Perm rules → ∀ dir,
    classesOn (qosTcInit h rules' t) (carrier h dir) = classesOn (qosTcInit h rules t) (carrier h dir)

/-- The parent of a single interface is the root class or has the number of a listed
    interface as tc reads it, and that interface has a line rate. -/
def Numbered (h : Host) (dir : Dir) (k : Nat) : Prop :=
  (1 <<< 16) ||| u32 (k + 1) ∈ scriptClasses h dir

/-- The condition on the rules: the single interfaces are numbered as the module numbers
    them and rated in both directions, a `WAN_ALL` rule has an interface to take a rate from,
    and the two kinds do not occur together, unless no interface gets a class of its own. -/
structure Uniform (h : Host) (rules : List RuleIfs) : Prop where
  numbered : ∀ r ∈ rules, r.ifPong ≠ .wanAll → ∀ dir, Numbered h dir r.ifPong.digits
  rated : ∀ r ∈ rules, r.ifPong = .wanAll → ∃ iface ∈ h.ifaceList, iface ≠ .lan
  unmixed : ∀ r ∈ rules, ∀ r' ∈ rules, r.ifPong = .wanAll → r'.ifPong ≠ .wanAll →
    ∀ dir, scriptClasses h dir = {rootClass}

/-! ## Numbers in two bases -/

/-- One digit means the same in either base. -/
theorem tcClassid_of_lt {n : Nat} (digit : n < 10) : tcClassid n = some ((1 <<< 16) ||| n) := by
  have same : Nat.ofDigitChars 16 (Nat.toDigits 10 n) 0 = n := by
    rw [Nat.toDigits_of_lt_base digit, Nat.ofDigitChars_cons_digitChar_of_lt_ten digit,
      Nat.ofDigitChars_nil]
    omega
  simp only [tcClassid, same]
  exact if_pos (by omega)

theorem or_mod_sixteen (m : Nat) : ((1 <<< 16) ||| m) % 16 = m % 16 := by
  have split := Nat.or_mod_two_pow (a := 1 <<< 16) (b := m) (n := 4)
  simpa using split

/-- The last hexadecimal digit of a class the scripts build is the last decimal one. -/
theorem tcClassid_mod {n c : Nat} (classid : tcClassid n = some c) : c % 16 = n % 10 := by
  have lastDigit : Nat.ofDigitChars 16 (Nat.toDigits 10 n) 0 % 16 = n % 10 := by
    have digit : n % 10 < 10 := Nat.mod_lt n (by decide)
    rcases Nat.lt_or_ge n 10 with small | large
    · rw [Nat.toDigits_of_lt_base small, Nat.ofDigitChars_cons_digitChar_of_lt_ten small,
        Nat.ofDigitChars_nil]
      omega
    · -- the digits in front count sixteen times
      rw [Nat.toDigits_of_base_le (by decide) large, Nat.ofDigitChars_append,
        Nat.ofDigitChars_cons_digitChar_of_lt_ten digit, Nat.ofDigitChars_nil]
      omega
  simp only [tcClassid] at classid
  split at classid
  · cases classid
    rw [or_mod_sixteen, lastDigit]
  · cases classid

/-- Up to `WAN8` it is enough that the interface is listed with its line rate. -/
theorem numbered_of_listed {h : Host} {dir : Dir} {k : Nat} (small : k ≤ 8)
    (listed : .wan k ∈ h.ifaceList) (rate : (h.linerate (.wan k) dir).isSome) :
    Numbered h dir k := by
  refine .inr ⟨.wan k, listed, ⟨by simp, rate⟩, ?_⟩
  rw [IfName.digits, tcClassid_of_lt (by omega), u32, Nat.mod_eq_of_lt (by omega)]

/-- The module's number of `WAN9` to `WAN14` ends in a digit that the scripts never write. -/
theorem Numbered.mod_lt {h : Host} {dir : Dir} {k : Nat} (numbered : Numbered h dir k) :
    (k + 1) % 16 < 10 := by
  have same : ((1 <<< 16) ||| u32 (k + 1)) % 16 = (k + 1) % 16 := by
    rw [or_mod_sixteen, u32]
    omega
  rcases numbered with root | ⟨iface, _, _, classid⟩
  · rw [← same, root]
    decide
  · have mod := tcClassid_mod classid
    omega

section Orders

variable {h : Host} {t : TcState} {rules : List RuleIfs}

theorem parentClassid_eq (rn : RuletblNode) :
    parentClassid rn = (1 <<< 16) ||| u32 (rn.devid + 1) := by
  unfold parentClassid
  split
  · next root => rw [← root]; rfl
  · rfl

/-- Any rule may come first. -/
theorem classes_when_first (works : Equipped h) (pong : ∀ r ∈ rules, r.ifPong ≠ .lan)
    (bare : ∀ dir, t (carrier h dir) = none) {r : RuleIfs} (member : r ∈ rules) :
    ∃ rules', rules'.Perm rules ∧
      ∀ dir, classesOn (qosTcInit h rules' t) (carrier h dir) = builtClasses h dir r.ifPong := by
  have front := (List.perm_cons_erase member).symm
  refine ⟨r :: rules.erase r, front, ?_⟩
  exact classesOn_qosTcInit works (fun r' in' => pong r' (front.mem_iff.mp in')) bare

/-- Over all orders: every rule builds the same, and its parent is there. -/
theorem treeFits_iff_built (works : Equipped h) (pong : ∀ r ∈ rules, r.ifPong ≠ .lan)
    (bare : ∀ dir, t (carrier h dir) = none) :
    TreeFits h rules t ↔ ∀ dir, ∀ r ∈ rules,
      (1 <<< 16) ||| u32 (r.wid h + 1) ∈ builtClasses h dir r.ifPong ∧
        ∀ r' ∈ rules, builtClasses h dir r.ifPong = builtClasses h dir r'.ifPong := by
  constructor
  · intro fits dir r member
    have everyOrder : ∀ r' ∈ rules, builtClasses h dir r'.ifPong =
        classesOn (qosTcInit h rules t) (carrier h dir) := by
      intro r' member'
      obtain ⟨rules', perm, built⟩ := classes_when_first works pong bare member'
      exact (built dir).symm.trans (fits.orderFree rules' perm dir)
    refine ⟨?_, fun r' member' => (everyOrder r member).trans (everyOrder r' member').symm⟩
    -- the parent depends on the `devid` only, so any record of the rule will do
    have parent := fits.parents r member { RuletblNode.zero with devid := r.wid h } rfl dir
    rwa [parentClassid_eq, ← everyOrder r member] at parent
  · intro alike
    -- whichever rule comes first, what it builds is what `r` would have built
    have classes : ∀ rules', rules'.Perm rules → ∀ r ∈ rules, ∀ dir,
        classesOn (qosTcInit h rules' t) (carrier h dir) = builtClasses h dir r.ifPong := by
      intro rules' perm r member dir
      match rules' with
      | [] => exact absurd member (perm.nil_eq ▸ List.not_mem_nil)
      | first :: rest =>
        have inRules := perm.mem_iff.mp (List.mem_cons_self (a := first) (l := rest))
        rw [classesOn_qosTcInit works (fun r' in' => pong r' (perm.mem_iff.mp in')) bare dir]
        exact (alike dir first inRules).2 r member
    constructor
    · intro r member rn devid dir
      rw [classes rules (.refl _) r member dir, parentClassid_eq, devid]
      exact (alike dir r member).1
    · intro rules' perm dir
      by_cases none : rules = []
      · subst none
        rw [perm.eq_nil]
      · obtain ⟨r, member⟩ := List.exists_mem_of_ne_nil rules none
        rw [classes rules' perm r member dir, classes rules (.refl _) r member dir]

/-- The tree has every parent and does not depend on the order exactly for uniform rules. -/
theorem tree_fits_iff (works : Equipped h) (pong : ∀ r ∈ rules, r.ifPong ≠ .lan)
    (bare : ∀ dir, t (carrier h dir) = none) :
    TreeFits h rules t ↔ Uniform h rules := by
  rw [treeFits_iff_built works pong bare]
  have wid : ∀ r : RuleIfs, r.wid h = r.ifPong.digits := fun r => by
    rw [RuleIfs.wid, works.modeOff, if_neg Bool.false_ne_true]
  have rootIs : (1 <<< 16) ||| u32 (IfName.wanAll.digits + 1) = rootClass := by decide
  constructor
  · intro alike
    constructor
    · intro r member single dir
      have parent := (alike dir r member).1
      rwa [builtClasses, if_neg single, wid] at parent
    · intro r member all
      have parent := (alike .uplink r member).1
      rw [builtClasses, if_pos all] at parent
      exact parent.2
    · intro r member r' member' all single dir
      -- the two branches build the same, and `WAN_ALL` builds the root class only
      have parent := (alike dir r member).1
      have same := (alike dir r member).2 r' member'
      rw [builtClasses, if_pos all, builtClasses, if_neg single] at same
      rw [builtClasses, if_pos all] at parent
      rw [← same]
      ext c
      simp [sumClasses, parent.2]
  · intro uniform dir
    have rated : ∀ r ∈ rules, r.ifPong = .wanAll → builtClasses h dir r.ifPong = {rootClass} := by
      intro r member all
      rw [builtClasses, if_pos all]
      ext c
      simp [sumClasses, uniform.rated r member all]
    intro r member
    rw [wid]
    by_cases all : r.ifPong = .wanAll
    · refine ⟨?_, fun r' member' => ?_⟩
      · rw [rated r member all, all, rootIs]
        rfl
      · by_cases all' : r'.ifPong = .wanAll
        · rw [all, all']
        · rw [rated r member all, builtClasses, if_neg all',
            uniform.unmixed r member r' member' all all' dir]
    · refine ⟨?_, fun r' member' => ?_⟩
      · rw [builtClasses, if_neg all]
        exact uniform.numbered r member all dir
      · by_cases all' : r'.ifPong = .wanAll
        · rw [rated r' member' all', builtClasses, if_neg all,
            uniform.unmixed r' member' r member all' all dir]
        · rw [builtClasses, if_neg all, builtClasses, if_neg all']

end Orders

/-! ## A router with two WAN interfaces -/

def twoWans : Host where
  ifaceList := [.lan, .wan 1, .wan 2]
  bindDevice
    | .lan => "br-lan"
    | .wan 1 => "eth1"
    | .wan 2 => "eth2"
    | _ => ""
  linerate
    | .wan 1, _ => some 100000
    | _, _ => some 0
  wanModeOne := false
  validDev := fun _ => true
  present := fun _ => true
  lan_ne_ifb := by decide
  wan_ne_lan := by
    intro iface notLan
    split <;> simp_all
  wan_ne_ifb := by
    intro iface notLan
    split <;> simp_all [ifbDev]

def bare : TcState := fun _ => none

/-- Rules for either interface, in either order. -/
theorem single_wans_fit : TreeFits twoWans [⟨.lan, .wan 2⟩, ⟨.lan, .wan 1⟩] bare := by
  apply (tree_fits_iff ⟨rfl, rfl, rfl, rfl⟩ (by decide) (fun _ => rfl)).mpr
  have single : ∀ r ∈ [RuleIfs.mk .lan (.wan 2), ⟨.lan, .wan 1⟩], r.ifPong ≠ .wanAll := by decide
  constructor
  · intro r member _ dir
    -- both interfaces are listed with a line rate, and their numbers have one digit
    have digits : r.ifPong.digits ≤ 8 ∧ .wan r.ifPong.digits ∈ twoWans.ifaceList := by
      revert r
      decide
    refine numbered_of_listed digits.1 digits.2 ?_
    revert r
    cases dir <;> decide
  · exact fun r member all => absurd all (single r member)
  · exact fun r member _ _ all => absurd all (single r member)

/-- A `WAN_ALL` rule in front of one for `WAN1`: the root class only. -/
theorem mixed_rules_lack_parent : ¬ TreeFits twoWans [⟨.lan, .wanAll⟩, ⟨.lan, .wan 1⟩] bare := by
  intro fits
  have built : qosTcInit twoWans [⟨.lan, .wanAll⟩, ⟨.lan, .wan 1⟩] bare ifbDev =
      some { classes := [⟨rootClass, rootHandle⟩], redirect := false } := by decide
  have parent := fits.parents ⟨.lan, .wan 1⟩ (by decide) { RuletblNode.zero with devid := 1 } rfl
    .uplink
  rw [carrier, classesOn_rooted built] at parent
  revert parent
  decide

end IpQos.Verified
