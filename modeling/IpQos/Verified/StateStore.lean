import IpQos.Script.State
import IpQos.Lib.Run
import Mathlib.Data.List.Nodup

/-! # The state store as a map

`QOS_STATE` against the map it stands for.  The store is a map as long as no key's pattern
picks the line of another key with a value in it; a key that begins like a longer one, and
the dot of a key, break it. -/

namespace IpQos.Verified

open IpQos.Script
open IpQos.Lib (matchesPrefix_self_append matchesPrefix_append secondField takeWhile_keyed
  secondField_keyed joined joined_nil joined_of_all_nil joined_cons_of_all_nil mem_joined_cons
  Throughout Allowed throughout_iff_allowed)

variable {rules ifaces : Set Name} {k k' : Key rules ifaces} {v : Value}
  {ks : List (Key rules ifaces)} {L : Key rules ifaces → Value}

/-! ## What a lookup prints -/

/-- What is left of a text that `echo` prints and `$(…)` takes. -/
def echoed (s : List Char) : List Char := if echoOption s then [] else s

theorem echoOption_free {s : List Char} (option : echoOption s = true) : '\n' ∉ s := by
  intro member
  unfold echoOption at option
  split at option
  · rename_i c cs
    rw [List.all_eq_true] at option
    rcases List.mem_cons.mp member with dash | rest
    · exact absurd dash (by decide)
    · exact absurd (option _ rest) (by decide)
  · cases option

/-- Through `echo` and `$(…)`, where nothing is left to cut off. -/
theorem commandSubst_echo {s : List Char} (cut : commandSubst s = s) :
    commandSubst (echo s) = echoed s := by
  unfold echo echoed
  split
  · split <;> rfl
  · rw [commandSubst, List.rdropWhile_concat_pos _ _ _ (by simp)]
    exact cut

theorem commandSubst_commandSubst (s : List Char) :
    commandSubst (commandSubst s) = commandSubst s :=
  List.rdropWhile_idempotent _ _

theorem echoed_echoed (s : List Char) : echoed (echoed s) = echoed s := by
  by_cases option : echoOption s = true
  · have gone : echoed s = [] := if_pos option
    rw [gone]
    rfl
  · have kept : echoed s = s := if_neg option
    rw [kept, kept]

theorem commandSubst_echoed {s : List Char} (cut : commandSubst s = s) :
    commandSubst (echoed s) = echoed s := by
  unfold echoed
  split
  · rfl
  · exact cut

/-- The values of all lines the key picks, joined. -/
theorem qosStateGet_eq (key : List Char) (file : List (List Char)) :
    qosStateGet key file =
      echoed (joined '\n' ((file.filter (hit key)).map (secondField '='))) := by
  unfold qosStateGet qosGetState
  split
  · change commandSubst (echo (commandSubst (echo (commandSubst _)))) = echoed (commandSubst _)
    have cut := commandSubst_commandSubst
      (((file.filter (hit key)).map (secondField '=')).flatMap (· ++ ['\n']))
    rw [commandSubst_echo cut, commandSubst_echo (commandSubst_echoed cut), echoed_echoed]
  · rename_i none
    have nothing : file.filter (hit key) = [] := by
      rw [List.filter_eq_nil_iff]
      intro line member picked
      exact none (List.any_eq_true.mpr ⟨line, member, picked⟩)
    rw [nothing]
    rfl

/-- A lookup yields one line exactly if all values but the first are empty; then it is the
    first, unless `echo` takes that for an option. -/
theorem echoed_joined_iff {vs : List (List Char)} {m : List Char} (free : ∀ w ∈ vs, '\n' ∉ w)
    (line : '\n' ∉ m) :
    echoed (joined '\n' vs) = m ↔ (∀ w ∈ vs.tail, w = []) ∧ echoed (vs.headD []) = m := by
  cases vs with
  | nil => simp
  | cons first vs =>
    have firstFree := free first List.mem_cons_self
    constructor
    · intro read
      have single : '\n' ∉ joined '\n' (first :: vs) := by
        by_cases option : echoOption (joined '\n' (first :: vs))
        · exact echoOption_free option
        · rw [echoed, if_neg option] at read
          rwa [read]
      have blank : ∀ w ∈ vs, w = [] := by
        intro w member
        by_contra nonempty
        exact single (mem_joined_cons member nonempty (free w (List.mem_cons_of_mem _ member)))
      rw [joined_cons_of_all_nil firstFree blank] at read
      exact ⟨blank, read⟩
    · rintro ⟨blank, read⟩
      have rest : ∀ w ∈ vs, w = [] := blank
      rw [joined_cons_of_all_nil firstFree rest]
      exact read

/-! ## The lines of the store -/

/-- The lines of `ks` with the values of `L`. -/
def lines (ks : List (Key rules ifaces)) (L : Key rules ifaces → Value) : List (List Char) :=
  ks.map fun k => k.line (L k)

/-- The keys of `ks` on whose line the pattern of `k` hits. -/
def hits (k : Key rules ifaces) (ks : List (Key rules ifaces)) (L : Key rules ifaces → Value) :
    List (Key rules ifaces) :=
  ks.filter fun k' => hit k.text (k'.line (L k'))

theorem hit_own (k : Key rules ifaces) (v : Value) : hit k.text (k.line v) = true :=
  matchesPrefix_self_append _ _ _

/-- What hits a key without a value hits it with every value. -/
theorem hit_of_hit_empty (bare : hit k.text (k'.line Value.empty) = true) (v : Value) :
    hit k.text (k'.line v) = true := by
  have longer : k'.line v = k'.line Value.empty ++ v.text := by
    simp [Key.line, Value.empty]
  rw [longer]
  exact matchesPrefix_append bare v.text

theorem secondField_line (k : Key rules ifaces) (v : Value) :
    secondField '=' (k.line v) = v.text :=
  secondField_keyed k.text_free (v.free (by decide))

theorem takeWhile_line (k : Key rules ifaces) (v : Value) :
    (k.line v).takeWhile (· ≠ '=') = k.text :=
  takeWhile_keyed k.text_free v.text

theorem substitute_line (k : Key rules ifaces) (v w : Value) :
    substitute (k.line v) w.text = k.line w := by
  have keyed : '=' ∈ k.line v := by simp [Key.line]
  rw [substitute, if_pos keyed, takeWhile_line]
  rfl

theorem text_eq_empty_iff : v.text = [] ↔ v = Value.empty :=
  ⟨fun same => Value.text_inj same, fun same => same ▸ rfl⟩

/-- A lookup of `k` reads `m` exactly if the first line it hits has that value and the lines
    behind it have none. -/
theorem get_lines_iff {m : Value} :
    qosStateGet k.text (lines ks L) = m.text ↔
      (∀ k' ∈ (hits k ks L).tail, L k' = Value.empty) ∧
        echoed (((hits k ks L).map fun k' => (L k').text).headD []) = m.text := by
  have values : ((lines ks L).filter (hit k.text)).map (secondField '=') =
      (hits k ks L).map fun k' => (L k').text := by
    rw [lines, List.filter_map, List.map_map]
    exact List.map_congr_left fun k' _ => secondField_line k' (L k')
  have free : ∀ w ∈ (hits k ks L).map fun k' => (L k').text, '\n' ∉ w := by
    intro w member
    obtain ⟨k', -, rfl⟩ := List.mem_map.mp member
    exact (L k').free (by decide)
  rw [qosStateGet_eq, values, echoed_joined_iff free (m.free (by decide)),
    ← List.map_tail, List.forall_mem_map]
  simp only [text_eq_empty_iff]

/-- Of the lines a pattern hits only one has a value, and that is what the lookup echoes. -/
theorem read_of_hit {a : Key rules ifaces} {m : Value}
    (read : qosStateGet k.text (lines ks L) = m.text) (member : a ∈ hits k ks L)
    (nonempty : L a ≠ Value.empty) :
    echoed (L a).text = m.text ∧ ∀ b ∈ hits k ks L, L b ≠ Value.empty → b = a := by
  obtain ⟨blank, head⟩ := get_lines_iff.mp read
  cases all : hits k ks L with
  | nil =>
    rw [all] at member
    cases member
  | cons first rest =>
    simp only [all, List.tail_cons, List.map_cons, List.headD_cons] at blank head
    have isFirst : ∀ b ∈ first :: rest, L b ≠ Value.empty → b = first := by
      intro b listed valued
      rcases List.mem_cons.mp listed with same | behind
      · exact same
      · exact absurd (blank b behind) valued
    rw [all] at member
    have same := isFirst a member nonempty
    subst same
    exact ⟨head, isFirst⟩

theorem mem_hits {a : Key rules ifaces} :
    a ∈ hits k ks L ↔ a ∈ ks ∧ hit k.text (a.line (L a)) = true := by
  simp [hits]

theorem echoed_eq_self {v : Value} (nonempty : v ≠ Value.empty)
    (same : echoed v.text = v.text) : echoOption v.text = false := by
  by_contra option
  rw [echoed, if_pos (by simpa using option)] at same
  exact nonempty (text_eq_empty_iff.mp same.symm)

/-- In a store that is a map, only its own key hits a line with a value, and no value is an
    option of `echo`. -/
theorem hit_of_reads (reads : ∀ k, qosStateGet k.text (lines ks L) = (L k).text)
    (unset : ∀ k, k ∉ ks → L k = Value.empty) (nonempty : L k ≠ Value.empty) :
    (∀ k', hit k'.text (k.line (L k)) = true → k' = k) ∧ echoOption (L k).text = false := by
  have stored : ∀ {k}, L k ≠ Value.empty → k ∈ ks := fun {k} valued => by
    by_contra missing
    exact valued (unset k missing)
  have printed := echoed_eq_self nonempty
    (read_of_hit (reads k) (mem_hits.mpr ⟨stored nonempty, hit_own k _⟩) nonempty).1
  refine ⟨?_, printed⟩
  intro k' picked
  obtain ⟨read, single⟩ :=
    read_of_hit (reads k') (mem_hits.mpr ⟨stored nonempty, picked⟩) nonempty
  by_cases valued : L k' = Value.empty
  · -- the value of `k` shows where `k'` has none
    rw [echoed, if_neg (by simp [printed]), valued] at read
    exact absurd (text_eq_empty_iff.mp read) nonempty
  · exact single k' (mem_hits.mpr ⟨stored valued, hit_own k' _⟩) valued

/-! ## The store along a run -/

/-- What the map is after a call: the value set, nothing for the keys of a rule deleted. -/
def intended : StateCmd rules ifaces → (Key rules ifaces → Value) → Key rules ifaces → Value
  | .set k v, last => Function.update last k v
  | .del r, last => fun k =>
    match k with
    | .rule r' o => if r' = r then Value.empty else last (.rule r' o)
    | k => last k

/-- `state.data`, and beside it what was last set. -/
structure StoreSt (rules ifaces : Set Name) where
  file : List (List Char)
  last : Key rules ifaces → Value

def StoreSt.start : StoreSt rules ifaces := { file := [], last := fun _ => Value.empty }

def StoreSt.step (cmd : StateCmd rules ifaces) (s : StoreSt rules ifaces) :
    Except Empty (StoreSt rules ifaces) :=
  .ok { file := cmd.run s.file, last := intended cmd s.last }

/-- A lookup of any key reads what was last set for it, and nothing else. -/
def StoreSt.Refines (s : StoreSt rules ifaces) : Prop :=
  ∀ k : Key rules ifaces, qosStateGet k.text s.file = (s.last k).text

/-- When a call keeps the store a map. -/
def StoreSt.Fits : StateCmd rules ifaces → StoreSt rules ifaces → Prop
  | .set k v, s => v = Value.empty ∨
    (∀ k' : Key rules ifaces, hit k'.text (k.line v) = true → k' = k) ∧
    (∀ line ∈ s.file, hit k.text line = true → line.takeWhile (· ≠ '=') = k.text) ∧
    echoOption v.text = false
  | .del r, s => ∀ (i : ifaces) (o : IfaceOpt), i.val = r.val → s.last (.iface i o) = Value.empty

/-- The file is the map, written out over the keys `ks`. -/
structure Laid (ks : List (Key rules ifaces)) (s : StoreSt rules ifaces) : Prop where
  file : s.file = lines ks s.last
  nodup : ks.Nodup
  unset : ∀ k, k ∉ ks → s.last k = Value.empty
  own : ∀ k, s.last k ≠ Value.empty → ∀ k', hit k'.text (k.line (s.last k)) = true → k' = k
  order : ks.Pairwise fun k' k => hit k.text (k'.line Value.empty) = false
  printed : ∀ k, echoOption (s.last k).text = false

theorem laid_start : Laid [] (StoreSt.start : StoreSt rules ifaces) where
  file := rfl
  nodup := .nil
  unset _ _ := rfl
  own _ nonempty := absurd rfl nonempty
  order := .nil
  printed _ := rfl

variable {s : StoreSt rules ifaces}

theorem Laid.refines (laid : Laid ks s) : s.Refines := by
  intro k
  rw [laid.file, get_lines_iff]
  have foreign : ∀ a ∈ hits k ks s.last, a ≠ k → s.last a = Value.empty := by
    intro a member other
    by_contra valued
    exact other (laid.own a valued k (mem_hits.mp member).2).symm
  have ordered : (hits k ks s.last).Pairwise fun k' k => hit k.text (k'.line Value.empty) = false :=
    laid.order.filter _
  have once : (hits k ks s.last).Nodup := laid.nodup.filter _
  have kept : echoed (s.last k).text = (s.last k).text := if_neg (by simp [laid.printed k])
  by_cases stored : k ∈ hits k ks s.last
  · cases all : hits k ks s.last with
    | nil =>
      rw [all] at stored
      cases stored
    | cons first rest =>
      rw [all] at stored foreign ordered once
      have isFirst : first = k := by
        by_contra other
        -- a foreign first line would have no value, and stand before the line of `k`
        have behind := List.mem_of_ne_of_mem (Ne.symm other) stored
        have bare := foreign first List.mem_cons_self other
        have picked := (mem_hits.mp (all ▸ List.mem_cons_self : first ∈ hits k ks s.last)).2
        rw [bare, (List.pairwise_cons.mp ordered).1 k behind] at picked
        cases picked
      subst isFirst
      refine ⟨?_, kept⟩
      intro a behind
      refine foreign a (List.mem_cons_of_mem _ behind) ?_
      rintro rfl
      exact (List.nodup_cons.mp once).1 behind
  · have noValue : s.last k = Value.empty := by
      by_contra valued
      have listed : k ∈ ks := by
        by_contra missing
        exact valued (laid.unset k missing)
      exact stored (mem_hits.mpr ⟨listed, hit_own k _⟩)
    have blank : ∀ a ∈ hits k ks s.last, s.last a = Value.empty := by
      intro a member
      refine foreign a member ?_
      rintro rfl
      exact stored member
    refine ⟨fun a behind => blank a (List.mem_of_mem_tail behind), ?_⟩
    rw [noValue]
    cases all : hits k ks s.last with
    | nil => rfl
    | cons first rest =>
      rw [List.map_cons, List.headD_cons, blank first (all ▸ List.mem_cons_self)]
      rfl

/-! ## One call -/

theorem hits_eq_nil_iff :
    hits k ks L = [] ↔ ∀ k' ∈ ks, hit k.text (k'.line (L k')) = false := by
  simp [hits]

theorem not_mem_of_hits_eq_nil (nowhere : hits k ks L = []) : k ∉ ks := by
  intro stored
  have missed := hits_eq_nil_iff.mp nowhere k stored
  rw [hit_own] at missed
  cases missed

/-- The file has a line that the pattern of `k` picks. -/
theorem Laid.picks (laid : Laid ks s) : s.file.any (hit k.text) = true ↔ hits k ks s.last ≠ [] := by
  rw [laid.file, Ne, hits_eq_nil_iff]
  simp [lines]

theorem Laid.set_append (laid : Laid ks s) (nowhere : hits k ks s.last = []) (v : Value) :
    qosSetState k.text v.text s.file = lines (ks ++ [k]) (Function.update s.last k v) := by
  rw [qosSetState, if_neg (fun some => laid.picks.mp some nowhere), laid.file, lines, lines,
    List.map_append, List.map_singleton, Function.update_self]
  congr 1
  refine List.map_congr_left fun k' stored => ?_
  rw [Function.update_of_ne]
  rintro rfl
  exact not_mem_of_hits_eq_nil nowhere stored

theorem Laid.set_rewrite (laid : Laid ks s) (some : hits k ks s.last ≠ []) (v : Value) :
    qosSetState k.text v.text s.file =
      lines ks fun k' => if hit k.text (k'.line (s.last k')) then v else s.last k' := by
  rw [qosSetState, if_pos (laid.picks.mpr some), laid.file, lines, lines, List.map_map]
  refine List.map_congr_left fun k' _ => ?_
  by_cases picked : hit k.text (k'.line (s.last k')) = true
  · simp only [Function.comp_apply, picked, if_true, substitute_line]
  · simp only [Function.comp_apply, picked, if_false, Bool.false_eq_true]

/-- Where a call rewrites no line of another key, the file is the new map, laid out again. -/
theorem Laid.set_lines (laid : Laid ks s)
    (ownOnly : v = Value.empty ∨ ∀ k' ∈ hits k ks s.last, k' = k) :
    ∃ ks', qosSetState k.text v.text s.file = lines ks' (Function.update s.last k v) ∧
      ks'.Nodup ∧ (∀ k', k' ∉ ks' → Function.update s.last k v k' = Value.empty) ∧
      ks'.Pairwise fun k' k => hit k.text (k'.line Value.empty) = false := by
  -- no line has the key in it, and the new one is appended; else every such line is rewritten
  by_cases nowhere : hits k ks s.last = []
  · have fresh := not_mem_of_hits_eq_nil nowhere
    refine ⟨ks ++ [k], laid.set_append nowhere v, ?_, ?_, ?_⟩
    · refine List.nodup_append.mpr ⟨laid.nodup, List.nodup_singleton k, ?_⟩
      rintro a stored b single rfl
      exact fresh (List.mem_singleton.mp single ▸ stored)
    · intro k' missing
      rw [List.mem_append, List.mem_singleton, not_or] at missing
      rw [Function.update_of_ne missing.2]
      exact laid.unset k' missing.1
    · refine List.pairwise_append.mpr ⟨laid.order, List.pairwise_singleton _ _, ?_⟩
      intro k' stored k'' single
      rw [List.mem_singleton.mp single]
      by_contra bare
      have picked := hit_of_hit_empty (by simpa using bare) (s.last k')
      rw [hits_eq_nil_iff.mp nowhere k' stored] at picked
      cases picked
  · have values : ∀ k' ∈ ks, (if hit k.text (k'.line (s.last k')) then v else s.last k') =
        Function.update s.last k v k' := by
      intro k' stored
      by_cases same : k' = k
      · rw [same, if_pos (hit_own k _), Function.update_self]
      · rw [Function.update_of_ne same]
        split
        · rename_i picked
          rcases ownOnly with noValue | ownOnly
          · by_contra valued
            exact same (laid.own k' (fun none => valued (noValue.trans none.symm)) k picked).symm
          · exact absurd (ownOnly k' (mem_hits.mpr ⟨stored, picked⟩)) same
        · rfl
    refine ⟨ks, ?_, laid.nodup, ?_, laid.order⟩
    · rw [laid.set_rewrite nowhere v]
      exact List.map_congr_left fun k' stored => congrArg k'.line (values k' stored)
    · intro k' missing
      by_cases same : k' = k
      · subst same
        rw [Function.update_self]
        rcases ownOnly with noValue | ownOnly
        · exact noValue
        · obtain ⟨a, member⟩ := List.exists_mem_of_ne_nil _ nowhere
          exact absurd (ownOnly a member ▸ (mem_hits.mp member).1) missing
      · rw [Function.update_of_ne same]
        exact laid.unset k' missing

/-- A call that sets `k` to a value rewrites no other line, if the store is a map after it. -/
theorem Laid.own_only (laid : Laid ks s) (valued : v ≠ Value.empty)
    (refines : ∀ k', qosStateGet k'.text (qosSetState k.text v.text s.file) =
      (Function.update s.last k v k').text) : ∀ k' ∈ hits k ks s.last, k' = k := by
  intro k' member
  by_contra other
  obtain ⟨stored, picked⟩ := mem_hits.mp member
  have noValue : s.last k' = Value.empty := by
    by_contra valued'
    exact other (laid.own k' valued' k picked).symm
  have rewritten := laid.set_rewrite (List.ne_nil_of_mem member) v
  rw [rewritten] at refines
  -- the line of `k'` has the value of `k` now, and the patterns of both still hit it
  obtain ⟨L, isL⟩ : ∃ L, L = fun k' : Key rules ifaces =>
    if hit k.text (k'.line (s.last k')) then v else s.last k' := ⟨_, rfl⟩
  rw [← isL] at refines
  have value : L k' = v := by
    rw [isL]
    exact if_pos picked
  have readOther := read_of_hit (refines k') (mem_hits.mpr ⟨stored, hit_own k' _⟩)
    (value ▸ valued)
  have readOwn := read_of_hit (refines k)
    (mem_hits.mpr ⟨stored, value ▸ hit_of_hit_empty (noValue ▸ picked) v⟩) (value ▸ valued)
  have nothing : echoed (L k').text = [] := by
    rw [readOther.1, Function.update_of_ne other, noValue]
    rfl
  have everything : echoed (L k').text = v.text := by
    rw [readOwn.1, Function.update_self]
  exact valued (text_eq_empty_iff.mp (everything.symm.trans nothing))

theorem step_set_exact (laid : Laid ks s) (k : Key rules ifaces) (v : Value) :
    (StoreSt.Refines ⟨qosSetState k.text v.text s.file, Function.update s.last k v⟩ ↔
      StoreSt.Fits (.set k v) s) ∧
    (StoreSt.Fits (.set k v) s →
      ∃ ks', Laid ks' ⟨qosSetState k.text v.text s.file, Function.update s.last k v⟩) := by
  have ownLines : (∀ line ∈ s.file, hit k.text line = true →
      line.takeWhile (· ≠ '=') = k.text) ↔ ∀ k' ∈ hits k ks s.last, k' = k := by
    rw [laid.file, lines, List.forall_mem_map]
    simp only [takeWhile_line, mem_hits, and_imp]
    exact forall₃_congr fun k' _ _ => ⟨Key.text_inj, fun same => same ▸ rfl⟩
  have laidAfter : StoreSt.Fits (.set k v) s →
      ∃ ks', Laid ks' ⟨qosSetState k.text v.text s.file, Function.update s.last k v⟩ := by
    intro fits
    have ownOnly := fits.imp id fun plain => ownLines.mp plain.2.1
    obtain ⟨ks', file, nodup, unset, order⟩ := laid.set_lines ownOnly
    refine ⟨ks', file, nodup, unset, ?_, order, ?_⟩
    · intro k' valued
      by_cases same : k' = k
      · subst same
        simp only [Function.update_self] at valued ⊢
        exact (fits.resolve_left valued).1
      · simp only [Function.update_of_ne same] at valued ⊢
        exact laid.own k' valued
    · intro k'
      by_cases same : k' = k
      · subst same
        simp only [Function.update_self]
        rcases fits with noValue | plain
        · rw [noValue]
          rfl
        · exact plain.2.2
      · simp only [Function.update_of_ne same]
        exact laid.printed k'
  refine ⟨⟨fun refines => ?_, fun fits => ?_⟩, laidAfter⟩
  · by_cases noValue : v = Value.empty
    · exact .inl noValue
    -- what every key reads afterwards decides which lines were rewritten
    · have ownOnly := laid.own_only noValue refines
      obtain ⟨ks', file, -, unset, -⟩ := laid.set_lines (.inr ownOnly)
      have reads : ∀ k', qosStateGet k'.text (lines ks' (Function.update s.last k v)) =
          (Function.update s.last k v k').text := file ▸ refines
      have single := hit_of_reads reads unset (k := k) (by rwa [Function.update_self])
      rw [Function.update_self] at single
      exact .inr ⟨single.1, ownLines.mpr ownOnly, single.2⟩
  · obtain ⟨ks', after⟩ := laidAfter fits
    exact after.refines

/-- Deleting a rule drops exactly the lines of its section. -/
theorem Laid.del_lines (laid : Laid ks s) (r : rules) :
    qosDeleteState r.val.text s.file =
      lines (ks.filter fun k => k.owner ≠ some r.val) s.last := by
  have kept : s.file.filter (fun line => ! (r.val.text ++ ['.']).isPrefixOf line) =
      lines (ks.filter fun k => k.owner ≠ some r.val) s.last := by
    rw [laid.file, lines, List.filter_map, lines]
    congr 1
    refine List.filter_congr fun k _ => ?_
    rw [Function.comp_apply, Bool.eq_iff_iff, Bool.not_eq_true', ← Bool.not_eq_true,
      Key.isPrefixOf_line, decide_eq_true_iff]
  rw [qosDeleteState]
  split
  · exact kept
  · rename_i none
    rw [← kept, List.filter_eq_self.mpr]
    intro line member
    by_contra picked
    exact none (List.any_eq_true.mpr ⟨line, member, by simpa using picked⟩)

theorem intended_del (last : Key rules ifaces → Value) (r : rules) (k : Key rules ifaces) :
    intended (.del r) last k = last k ∨ intended (.del r) last k = Value.empty := by
  cases k with
  | rule r' o =>
    by_cases same : r' = r
    · exact .inr (if_pos same)
    · exact .inl (if_neg same)
  | _ => exact .inl rfl

theorem intended_del_of_ne {r : rules} (last : Key rules ifaces → Value)
    (other : k.owner ≠ some r.val) : intended (.del r) last k = last k := by
  cases k with
  | rule r' o =>
    exact if_neg fun same => other (congrArg (fun rule : rules => some rule.val) same)
  | _ => rfl

theorem Laid.del (laid : Laid ks s) {r : rules} (fits : StoreSt.Fits (.del r) s) :
    Laid (ks.filter fun k => k.owner ≠ some r.val)
      ⟨qosDeleteState r.val.text s.file, intended (.del r) s.last⟩ where
  file := by
    rw [laid.del_lines r]
    refine List.map_congr_left fun k member => ?_
    have other : k.owner ≠ some r.val := by simpa using (List.mem_filter.mp member).2
    exact congrArg k.line (intended_del_of_ne s.last other).symm
  nodup := laid.nodup.filter _
  unset := by
    intro k missing
    change intended (.del r) s.last k = Value.empty
    by_cases owned : k.owner = some r.val
    · cases k with
      | global g => cases owned
      | rule r' o => exact if_pos (Subtype.ext (Option.some.inj owned))
      -- a rule with the name of an interface would take the lines of the interface with it
      | iface i o => exact fits i o (Option.some.inj owned)
    · rw [List.mem_filter, not_and_or] at missing
      rw [intended_del_of_ne s.last owned]
      exact laid.unset k (missing.resolve_right (by simpa using owned))
  own := by
    intro k valued k' picked
    rcases intended_del s.last r k with same | none
    · simp only [same] at valued picked
      exact laid.own k valued k' picked
    · exact absurd none valued
  order := laid.order.filter _
  printed := by
    intro k
    rcases intended_del s.last r k with same | none
    · simp only [same]
      exact laid.printed k
    · simp only [none]
      rfl

theorem step_del_exact (laid : Laid ks s) (r : rules) :
    (StoreSt.Refines ⟨qosDeleteState r.val.text s.file, intended (.del r) s.last⟩ ↔
      StoreSt.Fits (.del r) s) ∧
    (StoreSt.Fits (.del r) s →
      ∃ ks', Laid ks' ⟨qosDeleteState r.val.text s.file, intended (.del r) s.last⟩) := by
  refine ⟨⟨fun refines i o sameName => ?_, fun fits => (laid.del fits).refines⟩,
    fun fits => ⟨_, laid.del fits⟩⟩
  -- the line of an interface of that name is gone, and no other line shows its value
  by_contra valued
  have read : qosStateGet (Key.iface i o : Key rules ifaces).text
      (lines (ks.filter fun k => k.owner ≠ some r.val) s.last) = (s.last (.iface i o)).text :=
    laid.del_lines r ▸ refines (.iface i o)
  rw [get_lines_iff] at read
  cases all : hits (Key.iface i o) (ks.filter fun k => k.owner ≠ some r.val) s.last with
  | nil =>
    rw [all] at read
    exact valued (text_eq_empty_iff.mp read.2.symm)
  | cons first rest =>
    rw [all, List.map_cons, List.headD_cons] at read
    obtain ⟨stored, picked⟩ := mem_hits.mp (all ▸ List.mem_cons_self :
      first ∈ hits (Key.iface i o) (ks.filter fun k => k.owner ≠ some r.val) s.last)
    have firstValued : s.last first ≠ Value.empty := by
      intro none
      rw [none] at read
      exact valued (text_eq_empty_iff.mp read.2.symm)
    have same := laid.own first firstValued _ picked
    subst same
    simp [Key.owner, sameName] at stored

/-- The store is a map throughout a sequence of calls exactly if every call fits. -/
theorem state_store_refines_iff (cmds : List (StateCmd rules ifaces)) :
    Throughout StoreSt.step StoreSt.Refines cmds StoreSt.start ↔
      Allowed StoreSt.step StoreSt.Fits cmds StoreSt.start := by
  refine throughout_iff_allowed (fun s => ∃ ks, Laid ks s) ?_ ?_ ⟨[], laid_start⟩
  · rintro cmd s t ⟨ks, laid⟩ stepped
    cases stepped
    cases cmd with
    | set k v => exact step_set_exact laid k v
    | del r => exact step_del_exact laid r
  · rintro cmd s -
    exact ⟨_, rfl⟩

/-! ## Two options of one rule -/

def nameR7 : Name := { text := "r7".toList, nonempty := by decide, plain := by simp }

def value1000 : Value := { text := "1000".toList, plain := by simp }

def value2000 : Value := { text := "2000".toList, plain := by simp }

/-- `rate_max` of the rule `r7` is set, then `rate_max_mate`; both lines are read for
    `r7.rate_max`. -/
theorem rate_max_reads_both_lines :
    ¬ Throughout StoreSt.step (StoreSt.Refines : StoreSt {nameR7} ∅ → Prop)
      [.set (.rule ⟨nameR7, rfl⟩ .rateMax) value1000,
        .set (.rule ⟨nameR7, rfl⟩ .rateMaxMate) value2000] StoreSt.start := by
  rintro ⟨-, refines, -⟩
  have read := refines (.rule ⟨nameR7, rfl⟩ .rateMax)
  revert read
  decide

end IpQos.Verified
