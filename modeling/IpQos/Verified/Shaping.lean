import IpQos.Verified.Install

/-! # Packets are shaped as configured

The requests that a packet makes the module send come from the rule of an entry that it has
matched, and carry the numbers of that rule's section, wherever the scripts have been left. -/

namespace IpQos.Verified

open IpQos.App (Libc)
open IpQos.Kmod IpQos.Script
open IpQos.Lib (Allowed Run runAll)

/-! ## What a packet sends -/

section Requests

variable {env : Env} {s s' s'' : St} {id mark mark' : Nat} {ip : Be32} {ret : RetCode}

/-- The tables may change, nothing is sent. -/
structure Silent (s s' : St) : Prop where
  framed : Framed s s'
  sent : s'.sent = s.sent
  lanDev : s'.qmarkLanDev = s.qmarkLanDev
  wanDev : s'.qmarkWanDev = s.qmarkWanDev

theorem Silent.refl (s : St) : Silent s s := ⟨.refl s, rfl, rfl, rfl⟩

theorem Silent.trans (first : Silent s s') (second : Silent s' s'') : Silent s s'' where
  framed := first.framed.trans second.framed
  sent := second.sent.trans first.sent
  lanDev := second.lanDev.trans first.lanDev
  wanDev := second.wanDev.trans first.wanDev

theorem Silent.modifyRule {f : RuletblNode → RuletblNode} (ran : Kmod.modifyRule id f s = .ok s')
    (keeps : ∀ rn, (f rn).params = rn.params) : Silent s s' := by
  have framed := Framed.modifyRule ran keeps
  obtain ⟨tbl, _, rfl⟩ := modifyRule_cases ran
  exact ⟨framed, rfl, rfl, rfl⟩

theorem Silent.qmarkAllocMark (ran : Kmod.qmarkAllocMark s = .ok (ret, mark, s')) : Silent s s' := by
  have framed := Framed.qmarkAllocMark ran
  obtain ⟨⟨m, s₁⟩, taken, ran⟩ := bind_eq_ok ran
  have same : s₁.sent = s.sent ∧ s₁.qmarkLanDev = s.qmarkLanDev ∧
      s₁.qmarkWanDev = s.qmarkWanDev := by
    obtain ⟨bm, _, taken⟩ := bind_eq_ok taken
    dsimp only at taken
    split at taken
    · cases taken
      exact ⟨rfl, rfl, rfl⟩
    · obtain ⟨bm', _, taken⟩ := bind_eq_ok taken
      cases taken
      exact ⟨rfl, rfl, rfl⟩
  dsimp only at ran
  split at ran <;> cases ran <;> exact ⟨framed, same.1, same.2.1, same.2.2⟩

theorem Silent.freeMark (ran : Kmod.freeMark mark s = .ok s') : Silent s s' := by
  have framed := Framed.freeMark ran
  obtain ⟨bm, _, ran⟩ := bind_eq_ok ran
  obtain ⟨bm', _, ran⟩ := bind_eq_ok ran
  cases ran
  exact ⟨framed, rfl, rfl, rfl⟩

theorem Silent.qmarkAddHash (ran : Kmod.qmarkAddHash env ip id mark s = .ok (ret, s')) :
    Silent s s' := by
  have framed := Framed.qmarkAddHash ran
  obtain ⟨allocated, _, ran⟩ := bind_eq_ok ran
  split at ran
  · cases ran
    exact .refl s
  · obtain ⟨limited, _, ran⟩ := bind_eq_ok ran
    split at ran
    · cases ran
      exact .refl s
    · obtain ⟨head, _, ran⟩ := bind_eq_ok ran
      obtain ⟨i, _, ran⟩ := bind_eq_ok ran
      obtain ⟨chain, _, ran⟩ := bind_eq_ok ran
      split at ran
      · cases ran
      · split at ran
        · obtain ⟨s₁, count, ran⟩ := bind_eq_ok ran
          obtain ⟨tbl, _, rfl⟩ := modifyRule_cases count
          cases ran
          exact ⟨framed, rfl, rfl, rfl⟩
        · cases ran
          exact .refl s

/-- The slot of the rule `id` has these parameters. -/
def HasParams (id : Nat) (rn : RuletblNode) (s : St) : Prop :=
  ∃ tbl, s.gRuletbl = .to tbl ∧ (tbl[subU32 id 1]?).map RuletblNode.params = some rn

theorem HasParams.before {rn : RuletblNode} (after : HasParams id rn s') (framed : Framed s s') :
    HasParams id rn s := by
  obtain ⟨tbl', live', slot⟩ := after
  have rules := framed.rules
  rw [live'] at rules
  obtain ⟨tbl, live, params⟩ := Ptr.map_eq_to rules.symm
  refine ⟨tbl, live, ?_⟩
  rw [← List.getElem?_map, params, List.getElem?_map, slot]

/-- What is sent are the requests for the rule `id`, or nothing. -/
structure Sends (env : Env) (id : Nat) (s s' : St) : Prop where
  framed : Framed s s'
  lanDev : s'.qmarkLanDev = s.qmarkLanDev
  wanDev : s'.qmarkWanDev = s.qmarkWanDev
  sent : s'.sent = s.sent ∨ ∃ rn mark, HasParams id rn s ∧
    s'.sent = addRequests env s.qmarkLanDev s.qmarkWanDev rn mark ++ s.sent

theorem Silent.sends (silence : Silent s s') : Sends env id s s' :=
  ⟨silence.framed, silence.lanDev, silence.wanDev, .inl silence.sent⟩

theorem Silent.then (silence : Silent s s') (sends : Sends env id s' s'') :
    Sends env id s s'' where
  framed := silence.framed.trans sends.framed
  lanDev := sends.lanDev.trans silence.lanDev
  wanDev := sends.wanDev.trans silence.wanDev
  sent := by
    rw [← silence.sent, ← silence.lanDev, ← silence.wanDev]
    refine sends.sent.imp_right ?_
    rintro ⟨rn, mark, slot, sent⟩
    exact ⟨rn, mark, slot.before silence.framed, sent⟩

/-- Of a rule only its parameters are asked for. -/
theorem addRequests_params (env : Env) (lanDev wanDev : String) (rn : RuletblNode) (mark : Nat) :
    addRequests env lanDev wanDev rn.params mark = addRequests env lanDev wanDev rn mark := rfl

theorem Sends.allocMarkAutoAdd (ran : Kmod.allocMarkAutoAdd env ip id mark s = .ok (ret, mark', s')) :
    Sends env id s s' := by
  obtain ⟨⟨code, s₁⟩, add, ran⟩ := bind_eq_ok ran
  have added := Silent.qmarkAddHash add
  dsimp only at ran
  split at ran
  · obtain ⟨rn, _, ran⟩ := bind_eq_ok ran
    split at ran
    · obtain ⟨s₂, clear, ran⟩ := bind_eq_ok ran
      obtain ⟨s₃, free, ran⟩ := bind_eq_ok ran
      cases ran
      have cleared := Silent.modifyRule clear fun _ => rfl
      exact (added.trans (cleared.trans (.freeMark free))).sends
    · cases ran
      exact added.sends
  · obtain ⟨rn, at_id, ran⟩ := bind_eq_ok ran
    obtain ⟨s₂, shape, ran⟩ := bind_eq_ok ran
    cases ran
    apply added.then
    -- the requests of the one entry that was added
    refine ⟨.qmarkTcAddRule shape, ?_, ?_, .inr ⟨rn.params, mark, ?_, ?_⟩⟩
    · rw [qmarkTcAddRule_done shape]
    · rw [qmarkTcAddRule_done shape]
    · obtain ⟨tbl, live, slot⟩ := ruleAt_cases at_id
      exact ⟨tbl, live, congrArg (Option.map RuletblNode.params) slot⟩
    · rw [qmarkTcAddRule_done shape, addRequests_params]

theorem Sends.qmarkAllocMarkAuto (ran : Kmod.qmarkAllocMarkAuto env ip id mark s = .ok (ret, mark', s')) :
    Sends env id s s' := by
  -- all that is sent is sent by `alloc_mark_auto_add`
  unfold Kmod.qmarkAllocMarkAuto at ran
  split at ran
  · cases ran
    exact (Silent.refl s).sends
  · obtain ⟨rn, _, ran⟩ := bind_eq_ok ran
    split at ran
    · obtain ⟨⟨code, m, s₁⟩, alloc, ran⟩ := bind_eq_ok ran
      have reserved := Silent.qmarkAllocMark alloc
      dsimp only at ran
      split at ran
      · cases ran
        exact reserved.sends
      · exact reserved.then (.allocMarkAutoAdd ran)
    · split at ran
      · obtain ⟨⟨code, m, s₁⟩, alloc, ran⟩ := bind_eq_ok ran
        have reserved := Silent.qmarkAllocMark alloc
        dsimp only at ran
        split at ran
        · cases ran
          exact reserved.sends
        · obtain ⟨s₂, store, ran⟩ := bind_eq_ok ran
          have stored := Silent.modifyRule store fun _ => rfl
          exact (reserved.trans stored).then (.allocMarkAutoAdd ran)
      · exact .allocMarkAutoAdd ran

theorem Sends.qmarkHandle {skb skb' : SkBuff} {info : TgInfo}
    (ran : Kmod.qmarkHandle env skb info s = .ok (skb', s')) : Sends env info.id s s' := by
  obtain ⟨⟨code, mark⟩, _, ran⟩ := bind_eq_ok ran
  dsimp only at ran
  split at ran
  · obtain ⟨⟨ret, mark', s₁⟩, auto, ran⟩ := bind_eq_ok ran
    have sends := Sends.qmarkAllocMarkAuto auto
    dsimp only at ran
    split at ran <;> cases ran <;> exact sends
  · cases ran
    exact (Silent.refl s).sends

end Requests

section Crosses

variable {ν : Type} {cm : Connmark} {idOf : ν → Nat} {env : Env} {hits : Entry ν → Bool}
  {chain : List (Entry ν)} {x y z : Passage} {e : Entry ν}

/-- A request for the rule of an entry that the packet has matched. -/
def AskedBy (idOf : ν → Nat) (env : Env) (hits : Entry ν → Bool) (chain : List (Entry ν)) (s : St)
    (n : RtnlReq) : Prop :=
  ∃ e ∈ chain, hits e = true ∧ ∃ name dir rn mark, ruleOf e = some (name, dir) ∧
    HasParams (idOf name) rn s ∧ n ∈ addRequests env s.qmarkLanDev s.qmarkWanDev rn mark

/-- What a walk over a part of the chain does to the module. -/
structure Crosses (idOf : ν → Nat) (env : Env) (hits : Entry ν → Bool) (chain : List (Entry ν))
    (s s' : St) : Prop where
  framed : Framed s s'
  lanDev : s'.qmarkLanDev = s.qmarkLanDev
  wanDev : s'.qmarkWanDev = s.qmarkWanDev
  sent : ∃ reqs, s'.sent = reqs ++ s.sent ∧ ∀ n ∈ reqs, AskedBy idOf env hits chain s n

theorem Crosses.refl (chain : List (Entry ν)) (s : St) : Crosses idOf env hits chain s s :=
  ⟨.refl s, rfl, rfl, [], rfl, nofun⟩

theorem Crosses.later {s s' : St} (crosses : Crosses idOf env hits chain s s') (e : Entry ν) :
    Crosses idOf env hits (e :: chain) s s' := by
  obtain ⟨framed, lanDev, wanDev, reqs, sent, asked⟩ := crosses
  refine ⟨framed, lanDev, wanDev, reqs, sent, fun n member => ?_⟩
  obtain ⟨e', inside, rest⟩ := asked n member
  exact ⟨e', List.mem_cons_of_mem e inside, rest⟩

theorem Crosses.rule {name : ν} {dir : Nat} (isRule : ruleOf e = some (name, dir))
    (ran : ruleEntry idOf env hits e name dir x = .ok y) :
    Crosses idOf env hits (e :: chain) x.mod y.mod := by
  unfold ruleEntry at ran
  split at ran
  · rename_i matched
    obtain ⟨⟨skb, mod⟩, handle, ran⟩ := bind_eq_ok ran
    cases ran
    obtain ⟨framed, lanDev, wanDev, silent | ⟨rn, mark, slot, sent⟩⟩ := Sends.qmarkHandle handle
    · exact ⟨framed, lanDev, wanDev, [], silent, nofun⟩
    · refine ⟨framed, lanDev, wanDev, _, sent, fun n member => ?_⟩
      exact ⟨e, List.mem_cons_self, matched.1, name, dir, rn, mark, isRule, slot, member⟩
  · cases ran
    exact .refl _ _

theorem Crosses.then {s s' s'' : St} (first : Crosses idOf env hits chain s s')
    (second : Crosses idOf env hits chain s' s'') : Crosses idOf env hits chain s s'' := by
  obtain ⟨framed, lanDev, wanDev, reqs, sent, asked⟩ := first
  obtain ⟨framed', lanDev', wanDev', reqs', sent', asked'⟩ := second
  refine ⟨framed.trans framed', lanDev'.trans lanDev, wanDev'.trans wanDev, reqs' ++ reqs, ?_, ?_⟩
  · rw [sent', sent, List.append_assoc]
  · intro n member
    rcases List.mem_append.mp member with late | early
    · obtain ⟨e, inside, matched, name, dir, rn, mark, isRule, slot, request⟩ := asked' n late
      rw [lanDev, wanDev] at request
      exact ⟨e, inside, matched, name, dir, rn, mark, isRule, slot.before framed, request⟩
    · exact asked n early

theorem walkChain_crosses (ran : walkChain cm idOf env hits chain x = .ok y) :
    Crosses idOf env hits chain x.mod y.mod := by
  induction chain generalizing x with
  | nil =>
    cases ran
    exact .refl _ _
  | cons e chain ih =>
    cases e with
    | restoreMark => exact (ih ran).later _
    | returnMarked =>
      unfold walkChain at ran
      split at ran
      · cases ran
        exact .refl _ _
      · exact (ih ran).later _
    | saveMark => exact (ih ran).later _
    | rule name =>
      obtain ⟨z, entry, ran⟩ := bind_eq_ok ran
      exact (Crosses.rule rfl entry).then ((ih ran).later _)
    | mate name =>
      obtain ⟨z, entry, ran⟩ := bind_eq_ok ran
      exact (Crosses.rule rfl entry).then ((ih ran).later _)

end Crosses

/-! ## Runs -/

section Runs

variable {κ : Type} [DecidableEq κ] {xt : Xtables} {libc : Libc} {cm : Connmark} {env : Env}
  {x y : InstallSt κ}

/-- Sections with numbers of their own, arguments of the tool that can be read, and nobody else
    who writes to the rules: the sizes are set while none is given. -/
def Undisturbed (l : Env × InstallEvent κ) (x : InstallSt κ) : Prop :=
  match l.2 with
  | .call (.install u wanModeOne _ name) =>
    x.todo = [] → Installable x.given wanModeOne name (u.options name)
  | .call _ => True
  | .next => 0 ≤ l.1.copyFromUser
  | .traffic (.module op) =>
    LeavesRules op ∨
      (∃ ipSpec ruleSpec, op = .ioctl (.specSet ipSpec ruleSpec)) ∧ ∀ name, x.given name = none
  | .traffic _ => True

theorem init_rules (env : Env) : (qosMarktblInit env).2.gRuletbl = .null ∨
    (qosMarktblInit env).2.gRuletbl = .to (List.replicate maxRuleCntDefault .zero) := by
  unfold qosMarktblInit markBitmapInit qosRuletblInit qosMarktblHashtblInit
  cases env.kmalloc .markBitmap <;> cases env.kmalloc .ruletbl <;>
    cases env.kmalloc .marktblHead <;> cases env.kmalloc .marktblHt <;>
    first | exact .inl rfl | exact .inr rfl

/-- The three parts are in step. -/
structure Synced (x : InstallSt κ) : Prop where
  stage : Stage x.given x.fw.nf x.todo
  attuned : Attuned x.given x.fw.nf x.fw.mod

theorem Synced.start (κ : Type) (env : Env) : Synced (InstallSt.start κ (qosMarktblInit env).2) := by
  refine ⟨.idle fun _ => rfl, ⟨nofun, nofun⟩, ⟨nofun, nofun, nofun⟩, fun tbl live => ?_,
    fun _ _ => rfl⟩
  rcases init_rules env with absent | fresh
  · cases absent.symm.trans live
  · cases fresh.symm.trans live
    exact .fresh maxRuleCntDefault fun _ => rfl

theorem Stage.recorded {given : Name → Option QmarkRule} {nf : NfSt Name} (stage : Stage given nf []) :
    ∀ name, nf.install name = (given name).isSome := by
  generalize none : [] = cmds at stage
  cases stage with
  | idle recorded => exact recorded
  | entering es => simp at none
  | leaving es => simp at none
  | _ => cases none

theorem Synced.traffic {t : Outside κ} {fw : FwSt κ Name} (synced : Synced x)
    (undisturbed : Undisturbed (env, .traffic t) x) {cfg : UciConfig Name} {idOf : Name → Nat}
    (ran : fwStep cm cfg idOf (env, t.event) x.fw = .ok fw) : Synced { x with fw } := by
  obtain ⟨stage, belongs, separate, table⟩ := synced
  cases t with
  | packet conn skb hits =>
    unfold fwStep at ran
    dsimp only [Outside.event] at ran
    cases present : x.fw.nf.chain with
    | none =>
      rw [present] at ran
      cases ran
      exact ⟨stage, belongs, separate, table⟩
    | some chain =>
      rw [present] at ran
      obtain ⟨z, walk, ran⟩ := bind_eq_ok ran
      cases ran
      -- a packet changes counts and marks of rules, not their parameters
      exact ⟨stage, belongs, separate, table.congr (walkChain_crosses walk).framed.rules⟩
  | module op =>
    obtain ⟨mod, step, ran⟩ := bind_eq_ok ran
    cases ran
    refine ⟨stage, belongs, separate, ?_⟩
    rcases undisturbed with leaves | ⟨⟨ipSpec, ruleSpec, rfl⟩, none⟩
    · exact table.congr (opStep_params leaves step)
    · exact table.specSet none step
  | others | gone =>
    cases ran
    exact ⟨stage, belongs, separate, table⟩

theorem Synced.step {l : Env × InstallEvent κ} (synced : Synced x) (undisturbed : Undisturbed l x)
    (ran : installStep xt libc cm l x = .ok y) : Synced y := by
  obtain ⟨stage, attuned⟩ := synced
  obtain ⟨env, event⟩ := l
  cases event with
  | call f =>
    cases ran
    refine ⟨?_, attuned⟩
    dsimp only
    -- who calls while a function runs waits for the lock
    by_cases busy : x.todo = []
    · rw [busy] at stage
      have recorded := stage.recorded
      rw [busy, List.isEmpty_nil, if_pos rfl]
      cases f with
      | install u wanModeOne ipset name =>
        rcases installCmds_cases u wanModeOne ipset name x.fw.nf with ⟨skipped, _⟩ | ⟨off, taken, _⟩
        · rw [Fn.cmds, skipped]
          -- nothing to do: it is installed, not in the file, or lacks an option
          exact .idle recorded
        · rw [Fn.cmds, taken]
          refine .asking recorded ?_ (undisturbed busy)
          rw [recorded name] at off
          simpa using off
      | uninstall name =>
        unfold Fn.cmds uninstallCmds
        by_cases off : x.fw.nf.install name = true
        · simp only [off, Bool.not_true, Bool.false_eq_true, if_false]
          refine .leaving [.rule name, .mate name] recorded (recorded name ▸ off) ?_
          intro e dir isRule
          rcases ruleOf_cases isRule with rfl | rfl <;> simp
        · simp only [off, Bool.not_false, if_true]
          exact .idle recorded
      | destroy => exact .clearing
    · have notEmpty : x.todo.isEmpty = false := by simpa using busy
      rw [notEmpty]
      exact stage
  | next =>
    unfold installStep at ran
    dsimp only at ran
    cases left : x.todo with
    | nil =>
      rw [left] at ran
      cases ran
      exact ⟨stage, attuned⟩
    | cons cmd todo =>
      rw [left] at ran stage
      obtain ⟨mod, run, ran⟩ := bind_eq_ok ran
      cases ran
      obtain ⟨stage', attuned'⟩ := stage.next attuned undisturbed run
      exact ⟨stage', attuned'⟩
  | traffic t =>
    obtain ⟨fw, event, ran⟩ := bind_eq_ok ran
    cases ran
    exact Synced.traffic ⟨stage, attuned⟩ undisturbed event

/-- The id that iptables reads is the number of the rule. -/
theorem Readable.setId_eq {name : Name} (readable : Readable name) (documented : xt.Documented) :
    setId xt name = some (ruleId name) :=
  (setId_iff documented readable.number readable.word).mpr (.inl readable.plain)

/-- A request with the numbers of a given rule, whose entry the packet has matched. -/
def ConfiguredRequest (env : Env) (hits : Entry Name → Bool) (x : InstallSt κ) (n : RtnlReq) : Prop :=
  ∃ chain, x.fw.nf.chain = some chain ∧ ∃ e ∈ chain, hits e = true ∧
    ∃ name dir qr mark, ruleOf e = some (name, dir) ∧ x.given name = some qr ∧
      n ∈ addRequests env x.fw.mod.qmarkLanDev x.fw.mod.qmarkWanDev (ruleSlot qr) mark

omit [DecidableEq κ] in
theorem Attuned.configured {hits : Entry Name → Bool} {chain : List (Entry Name)} {n : RtnlReq}
    (attuned : Attuned x.given x.fw.nf x.fw.mod) (documented : xt.Documented)
    (present : x.fw.nf.chain = some chain)
    (asked : AskedBy (fun name => (setId xt name).getD 0) env hits chain x.fw.mod n) :
    ConfiguredRequest env hits x n := by
  obtain ⟨belongs, separate, table⟩ := attuned
  obtain ⟨e, inside, matched, name, dir, rn, mark, isRule, ⟨tbl, live, slot⟩, request⟩ := asked
  have is := belongs.isGiven chain present e inside name dir isRule
  obtain ⟨qr, at_name⟩ := Option.isSome_iff_exists.mp is
  have readable := separate.readable name is
  have positive := readable.positive
  have word := readable.word
  have held := (table.live tbl live).held name qr at_name
  dsimp only at slot
  rw [readable.setId_eq documented, Option.getD_some, subU32_one positive (by omega),
    ← separate.id name qr at_name, held, Option.some.injEq] at slot
  rw [← slot] at request
  exact ⟨chain, present, e, inside, matched, name, dir, qr, mark, isRule, at_name, request⟩

/-- Between functions the rules recorded as installed are the given ones; at every time the module
    holds these and no others, and what a packet makes it send is for a rule that it has matched,
    with the numbers of its section. -/
theorem packets_meet_configuration (documented : xt.Documented) (env₀ : Env)
    (run : Run (installStep xt libc cm) Undisturbed (InstallSt.start κ (qosMarktblInit env₀).2) x) :
    (x.todo = [] → ∀ name, x.fw.nf.install name = (x.given name).isSome) ∧
      TableAgrees x.given x.fw.mod ∧
      ∀ env conn skb hits y,
        installStep xt libc cm (env, .traffic (.packet conn skb hits)) x = .ok y →
        ∃ reqs, y.fw.mod.sent = reqs ++ x.fw.mod.sent ∧
          ∀ n ∈ reqs, ConfiguredRequest env hits x n := by
  have synced := run.invariant Synced (.start κ env₀) fun _ _ _ synced undisturbed ran =>
    synced.step undisturbed ran
  obtain ⟨stage, attuned⟩ := synced
  refine ⟨fun idle => (idle ▸ stage).recorded, attuned.table, ?_⟩
  intro env conn skb hits y ran
  obtain ⟨fw, event, ran⟩ := bind_eq_ok ran
  cases ran
  unfold fwStep at event
  dsimp only [Outside.event] at event
  -- without a chain the packet passes, and nothing is asked of the module
  cases present : x.fw.nf.chain with
  | none =>
    rw [present] at event
    cases event
    exact ⟨[], rfl, nofun⟩
  | some chain =>
    rw [present] at event
    obtain ⟨z, walk, event⟩ := bind_eq_ok event
    cases event
    obtain ⟨_, _, _, reqs, sent, asked⟩ := walkChain_crosses walk
    exact ⟨reqs, sent, fun n member => attuned.configured documented present (asked n member)⟩

/-- The file with this one rule. -/
def twelveText : UciText where
  rules := [⟨ruleTwelve, true, some 2000, none, none, none, some .lan, some (.wan 2), .ipgroupAny⟩]
  distinct := by decide
  options _ := twelveOptions

def twelveCall : Env × InstallEvent ℕ :=
  (plainEnv, .call (.install twelveText false (fun _ => false) ruleTwelve))

/-- The four commands of the call. -/
def twelveCommands : List (Env × InstallEvent ℕ) := List.replicate 4 (plainEnv, .next)

/-- An uplink packet that the entry of the rule matches. -/
def twelvePacket : Env × InstallEvent ℕ :=
  (plainEnv, .traffic (.packet 5 ⟨0, 7, 9⟩ fun e => e == .rule ruleTwelve))

theorem ruleTwelve_shaped :
    ∃ x y, installStep manualXtables ⟨fun _ => 0⟩ manualConnmark twelvePacket x = .ok y ∧
      x.fw.nf.install ruleTwelve = true ∧ y.fw.mod.sent.length = 6 ∧
      ∀ n ∈ y.fw.mod.sent,
        ConfiguredRequest plainEnv (fun e => e == .rule ruleTwelve) x n := by
  have ran : (installStep manualXtables ⟨fun _ => 0⟩ manualConnmark twelveCall
        (InstallSt.start ℕ (qosMarktblInit plainEnv).2) >>= fun w =>
      runAll (installStep manualXtables ⟨fun _ => 0⟩ manualConnmark) twelveCommands w >>= fun x =>
        (installStep manualXtables ⟨fun _ => 0⟩ manualConnmark twelvePacket x).map fun y =>
          (x.todo.isEmpty, (x.given ruleTwelve).isSome, x.fw.mod.sent, y.fw.mod.sent.length)) =
      .ok (true, true, [], 6) := by decide +kernel
  obtain ⟨w, called, ran⟩ := bind_eq_ok ran
  obtain ⟨x, commands, ran⟩ := bind_eq_ok ran
  obtain ⟨y, packet, same⟩ := map_eq_ok ran
  simp only [Prod.mk.injEq, List.isEmpty_iff] at same
  obtain ⟨idle, given, silent, length⟩ := same
  -- nothing comes between the commands of the one call
  have undisturbed : Undisturbed twelveCall (InstallSt.start ℕ (qosMarktblInit plainEnv).2) := by
    intro _
    exact ⟨by decide, by decide, by decide, by decide, nofun⟩
  have allowed : Allowed (installStep manualXtables ⟨fun _ => 0⟩ manualConnmark) Undisturbed
      twelveCommands w := by
    apply Allowed.of_forall
    intro l member _
    rw [List.eq_of_mem_replicate member]
    exact Int.le_refl 0
  have run := (Run.single undisturbed called).trans (.of_runAll allowed commands)
  have shaped := packets_meet_configuration manualXtables_documented plainEnv run
  obtain ⟨reqs, sent, configured⟩ := shaped.2.2 plainEnv 5 ⟨0, 7, 9⟩ _ y packet
  rw [silent, List.append_nil] at sent
  refine ⟨x, y, packet, (shaped.1 idle ruleTwelve).trans given, length, ?_⟩
  rw [sent]
  exact configured

end Runs

end IpQos.Verified
