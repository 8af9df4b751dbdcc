import IpQos.Lib.Lines
import Mathlib.Data.Set.Defs
import Mathlib.Data.Set.Operations

/-! # The state store

`QOS_STATE` of `script/lib/ip_qos/public.sh`: lines `key=value` in `state.data`, looked up
by `awk`, rewritten and deleted by `sed`.  A key goes into their patterns as it is; of its
characters only the dot means something there. -/

namespace IpQos.Script

open IpQos.Lib (matchesPrefix secondField takeWhile_keyed)

/-! ## The shell -/

/-- A word `echo` takes for its options. -/
def echoOption : List Char → Bool
  | '-' :: c :: cs => (c :: cs).all (fun c => c == 'n' || c == 'e' || c == 'E')
  | _ => false

/-- `echo "$1"`; without `-e` it leaves every character as it is. -/
def echo (s : List Char) : List Char :=
  if echoOption s then if 'n' ∈ s then [] else ['\n'] else s ++ ['\n']

/-- `$(…)` of a command that prints `out`. -/
def commandSubst (out : List Char) : List Char := out.rdropWhile (· = '\n')

/-! ## Lookup, update and deletion -/

/-- `grep "^${key}.*"`, `awk "/^${key}/"` and `sed "/^${key}/"` pick the same lines. -/
def hit (key line : List Char) : Bool := matchesPrefix '.' key line

def qosGetState (key : List Char) (file : List (List Char)) : List Char :=
  if file.any (hit key) then
    echo (commandSubst (((file.filter (hit key)).map (secondField '=')).flatMap (· ++ ['\n'])))
  else []

/-- `s/=.*$/=${cont}/` -/
def substitute (line cont : List Char) : List Char :=
  if '=' ∈ line then line.takeWhile (· ≠ '=') ++ '=' :: cont else line

def qosSetState (key cont : List Char) (file : List (List Char)) : List (List Char) :=
  if file.any (hit key) then
    file.map fun line => if hit key line then substitute line cont else line
  else file ++ [key ++ '=' :: cont]

/-- `/^${key}\..*/d`, with the dot escaped. -/
def qosDeleteState (key : List Char) (file : List (List Char)) : List (List Char) :=
  if file.any (key ++ ['.']).isPrefixOf then
    file.filter fun line => ! (key ++ ['.']).isPrefixOf line
  else file

/-- `$(QOS_STATE get "$key")` -/
def qosStateGet (key : List Char) (file : List (List Char)) : List Char :=
  commandSubst (echo (commandSubst (qosGetState key file)))

/-! ## Keys and values -/

/-- The name of a section. -/
structure Name where
  text : List Char
  nonempty : text ≠ []
  plain : ∀ c ∈ text, c.isAlphanum ∨ c = '_'
  deriving DecidableEq

/-- A value that means nothing to `awk -F=` and to `sed`. -/
structure Value where
  text : List Char
  plain : ∀ c ∈ text, c ∉ ['=', '/', '&', '\\', '\n']
  deriving DecidableEq

def Value.empty : Value := { text := [], plain := fun _ member => nomatch member }

/-- `RULE_OPT_LIST` of `main.sh`, then what `core.sh` and `state_gen.lua` add. -/
inductive RuleOpt where
  | enable | ifPing | ifPong | rateMin | rateMax | rateMinMate | rateMaxMate | ipGroup | mode
  | time | install | ipType
  deriving DecidableEq, Repr

def RuleOpt.text : RuleOpt → List Char
  | .enable => "enable".toList
  | .ifPing => "if_ping".toList
  | .ifPong => "if_pong".toList
  | .rateMin => "rate_min".toList
  | .rateMax => "rate_max".toList
  | .rateMinMate => "rate_min_mate".toList
  | .rateMaxMate => "rate_max_mate".toList
  | .ipGroup => "ip_group".toList
  | .mode => "mode".toList
  | .time => "time".toList
  | .install => "install".toList
  | .ipType => "ip_type".toList

/-- The options of an interface `qos_global_init` stores. -/
inductive IfaceOpt where
  | tName | uplink | downlink
  deriving DecidableEq, Repr

def IfaceOpt.text : IfaceOpt → List Char
  | .tName => "t_name".toList
  | .uplink => "uplink".toList
  | .downlink => "downlink".toList

/-- The keys that belong to no section. -/
inductive GlobalKey where
  | ruleList | ruleNum | qosEnable | ifaceList
  deriving DecidableEq, Repr

def GlobalKey.text : GlobalKey → List Char
  | .ruleList => "rule_list".toList
  | .ruleNum => "rule_num".toList
  | .qosEnable => "qos_enable".toList
  | .ifaceList => "iface_list".toList

/-- The keys of the scripts, for the rules and interfaces there are. -/
inductive Key (rules ifaces : Set Name) where
  | global (g : GlobalKey)
  | rule (r : rules) (opt : RuleOpt)
  | iface (i : ifaces) (opt : IfaceOpt)
  deriving DecidableEq

def Key.text {rules ifaces : Set Name} : Key rules ifaces → List Char
  | .global g => g.text
  | .rule r opt => r.val.text ++ '.' :: opt.text
  | .iface i opt => i.val.text ++ '.' :: opt.text

/-- A key and its value as they stand in `state.data`. -/
def Key.line {rules ifaces : Set Name} (k : Key rules ifaces) (v : Value) : List Char :=
  k.text ++ '=' :: v.text

/-- A call of `QOS_STATE` that changes the store. -/
inductive StateCmd (rules ifaces : Set Name) where
  | set (k : Key rules ifaces) (v : Value)
  | del (r : rules)

/-- The lines of `state.data` after a call. -/
def StateCmd.run {rules ifaces : Set Name} :
    StateCmd rules ifaces → List (List Char) → List (List Char)
  | .set k v, file => qosSetState k.text v.text file
  | .del r, file => qosDeleteState r.val.text file

/-! ## What distinguishes the keys -/

theorem Value.text_inj {v w : Value} (same : v.text = w.text) : v = w := by
  cases v
  cases w
  cases same
  rfl

theorem Name.text_inj {m n : Name} (same : m.text = n.text) : m = n := by
  cases m
  cases n
  cases same
  rfl

theorem Value.free (v : Value) {c : Char} (special : c ∈ ['=', '/', '&', '\\', '\n']) :
    c ∉ v.text :=
  fun member => v.plain c member special

theorem Name.free (n : Name) {c : Char} (special : c ∈ ['.', '=']) : c ∉ n.text := by
  intro member
  rcases n.plain c member with alphanum | underscore
  · simp only [List.mem_cons, List.not_mem_nil, or_false] at special
    rcases special with rfl | rfl <;> revert alphanum <;> decide
  · subst underscore
    revert special
    decide

theorem RuleOpt.text_free (o : RuleOpt) : '.' ∉ o.text ∧ '=' ∉ o.text := by
  cases o <;> decide

theorem IfaceOpt.text_free (o : IfaceOpt) : '.' ∉ o.text ∧ '=' ∉ o.text := by
  cases o <;> decide

theorem GlobalKey.text_free (g : GlobalKey) : '.' ∉ g.text ∧ '=' ∉ g.text := by
  cases g <;> decide

theorem RuleOpt.text_inj {o o' : RuleOpt} : o.text = o'.text → o = o' := by
  cases o <;> cases o' <;> decide

theorem IfaceOpt.text_inj {o o' : IfaceOpt} : o.text = o'.text → o = o' := by
  cases o <;> cases o' <;> decide

theorem GlobalKey.text_inj {g g' : GlobalKey} : g.text = g'.text → g = g' := by
  cases g <;> cases g' <;> decide

theorem RuleOpt.text_ne (o : RuleOpt) (o' : IfaceOpt) : o.text ≠ o'.text := by
  cases o <;> cases o' <;> decide

namespace Key

variable {rules ifaces : Set Name} {k k' : Key rules ifaces} {n : Name}

/-- The section a key belongs to. -/
def owner : Key rules ifaces → Option Name
  | .global _ => none
  | .rule r _ => some r.val
  | .iface i _ => some i.val

/-- What stands behind the name of the section. -/
def opt : Key rules ifaces → List Char
  | .global g => g.text
  | .rule _ o => o.text
  | .iface _ o => o.text

theorem opt_free (k : Key rules ifaces) : '.' ∉ k.opt ∧ '=' ∉ k.opt := by
  cases k with
  | global g => exact g.text_free
  | rule r o => exact o.text_free
  | iface i o => exact o.text_free

theorem text_of_owner (owned : k.owner = some n) : k.text = n.text ++ '.' :: k.opt := by
  cases k <;> cases owned <;> rfl

theorem text_of_no_owner (global : k.owner = none) : k.text = k.opt := by
  cases k with
  | global g => rfl
  | _ => cases global

theorem text_free (k : Key rules ifaces) : '=' ∉ k.text := by
  cases owned : k.owner with
  | none =>
    rw [text_of_no_owner owned]
    exact k.opt_free.2
  | some n =>
    rw [text_of_owner owned]
    simp [n.free (c := '=') (by decide), k.opt_free.2]

/-- No two keys of one section, and no two keys of none, have the same last part. -/
theorem eq_of_owner_of_opt (owners : k.owner = k'.owner) (opts : k.opt = k'.opt) : k = k' := by
  cases k with
  | global g =>
    cases k' with
    | global g' => rw [GlobalKey.text_inj opts]
    | rule r' o' => cases owners
    | iface i' o' => cases owners
  | rule r o =>
    cases k' with
    | global g' => cases owners
    | rule r' o' => rw [Subtype.ext (Option.some.inj owners), RuleOpt.text_inj opts]
    | iface i' o' => exact absurd opts (o.text_ne o')
  | iface i o =>
    cases k' with
    | global g' => cases owners
    | rule r' o' => exact absurd opts.symm (o'.text_ne o)
    | iface i' o' => rw [Subtype.ext (Option.some.inj owners), IfaceOpt.text_inj opts]

/-- A key's section is what stands before its dot. -/
theorem text_inj (same : k.text = k'.text) : k = k' := by
  cases owned : k.owner with
  | none =>
    cases owned' : k'.owner with
    | none =>
      rw [text_of_no_owner owned, text_of_no_owner owned'] at same
      exact eq_of_owner_of_opt (owned.trans owned'.symm) same
    | some n =>
      rw [text_of_no_owner owned, text_of_owner owned'] at same
      have dotted : '.' ∈ k.opt := same ▸ by simp
      exact absurd dotted k.opt_free.1
  | some n =>
    cases owned' : k'.owner with
    | none =>
      rw [text_of_owner owned, text_of_no_owner owned'] at same
      have dotted : '.' ∈ k'.opt := same ▸ by simp
      exact absurd dotted k'.opt_free.1
    | some m =>
      rw [text_of_owner owned, text_of_owner owned'] at same
      -- names have no dot, so the first one ends the section
      have names := congrArg (List.takeWhile (· ≠ '.')) same
      rw [takeWhile_keyed (n.free (by decide)), takeWhile_keyed (m.free (by decide))] at names
      rw [names] at same
      have rests := List.tail_eq_of_cons_eq (List.append_cancel_left same)
      refine eq_of_owner_of_opt ?_ rests
      rw [owned, owned', Name.text_inj names]

/-- `/^${n}\./` picks exactly the lines of the keys of `n`. -/
theorem isPrefixOf_line (k : Key rules ifaces) (n : Name) (v : Value) :
    (n.text ++ ['.']).isPrefixOf (k.line v) = true ↔ k.owner = some n := by
  rw [List.isPrefixOf_iff_prefix]
  constructor
  · rintro ⟨rest, same⟩
    rw [List.append_assoc, List.singleton_append] at same
    cases owned : k.owner with
    | none =>
      rw [Key.line, text_of_no_owner owned] at same
      have keys := congrArg (List.takeWhile (· ≠ '=')) same
      rw [takeWhile_keyed k.opt_free.2, List.takeWhile_append_of_pos (fun c member => by
        simpa using fun special : c = '=' => n.free (by decide) (special ▸ member))] at keys
      have dotted : '.' ∈ k.opt := keys ▸ by simp
      exact absurd dotted k.opt_free.1
    | some m =>
      rw [Key.line, text_of_owner owned, List.append_assoc, List.cons_append] at same
      have names := congrArg (List.takeWhile (· ≠ '.')) same
      rw [takeWhile_keyed (n.free (by decide)), takeWhile_keyed (m.free (by decide))] at names
      rw [Name.text_inj names]
  · intro owned
    rw [Key.line, text_of_owner owned]
    exact ⟨k.opt ++ '=' :: v.text, by simp⟩

end Key

end IpQos.Script
