import IpQos.Kmod.Wire
import IpQos.Lib.Coupled
import IpQos.Verified.NetlinkRoundTrip
import IpQos.Verified.RateTable

/-! # What goes over the wire

The builders on bytes send what the builders on records send: every message reads back as
its record, whatever the byte order, and a run of calls fails exactly where a rate table
divides by zero. -/

namespace IpQos.Verified

open IpQos.Kmod
open IpQos.Lib (Attr ByteOrder Coupled Walks length_patch patch roundUp runAll runAll_append slice slice_append
  slice_patch_after slice_patch_before slice_patch_self)

variable {o : ByteOrder} {req req' : List UInt8}

/-! ## Attributes that fit -/

/-- Where the next attribute goes. -/
def callEnd (pos : Nat) (call : AddattrCall) : Nat := pos + roundUp (4 + call.data.length)

/-- The call passes its check at `pos`, and its bytes are in the request. -/
def Fits (pos : Nat) (call : AddattrCall) : Prop :=
  call.type < 2 ^ 16 ∧ callEnd pos call ≤ call.maxlen.toUInt32.toNat ∧
    callEnd pos call ≤ sizeofRtnlReq

instance (pos : Nat) (call : AddattrCall) : Decidable (Fits pos call) :=
  inferInstanceAs (Decidable (_ ∧ _ ∧ _))

/-- `sizeof(struct rtnl_req)` as a bound. -/
def wholeReq : Int32 := 4132

theorem storeBytes_ok {off : Nat} {bytes : List UInt8} (stored : storeBytes off bytes req = .ok req') :
    off + bytes.length ≤ req.length ∧ req' = patch req off bytes := by
  unfold storeBytes at stored
  split at stored
  case isTrue inside => exact ⟨inside, (Except.ok.inj stored).symm⟩
  case isFalse => cases stored

/-- A store behind `nlmsg_len` leaves it alone. -/
theorem nlmsgLen_of_store {off : Nat} {bytes : List UInt8} (behind : 4 ≤ off)
    (stored : storeBytes off bytes req = .ok req') : nlmsgLen o req' = nlmsgLen o req := by
  obtain ⟨inside, rfl⟩ := storeBytes_ok stored
  rw [nlmsgLen, slice_patch_before inside (by omega)]
  rfl

/-- A bound beyond the request, like that of the mask of a filter, is as good as the request. -/
theorem addattr_fits {call : AddattrCall} (sized : SizedReq o req)
    (fits : Fits (nlmsgLen o req) call) :
    ∃ req', qmarkTcAddattr o call.maxlen call.type call.data req = .ok (.ok, req') ∧
      Appended o req wholeReq call.type call.data req' := by
  obtain ⟨_, inBound, inReq⟩ := fits
  have grown : call.data.length ≤ roundUp (4 + call.data.length) :=
    Nat.le_trans (Nat.le_add_left ..) (IpQos.Lib.le_roundUp _)
  unfold callEnd at inBound inReq
  have data_lt : call.data.length < 2 ^ 30 := by
    unfold sizeofRtnlReq at inReq
    omega
  have passes : exceedsBound o call.maxlen call.data.length req = false := by
    rw [sized.exceedsBound_eq _ data_lt]
    exact decide_eq_false (Nat.not_lt.mpr inBound)
  have passesWhole : exceedsBound o wholeReq call.data.length req = false := by
    rw [sized.exceedsBound_eq _ data_lt]
    exact decide_eq_false (Nat.not_lt.mpr inReq)
  obtain ⟨req', added, appended⟩ :=
    addattr_spec sized (Nat.le_refl _) call.type data_lt passesWhole
  refine ⟨req', ?_, appended⟩
  rw [← added]
  simp only [qmarkTcAddattr, passes, passesWhole]

/-- Calls that fit one after the other. -/
def FitAll : Nat → List AddattrCall → Prop
  | _, [] => True
  | pos, call :: calls => Fits pos call ∧ FitAll (callEnd pos call) calls

def endOf (pos : Nat) (calls : List AddattrCall) : Nat := calls.foldl callEnd pos

/-- A request that grew by `attrs` up to `pos`. -/
structure GrownTo (o : ByteOrder) (req req' : List UInt8) (attrs : List (Nat × List UInt8))
    (pos : Nat) : Prop where
  sized : SizedReq o req'
  grown : Extends o req req' attrs
  len : nlmsgLen o req' = pos

theorem Appended.grownTo {call : AddattrCall} (fits : Fits (nlmsgLen o req) call)
    (appended : Appended o req wholeReq call.type call.data req') :
    GrownTo o req req' [(call.type, call.data)] (callEnd (nlmsgLen o req) call) where
  sized := appended.sized
  grown := appended.extends (Nat.le_refl _) fits.1
  len := appended.grown

theorem children_fit {calls : List AddattrCall} {b : BuildSt} (sized : SizedReq o b.req)
    (fit : FitAll (nlmsgLen o b.req) calls) :
    ∃ req', runAll (buildStep o) (calls.map AddattrCall.step) b = .ok { b with req := req' } ∧
      GrownTo o b.req req' (calls.map fun call => (call.type, call.data))
        (endOf (nlmsgLen o b.req) calls) := by
  induction calls generalizing b with
  | nil => exact ⟨b.req, rfl, sized, .refl o b.req, rfl⟩
  | cons call calls ih =>
    obtain ⟨fits, fitRest⟩ := fit
    obtain ⟨req', added, appended⟩ := addattr_fits sized fits
    have first := appended.grownTo fits
    rw [← first.len] at fitRest
    obtain ⟨req'', ran, rest⟩ := ih (b := { b with req := req' }) first.sized fitRest
    refine ⟨req'', ?_, rest.sized, first.grown.trans sized rest.grown, ?_⟩
    · simp only [List.map_cons, runAll, AddattrCall.step, buildStep, added, ok_bind, pure_eq_ok]
      exact ran
    · rw [rest.len, first.len]
      rfl

/-- The calls for an attribute fit. -/
def AttrFits (pos : Nat) : AttrCalls → Prop
  | .plain call => Fits pos call
  | .nest maxlen type children =>
    Fits pos ⟨maxlen, type, []⟩ ∧ FitAll (callEnd pos ⟨maxlen, type, []⟩) children

def attrEnd (pos : Nat) : AttrCalls → Nat
  | .plain call => callEnd pos call
  | .nest maxlen type children => endOf (callEnd pos ⟨maxlen, type, []⟩) children

/-- The attribute is what the calls were to append. -/
def Holds (o : ByteOrder) : AttrCalls → Nat × List UInt8 → Prop
  | .plain call, attr => attr = (call.type, call.data)
  | .nest _ type children, attr =>
    attr.1 = type ∧ Walks o attr.2 (children.map fun call => (call.type, call.data))

theorem attr_fits {calls : AttrCalls} {b : BuildSt} (sized : SizedReq o b.req)
    (fits : AttrFits (nlmsgLen o b.req) calls) :
    ∃ b' attr, runAll (buildStep o) calls.steps b = .ok b' ∧ Holds o calls attr ∧
      GrownTo o b.req b'.req [attr] (attrEnd (nlmsgLen o b.req) calls) := by
  cases calls with
  | plain call =>
    obtain ⟨req', added, appended⟩ := addattr_fits sized fits
    refine ⟨{ b with req := req' }, _, ?_, rfl, appended.grownTo fits⟩
    simp only [AttrCalls.steps, runAll, AddattrCall.step, buildStep, added, ok_bind, pure_eq_ok]
  | nest maxlen type children =>
    obtain ⟨fitsHead, fitChildren⟩ := fits
    -- the empty attribute, its children behind it, and then its length patched
    obtain ⟨opened, added, appended⟩ := addattr_fits sized fitsHead
    have head := appended.grownTo fitsHead
    rw [← head.len] at fitChildren
    let started : BuildSt := { req := opened, tail := nlmsgTail o b.req }
    obtain ⟨filled, ran, inside⟩ := children_fit (b := started) head.sized fitChildren
    obtain ⟨closed, value, stored, sized', grown, walks⟩ :=
      appended.nest sized fitsHead.1 inside.grown inside.sized
    have tail := sized.nlmsgTail_eq
    have header := sized.header
    unfold attrsOffset at header
    have lenKept : nlmsgLen o closed = nlmsgLen o filled := nlmsgLen_of_store (by omega) stored
    refine ⟨{ started with req := closed }, (type, value), ?_, ⟨rfl, walks⟩, sized', grown, ?_⟩
    · have steps : (AttrCalls.nest maxlen type children).steps =
          [.setTail, .addattr maxlen type []] ++
            (children.map AddattrCall.step ++ [.patchTail]) := rfl
      have opening : runAll (buildStep o) [.setTail, .addattr maxlen type []] b = .ok started := by
        simp only [runAll, buildStep, added, ok_bind, pure_eq_ok, started]
      have closing : runAll (buildStep o) [.patchTail] { started with req := filled } =
          .ok { started with req := closed } := by
        simp only [runAll, buildStep, started, stored, ok_bind, pure_eq_ok]
      rw [steps, runAll_append opening, runAll_append ran, closing]
    · rw [lenKept, inside.len, head.len]
      rfl

/-- Attributes that fit one after the other. -/
def AttrsFit : Nat → List AttrCalls → Prop
  | _, [] => True
  | pos, calls :: more => AttrFits pos calls ∧ AttrsFit (attrEnd pos calls) more

theorem attrs_fit {calls : List AttrCalls} {b : BuildSt} (sized : SizedReq o b.req)
    (fit : AttrsFit (nlmsgLen o b.req) calls) :
    ∃ b' attrs, runAll (buildStep o) (calls.flatMap AttrCalls.steps) b = .ok b' ∧
      List.Forall₂ (Holds o) calls attrs ∧
      GrownTo o b.req b'.req attrs (calls.foldl attrEnd (nlmsgLen o b.req)) := by
  induction calls generalizing b with
  | nil => exact ⟨b, [], rfl, .nil, sized, .refl o b.req, rfl⟩
  | cons c calls ih =>
    obtain ⟨fits, fitRest⟩ := fit
    obtain ⟨b', attr, ran, holds, first⟩ := attr_fits sized fits
    rw [← first.len] at fitRest
    obtain ⟨b'', attrs, ranRest, holdRest, rest⟩ := ih first.sized fitRest
    refine ⟨b'', attr :: attrs, ?_, .cons holds holdRest, rest.sized,
      first.grown.trans sized rest.grown, ?_⟩
    · rw [List.flatMap_cons, runAll_append ran, ranRest]
    · rw [rest.len, first.len]
      rfl

/-! ## Requests as header and attributes -/

theorem ReqField.within (f : ReqField) : 4 ≤ f.off ∧ f.off + f.width ≤ attrsOffset := by
  cases f <;> decide

theorem ReqField.disjoint {f g : ReqField} (ne : f ≠ g) :
    g.off + g.width ≤ f.off ∨ f.off + f.width ≤ g.off := by
  cases f <;> cases g <;> first | exact absurd rfl ne | decide

/-- A request under construction as its header fields and its attributes. -/
structure ReqHolds (o : ByteOrder) (req : List UInt8) (field : ReqField → Nat)
    (attrs : List (Nat × List UInt8)) : Prop where
  sized : SizedReq o req
  header : ∀ f, readField o req f = field f
  walks : Walks o (slice req attrsOffset (nlmsgLen o req - attrsOffset)) attrs

theorem slice_zeros {a n : Nat} (inside : a + n ≤ sizeofRtnlReq) :
    slice (List.replicate sizeofRtnlReq (0 : UInt8)) a n = List.replicate n 0 := by
  rw [slice, List.drop_replicate, List.take_replicate, Nat.min_eq_left (by omega)]

theorem clearedReq_holds (o : ByteOrder) : ReqHolds o (clearedReq o) (fun _ => 0) [] := by
  obtain ⟨length, len⟩ := clearedReq_spec o
  refine ⟨⟨length, ?_, ?_, ?_⟩, ?_, ?_⟩
  · rw [len]
    decide
  · rw [len]
  · rw [len]
    decide
  · intro f
    have within := ReqField.within f
    have inside : 0 + (o.write 4 attrsOffset).length ≤
        (List.replicate sizeofRtnlReq (0 : UInt8)).length := by
      rw [o.length_write, List.length_replicate]
      decide
    have behind : 0 + (o.write 4 attrsOffset).length ≤ f.off := by
      rw [o.length_write]
      omega
    have small : f.off + f.width ≤ sizeofRtnlReq := Nat.le_trans within.2 (by decide)
    rw [readField, clearedReq, slice_patch_after inside behind, slice_zeros small,
      ← o.write_zero, o.read_write, Nat.zero_mod]
  · rw [len, Nat.sub_self]
    exact .nil

/-- An assignment to a field changes that field. -/
theorem ReqHolds.field_stored {field : ReqField → Nat} {attrs : List (Nat × List UInt8)}
    (holds : ReqHolds o req field attrs) (f : ReqField) {n : Nat} (small : n < 256 ^ f.width) :
    ∃ req', storeField o f n req = .ok req' ∧ nlmsgLen o req' = nlmsgLen o req ∧
      ReqHolds o req' (Function.update field f n) attrs := by
  have within := ReqField.within f
  have width := o.length_write f.width n
  have header := holds.sized.header
  have inReq := holds.sized.within
  have length := holds.sized.length
  have inside : f.off + (o.write f.width n).length ≤ req.length := by
    rw [width, length]
    exact Nat.le_trans within.2 (Nat.le_trans header inReq)
  have stored : storeField o f n req = .ok (patch req f.off (o.write f.width n)) :=
    storeBytes_eq inside
  have lenKept := nlmsgLen_of_store (o := o) within.1 stored
  refine ⟨_, stored, lenKept, ⟨?_, ?_, ?_, ?_⟩, ?_, ?_⟩
  · rw [length_patch inside, length]
  · rw [lenKept]
    exact holds.sized.aligned
  · rw [lenKept]
    exact header
  · rw [lenKept]
    exact inReq
  · intro g
    rcases eq_or_ne g f with rfl | ne
    · rw [readField, slice_patch_self inside width, o.read_write_of_lt small,
        Function.update_self]
    · rw [Function.update_of_ne ne, ← holds.header g, readField, readField]
      -- the other fields lie before or behind the one that was written
      rcases ReqField.disjoint ne with before | behind
      · rw [slice_patch_after inside (by omega)]
      · rw [slice_patch_before inside (by omega)]
  · rw [lenKept, slice_patch_after inside (by omega)]
    exact holds.walks

theorem ReqHolds.fields_stored {field : ReqField → Nat} {attrs : List (Nat × List UInt8)}
    (holds : ReqHolds o req field attrs) {fields : List (ReqField × Nat)}
    (small : ∀ p ∈ fields, p.2 < 256 ^ p.1.width) :
    ∃ req', storeFields o fields req = .ok req' ∧ nlmsgLen o req' = nlmsgLen o req ∧
      ReqHolds o req' (fields.foldl (fun field p => Function.update field p.1 p.2) field)
        attrs := by
  induction fields generalizing req field with
  | nil => exact ⟨req, rfl, rfl, holds⟩
  | cons p fields ih =>
    obtain ⟨req', stored, lenKept, holds'⟩ := holds.field_stored p.1 (small p List.mem_cons_self)
    obtain ⟨req'', storedRest, lenKept', holds''⟩ :=
      ih holds' fun q member => small q (List.mem_cons_of_mem p member)
    refine ⟨req'', ?_, lenKept'.trans lenKept, holds''⟩
    simp only [storeFields, stored, ok_bind]
    exact storedRest

/-- Attributes that fit are appended, and the header stays. -/
theorem ReqHolds.appended {field : ReqField → Nat} {attrs : List (Nat × List UInt8)}
    (holds : ReqHolds o req field attrs) {calls : List AttrCalls}
    (fit : AttrsFit (nlmsgLen o req) calls) :
    ∃ req' more, appendAttrs o calls req = .ok req' ∧ List.Forall₂ (Holds o) calls more ∧
      nlmsgLen o req' = calls.foldl attrEnd (nlmsgLen o req) ∧
      ReqHolds o req' field (attrs ++ more) := by
  have header := holds.sized.header
  obtain ⟨b, more, ran, held, grownTo⟩ := attrs_fit (b := ⟨req, 0⟩) holds.sized fit
  have grown := grownTo.grown
  have grows := grown.grows
  refine ⟨b.req, more, ?_, held, grownTo.len, grownTo.sized, ?_, ?_⟩
  · simp only [appendAttrs, ran, ok_bind, pure_eq_ok]
  · intro f
    have within := ReqField.within f
    rw [← holds.header f, readField, readField,
      grown.keeps f.off f.width within.1 (Nat.le_trans within.2 header)]
  · have parts : nlmsgLen o b.req - attrsOffset =
        (nlmsgLen o req - attrsOffset) + (nlmsgLen o b.req - nlmsgLen o req) := by
      change nlmsgLen o req ≤ nlmsgLen o b.req at grows
      omega
    have start : attrsOffset + (nlmsgLen o req - attrsOffset) = nlmsgLen o req := by omega
    rw [parts, slice_append, start,
      grown.keeps attrsOffset _ (by decide) (Nat.le_of_eq start)]
    exact holds.walks.append grown.walks

/-! ## Messages -/

theorem slice_take {mem : List UInt8} {a n k : Nat} (inside : a + n ≤ k) :
    slice (mem.take k) a n = slice mem a n := by
  rw [slice, slice, List.drop_take, List.take_take, Nat.min_eq_left (by omega)]

/-- Only the acknowledgement flag is added on the way out, and the message is complete. -/
theorem ReqHolds.acked {field : ReqField → Nat} {attrs : List (Nat × List UInt8)}
    (holds : ReqHolds o req field attrs) (small : field .nlmsgFlags < 2 ^ 16) :
    ∃ msg, ackedMessage o req = .ok msg ∧ readMessage o msg =
      WireMessage.ofParts o
        (Function.update field .nlmsgFlags (field .nlmsgFlags ||| nlmFAck)) attrs := by
  have acked : field .nlmsgFlags ||| nlmFAck < 2 ^ 16 := Nat.or_lt_two_pow small (by decide)
  -- the message is cut to the length that its own header states
  obtain ⟨req', stored, _, holds'⟩ := holds.field_stored .nlmsgFlags acked
  have header := holds'.sized.header
  have inReq := holds'.sized.within
  have length := holds'.sized.length
  have whole : (req'.take (nlmsgLen o req')).length = nlmsgLen o req' := by
    rw [List.length_take]
    omega
  have len : nlmsgLen o (req'.take (nlmsgLen o req')) = nlmsgLen o req' := by
    unfold attrsOffset at header
    rw [nlmsgLen, slice_take (by omega)]
    rfl
  have fields : readField o (req'.take (nlmsgLen o req')) =
      Function.update field .nlmsgFlags (field .nlmsgFlags ||| nlmFAck) := by
    funext f
    have within := ReqField.within f
    rw [readField, slice_take (by omega)]
    exact holds'.header f
  have region : (req'.take (nlmsgLen o req')).drop attrsOffset =
      slice req' attrsOffset (nlmsgLen o req' - attrsOffset) := List.drop_take
  have complete : ¬ (nlmsgLen o req' ≠ nlmsgLen o req' ∨ nlmsgLen o req' < attrsOffset) := by
    omega
  refine ⟨req'.take (nlmsgLen o req'), ?_, ?_⟩
  · rw [ackedMessage, holds.header, stored]
    rfl
  · rw [readMessage, len, whole, if_neg complete, fields, region, holds'.walks.walk_eq]
    rfl

/-! ## Options -/

/-- The fields of a `tc_ratespec` have their sizes. -/
structure RatespecOk (r : TcRatespec) : Prop where
  cellLog : r.cellLog < 256
  linklayer : r.linklayer < 256
  overhead : r.overhead < 2 ^ 16
  cellAlign : -2 ^ 15 ≤ r.cellAlign ∧ r.cellAlign < 2 ^ 15
  mpu : r.mpu < 2 ^ 16
  rate : r.rate < 2 ^ 32

theorem RatespecOk.small {r : TcRatespec} (ok : RatespecOk r) :
    ∀ field ∈ r.fields, field.2 < 256 ^ field.1 := by
  obtain ⟨cellLog, linklayer, overhead, cellAlign, mpu, rate⟩ := ok
  simp only [TcRatespec.fields, List.forall_mem_cons, List.not_mem_nil, false_implies,
    implies_true, and_true]
  refine ⟨by omega, by omega, by omega, ?_, by omega, by omega⟩
  omega

theorem ratespec_ofFields {r : TcRatespec} (ok : RatespecOk r) :
    TcRatespec.ofFields (r.fields.map Prod.snd) = some r := by
  have align := ok.cellAlign
  have back : Int.bmod ((r.cellAlign % 2 ^ 16).toNat : Int) (2 ^ 16) = r.cellAlign := by
    rw [Int.bmod_def]
    omega
  simp only [TcRatespec.fields, List.map_cons, List.map_nil, TcRatespec.ofFields, back]

structure HtbOptOk (opt : TcHtbOpt) : Prop where
  rate : RatespecOk opt.rate
  ceil : RatespecOk opt.ceil
  buffer : opt.buffer < 2 ^ 32
  cbuffer : opt.cbuffer < 2 ^ 32

theorem HtbOptOk.small {opt : TcHtbOpt} (ok : HtbOptOk opt) :
    ∀ field ∈ opt.fields, field.2 < 256 ^ field.1 := by
  intro field member
  simp only [TcHtbOpt.fields, List.mem_append, List.mem_cons, List.not_mem_nil, or_false] at member
  rcases member with (rate | ceil) | rfl | rfl
  · exact ok.rate.small field rate
  · exact ok.ceil.small field ceil
  · exact ok.buffer
  · exact ok.cbuffer

theorem length_htbOpt (o : ByteOrder) (opt : TcHtbOpt) : (opt.bytes o).length = 44 := by
  rw [TcHtbOpt.bytes, o.length_writeRecord]
  simp only [TcHtbOpt.fields, TcRatespec.fields, List.map_append, List.map_cons, List.map_nil,
    List.sum_append, List.sum_cons, List.sum_nil, Nat.reduceAdd]

theorem htbOpt_ofFields {opt : TcHtbOpt} (ok : HtbOptOk opt) :
    TcHtbOpt.ofFields (opt.fields.map Prod.snd) = some opt := by
  have isRate : (opt.fields.map Prod.snd).take 6 = opt.rate.fields.map Prod.snd := rfl
  have isCeil : ((opt.fields.map Prod.snd).drop 6).take 6 = opt.ceil.fields.map Prod.snd := rfl
  have isRest : (opt.fields.map Prod.snd).drop 12 = [opt.buffer, opt.cbuffer] := rfl
  simp only [TcHtbOpt.ofFields, isRate, isCeil, isRest, ratespec_ofFields ok.rate,
    ratespec_ofFields ok.ceil, Option.bind_eq_bind, Option.bind_some]

theorem htbOpt_ofBytes {opt : TcHtbOpt} (ok : HtbOptOk opt) :
    TcHtbOpt.ofBytes o (opt.bytes o) = some opt := by
  have widths : opt.fields.map Prod.fst = ratespecWidths ++ ratespecWidths ++ [4, 4] := rfl
  rw [TcHtbOpt.ofBytes, TcHtbOpt.bytes, o.writeRecord_append, ← widths,
    ByteOrder.readRecord_writeRecord ok.small, htbOpt_ofFields ok]

/-! ## Builders -/

/-- What is built goes out as the record; where the record has no options to send, the
    builder fails with it. -/
def Delivers (o : ByteOrder) (build : Except Oops (List UInt8)) (n : RtnlReq) : Prop :=
  match n.toWire with
  | .ok w => ∃ req msg, build = .ok req ∧ ackedMessage o req = .ok msg ∧ readMessage o msg = some w
  | .error e => build = .error e

def headerOf (fields : List (ReqField × Nat)) : ReqField → Nat :=
  fields.foldl (fun field p => Function.update field p.1 p.2) fun _ => 0

theorem header_stored {fields : List (ReqField × Nat)}
    (small : ∀ p ∈ fields, p.2 < 256 ^ p.1.width) :
    ∃ req, storeFields o fields (clearedReq o) = .ok req ∧ nlmsgLen o req = attrsOffset ∧
      ReqHolds o req (headerOf fields) [] := by
  obtain ⟨req, stored, lenKept, holds⟩ := (clearedReq_holds o).fields_stored small
  exact ⟨req, stored, lenKept.trans (clearedReq_spec o).2, holds⟩

/-- The header fields of a request are those of a record. -/
structure HeaderIs (field : ReqField → Nat) (n : RtnlReq) : Prop where
  cmd : field .nlmsgType = n.nlmsgType.toNat
  flags : field .nlmsgFlags = requestFlags n.exclCreate
  ifindex : field .tcmIfindex = n.tcmIfindex
  handle : field .tcmHandle = n.tcmHandle
  parent : field .tcmParent = n.tcmParent
  info : field .tcmInfo = n.tcmInfo

theorem cmd_ofNat (cmd : RtmCmd) : RtmCmd.ofNat? cmd.toNat = some cmd := by
  cases cmd <;> rfl

/-- A request with the header of a record, its kind and its options goes out as the record. -/
theorem ReqHolds.delivers {field : ReqField → Nat} {attrs : List (Nat × List UInt8)}
    {build : Except Oops (List UInt8)} {n : RtnlReq} {kind : List UInt8} (options : WireOptions)
    (holds : ReqHolds o req field attrs) (built : build = .ok req) (header : HeaderIs field n)
    (isKind : nestGet attrs tcaKind = some kind) (named : stringOf kind = n.kind)
    (said : n.options.toWire = .ok options)
    (read : readOptions o n.kind (nestGet attrs tcaOptions) = some options) :
    Delivers o build n := by
  have small : field .nlmsgFlags < 2 ^ 16 := by
    rw [header.flags]
    cases n.exclCreate <;> decide
  obtain ⟨msg, acked, isMessage⟩ := holds.acked small
  simp only [Delivers, RtnlReq.toWire, said, ok_bind, pure_eq_ok]
  refine ⟨req, msg, built, acked, isMessage.trans ?_⟩
  simp only [WireMessage.ofParts, Function.update_apply, reduceCtorEq, if_true, if_false,
    header.cmd, header.flags, header.ifindex, header.handle, header.parent, header.info,
    cmd_ofNat, isKind, named, read, Option.bind_eq_bind, Option.bind_some, Option.pure_def]

theorem openReq_small (cmd : RtmCmd) (exclCreate : Bool) :
    ∀ p ∈ openReq cmd exclCreate, p.2 < 256 ^ p.1.width := by
  cases cmd <;> cases exclCreate <;> decide

theorem u32_lt (n : Nat) : u32 n < 2 ^ 32 := Nat.mod_lt _ (by decide)

theorem classMinor_u32 (rn : RuletblNode) (mark : Nat) : classMinor rn mark < 2 ^ 32 := by
  unfold classMinor
  split
  · exact u32_lt _
  · exact u32_lt _

theorem classid_lt (rn : RuletblNode) (mark : Nat) : classid rn mark < 2 ^ 32 :=
  Nat.or_lt_two_pow (by decide) (classMinor_u32 rn mark)

theorem parentClassid_lt (rn : RuletblNode) : parentClassid rn < 2 ^ 32 := by
  unfold parentClassid
  split
  · decide
  · exact Nat.or_lt_two_pow (by decide) (u32_lt _)

/-- The assignments of a builder are of the sizes of their fields. -/
theorem fields_small (cmd : RtmCmd) (exclCreate : Bool) {fields : List (ReqField × Nat)}
    (small : ∀ p ∈ fields, p.2 < 256 ^ p.1.width) :
    ∀ p ∈ openReq cmd exclCreate ++ fields, p.2 < 256 ^ p.1.width := by
  intro p member
  rcases List.mem_append.mp member with opening | own
  · exact openReq_small cmd exclCreate p opening
  · exact small p own

/-- One more attribute. -/
theorem ReqHolds.appended_one {field : ReqField → Nat} {attrs : List (Nat × List UInt8)}
    {calls : AttrCalls} (holds : ReqHolds o req field attrs)
    (fits : AttrFits (nlmsgLen o req) calls) :
    ∃ req' attr, appendAttrs o [calls] req = .ok req' ∧ Holds o calls attr ∧
      nlmsgLen o req' = attrEnd (nlmsgLen o req) calls ∧
      ReqHolds o req' field (attrs ++ [attr]) := by
  have fit : AttrsFit (nlmsgLen o req) [calls] := ⟨fits, trivial⟩
  obtain ⟨req', more, appended, held, len, holds'⟩ := holds.appended fit
  cases held with
  | cons head rest =>
    cases rest
    exact ⟨req', _, appended, head, len, holds'⟩

/-- The kind is the first attribute of a request. -/
theorem ReqHolds.kind_appended {field : ReqField → Nat} (kind : String)
    (holds : ReqHolds o req field []) (len : nlmsgLen o req = attrsOffset)
    (fits : Fits attrsOffset ⟨4132, tcaKind, cString kind⟩) :
    ∃ req', appendAttrs o [kindCalls kind] req = .ok req' ∧
      nlmsgLen o req' = callEnd attrsOffset ⟨4132, tcaKind, cString kind⟩ ∧
      ReqHolds o req' field [(tcaKind, cString kind)] := by
  rw [← len] at fits
  have fit : AttrFits (nlmsgLen o req) (kindCalls kind) := fits
  obtain ⟨req', attr, appended, held, lenNow, holds'⟩ := holds.appended_one fit
  cases held
  rw [len] at lenNow
  exact ⟨req', appended, lenNow, holds'⟩

theorem htb_named : stringOf (cString "htb") = "htb" := by decide

theorem pfifo_named : stringOf (cString "pfifo") = "pfifo" := by decide

theorem fw_named : stringOf (cString "fw") = "fw" := by decide

theorem pfifoQdiscBytes_delivers {dev : NetDevice} (cmd : RtmCmd) (exclCreate : Bool)
    (rn : RuletblNode) (mark i : Nat) (ifindex : dev.ifindex < 2 ^ 32) :
    Delivers o (pfifoQdiscBytes o cmd exclCreate rn mark i dev)
      (pfifoQdiscReq cmd exclCreate rn mark i dev) := by
  have own : ∀ p ∈ pfifoQdiscFields rn mark dev, p.2 < 256 ^ p.1.width := by
    simp only [pfifoQdiscFields, List.forall_mem_cons, List.not_mem_nil, false_implies,
      implies_true, and_true]
    exact ⟨u32_lt _, classid_lt rn mark, ifindex⟩
  obtain ⟨req, stored, len, holds⟩ := header_stored (o := o) (fields_small cmd exclCreate own)
  have header : HeaderIs (headerOf (openReq cmd exclCreate ++ pfifoQdiscFields rn mark dev))
      (pfifoQdiscReq cmd exclCreate rn mark i dev) := ⟨rfl, rfl, rfl, rfl, rfl, rfl⟩
  obtain ⟨req', appended, len', holds'⟩ := holds.kind_appended "pfifo" len (by decide)
  -- only a new qdisc has options
  by_cases new : cmd = .newQdisc
  · subst new
    have fits : AttrFits (nlmsgLen o req') (pfifoCalls o 100) := by
      simp only [len', AttrFits, pfifoCalls, Fits, callEnd, o.length_write]
      decide
    obtain ⟨req'', attr, appended', held, _, holds''⟩ := holds'.appended_one fits
    cases held
    refine holds''.delivers (.pfifo 100) ?_ header rfl pfifo_named ?_ ?_
    · simp only [pfifoQdiscBytes, stored, appended, appended', ok_bind, if_true]
    · simp only [pfifoQdiscReq, if_true, TcaOptions.toWire]
    · have limit : o.read (o.write 4 100) = 100 := o.read_write_of_lt (by decide)
      change readOptionsOf o "pfifo" (o.write 4 100) = _
      simp only [readOptionsOf, limit, String.reduceEq, if_true, if_false]
  · refine holds'.delivers .none ?_ header rfl pfifo_named ?_ rfl
    · simp only [pfifoQdiscBytes, stored, appended, new, ok_bind, if_false, pure_eq_ok]
    · simp only [pfifoQdiscReq, new, if_false, TcaOptions.toWire]

/-- The two attributes of a filter, found in its nest. -/
theorem readOptions_fw {value : List UInt8} {mask flowid : Nat} (mask_lt : mask < 2 ^ 32)
    (flowid_lt : flowid < 2 ^ 32)
    (walks : Walks o value [(tcaFwMask, o.write 4 mask), (tcaFwClassid, o.write 4 flowid)]) :
    readOptionsOf o "fw" value = some (.fw mask flowid) := by
  have isMask : nestGet [(tcaFwMask, o.write 4 mask), (tcaFwClassid, o.write 4 flowid)]
      tcaFwMask = some (o.write 4 mask) := rfl
  have isFlowid : nestGet [(tcaFwMask, o.write 4 mask), (tcaFwClassid, o.write 4 flowid)]
      tcaFwClassid = some (o.write 4 flowid) := rfl
  have backMask := o.read_write_of_lt (w := 4) mask_lt
  have backFlowid := o.read_write_of_lt (w := 4) flowid_lt
  simp only [readOptionsOf, String.reduceEq, if_true, if_false, walks.walk_eq, isMask, isFlowid,
    backMask, backFlowid, Option.bind_eq_bind, Option.bind_some, Option.pure_def]

theorem fwFilterBytes_delivers {env : Env} {mark : Nat} {dev : NetDevice} (cmd : RtmCmd)
    (exclCreate : Bool) (rn : RuletblNode) (i : Nat) (mark_lt : mark < 2 ^ 32)
    (ifindex : dev.ifindex < 2 ^ 32) :
    Delivers o (fwFilterBytes o env.htons cmd exclCreate rn mark i dev)
      (fwFilterReq env cmd exclCreate rn mark i dev) := by
  have info (protocol : Nat) : tcHMake (prioFilter <<< 16) protocol < 2 ^ 32 :=
    Nat.or_lt_two_pow (by decide) (Nat.lt_of_le_of_lt Nat.and_le_right (by decide))
  let protocol := if cmd = .newTfilter ∧ exclCreate then env.htons ethPAll else 0
  have own : ∀ p ∈ fwFilterFields mark protocol, p.2 < 256 ^ p.1.width := by
    simp only [fwFilterFields, List.forall_mem_cons, List.not_mem_nil, false_implies,
      implies_true, and_true]
    exact ⟨by decide, info protocol, mark_lt⟩
  obtain ⟨req, stored, len, holds⟩ := header_stored (o := o) (fields_small cmd exclCreate own)
  have fit : AttrsFit (nlmsgLen o req) [kindCalls "fw", fwCalls o fwMask (classid rn mark)] := by
    simp only [len, AttrsFit, AttrFits, kindCalls, fwCalls, FitAll, Fits, callEnd, attrEnd,
      o.length_write]
    decide
  obtain ⟨req', attrs, appended, held, _, holds'⟩ := holds.appended fit
  -- `tcm_ifindex` is stored last, behind all attributes
  obtain ⟨req'', indexed, _, holds''⟩ := holds'.field_stored .tcmIfindex (n := dev.ifindex) ifindex
  have built : fwFilterBytes o env.htons cmd exclCreate rn mark i dev = .ok req'' := by
    simp only [fwFilterBytes]
    rw [stored, ok_bind, appended, ok_bind, indexed]
  have header : HeaderIs (Function.update
      (headerOf (openReq cmd exclCreate ++ fwFilterFields mark protocol)) .tcmIfindex dev.ifindex)
      (fwFilterReq env cmd exclCreate rn mark i dev) := ⟨rfl, rfl, rfl, rfl, rfl, rfl⟩
  cases held with
  | cons kind rest =>
    cases rest with
    | @cons _ options _ _ isOptions none =>
      cases none
      cases kind
      obtain ⟨type, value⟩ := options
      obtain ⟨rfl, walks⟩ := isOptions
      exact holds''.delivers _ built header rfl fw_named rfl
        (readOptions_fw (by decide) (classid_lt rn mark) walks)

/-! ## Classes -/

/-- Attributes that fit their fields: tables of 256 words. -/
structure HtbAttrsOk (attrs : HtbAttrs) : Prop where
  opt : HtbOptOk attrs.opt
  rtab_length : attrs.rtab.length = 256
  rtab_lt : ∀ entry ∈ attrs.rtab, entry < 2 ^ 32
  ctab_length : attrs.ctab.length = 256
  ctab_lt : ∀ entry ∈ attrs.ctab, entry < 2 ^ 32

theorem readOptions_htb {value : List UInt8} {attrs : HtbAttrs} (ok : HtbAttrsOk attrs)
    (walks : Walks o value [(tcaHtbParms, attrs.opt.bytes o),
      (tcaHtbRtab, o.writeTable 4 attrs.rtab), (tcaHtbCtab, o.writeTable 4 attrs.ctab)]) :
    readOptionsOf o "htb" value = some (.htb attrs) := by
  have backRtab := ByteOrder.readTable_writeTable (o := o) (w := 4) ok.rtab_lt
  have backCtab := ByteOrder.readTable_writeTable (o := o) (w := 4) ok.ctab_lt
  rw [ok.rtab_length] at backRtab
  rw [ok.ctab_length] at backCtab
  generalize o.writeTable 4 attrs.rtab = rtab at walks backRtab
  generalize o.writeTable 4 attrs.ctab = ctab at walks backCtab
  generalize isOpt : attrs.opt.bytes o = opt at walks
  have backOpt : TcHtbOpt.ofBytes o opt = some attrs.opt := isOpt ▸ htbOpt_ofBytes ok.opt
  have isParms : nestGet [(tcaHtbParms, opt), (tcaHtbRtab, rtab), (tcaHtbCtab, ctab)]
      tcaHtbParms = some opt := rfl
  have isRtab : nestGet [(tcaHtbParms, opt), (tcaHtbRtab, rtab), (tcaHtbCtab, ctab)]
      tcaHtbRtab = some rtab := rfl
  have isCtab : nestGet [(tcaHtbParms, opt), (tcaHtbRtab, rtab), (tcaHtbCtab, ctab)]
      tcaHtbCtab = some ctab := rfl
  simp only [readOptionsOf, if_true, walks.walk_eq, isParms, isRtab, isCtab, backOpt, backRtab,
    backCtab, Option.bind_eq_bind, Option.bind_some, Option.pure_def]

/-- 24 bits less and an MTU of 32 bits fits a byte. -/
theorem tableCellLog_lt {mtu : Nat} (small : mtu < 2 ^ 32) : tableCellLog mtu < 256 := by
  unfold tableCellLog
  generalize isMtu : (if mtu = 0 then 2047 else mtu) = m
  have m_lt : m < 2 ^ 32 := by
    rw [← isMtu]
    split
    · decide
    · exact small
  by_contra large
  have big := cellLogFrom_least (Nat.zero_le 24) (show 24 < cellLogFrom m 0 by omega)
  rw [Nat.shiftRight_eq_div_pow] at big
  omega

theorem tableSpec_ok {bps mtu : Nat} (bps_lt : bps < 2 ^ 32) (small : mtu < 2 ^ 32) :
    RatespecOk (tableSpec bps mtu) where
  cellLog := tableCellLog_lt small
  linklayer := show 1 < 256 by decide
  overhead := show 0 < 2 ^ 16 by decide
  cellAlign := show -2 ^ 15 ≤ (-1 : Int) ∧ (-1 : Int) < 2 ^ 15 by decide
  mpu := show 0 < 2 ^ 16 by decide
  rate := bps_lt

theorem length_rateTable (bps mtu : Nat) : (rateTable bps mtu).length = 256 := by
  rw [rateTable, List.length_map, List.length_range]

theorem rateTable_lt (bps mtu : Nat) : ∀ entry ∈ rateTable bps mtu, entry < 2 ^ 32 := by
  intro entry member
  obtain ⟨i, _, rfl⟩ := List.mem_map.mp member
  exact Nat.lt_of_le_of_lt (Nat.div_le_self _ _) (u32_lt _)

theorem classAttrs_ok {bps ceilBps mtu : Nat} (bps_lt : bps < 2 ^ 32) (ceil_lt : ceilBps < 2 ^ 32)
    (small : mtu < 2 ^ 32) : HtbAttrsOk (classAttrs bps ceilBps mtu) where
  opt :=
    { rate := tableSpec_ok bps_lt small
      ceil := tableSpec_ok ceil_lt small
      buffer := show 312500 < 2 ^ 32 by decide
      cbuffer := show 312500 < 2 ^ 32 by decide }
  rtab_length := length_rateTable bps mtu
  rtab_lt := rateTable_lt bps mtu
  ctab_length := length_rateTable ceilBps mtu
  ctab_lt := rateTable_lt ceilBps mtu

theorem wrappedRate_lt {ifZero : Nat} (small : ifZero < 2 ^ 32) (kbit : Nat) :
    wrappedRate ifZero kbit < 2 ^ 32 := by
  unfold wrappedRate
  split
  · exact small
  · omega

/-- What `tc_htb_opt_parse` works out fits its fields. -/
theorem tcHtbOptParse_fits {rate ceil mtu : Nat} {attrs : HtbAttrs} (small : mtu < 2 ^ 32)
    (parsed : tcHtbOptParse rate ceil mtu = .ok attrs) : HtbAttrsOk attrs := by
  rcases tcHtbOptParse_cases rate ceil mtu with ⟨_, _, parsed'⟩ | ⟨_, fault⟩
  · cases parsed.symm.trans parsed'
    exact classAttrs_ok (wrappedRate_lt (by decide) rate) (wrappedRate_lt (by decide) ceil) small
  · cases fault.symm.trans parsed

theorem htbCalls_fit {attrs : HtbAttrs} (ok : HtbAttrsOk attrs)
    (len : nlmsgLen o req = callEnd attrsOffset ⟨4132, tcaKind, cString "htb"⟩) :
    AttrFits (nlmsgLen o req) (htbCalls o attrs) := by
  simp only [len, AttrFits, htbCalls, FitAll, Fits, callEnd, length_htbOpt, o.length_writeTable,
    ok.rtab_length, ok.ctab_length]
  decide

theorem htbClassBytes_delivers {dev : NetDevice} (cmd : RtmCmd) (exclCreate : Bool)
    (rn : RuletblNode) (mark i : Nat) (ifindex : dev.ifindex < 2 ^ 32) (mtu : dev.mtu < 2 ^ 32) :
    Delivers o (htbClassBytes o cmd exclCreate rn mark i dev)
      (htbClassReq cmd exclCreate rn mark i dev) := by
  have own : ∀ p ∈ htbClassFields rn mark dev, p.2 < 256 ^ p.1.width := by
    simp only [htbClassFields, List.forall_mem_cons, List.not_mem_nil, false_implies,
      implies_true, and_true]
    exact ⟨classid_lt rn mark, parentClassid_lt rn, ifindex⟩
  obtain ⟨req, stored, len, holds⟩ := header_stored (o := o) (fields_small cmd exclCreate own)
  have header : HeaderIs (headerOf (openReq cmd exclCreate ++ htbClassFields rn mark dev))
      (htbClassReq cmd exclCreate rn mark i dev) := ⟨rfl, rfl, rfl, rfl, rfl, rfl⟩
  obtain ⟨req', appended, len', holds'⟩ := holds.kind_appended "htb" len (by decide)
  -- only a new class has options; both sides work them out from the same rates
  by_cases new : cmd = .newTclass
  · subst new
    have built : htbClassBytes o .newTclass exclCreate rn mark i dev =
        (tcHtbOptParse (classRates rn i).1 (classRates rn i).2 dev.mtu >>= fun attrs =>
          appendAttrs o [htbCalls o attrs] req') := by
      simp only [htbClassBytes, stored, appended, ok_bind, if_true, classRates]
      split <;> rfl
    cases parsed : tcHtbOptParse (classRates rn i).1 (classRates rn i).2 dev.mtu with
    -- the division by zero comes before anything is appended
    | error e =>
      simp only [Delivers, RtnlReq.toWire, htbClassReq_options, TcaOptions.toWire, parsed,
        error_bind, built]
    | ok attrs =>
      have ok := tcHtbOptParse_fits mtu parsed
      obtain ⟨req'', attr, appended', held, _, holds''⟩ :=
        holds'.appended_one (htbCalls_fit ok len')
      obtain ⟨type, value⟩ := attr
      obtain ⟨rfl, walks⟩ := held
      refine holds''.delivers (.htb attrs) ?_ header rfl htb_named ?_ ?_
      · rw [built, parsed, ok_bind, appended']
      · simp only [htbClassReq_options, TcaOptions.toWire, parsed, ok_bind, pure_eq_ok]
      · exact readOptions_htb ok walks
  · refine holds'.delivers .none ?_ header rfl htb_named ?_ rfl
    · simp only [htbClassBytes, stored, appended, new, ok_bind, if_false, pure_eq_ok]
    · simp only [htbClassReq, new, if_false, TcaOptions.toWire]

/-! ## Runs of calls -/

/-- A message that reads back as a record. -/
def Carries (o : ByteOrder) (msg : List UInt8) (n : RtnlReq) : Prop :=
  ∃ m, n.toWire = .ok m ∧ readMessage o msg = some m

/-- The messages sent carry the records sent, latest first. -/
structure OnWire (o : ByteOrder) (w : WireSt) (s : St) : Prop where
  lanDev : w.qmarkLanDev = s.qmarkLanDev
  wanDev : w.qmarkWanDev = s.qmarkWanDev
  carried : List.Forall₂ (Carries o) w.wire s.sent

/-- What does not depend on the message: the devices have 32-bit numbers, and whether
    rtnetlink is locked is the same question for a record and for the message that carries it. -/
structure WireEnv (o : ByteOrder) (env : Env) (locked : List UInt8 → Bool) : Prop where
  ifindex : ∀ name dev, env.devGetByName name = some dev → dev.ifindex < 2 ^ 32
  mtu : ∀ name dev, env.devGetByName name = some dev → dev.mtu < 2 ^ 32
  agree : ∀ msg n, Carries o msg n → env.rtnlIsLocked n = locked msg

/-- A message and the htb options of its record are worked out together. -/
theorem toWire_cases (n : RtnlReq) :
    (∃ m attrs, n.toWire = .ok m ∧ n.htbAttrs = .ok attrs) ∨
      n.toWire = .error .divideByZero ∧ n.htbAttrs = .error .divideByZero := by
  unfold RtnlReq.toWire RtnlReq.htbAttrs
  cases n.options with
  | htb rate ceil mtu =>
    unfold TcaOptions.toWire
    rcases tcHtbOptParse_cases rate ceil mtu with ⟨_, _, parsed⟩ | ⟨_, fault⟩
    · simp only [parsed, ok_bind]
      exact .inl ⟨_, _, rfl, rfl⟩
    · simp only [fault, error_bind]
      exact .inr ⟨trivial, trivial⟩
  | _ => exact .inl ⟨_, _, rfl, rfl⟩

variable {env : Env} {locked : List UInt8 → Bool} {w : WireSt} {s s' : St} {n : RtnlReq}

/-- One request on its way out, and what follows it. -/
theorem OnWire.talk {α β : Type} {R : α → β → Prop} {f : WireSt → Except Oops α}
    {y : Except Oops β} {build : Except Oops (List UInt8)} (wired : OnWire o w s)
    (outside : WireEnv o env locked) (delivers : Delivers o build n)
    (next : ∀ w', OnWire o w' (qmarkTcRtnlTalk env n s).2 → Coupled R (f w') y) :
    Coupled R (build >>= fun req => rtnlTalkBytes o locked req w >>= f)
      (n.htbAttrs >>= fun _ => y) := by
  rcases toWire_cases n with ⟨m, attrs, said, parsed⟩ | ⟨unsaid, fault⟩
  · simp only [Delivers, said] at delivers
    obtain ⟨req, msg, built, acked, read⟩ := delivers
    have carries : Carries o msg n := ⟨m, said, read⟩
    have same := outside.agree msg n carries
    obtain ⟨lanDev, wanDev, carried⟩ := wired
    simp only [built, parsed, ok_bind, rtnlTalkBytes, acked, pure_eq_ok]
    apply next
    unfold qmarkTcRtnlTalk
    rw [same]
    cases locked msg with
    | true => exact ⟨lanDev, wanDev, carried⟩
    | false => exact ⟨lanDev, wanDev, .cons carries carried⟩
  · simp only [Delivers, unsaid] at delivers
    rw [delivers, fault]
    exact .error _

/-- A walk over the devices. -/
theorem OnWire.modify {builder : ReqBuilder} {req : Nat → NetDevice → RtnlReq}
    (wired : OnWire o w s) (outside : WireEnv o env locked)
    (delivers : ∀ i name dev, env.devGetByName name = some dev →
      Delivers o (builder i dev) (req i dev)) :
    Coupled (fun w r => OnWire o w r.2) (tcModifyBytes o env locked builder w)
      (tcModify env req s) := by
  unfold tcModifyBytes tcModify
  rw [wired.lanDev]
  cases lanFound : env.devGetByName s.qmarkLanDev with
  | none => exact .ok wired
  | some lan =>
    apply wired.talk outside (delivers 0 _ lan lanFound)
    intro w₁ wired₁
    rw [wired₁.wanDev]
    dsimp only
    cases wanFound : env.devGetByName (qmarkTcRtnlTalk env (req 0 lan) s).2.qmarkWanDev with
    | none => exact .ok wired₁
    | some wan =>
      have toWan := wired₁.talk (R := fun w r => OnWire o w r.2) (f := pure) outside
        (delivers 1 _ wan wanFound) fun _ wired₂ => .ok (b := (RetCode.ok, _)) wired₂
      simpa only [bind_pure, pure_eq_ok] using toWan

/-! ## Calls -/

/-- One call. -/
theorem OnWire.call (wired : OnWire o w s) (outside : WireEnv o env locked) {call : TcCall}
    (mark_lt : call.mark < 2 ^ 32) :
    Coupled (OnWire o) (call.runBytes o env locked w) (call.run env s) := by
  have filters (cmd : RtmCmd) (exclCreate : Bool) (rn : RuletblNode) (i : Nat) (name : String)
      (dev : NetDevice) (found : env.devGetByName name = some dev) :
      Delivers o (fwFilterBytes o env.htons cmd exclCreate rn call.mark i dev)
        (fwFilterReq env cmd exclCreate rn call.mark i dev) :=
    fwFilterBytes_delivers cmd exclCreate rn i mark_lt (outside.ifindex name dev found)
  have classes (cmd : RtmCmd) (exclCreate : Bool) (rn : RuletblNode) (i : Nat) (name : String)
      (dev : NetDevice) (found : env.devGetByName name = some dev) :
      Delivers o (htbClassBytes o cmd exclCreate rn call.mark i dev)
        (htbClassReq cmd exclCreate rn call.mark i dev) :=
    htbClassBytes_delivers cmd exclCreate rn call.mark i (outside.ifindex name dev found)
      (outside.mtu name dev found)
  have qdiscs (rn : RuletblNode) (i : Nat) (name : String) (dev : NetDevice)
      (found : env.devGetByName name = some dev) :
      Delivers o (pfifoQdiscBytes o .newQdisc true rn call.mark i dev)
        (pfifoQdiscReq .newQdisc true rn call.mark i dev) :=
    pfifoQdiscBytes_delivers .newQdisc true rn call.mark i (outside.ifindex name dev found)
  -- three walks for an addition, two for a removal
  cases call with
  | addRule rn mark =>
    apply (wired.modify outside (classes .newTclass true rn)).bind
    rintro w₁ ⟨_, s₁⟩ wired₁
    apply (OnWire.modify wired₁ outside (qdiscs rn)).bind
    rintro w₂ ⟨_, s₂⟩ wired₂
    rw [← bind_pure (tcModifyBytes _ _ _ _ w₂)]
    apply (OnWire.modify wired₂ outside (filters .newTfilter true rn)).bind
    rintro w₃ ⟨_, s₃⟩ wired₃
    exact .ok wired₃
  | delRule rn mark =>
    apply (wired.modify outside (filters .delTfilter false rn)).bind
    rintro w₁ ⟨_, s₁⟩ wired₁
    rw [← bind_pure (tcModifyBytes _ _ _ _ w₁)]
    apply (OnWire.modify wired₁ outside (classes .delTclass false rn)).bind
    rintro w₂ ⟨_, s₂⟩ wired₂
    exact .ok wired₂

/-- No rate that the call has to work out for a device that is there stalls. -/
def Workable (env : Env) (lanDev wanDev : String) : TcCall → Prop
  | .delRule _ _ => True
  | .addRule rn _ => Buildable env lanDev wanDev rn

instance (env : Env) (lanDev wanDev : String) : DecidablePred (Workable env lanDev wanDev)
  | .delRule _ _ => .isTrue trivial
  | .addRule rn _ => inferInstanceAs (Decidable (Buildable env lanDev wanDev rn))

theorem run_eq (env : Env) (call : TcCall) (s : St) :
    ∃ s', call.run env s =
        unlessStalled (Workable env s.qmarkLanDev s.qmarkWanDev call) (.ok s') ∧
      s'.qmarkLanDev = s.qmarkLanDev ∧ s'.qmarkWanDev = s.qmarkWanDev := by
  cases call with
  | addRule rn mark => exact ⟨_, qmarkTcAddRule_eq env rn mark s, rfl, rfl⟩
  | delRule rn mark =>
    have works : Workable env s.qmarkLanDev s.qmarkWanDev (.delRule rn mark) := trivial
    have ran := qmarkTcDelRule_eq env rn mark s
    rw [← unlessStalled_pos works (.ok _)] at ran
    exact ⟨_, ran, rfl, rfl⟩

/-- Calls run to the end exactly if each of them is workable. -/
theorem runAll_cases (env : Env) (calls : List TcCall) (s : St) :
    ((∀ call ∈ calls, Workable env s.qmarkLanDev s.qmarkWanDev call) ∧
        ∃ s', runAll (TcCall.run env) calls s = .ok s') ∨
      ¬ (∀ call ∈ calls, Workable env s.qmarkLanDev s.qmarkWanDev call) ∧
        runAll (TcCall.run env) calls s = .error .divideByZero := by
  induction calls generalizing s with
  | nil => exact .inl ⟨nofun, s, rfl⟩
  | cons call calls ih =>
    obtain ⟨s₁, ran, lanDev, wanDev⟩ := run_eq env call s
    rw [List.forall_mem_cons, runAll, ran]
    by_cases workable : Workable env s.qmarkLanDev s.qmarkWanDev call
    · rw [unlessStalled_pos workable]
      have rest := ih s₁
      rw [lanDev, wanDev] at rest
      rcases rest with ⟨all, finished⟩ | ⟨stalls, fault⟩
      · exact .inl ⟨⟨workable, all⟩, finished⟩
      · exact .inr ⟨fun both => stalls both.2, fault⟩
    · rw [unlessStalled_neg workable]
      exact .inr ⟨fun both => workable both.1, rfl⟩

/-- Whatever calls follow one another, the messages handed to rtnetlink read back, one by one
    and in their order, as the records of the module, unless a rate to be worked out stalls;
    then both runs divide by zero.  No attribute is ever refused or written out of bounds. -/
theorem wire_follows_records (calls : List TcCall) (outside : WireEnv o env locked)
    (marks : ∀ call ∈ calls, call.mark < 2 ^ 32) (wired : OnWire o w s) :
    ((∀ call ∈ calls, Workable env s.qmarkLanDev s.qmarkWanDev call) →
      ∃ w' s', runAll (TcCall.runBytes o env locked) calls w = .ok w' ∧
        runAll (TcCall.run env) calls s = .ok s' ∧ OnWire o w' s') ∧
    (¬ (∀ call ∈ calls, Workable env s.qmarkLanDev s.qmarkWanDev call) →
      runAll (TcCall.runBytes o env locked) calls w = .error .divideByZero ∧
        runAll (TcCall.run env) calls s = .error .divideByZero) := by
  have step : ∀ call ∈ calls, ∀ w s, OnWire o w s →
      Coupled (OnWire o) (call.runBytes o env locked w) (call.run env s) :=
    fun call member _ _ wired => wired.call outside (marks call member)
  have coupled := Coupled.runAll calls step wired
  generalize runAll (TcCall.runBytes o env locked) calls w = sent at coupled ⊢
  rcases runAll_cases env calls s with ⟨all, s', ran⟩ | ⟨stalls, fault⟩
  · rw [ran] at coupled ⊢
    cases coupled with
    | @ok w' _ wired' => exact ⟨fun _ => ⟨w', s', rfl, rfl, wired'⟩, fun not => absurd all not⟩
  · rw [fault] at coupled ⊢
    cases coupled
    exact ⟨fun all => absurd all stalls, fun _ => ⟨rfl, rfl⟩⟩

theorem plainEnv_dev {name : String} {dev : NetDevice}
    (found : plainEnv.devGetByName name = some dev) : dev.ifindex < 2 ^ 32 ∧ dev.mtu < 2 ^ 32 := by
  simp only [plainEnv] at found
  split at found
  · cases found
    decide
  · split at found
    · cases found
      decide
    · cases found

theorem plainEnv_wire (o : ByteOrder) : WireEnv o plainEnv fun _ => false where
  ifindex _ _ found := (plainEnv_dev found).1
  mtu _ _ found := (plainEnv_dev found).2
  agree _ _ _ := rfl

/-- A class under an interface, with its qdisc and its filter, set up and taken down. -/
def upAndDown : List TcCall :=
  let rn := { RuletblNode.zero with on := true, devid := 2, rate := 1000, rateMate := 2000 }
  [.addRule rn 0x1800, .delRule rn 0x1800]

theorem upAndDown_follows :
    ∃ w' s', runAll (TcCall.runBytes .big plainEnv fun _ => false) upAndDown
        ⟨"eth0", "agl0", []⟩ = .ok w' ∧
      runAll (TcCall.run plainEnv) upAndDown smallSt = .ok s' ∧ OnWire .big w' s' :=
  (wire_follows_records upAndDown (plainEnv_wire .big) (by decide)
    (s := smallSt) ⟨rfl, rfl, .nil⟩).1 (by decide)

end IpQos.Verified
