import IpQos.Kmod.Netlink
import IpQos.Lib.Run

/-! # Requests can be read back

What the builders append to a request is what a walk over its attributes finds, for any
list of attributes and nests whose calls stay within their bounds. -/

namespace IpQos.Verified

open IpQos.Kmod
open IpQos.Lib (AfterEach Allowed ByteOrder Walks attrBytes length_patch patch readAttr readAttrs
  roundUp runAll runAll_append slice slice_append slice_patch_after slice_patch_before
  slice_patch_self walkNested)

variable {o : ByteOrder} {req req' req'' : List UInt8}

/-! ## Lengths -/

theorem nlAlign_eq {len : Nat} (small : len + 3 < 2 ^ 32) : nlAlign len = roundUp len := by
  have bound : roundUp len < 2 ^ 32 := by
    unfold roundUp
    omega
  rw [nlAlign, u32, u32, Nat.mod_eq_of_lt (show len < 2 ^ 32 by omega), Nat.mod_eq_of_lt bound]

theorem rtaLength_eq {alen : Nat} (small : alen < 2 ^ 30) : rtaLength alen = 4 + alen :=
  Nat.mod_eq_of_lt (by omega)

theorem storeBytes_eq {off : Nat} {bytes : List UInt8} (inside : off + bytes.length ≤ req.length) :
    storeBytes off bytes req = .ok (patch req off bytes) := if_pos inside

/-! ## Requests under construction -/

/-- Whole attributes so far, and all of them inside the request. -/
structure SizedReq (o : ByteOrder) (req : List UInt8) : Prop where
  length : req.length = sizeofRtnlReq
  aligned : 4 ∣ nlmsgLen o req
  header : attrsOffset ≤ nlmsgLen o req
  within : nlmsgLen o req ≤ sizeofRtnlReq

/-- The request has grown by the given attributes and is otherwise as before. -/
structure Extends (o : ByteOrder) (req req' : List UInt8) (attrs : List (Nat × List UInt8)) :
    Prop where
  grows : nlmsgLen o req ≤ nlmsgLen o req'
  keeps : ∀ a n, 4 ≤ a → a + n ≤ nlmsgLen o req → slice req' a n = slice req a n
  walks : Walks o (slice req' (nlmsgLen o req) (nlmsgLen o req' - nlmsgLen o req)) attrs

theorem Extends.refl (o : ByteOrder) (req : List UInt8) : Extends o req req [] where
  grows := Nat.le_refl _
  keeps := fun _ _ _ _ => rfl
  walks := by
    rw [Nat.sub_self]
    exact .nil

theorem Extends.trans {attrs attrs' : List (Nat × List UInt8)} (sized : SizedReq o req)
    (first : Extends o req req' attrs) (second : Extends o req' req'' attrs') :
    Extends o req req'' (attrs ++ attrs') where
  grows := Nat.le_trans first.grows second.grows
  keeps := by
    intro a n outside inside
    rw [second.keeps a n outside (Nat.le_trans inside first.grows), first.keeps a n outside inside]
  walks := by
    have grows := first.grows
    have grows' := second.grows
    have header := sized.header
    unfold attrsOffset at header
    have parts : nlmsgLen o req'' - nlmsgLen o req =
        (nlmsgLen o req' - nlmsgLen o req) + (nlmsgLen o req'' - nlmsgLen o req') := by omega
    rw [parts, slice_append, second.keeps _ _ (by omega) (by omega),
      Nat.add_sub_cancel' grows]
    exact first.walks.append second.walks

/-! ## One attribute -/

/-- The tail of a request is its end. -/
theorem SizedReq.nlmsgTail_eq (sized : SizedReq o req) : nlmsgTail o req = nlmsgLen o req := by
  have within := sized.within
  unfold sizeofRtnlReq at within
  rw [nlmsgTail, nlAlign_eq (by omega), IpQos.Lib.roundUp_of_dvd sized.aligned]

/-- The test of `qmark_tc_addattr` without its machine arithmetic. -/
theorem SizedReq.exceedsBound_eq (sized : SizedReq o req) (maxlen : Int32) {alen : Nat}
    (alen_lt : alen < 2 ^ 30) :
    exceedsBound o maxlen alen req =
      decide (maxlen.toUInt32.toNat < nlmsgLen o req + roundUp (4 + alen)) := by
  have within := sized.within
  unfold sizeofRtnlReq at within
  have whole : roundUp (4 + alen) ≤ 2 ^ 30 + 4 := IpQos.Lib.roundUp_le (by decide) (by omega)
  have sum : u32 (nlmsgLen o req + roundUp (4 + alen)) = nlmsgLen o req + roundUp (4 + alen) :=
    Nat.mod_eq_of_lt (by omega)
  have tail : nlAlign (nlmsgLen o req) = nlmsgLen o req := sized.nlmsgTail_eq
  rw [exceedsBound, tail, rtaLength_eq alen_lt, nlAlign_eq (by omega), sum]

/-- The three stores into an attribute at `off`: type, length, data. -/
def writeFields (off : Nat) (len type data req : List UInt8) : List UInt8 :=
  patch (patch (patch req (off + 2) type) off len) (off + 4) data

/-- The stores succeed within the request, make up the attribute, and leave what is before it. -/
theorem writeFields_spec {off : Nat} {len type data : List UInt8} (lenBytes : len.length = 2)
    (typeBytes : type.length = 2) (inside : off + (4 + data.length) ≤ req.length) :
    (∃ typed headed, storeBytes (off + 2) type req = .ok typed ∧
        storeBytes off len typed = .ok headed ∧
        storeBytes (off + 4) data headed = .ok (writeFields off len type data req)) ∧
      (writeFields off len type data req).length = req.length ∧
      slice (writeFields off len type data req) off (4 + data.length) = len ++ (type ++ data) ∧
      ∀ a n, a + n ≤ off → slice (writeFields off len type data req) a n = slice req a n := by
  -- type, length and data, in the order of the stores
  have typeIn : off + 2 + type.length ≤ req.length := by omega
  have typed := length_patch typeIn
  have lenIn : off + len.length ≤ (patch req (off + 2) type).length := by omega
  have headed := length_patch lenIn
  have dataIn : off + 4 + data.length ≤ (patch (patch req (off + 2) type) off len).length := by
    omega
  unfold writeFields
  refine ⟨?_, ?_, ?_, ?_⟩
  · exact ⟨_, _, storeBytes_eq typeIn, storeBytes_eq lenIn, storeBytes_eq dataIn⟩
  · rw [length_patch dataIn, headed, typed]
  · have isLen : slice (patch (patch (patch req (off + 2) type) off len) (off + 4) data) off 2 =
        len := by
      rw [slice_patch_before dataIn (by omega), slice_patch_self lenIn lenBytes]
    have isType :
        slice (patch (patch (patch req (off + 2) type) off len) (off + 4) data) (off + 2) 2 =
          type := by
      rw [slice_patch_before dataIn (by omega), slice_patch_after lenIn (by omega),
        slice_patch_self typeIn typeBytes]
    rw [show 4 + data.length = 2 + (2 + data.length) by omega, slice_append, slice_append, isLen,
      isType, slice_patch_self dataIn rfl]
  · intro a n before
    rw [slice_patch_before dataIn (by omega), slice_patch_before lenIn (by omega),
      slice_patch_before typeIn (by omega)]

/-- `nlmsg_len` is stored in the first four bytes and in no other. -/
theorem setLen_spec (o : ByteOrder) {len : Nat} (len_lt : len < 2 ^ 32) (inside : 4 ≤ req.length) :
    storeBytes 0 (o.write 4 len) req = .ok (patch req 0 (o.write 4 len)) ∧
      (patch req 0 (o.write 4 len)).length = req.length ∧
      nlmsgLen o (patch req 0 (o.write 4 len)) = len ∧
      ∀ a n, 4 ≤ a → slice (patch req 0 (o.write 4 len)) a n = slice req a n := by
  have four := o.length_write 4 len
  have lenIn : 0 + (o.write 4 len).length ≤ req.length := by omega
  refine ⟨storeBytes_eq lenIn, length_patch lenIn, ?_, ?_⟩
  · rw [nlmsgLen, slice_patch_self lenIn four, o.read_write_of_lt len_lt]
  · intro a n outside
    exact slice_patch_after lenIn (by omega)

/-- What a passing call leaves: the attribute at the old end, and the new length. -/
structure Appended (o : ByteOrder) (req : List UInt8) (maxlen : Int32) (type : Nat)
    (data req' : List UInt8) : Prop where
  sized : SizedReq o req'
  grown : nlmsgLen o req' = nlmsgLen o req + roundUp (4 + data.length)
  inBound : nlmsgLen o req' ≤ maxlen.toUInt32.toNat
  keeps : ∀ a n, 4 ≤ a → a + n ≤ nlmsgLen o req → slice req' a n = slice req a n
  attr : slice req' (nlmsgLen o req) (4 + data.length) =
    o.write 2 (4 + data.length) ++ (o.write 2 type ++ data)

/-- A call that does not exceed its bound. -/
theorem addattr_spec {maxlen : Int32} {data : List UInt8} (sized : SizedReq o req)
    (bounded : maxlen.toUInt32.toNat ≤ sizeofRtnlReq) (type : Nat) (data_lt : data.length < 2 ^ 30)
    (passes : exceedsBound o maxlen data.length req = false) :
    ∃ req', qmarkTcAddattr o maxlen type data req = .ok (.ok, req') ∧
      Appended o req maxlen type data req' := by
  have fits : nlmsgLen o req + roundUp (4 + data.length) ≤ maxlen.toUInt32.toNat := by
    rw [sized.exceedsBound_eq maxlen data_lt] at passes
    exact Nat.not_lt.mp (of_decide_eq_false passes)
  have tail := sized.nlmsgTail_eq
  obtain ⟨length, aligned, header, within⟩ := sized
  have header' := header
  unfold attrsOffset at header'
  have whole := IpQos.Lib.le_roundUp (4 + data.length)
  have small : roundUp (4 + data.length) ≤ sizeofRtnlReq := by omega
  unfold sizeofRtnlReq at small bounded within length
  have inside : nlmsgLen o req + (4 + data.length) ≤ req.length := by omega
  obtain ⟨⟨typed, headed, typeStored, lenStored, dataStored⟩, length', attr, before⟩ :=
    writeFields_spec (o.length_write 2 (4 + data.length)) (o.length_write 2 type) inside
  generalize writeFields (nlmsgLen o req) (o.write 2 (4 + data.length)) (o.write 2 type) data req =
    filled at dataStored length' attr before
  -- none of the three stores reaches the length of the message
  have lenKept : nlmsgLen o filled = nlmsgLen o req := by
    rw [nlmsgLen, before 0 4 (by omega)]
    rfl
  have newLen_lt : nlmsgLen o req + roundUp (4 + data.length) < 2 ^ 32 := by omega
  have newLen : u32 (nlAlign (nlmsgLen o filled) + nlAlign (4 + data.length)) =
      nlmsgLen o req + roundUp (4 + data.length) := by
    have atTail : nlAlign (nlmsgLen o req) = nlmsgLen o req := tail
    rw [lenKept, atTail, nlAlign_eq (by omega), u32, Nat.mod_eq_of_lt newLen_lt]
  obtain ⟨lenSet, length'', readBack, behind⟩ :=
    setLen_spec o newLen_lt (show 4 ≤ filled.length by omega)
  refine ⟨_, ?_, ⟨?_, ?_, ?_, ?_⟩, readBack, ?_, ?_, ?_⟩
  · simp only [qmarkTcAddattr, passes, Bool.false_eq_true, ↓reduceIte, tail, rtaLength_eq data_lt,
      typeStored, lenStored, dataStored, ok_bind, newLen, lenSet, pure_eq_ok]
  · rw [length'', length', length]
    rfl
  · rw [readBack]
    exact Nat.dvd_add aligned (IpQos.Lib.dvd_roundUp _)
  · rw [readBack]
    exact Nat.le_add_right_of_le header
  · rw [readBack]
    exact Nat.le_trans fits bounded
  · rw [readBack]
    exact fits
  · intro a n outside inside
    rw [behind a n outside, before a n inside]
  · rw [behind _ _ (by omega), attr]

/-- The attribute of a passing call, as a reader finds it. -/
theorem Appended.extends {maxlen : Int32} {type : Nat} {data : List UInt8}
    (appended : Appended o req maxlen type data req')
    (bounded : maxlen.toUInt32.toNat ≤ sizeofRtnlReq) (type_lt : type < 2 ^ 16) :
    Extends o req req' [(type, data)] where
  grows := by
    rw [appended.grown]
    exact Nat.le_add_right ..
  keeps := appended.keeps
  walks := by
    have grown := appended.grown
    have inBound := appended.inBound
    have within := appended.sized.within
    have length := appended.sized.length
    have whole := IpQos.Lib.le_roundUp (4 + data.length)
    -- the bound of the call keeps the length within an unsigned short
    have len_lt : 4 + data.length < 2 ^ 16 := by
      unfold sizeofRtnlReq at bounded
      omega
    -- the padding is whatever the request had there
    have padding : (slice req' (nlmsgLen o req + (4 + data.length))
        (roundUp (4 + data.length) - (4 + data.length))).length =
          roundUp (4 + data.length) - (4 + data.length) :=
      IpQos.Lib.length_slice (by omega)
    have parts : nlmsgLen o req' - nlmsgLen o req =
        4 + data.length + (roundUp (4 + data.length) - (4 + data.length)) := by omega
    rw [parts, slice_append, appended.attr, List.append_assoc, List.append_assoc]
    exact Walks.single type_lt len_lt (by omega)

theorem Appended.type_eq {maxlen : Int32} {type : Nat} {data : List UInt8}
    (appended : Appended o req maxlen type data req') :
    slice req' (nlmsgLen o req + 2) 2 = o.write 2 type := by
  have attr := appended.attr
  have grown := appended.grown
  have within := appended.sized.within
  have length := appended.sized.length
  have whole := IpQos.Lib.le_roundUp (4 + data.length)
  rw [show 4 + data.length = 2 + (2 + data.length) by omega, slice_append, slice_append] at attr
  have lenBytes : (slice req' (nlmsgLen o req) 2).length = 2 := IpQos.Lib.length_slice (by omega)
  have typeBytes : (slice req' (nlmsgLen o req + 2) 2).length = 2 :=
    IpQos.Lib.length_slice (by omega)
  have rest := (List.append_inj attr (lenBytes.trans (o.length_write 2 _).symm)).2
  exact (List.append_inj rest (typeBytes.trans (o.length_write 2 _).symm)).1

/-! ## Runs of a builder -/

/-- The call passes its check. -/
def Passes (o : ByteOrder) (step : BuildStep) (b : BuildSt) : Prop :=
  match step with
  | .addattr maxlen _ data => exceedsBound o maxlen data.length b.req = false
  | _ => True

instance (o : ByteOrder) : (step : BuildStep) → (b : BuildSt) → Decidable (Passes o step b)
  | .setTail, _ => .isTrue trivial
  | .addattr maxlen _ data, b =>
    inferInstanceAs (Decidable (exceedsBound o maxlen data.length b.req = false))
  | .patchTail, _ => .isTrue trivial

/-- After a call the message is a multiple of 4 long, and no longer than the call allows. -/
def WithinBound (o : ByteOrder) (step : BuildStep) (b : BuildSt) : Prop :=
  match step with
  | .addattr maxlen _ _ =>
    4 ∣ nlmsgLen o b.req ∧ (nlmsgLen o b.req : Int) ≤ maxlen.toInt
  | _ => True

/-- A type and a length of the ranges they have, and `maxlen <= sizeof(struct rtnl_req)`, which
    compares unsigned numbers. -/
def CallOk (call : AddattrCall) : Prop :=
  call.type < 2 ^ 16 ∧ call.data.length < 2 ^ 30 ∧ call.maxlen.toUInt32.toNat ≤ sizeofRtnlReq

instance (call : AddattrCall) : Decidable (CallOk call) :=
  inferInstanceAs (Decidable (_ ∧ _ ∧ _))

def CallsOk : AttrCalls → Prop
  | .plain call => CallOk call
  | .nest maxlen type children => CallOk ⟨maxlen, type, []⟩ ∧ ∀ call ∈ children, CallOk call

instance : (calls : AttrCalls) → Decidable (CallsOk calls)
  | .plain call => inferInstanceAs (Decidable (CallOk call))
  | .nest maxlen type children =>
    inferInstanceAs (Decidable (CallOk ⟨maxlen, type, []⟩ ∧ ∀ call ∈ children, CallOk call))

/-- The steps lead from `b` to `b'`, each of them within its bound. -/
structure Executes (o : ByteOrder) (steps : List BuildStep) (b b' : BuildSt) : Prop where
  ran : runAll (buildStep o) steps b = .ok b'
  each : AfterEach (buildStep o) (WithinBound o) steps b

namespace Executes

variable {steps more : List BuildStep} {b b' b'' : BuildSt}

theorem nil : Executes o [] b b := ⟨rfl, trivial⟩

theorem cons {step : BuildStep} (stepped : buildStep o step b = .ok b')
    (within : WithinBound o step b') (rest : Executes o steps b' b'') :
    Executes o (step :: steps) b b'' where
  ran := by
    rw [runAll, stepped]
    exact rest.ran
  each := ⟨b', stepped, within, rest.each⟩

theorem append (first : Executes o steps b b') (second : Executes o more b' b'') :
    Executes o (steps ++ more) b b'' where
  ran := (runAll_append first.ran more).trans second.ran
  each := first.each.append first.ran second.each

end Executes

/-- A bound within the request is not negative. -/
theorem toInt_of_bounded {maxlen : Int32} (bounded : maxlen.toUInt32.toNat ≤ sizeofRtnlReq) :
    maxlen.toInt = maxlen.toUInt32.toNat := by
  unfold sizeofRtnlReq at bounded
  have small : 2 * maxlen.toBitVec.toNat < 2 ^ 32 := by
    change 2 * maxlen.toUInt32.toNat < 2 ^ 32
    omega
  exact BitVec.toInt_eq_toNat_of_lt small

/-- One call. -/
theorem call_spec (call : AddattrCall) {b : BuildSt} (sized : SizedReq o b.req) (ok : CallOk call)
    (passes : Passes o call.step b) :
    ∃ req', buildStep o call.step b = .ok { b with req := req' } ∧
      WithinBound o call.step { b with req := req' } ∧
      Appended o b.req call.maxlen call.type call.data req' := by
  obtain ⟨type_lt, data_lt, bounded⟩ := ok
  obtain ⟨req', added, appended⟩ := addattr_spec sized bounded call.type data_lt passes
  refine ⟨req', ?_, ⟨appended.sized.aligned, ?_⟩, appended⟩
  · simp only [AddattrCall.step, buildStep, added, ok_bind, pure_eq_ok]
  · rw [toInt_of_bounded bounded]
    exact Int.ofNat_le.mpr appended.inBound

/-- Calls one after the other. -/
theorem children_spec {children : List AddattrCall} {b : BuildSt} (sized : SizedReq o b.req)
    (ok : ∀ call ∈ children, CallOk call)
    (passes : Allowed (buildStep o) (Passes o) (children.map AddattrCall.step) b) :
    ∃ req', Executes o (children.map AddattrCall.step) b { b with req := req' } ∧
      SizedReq o req' ∧ Extends o b.req req' (children.map fun call => (call.type, call.data)) := by
  induction children generalizing b with
  | nil => exact ⟨b.req, .nil, sized, .refl o b.req⟩
  | cons call children ih =>
    obtain ⟨passesFirst, passesRest⟩ := passes
    have okFirst := ok call List.mem_cons_self
    obtain ⟨req', stepped, within, appended⟩ := call_spec call sized okFirst passesFirst
    rw [stepped] at passesRest
    obtain ⟨req'', executed, sized', grown⟩ := ih appended.sized
      (fun other member => ok other (List.mem_cons_of_mem call member)) passesRest
    refine ⟨req'', executed.cons stepped within, sized', ?_⟩
    exact (appended.extends okFirst.2.2 okFirst.1).trans sized grown

/-- The length of an attribute put right once its value has grown: `T` is where it starts. -/
theorem patchTail_spec {T : Nat} {type : Nat} (type_lt : type < 2 ^ 16) (sized : SizedReq o req)
    (header : attrsOffset ≤ T) (aligned : 4 ∣ T) (started : T + 4 ≤ nlmsgLen o req)
    (isType : slice req (T + 2) 2 = o.write 2 type) :
    ∃ req', storeBytes T (o.write 2 (nlmsgTail o req - T)) req = .ok req' ∧ SizedReq o req' ∧
      nlmsgLen o req' = nlmsgLen o req ∧
      (∀ a n, a + n ≤ T → slice req' a n = slice req a n) ∧
      Walks o (slice req' T (nlmsgLen o req - T))
        [(type, slice req (T + 4) (nlmsgLen o req - (T + 4)))] := by
  have two := o.length_write 2 (nlmsgLen o req - T)
  have within := sized.within
  have length := sized.length
  have multiple := sized.aligned
  have lenIn : T + (o.write 2 (nlmsgLen o req - T)).length ≤ req.length := by omega
  have lenKept : nlmsgLen o (patch req T (o.write 2 (nlmsgLen o req - T))) = nlmsgLen o req := by
    unfold attrsOffset at header
    rw [nlmsgLen, slice_patch_before lenIn (by omega)]
    rfl
  rw [sized.nlmsgTail_eq]
  refine ⟨_, storeBytes_eq lenIn, ⟨?_, ?_, ?_, ?_⟩, lenKept, ?_, ?_⟩
  · rw [length_patch lenIn, length]
  · rw [lenKept]
    exact multiple
  · rw [lenKept]
    exact sized.header
  · rw [lenKept]
    exact within
  · intro a n before
    exact slice_patch_before lenIn before
  · -- the value runs from the header to the end of the request
    have valueLength : (slice req (T + 4) (nlmsgLen o req - (T + 4))).length =
        nlmsgLen o req - (T + 4) := IpQos.Lib.length_slice (by omega)
    have total : nlmsgLen o req - T =
        4 + (slice req (T + 4) (nlmsgLen o req - (T + 4))).length := by omega
    have parts : nlmsgLen o req - T = 2 + (2 + (nlmsgLen o req - (T + 4))) := by omega
    have bytes : slice (patch req T (o.write 2 (nlmsgLen o req - T))) T (nlmsgLen o req - T) =
        attrBytes o type (slice req (T + 4) (nlmsgLen o req - (T + 4))) [] := by
      rw [attrBytes, ← total, List.append_nil, ← isType]
      generalize o.write 2 (nlmsgLen o req - T) = len at two lenIn
      rw [parts, slice_append, slice_append, slice_patch_self lenIn two,
        slice_patch_after lenIn (by omega), slice_patch_after lenIn (by omega)]
    rw [bytes]
    unfold sizeofRtnlReq at within
    refine Walks.single type_lt (by omega) ?_
    rw [← total, IpQos.Lib.roundUp_of_dvd (by omega)]
    rfl

/-- An empty attribute with others appended to it holds them once its length is put right. -/
theorem Appended.nest {maxlen : Int32} {type : Nat} {opened filled : List UInt8}
    {attrs : List (Nat × List UInt8)} (appended : Appended o req maxlen type [] opened)
    (sized : SizedReq o req) (type_lt : type < 2 ^ 16) (grown : Extends o opened filled attrs)
    (sized' : SizedReq o filled) :
    ∃ closed value, storeBytes (nlmsgTail o req) (o.write 2 (nlmsgTail o filled - nlmsgTail o req))
        filled = .ok closed ∧
      SizedReq o closed ∧ Extends o req closed [(type, value)] ∧ Walks o value attrs := by
  have header := sized.header
  have grows := grown.grows
  have four : roundUp (4 + ([] : List UInt8).length) = 4 :=
    IpQos.Lib.roundUp_of_dvd (Nat.dvd_refl 4)
  have atEnd : nlmsgLen o opened = nlmsgLen o req + 4 :=
    appended.grown.trans (congrArg (nlmsgLen o req + ·) four)
  have fromHere : 4 ≤ nlmsgLen o req := Nat.le_trans (by decide) header
  -- the children were appended behind the header of the nest
  have isType : slice filled (nlmsgLen o req + 2) 2 = o.write 2 type := by
    rw [grown.keeps _ 2 (by omega) (Nat.le_of_eq atEnd.symm)]
    exact appended.type_eq
  obtain ⟨closed, stored, sized'', lenKept, before, walks⟩ :=
    patchTail_spec type_lt sized' header sized.aligned (atEnd ▸ grows) isType
  refine ⟨closed, _, sized.nlmsgTail_eq ▸ stored, sized'', ⟨?_, ?_, ?_⟩, atEnd ▸ grown.walks⟩
  · omega
  · intro a n outside inside
    rw [before a n inside, grown.keeps a n outside (by omega)]
    exact appended.keeps a n outside inside
  · rw [lenKept]
    exact walks

/-- An empty attribute, the attributes inside it, and its length put right. -/
theorem nest_spec {maxlen : Int32} {type : Nat} {children : List AddattrCall} {b : BuildSt}
    (sized : SizedReq o b.req) (ok : CallsOk (.nest maxlen type children))
    (passes : Allowed (buildStep o) (Passes o) (AttrCalls.nest maxlen type children).steps b) :
    ∃ b', Executes o (AttrCalls.nest maxlen type children).steps b b' ∧ SizedReq o b'.req ∧
      ∃ value, Extends o b.req b'.req [(type, value)] ∧
        Walks o value (children.map fun call => (call.type, call.data)) := by
  obtain ⟨okParent, okChildren⟩ := ok
  let parent : AddattrCall := ⟨maxlen, type, []⟩
  let started : BuildSt := { b with tail := nlmsgTail o b.req }
  obtain ⟨opened, stepped, within, appended⟩ :=
    call_spec parent (b := started) sized okParent passes.2.1
  have opening : Executes o [.setTail, parent.step] b { started with req := opened } :=
    .cons rfl trivial (.cons stepped within .nil)
  have steps : (AttrCalls.nest maxlen type children).steps =
      [.setTail, parent.step] ++ (children.map AddattrCall.step ++ [.patchTail]) := rfl
  rw [steps] at passes ⊢
  -- the children are appended to the opened attribute, and the last step closes it
  have passesRest := passes.back opening.ran
  obtain ⟨filled, executed, sized', grown⟩ :=
    children_spec appended.sized okChildren passesRest.front
  obtain ⟨closed, value, stored, sized'', extended, walks⟩ :=
    appended.nest sized okParent.1 grown sized'
  have patched : buildStep o .patchTail { started with req := filled } =
      .ok { started with req := closed } := by
    simp only [buildStep, started, stored, ok_bind, pure_eq_ok]
  have closing := executed.append (.cons patched trivial .nil)
  exact ⟨_, opening.append closing, sized'', value, extended, walks⟩

/-- The calls for one attribute. -/
theorem calls_spec {calls : AttrCalls} {b : BuildSt} (sized : SizedReq o b.req) (ok : CallsOk calls)
    (passes : Allowed (buildStep o) (Passes o) calls.steps b) :
    ∃ b', Executes o calls.steps b b' ∧ SizedReq o b'.req ∧
      ∃ attr, Extends o b.req b'.req [attr] ∧
        readAttr o calls.attr.isNest attr = some calls.attr := by
  cases calls with
  | plain call =>
    obtain ⟨req', stepped, within, appended⟩ := call_spec call sized ok passes.1
    exact ⟨_, .cons stepped within .nil, appended.sized, _, appended.extends ok.2.2 ok.1, rfl⟩
  | nest maxlen type children =>
    obtain ⟨b', executed, sized', value, grown, walks⟩ := nest_spec sized ok passes
    refine ⟨b', executed, sized', _, grown, ?_⟩
    simp only [readAttr, AttrCalls.attr, IpQos.Lib.Attr.isNest, ↓reduceIte, walks.walk_eq,
      Option.map_some]

/-- The calls for a list of attributes. -/
theorem attrs_spec {calls : List AttrCalls} {b : BuildSt} (sized : SizedReq o b.req)
    (ok : ∀ c ∈ calls, CallsOk c)
    (passes : Allowed (buildStep o) (Passes o) (calls.flatMap AttrCalls.steps) b) :
    ∃ b', Executes o (calls.flatMap AttrCalls.steps) b b' ∧
      ∃ attrs, Extends o b.req b'.req attrs ∧
        readAttrs o (calls.map (·.attr.isNest)) attrs = some (calls.map AttrCalls.attr) := by
  induction calls generalizing b with
  | nil => exact ⟨b, .nil, [], .refl o b.req, rfl⟩
  | cons c calls ih =>
    rw [List.flatMap_cons] at passes ⊢
    have okFirst := ok c List.mem_cons_self
    have okRest : ∀ c' ∈ calls, CallsOk c' := fun c' member => ok c' (List.mem_cons_of_mem c member)
    obtain ⟨b', executed, sized', attr, grown, read⟩ := calls_spec sized okFirst passes.front
    obtain ⟨b'', executed', attrs, grown', readRest⟩ := ih sized' okRest (passes.back executed.ran)
    refine ⟨b'', executed.append executed', attr :: attrs, grown.trans sized grown', ?_⟩
    simp only [List.map_cons, readAttrs, read, readRest]
    rfl

/-! ## The round trip -/

/-- A call that fails its check changes nothing. -/
theorem addattr_refused {maxlen : Int32} {data : List UInt8} (type : Nat)
    (exceeds : exceedsBound o maxlen data.length req = true) :
    qmarkTcAddattr o maxlen type data req = .ok (.error, req) := by
  simp only [qmarkTcAddattr, exceeds, ↓reduceIte, pure_eq_ok]

/-- Whatever is appended to a request without attributes, if every call passes its check, the
    walk over the attributes gives back.  The bytes after `nlmsg_len` may be anything. -/
theorem netlink_roundTrip (o : ByteOrder) (req : List UInt8) (tail : Nat)
    (length : req.length = sizeofRtnlReq) (empty : nlmsgLen o req = attrsOffset)
    (calls : List AttrCalls) (ok : ∀ c ∈ calls, CallsOk c)
    (passes : Allowed (buildStep o) (Passes o) (calls.flatMap AttrCalls.steps) ⟨req, tail⟩) :
    (∃ b, runAll (buildStep o) (calls.flatMap AttrCalls.steps) ⟨req, tail⟩ = .ok b ∧
        walkNested o (calls.map (·.attr.isNest)) (attrsRegion o b.req) =
          some (calls.map AttrCalls.attr)) ∧
      AfterEach (buildStep o) (WithinBound o) (calls.flatMap AttrCalls.steps) ⟨req, tail⟩ ∧
      ∀ (maxlen : Int32) (type : Nat) (data req' : List UInt8),
        exceedsBound o maxlen data.length req' = true →
          qmarkTcAddattr o maxlen type data req' = .ok (.error, req') := by
  -- a request without attributes is the first of the invariant
  have sized : SizedReq o req := by
    refine ⟨length, ?_, ?_, ?_⟩
    · rw [empty]
      decide
    · rw [empty]
    · rw [empty]
      decide
  obtain ⟨b, executed, attrs, grown, readBack⟩ := attrs_spec (b := ⟨req, tail⟩) sized ok passes
  refine ⟨⟨b, executed.ran, ?_⟩, executed.each, ?_⟩
  · have walks := grown.walks
    rw [empty] at walks
    rw [walkNested, attrsRegion, walks.walk_eq]
    exact readBack
  · intro maxlen type data req' exceeds
    exact addattr_refused type exceeds

/-- A cleared request with its length set is such a request. -/
theorem clearedReq_spec (o : ByteOrder) :
    (clearedReq o).length = sizeofRtnlReq ∧ nlmsgLen o (clearedReq o) = attrsOffset := by
  have room : 4 ≤ (List.replicate sizeofRtnlReq (0 : UInt8)).length := by
    rw [List.length_replicate]
    decide
  obtain ⟨_, length, readBack, _⟩ := setLen_spec o (show attrsOffset < 2 ^ 32 by decide) room
  exact ⟨length.trans List.length_replicate, readBack⟩

/-- A kind, options with two attributes of odd lengths inside, and a plain attribute of the
    type of the options. -/
def sampleCalls : List AttrCalls :=
  [.plain ⟨4132, 1, [102, 119, 0]⟩,
    .nest 1024 tcaOptions [⟨2024, 5, [0, 248, 255, 0, 9]⟩, ⟨3024, 1, []⟩],
    .plain ⟨1024, tcaOptions, [100]⟩]

theorem netlink_roundTrip_sample :
    ∃ b, runAll (buildStep .little) (sampleCalls.flatMap AttrCalls.steps)
        ⟨clearedReq .little, 0⟩ = .ok b ∧
      walkNested .little [false, true, false] (attrsRegion .little b.req) =
        some [.plain 1 [102, 119, 0], .nest 2 [(5, [0, 248, 255, 0, 9]), (1, [])],
          .plain 2 [100]] :=
  (netlink_roundTrip .little (clearedReq .little) 0 (clearedReq_spec _).1 (clearedReq_spec _).2
    sampleCalls (by decide) (by decide +kernel)).1

end IpQos.Verified
