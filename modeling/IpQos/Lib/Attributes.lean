import IpQos.Lib.Bytes

/-! # Sequences of attributes

Type, length and value: an attribute is a header of 4 bytes (its length with the header, its
type, two bytes each), the value, and padding up to the next multiple of 4. -/

namespace IpQos.Lib

/-- `n` rounded up to a multiple of 4. -/
def roundUp (n : Nat) : Nat := (n + 3) / 4 * 4

theorem roundUp_of_dvd {n : Nat} (aligned : 4 ∣ n) : roundUp n = n := by
  unfold roundUp
  omega

theorem dvd_roundUp (n : Nat) : 4 ∣ roundUp n := Nat.dvd_mul_left 4 _

theorem le_roundUp (n : Nat) : n ≤ roundUp n := by
  unfold roundUp
  omega

theorem roundUp_le {n bound : Nat} (aligned : 4 ∣ bound) (le : n ≤ bound) : roundUp n ≤ bound := by
  unfold roundUp
  omega

/-- The attributes of a region, as types and values.  Each of them has to be complete. -/
def walkFor (o : ByteOrder) : Nat → List UInt8 → Option (List (Nat × List UInt8))
  | _, [] => some []
  | 0, _ :: _ => none
  | fuel + 1, b :: bytes =>
    let region := b :: bytes
    let len := o.read (region.take 2)
    let type := o.read ((region.drop 2).take 2)
    if 4 ≤ len ∧ len ≤ region.length then
      (walkFor o fuel (region.drop (roundUp len))).map ((type, (region.take len).drop 4) :: ·)
    else none

/-- Every attribute takes up bytes, so the length of the region bounds their number. -/
def walk (o : ByteOrder) (region : List UInt8) : Option (List (Nat × List UInt8)) :=
  walkFor o region.length region

theorem walkFor_succ {o : ByteOrder} {region : List UInt8} (fuel : Nat) (nonempty : region ≠ []) :
    walkFor o (fuel + 1) region =
      if 4 ≤ o.read (region.take 2) ∧ o.read (region.take 2) ≤ region.length then
        (walkFor o fuel (region.drop (roundUp (o.read (region.take 2))))).map
          ((o.read ((region.drop 2).take 2), (region.take (o.read (region.take 2))).drop 4) :: ·)
      else none := by
  cases region with
  | nil => exact absurd rfl nonempty
  | cons b bytes => rfl

/-- One attribute in memory. -/
def attrBytes (o : ByteOrder) (type : Nat) (value pad : List UInt8) : List UInt8 :=
  o.write 2 (4 + value.length) ++ (o.write 2 type ++ (value ++ pad))

theorem length_attrBytes (o : ByteOrder) (type : Nat) (value pad : List UInt8) :
    (attrBytes o type value pad).length = 4 + value.length + pad.length := by
  simp only [attrBytes, List.length_append, ByteOrder.length_write]
  omega

/-- A region of whole attributes and their padding. -/
inductive Walks (o : ByteOrder) : List UInt8 → List (Nat × List UInt8) → Prop where
  | nil : Walks o [] []
  | cons {type : Nat} {value pad rest : List UInt8} {attrs : List (Nat × List UInt8)}
      (type_lt : type < 2 ^ 16) (len_lt : 4 + value.length < 2 ^ 16)
      (padded : 4 + value.length + pad.length = roundUp (4 + value.length))
      (later : Walks o rest attrs) :
      Walks o (attrBytes o type value pad ++ rest) ((type, value) :: attrs)

namespace Walks

variable {o : ByteOrder} {region region' : List UInt8} {attrs attrs' : List (Nat × List UInt8)}
  {type : Nat} {value pad rest : List UInt8}

theorem single (type_lt : type < 2 ^ 16) (len_lt : 4 + value.length < 2 ^ 16)
    (padded : 4 + value.length + pad.length = roundUp (4 + value.length)) :
    Walks o (attrBytes o type value pad) [(type, value)] := by
  have whole := Walks.cons (o := o) type_lt len_lt padded .nil
  rwa [List.append_nil] at whole

theorem append (walks : Walks o region attrs) (walks' : Walks o region' attrs') :
    Walks o (region ++ region') (attrs ++ attrs') := by
  induction walks with
  | nil => exact walks'
  | cons type_lt len_lt padded _ ih =>
    rw [List.append_assoc, List.cons_append]
    exact .cons type_lt len_lt padded ih

/-- The walk takes the first attribute apart. -/
theorem walkFor_attrBytes (type_lt : type < 2 ^ 16) (len_lt : 4 + value.length < 2 ^ 16)
    (padded : 4 + value.length + pad.length = roundUp (4 + value.length)) (fuel : Nat) :
    walkFor o (fuel + 1) (attrBytes o type value pad ++ rest) =
      (walkFor o fuel rest).map ((type, value) :: ·) := by
  have lenBytes := o.length_write 2 (4 + value.length)
  have typeBytes := o.length_write 2 type
  have nonempty : attrBytes o type value pad ++ rest ≠ [] := by
    rw [← List.length_pos_iff, List.length_append, length_attrBytes]
    omega
  -- the four parts that the walk reads off the bytes
  have isLen : o.read ((attrBytes o type value pad ++ rest).take 2) = 4 + value.length := by
    rw [attrBytes, List.append_assoc, List.take_left' lenBytes, o.read_write_of_lt len_lt]
  have isType : o.read (((attrBytes o type value pad ++ rest).drop 2).take 2) = type := by
    rw [attrBytes, List.append_assoc, List.drop_left' lenBytes, List.append_assoc,
      List.take_left' typeBytes, o.read_write_of_lt type_lt]
  have isValue :
      ((attrBytes o type value pad ++ rest).take (4 + value.length)).drop 4 = value := by
    rw [attrBytes, List.drop_take, ← List.append_assoc, List.append_assoc _ _ rest,
      List.drop_left' (by rw [List.length_append, lenBytes, typeBytes]), List.append_assoc]
    exact List.take_left' (Nat.add_sub_cancel_left 4 _).symm
  have isRest : (attrBytes o type value pad ++ rest).drop (roundUp (4 + value.length)) = rest :=
    List.drop_left' ((length_attrBytes o type value pad).trans padded)
  have complete : 4 ≤ 4 + value.length ∧
      4 + value.length ≤ (attrBytes o type value pad ++ rest).length := by
    rw [List.length_append, length_attrBytes]
    omega
  rw [walkFor_succ fuel nonempty, isLen, isType, isValue, isRest, if_pos complete]

/-- The walk finds what is there, with any fuel past the length of the region. -/
theorem walkFor_eq (walks : Walks o region attrs) {fuel : Nat} (enough : region.length ≤ fuel) :
    walkFor o fuel region = some attrs := by
  induction walks generalizing fuel with
  | nil =>
    cases fuel with
    | zero => rfl
    | succ fuel => rfl
  | cons type_lt len_lt padded _ ih =>
    rw [List.length_append, length_attrBytes] at enough
    obtain ⟨fuel, rfl⟩ : ∃ k, fuel = k + 1 := Nat.exists_eq_add_one.mpr (by omega)
    rw [walkFor_attrBytes type_lt len_lt padded, ih (by omega), Option.map_some]

theorem walk_eq (walks : Walks o region attrs) : walk o region = some attrs :=
  walks.walkFor_eq (Nat.le_refl _)

end Walks

/-! ## One level of nesting -/

/-- An attribute of which the reader knows whether its value is made of attributes. -/
inductive Attr where
  | plain (type : Nat) (value : List UInt8)
  | nest (type : Nat) (children : List (Nat × List UInt8))
  deriving DecidableEq, Repr

def Attr.isNest : Attr → Bool
  | .plain _ _ => false
  | .nest _ _ => true

/-- Reads the value of an attribute as its flag says. -/
def readAttr (o : ByteOrder) (nested : Bool) (attr : Nat × List UInt8) : Option Attr :=
  if nested then (walk o attr.2).map (.nest attr.1 ·) else some (.plain attr.1 attr.2)

/-- One flag for every attribute. -/
def readAttrs (o : ByteOrder) : List Bool → List (Nat × List UInt8) → Option (List Attr)
  | [], [] => some []
  | nested :: flags, attr :: attrs => do
    let first ← readAttr o nested attr
    let rest ← readAttrs o flags attrs
    return first :: rest
  | _, _ => none

/-- The attributes of a region with the attributes inside them. -/
def walkNested (o : ByteOrder) (flags : List Bool) (region : List UInt8) : Option (List Attr) := do
  let attrs ← walk o region
  readAttrs o flags attrs

end IpQos.Lib
