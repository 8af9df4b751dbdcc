import IpQos.Lib.Bytes
import Mathlib.Data.List.Basic

/-! # Records of numbers

A record is its fields one after the other, each a number of a fixed width. -/

namespace IpQos.Lib

namespace ByteOrder

variable {o : ByteOrder} {w : Nat}

theorem lowBytes_zero (w : Nat) : lowBytes w 0 = List.replicate w 0 := by
  induction w with
  | zero => rfl
  | succ w ih =>
    rw [lowBytes, Nat.zero_div, ih, List.replicate_succ]
    rfl

theorem write_zero (o : ByteOrder) (w : Nat) : o.write w 0 = List.replicate w 0 := by
  rw [write, lowBytes_zero]
  cases o with
  | little => rfl
  | big => exact List.reverse_replicate

/-- The bytes of the fields, each given by its width and its value. -/
def writeRecord (o : ByteOrder) (fields : List (Nat × Nat)) : List UInt8 :=
  fields.flatMap fun field => o.write field.1 field.2

/-- The values of fields of the given widths. -/
def readRecord (o : ByteOrder) : List Nat → List UInt8 → List Nat
  | [], _ => []
  | w :: widths, bytes => o.read (bytes.take w) :: readRecord o widths (bytes.drop w)

theorem length_writeRecord (o : ByteOrder) (fields : List (Nat × Nat)) :
    (o.writeRecord fields).length = (fields.map Prod.fst).sum := by
  induction fields with
  | nil => rfl
  | cons field fields ih =>
    rw [writeRecord, List.flatMap_cons, List.length_append, length_write, List.map_cons,
      List.sum_cons, ← ih, writeRecord]

theorem writeRecord_append (o : ByteOrder) (fields more : List (Nat × Nat)) :
    o.writeRecord (fields ++ more) = o.writeRecord fields ++ o.writeRecord more :=
  List.flatMap_append

/-- A record is read back whatever stands behind it. -/
theorem readRecord_writeRecord {fields : List (Nat × Nat)}
    (small : ∀ field ∈ fields, field.2 < 256 ^ field.1) (rest : List UInt8) :
    o.readRecord (fields.map Prod.fst) (o.writeRecord fields ++ rest) = fields.map Prod.snd := by
  induction fields with
  | nil => rfl
  | cons field fields ih =>
    have width := o.length_write field.1 field.2
    have first := o.read_write_of_lt (small field List.mem_cons_self)
    have later := ih fun other member => small other (List.mem_cons_of_mem field member)
    rw [writeRecord] at later
    rw [writeRecord, List.flatMap_cons, List.map_cons, List.map_cons, readRecord,
      List.append_assoc, List.take_left' width, List.drop_left' width, first, later]

/-- A table of numbers of one width. -/
def writeTable (o : ByteOrder) (w : Nat) (entries : List Nat) : List UInt8 :=
  o.writeRecord (entries.map fun entry => (w, entry))

def readTable (o : ByteOrder) (w n : Nat) (bytes : List UInt8) : List Nat :=
  o.readRecord (List.replicate n w) bytes

theorem length_writeTable (o : ByteOrder) (w : Nat) (entries : List Nat) :
    (o.writeTable w entries).length = entries.length * w := by
  rw [writeTable, length_writeRecord, List.map_map]
  have widths : (Prod.fst ∘ fun entry : Nat => (w, entry)) = fun _ => w := rfl
  rw [widths, List.map_const', List.sum_replicate_nat]

theorem readTable_writeTable {entries : List Nat} (small : ∀ entry ∈ entries, entry < 256 ^ w) :
    o.readTable w entries.length (o.writeTable w entries) = entries := by
  have fields : ∀ field ∈ entries.map fun entry => (w, entry), field.2 < 256 ^ field.1 := by
    intro field member
    obtain ⟨entry, isEntry, rfl⟩ := List.mem_map.mp member
    exact small entry isEntry
  have back := readRecord_writeRecord (o := o) fields []
  have widths : (Prod.fst ∘ fun entry : Nat => (w, entry)) = fun _ => w := rfl
  have values : (Prod.snd ∘ fun entry : Nat => (w, entry)) = id := rfl
  rw [List.map_map, List.map_map, widths, values, List.map_id, List.map_const',
    List.append_nil] at back
  exact back

end ByteOrder

end IpQos.Lib
