import NearField.Error

/-! # Ranges of a byte string

Reading and writing at a position, with the length that the access needs checked first. Positions
are 64-bit words, so the end of a range has to be one as well.
-/
namespace NearField.Bytes

def requireLength (data : Bytes) (least : Nat) : Except Error Unit :=
  if data.length < least then .error (.invalidLength least data.length) else .ok ()

def requireRoom (room needed : Nat) : Except Error Unit :=
  if room < needed then .error (.bufferOverflow needed room) else .ok ()

theorem requireLength_eq_ok_iff {data : Bytes} {least : Nat} :
    requireLength data least = .ok () ↔ least ≤ data.length := by
  unfold requireLength
  split <;> simp_all

theorem requireRoom_eq_ok_iff {room needed : Nat} :
    requireRoom room needed = .ok () ↔ needed ≤ room := by
  unfold requireRoom
  split <;> simp_all

def rangeEnd (start length : Nat) : Except Error Nat :=
  if start + length < 0x1_0000_0000_0000_0000 then .ok (start + length) else .error .addressOverflow

def byteAt (data : Bytes) (start : Nat) : Except Error UInt8 := do
  let stop ← rangeEnd start 1
  match data[start]? with
  | some b => return b
  | none => throw (.invalidLength stop data.length)

def sliceAt (data : Bytes) (start length : Nat) : Except Error Bytes := do
  let stop ← rangeEnd start length
  requireLength data stop
  return (data.drop start).take length

def word32At (data : Bytes) (start : Nat) : Except Error Nat := do
  let stop ← rangeEnd start 4
  match data.drop start with
  | a :: b :: c :: d :: _ => return value32 a b c d
  | _ => throw (.invalidLength stop data.length)

def putWord32 (buffer : Bytes) (start value : Nat) : Except Error Bytes := do
  let stop ← rangeEnd start 4
  requireRoom buffer.length stop
  return overwrite buffer start (word32 value)

theorem putWord32_of_le {buffer : Bytes} {start : Nat} (value : Nat)
    (h : start + 4 ≤ buffer.length) (hword : start + 4 < 0x1_0000_0000_0000_0000) :
    putWord32 buffer start value = .ok (overwrite buffer start (word32 value)) := by
  have hroom := requireRoom_eq_ok_iff.mpr h
  simp only [putWord32, rangeEnd, if_pos hword, bind, Except.bind, hroom]
  rfl

end NearField.Bytes
