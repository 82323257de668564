import NearField.Base64.Field
import NearField.Ndef.Header
import NearField.Ndef.Record

/-! # Writing a message

Records in their order, the first marked as the beginning of the message and the last as its end,
each with its fields decoded from base64url. A message is written into a buffer: each record starts
with a header whose lengths are zero, its fields follow one after the other, and each length is set
as soon as its field is there. A record that does not fit is blamed before the ones after it.
-/
namespace NearField.Ndef

namespace Record

def wireFlags (r : Record) (first last : Bool) : UInt8 :=
  Flags.marked r.flags first last (!r.id.isEmpty)

/-- Puts a field behind what is written of a record, and sets its length in the header. -/
def addField (t : Text) (setLength : Bytes → Nat → Except Error Bytes) (written : Bytes × Nat) :
    Except Error (Bytes × Nat) := do
  let (buffer, size) ← Base64.readInto t written.1 written.2
  let buffer ← setLength buffer size
  return (buffer, written.2 + size)

/-- A record without an id has no length for it either. -/
def addId (r : Record) (written : Bytes × Nat) : Except Error (Bytes × Nat) :=
  if r.id.isEmpty then .ok written else addField r.id Header.setIdLength written

/-- A payload that is too long for a short record is refused before the header is looked at. -/
def setPayloadLength (flags : UInt8) (buffer : Bytes) (length : Nat) : Except Error Bytes :=
  if Header.maxShortPayload < length ∧ Flags.has flags Flags.shortRecord then
    .error (.shortRecordTooLong length)
  else Header.setPayloadLength buffer length

def write (r : Record) (first last : Bool) (buffer : Bytes) : Except Error (Bytes × Nat) :=
  let flags := r.wireFlags first last
  if Flags.isTyped r.flags.toNat then do
    let buffer ← Header.start buffer flags r.typeName
    let written ← addField r.type Header.setTypeLength (buffer, Header.sizeFor flags)
    let written ← r.addId written
    addField r.payload (setPayloadLength flags) written
  else .error (.reservedFlags r.flags.toNat)

end Record

namespace Message

def writeFrom (first : Bool) (buffer : Bytes) : List Record → Except Error (Bytes × Nat)
  | [] => .ok (buffer, 0)
  | r :: rest => do
    let (buffer, size) ← r.write first rest.isEmpty buffer
    let (behind, sizeBehind) ← writeFrom false (buffer.drop size) rest
    return (buffer.take size ++ behind, size + sizeBehind)

/-- Writes a message to the front of a buffer, and tells its size. -/
def write (records : List Record) (buffer : Bytes) : Except Error (Bytes × Nat) :=
  writeFrom true buffer records

def encode (records : List Record) (room : Nat) : Except Error Bytes := do
  let (buffer, size) ← write records (List.replicate room 0)
  return buffer.take size

end Message
end NearField.Ndef
