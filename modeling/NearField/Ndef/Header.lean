import NearField.Bytes.Range
import NearField.Ndef.Flags

/-! # Record header

Flags and type name format, the length of the type, the length of the payload in one byte (short
records) or four, and the length of the id where the flags say that there is one. A header is
started with lengths of zero, and each length is set once the field is known.
-/
namespace NearField.Ndef

structure Header where
  flags : UInt8
  typeLength : Nat
  idLength : Nat
  payloadLength : Nat
  deriving DecidableEq, Repr

namespace Header

/-- A one-byte payload length and no id. -/
def leastSize : Nat := 3

def sizeFor (flags : UInt8) : Nat :=
  2 + (if Flags.has flags Flags.shortRecord then 1 else 4) +
    (if Flags.has flags Flags.idPresent then 1 else 0)

theorem leastSize_le_sizeFor (flags : UInt8) : leastSize ≤ sizeFor flags := by
  unfold leastSize sizeFor
  split <;> split <;> decide

def typeLengthPlace : Nat := 1
def payloadLengthPlace : Nat := 2

def maxShortPayload : Nat := 255

/-- The length of the id is the last byte of a header that has one. -/
def idLengthPlace (flags : UInt8) : Nat := sizeFor flags - 1

def marks (h : Header) : UInt8 := h.flags &&& Flags.all

def typeNameBits (h : Header) : UInt8 := h.flags &&& Flags.typeNameBits

/-- The reserved format 7 has no name. -/
def typeName? (h : Header) : Option TypeName := Coded.ofCode? h.typeNameBits

def size (h : Header) : Nat := sizeFor h.flags

def recordSize (h : Header) : Nat := h.size + h.typeLength + h.idLength + h.payloadLength

theorem leastSize_le_recordSize (h : Header) : leastSize ≤ h.recordSize := by
  have hs := leastSize_le_sizeFor h.flags
  unfold recordSize size
  omega

def parse (data : Bytes) : Except Error Header := do
  let flags :: _ := data | throw (.messageTruncated data.length leastSize)
  if data.length < leastSize then throw (.messageTruncated data.length leastSize)
  if data.length < sizeFor flags then throw (.messageTruncated data.length (sizeFor flags))
  let typeLength ← Bytes.byteAt data typeLengthPlace
  let payloadLength ←
    if Flags.has flags Flags.shortRecord then
      UInt8.toNat <$> Bytes.byteAt data payloadLengthPlace
    else Bytes.word32At data payloadLengthPlace
  let idLength ←
    if Flags.has flags Flags.idPresent then
      UInt8.toNat <$> Bytes.byteAt data (idLengthPlace flags)
    else pure 0
  return ⟨flags, typeLength.toNat, idLength, payloadLength⟩

def blank (flags : UInt8) (typeName : TypeName) : Bytes :=
  (flags &&& Flags.all ||| Coded.code typeName) :: List.replicate (sizeFor flags - 1) 0

theorem length_blank (flags : UInt8) (typeName : TypeName) :
    (blank flags typeName).length = sizeFor flags := by
  have h := leastSize_le_sizeFor flags
  unfold leastSize at h
  simp only [blank, List.length_cons, List.length_replicate]
  omega

def start (buffer : Bytes) (flags : UInt8) (typeName : TypeName) : Except Error Bytes := do
  Bytes.requireRoom buffer.length (sizeFor flags)
  return Bytes.overwrite buffer 0 (blank flags typeName)

def setTypeLength (record : Bytes) (length : Nat) : Except Error Bytes := do
  SizedField.ndefType.check length
  Bytes.requireRoom record.length (typeLengthPlace + 1)
  return Bytes.overwrite record typeLengthPlace [UInt8.ofNat length]

def setIdLength (record : Bytes) (length : Nat) : Except Error Bytes := do
  let flags ← Bytes.byteAt record 0
  unless Flags.has flags Flags.idPresent do throw (.frameFormat .noIdLength)
  SizedField.ndefId.check length
  Bytes.requireRoom record.length (idLengthPlace flags + 1)
  return Bytes.overwrite record (idLengthPlace flags) [UInt8.ofNat length]

def setPayloadLength (record : Bytes) (length : Nat) : Except Error Bytes := do
  let flags ← Bytes.byteAt record 0
  if Flags.has flags Flags.shortRecord then
    if maxShortPayload < length then throw (.shortRecordTooLong length)
    Bytes.requireRoom record.length (payloadLengthPlace + 1)
    return Bytes.overwrite record payloadLengthPlace [UInt8.ofNat length]
  else
    SizedField.ndefPayload.check length
    Bytes.putWord32 record payloadLengthPlace length

end Header
end NearField.Ndef
