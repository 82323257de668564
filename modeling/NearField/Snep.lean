import NearField.Ndef.Message

/-! # SNEP requests

Version, request code, the length of the information in four bytes, and the information. A put
request carries one NDEF message.
-/
namespace NearField.Snep

def version : UInt8 := 0x10
def put : UInt8 := 0x02
def headerSize : Nat := 6

def header (request : UInt8) (length : Nat) : Bytes := version :: request :: Bytes.word32 length

theorem length_header (request : UInt8) (length : Nat) :
    (header request length).length = headerSize := rfl

def writeHeader (room : Nat) (request : UInt8) (length : Nat) : Except Error Bytes := do
  Bytes.requireRoom room headerSize
  SizedField.snepInformation.check length
  return header request length

/-- Writes the records as one message of a put request to the front of a frame, and tells the size
of the request. The header comes last: it holds the size of the message. -/
def write (records : List Ndef.Record) (frame : Bytes) : Except Error (Bytes × Nat) := do
  Bytes.requireRoom frame.length headerSize
  let (information, size) ← Ndef.Message.write records (frame.drop headerSize)
  let header ← writeHeader frame.length put size
  return (Bytes.overwrite (frame.take headerSize ++ information) 0 header, headerSize + size)

def frameOf (records : List Ndef.Record) (room : Nat) : Except Error Bytes := do
  let (frame, size) ← write records (List.replicate room 0)
  return frame.take size

/-- A put request as a peer frames it, with the low 32 bits of the length. -/
def frame (message : Bytes) : Bytes := header put message.length ++ message

structure Request where
  version : UInt8
  request : UInt8
  information : Bytes
  deriving DecidableEq, Repr

namespace Request

/-- A frame is one request: its major version is 1, and it holds just the length it declares. -/
def parse (frame : Bytes) : Except Error Request := do
  Bytes.requireLength frame headerSize
  let version ← Bytes.byteAt frame 0
  if version >>> 4 != Snep.version >>> 4 then
    throw (.frameFormat (.unsupportedVersion version))
  let request ← Bytes.byteAt frame 1
  let length ← Bytes.word32At frame 2
  if frame.length != headerSize + length then
    throw (.invalidLength (headerSize + length) frame.length)
  return ⟨version, request, frame.drop headerSize⟩

def isPut (r : Request) : Bool := r.request == put

end Request
end NearField.Snep
