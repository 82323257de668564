import NearField.Error

/-! # Base64url fields

Reading and writing a field under a limit on the bytes or characters it may take. A shortage is
reported with the size that was wanted: for reading, what the text without its padding would
decode to; for writing, the length with padding.
-/
namespace NearField.Base64

def decodedLength (t : Text) : Nat :=
  (Text.utf8 (Text.dropEndWhile (· == '=') t)).length * 3 / 4

def readField (t : Text) (room : Nat) : Except Error Bytes :=
  match decode (Text.utf8 t) room with
  | .ok data => .ok data
  | .error (.malformed cause) => .error (.base64 cause)
  | .error .noRoom => .error (.bufferOverflow (decodedLength t) room)

/-- Reads a field into a buffer from `start` on, and tells how many bytes it took. -/
def readInto (t : Text) (buffer : Bytes) (start : Nat) : Except Error (Bytes × Nat) := do
  let data ← readField t (buffer.length - start)
  return (Bytes.overwrite buffer start data, data.length)

def writeField (data : Bytes) (room : Nat) : Except Error Text :=
  if room < unpaddedLength data.length then
    .error (.bufferOverflow (paddedLength data.length) room)
  else .ok (encode data)

end NearField.Base64
