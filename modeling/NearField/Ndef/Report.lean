import NearField.Base64.Field
import NearField.Ndef.Cursor

/-! # Report of a message

A bracketed list with one entry per record, its byte fields in base64url. A report is written piece
by piece: a message that does not read to its end is refused before the first piece, but a field
that is too long for its line is met only after the entries before it.
-/
namespace NearField.Ndef

structure Report where
  pieces : List Text
  result : Except Error Unit

namespace Report

/-- The most characters that one field of an entry can take: those of a full tag. -/
def fieldRoom : Nat := Base64.paddedLength 512

theorem fieldRoom_eq : fieldRoom = 684 := rfl

def entry (v : RawRecord) : Except Error (List Text) := do
  let type ← Base64.writeField v.type fieldRoom
  let id ← Base64.writeField v.id fieldRoom
  let payload ← Base64.writeField v.payload fieldRoom
  return ["\x7b\"tnf\": ".toList, Text.decimal v.header.typeNameBits.toNat, ", \"type\": \"".toList,
    type, "\", \"id\": \"".toList, id, "\", \"payload\": \"".toList, payload, "\"\x7d".toList]

def after (pieces : List Text) (r : Report) : Report := ⟨pieces ++ r.pieces, r.result⟩

def entries (first : Bool) : List RawRecord → Report
  | [] => ⟨["]\r\n".toList], .ok ()⟩
  | v :: rest =>
    after (if first then [] else [",".toList]) <|
      match entry v with
      | .error e => ⟨[], .error e⟩
      | .ok pieces => after pieces (entries false rest)

def ofMessage (message : Bytes) : Report :=
  match readAll message with
  | .error e => ⟨[], .error e⟩
  | .ok records => after ["[".toList] (entries true records)

def text (r : Report) : Text := r.pieces.flatten

/-- The part of the pieces that `room` characters hold, and whether they held all. -/
def cut (room : Nat) : List Text → Text × Bool
  | [] => ([], true)
  | piece :: rest =>
    if room < piece.length then (piece.take room, false)
    else
      let (kept, whole) := cut (room - piece.length) rest
      (piece ++ kept, whole)

/-- A report written to a sink that keeps `limit` characters and refuses the piece that goes past
them. Reports are ASCII, so these are bytes as well. -/
def within (r : Report) (limit : Nat) : Text × Except Error Unit :=
  let (kept, whole) := cut limit r.pieces
  (kept, if whole then r.result else .error .reportRefused)

end Report
end NearField.Ndef
