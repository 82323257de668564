import NearField.Proofs.Ndef.Writing
import NearField.Snep

/-! # Frames of put requests

A put request of typed records is their message behind a header that holds its length, and parsing
gives the message back.
-/
namespace NearField.Snep
open Ndef

theorem writeHeader_eq {room length : Nat} (hroom : headerSize ≤ room)
    (hlimit : length ≤ SizedField.snepInformation.limit) (request : UInt8) :
    writeHeader room request length = .ok (header request length) := by
  have h := Bytes.requireRoom_eq_ok_iff.mpr hroom
  have hcheck := SizedField.check_eq_ok_iff.mpr hlimit
  rw [writeHeader, h, ok_bind, hcheck]
  rfl

/-- The header is put in front of the message once the message is there. -/
theorem write_of_room (records : List Record) {buffer : Bytes}
    (hroom : headerSize ≤ buffer.length) :
    write records buffer = do
      let (information, length) ← Message.write records (buffer.drop headerSize)
      SizedField.snepInformation.check length
      return (header put length ++ information, headerSize + length) := by
  have hrequire := Bytes.requireRoom_eq_ok_iff.mpr hroom
  have hfront : (buffer.take headerSize).length = headerSize := by
    rw [List.length_take, Nat.min_eq_left hroom]
  rw [write, hrequire, ok_bind]
  cases Message.write records (buffer.drop headerSize) with
  | error e => rfl
  | ok written =>
    obtain ⟨information, length⟩ := written
    simp only [ok_bind, writeHeader, hrequire]
    cases SizedField.snepInformation.check length with
    | error e => rfl
    | ok =>
      simp only [ok_bind, pure_eq_ok, Bytes.overwrite_zero, length_header,
        List.drop_left' hfront]

theorem frameOf_eq (records : List Record) {room : Nat} (hroom : headerSize ≤ room)
    (hlimit : room ≤ SizedField.snepInformation.limit) :
    frameOf records room =
      (Message.contents records (room - headerSize)).map fun cs => frame (Message.wire cs) := by
  have hlength : headerSize ≤ (List.replicate room (0 : UInt8)).length := by
    rwa [List.length_replicate]
  rw [frameOf, write_of_room records hlength, Message.write_eq, List.length_drop,
    List.length_replicate]
  cases hcs : Message.contents records (room - headerSize) with
  | error e => rfl
  | ok cs =>
    obtain ⟨-, -, hsize⟩ := Message.contents_eq_ok_iff.mp hcs
    rw [← Message.length_wireFrom true] at hsize
    have hwire : (Message.wire cs).length ≤ room - headerSize := hsize
    have hcheck : SizedField.snepInformation.check (Message.wire cs).length = .ok () :=
      SizedField.check_eq_ok_iff.mpr (by omega)
    simp only [map_ok, ok_bind, hcheck, pure_eq_ok, ← List.append_assoc]
    exact congrArg Except.ok (List.take_left' (by rw [List.length_append, length_header]))

theorem length_frame (message : Bytes) : (frame message).length = headerSize + message.length := by
  rw [frame, List.length_append, length_header]

theorem parse_frame {message : Bytes} (h : message.length < 0x1_0000_0000) :
    Request.parse (frame message) = .ok ⟨version, put, message⟩ := by
  have hlength : Bytes.requireLength (frame message) headerSize = .ok () := by
    rw [Bytes.requireLength_eq_ok_iff, length_frame]
    exact Nat.le_add_right _ _
  have hword : Bytes.word32At (frame message) 2 = .ok message.length :=
    congrArg Except.ok (Bytes.value32_ofNat h)
  have hdrop : (frame message).drop headerSize = message := List.drop_left' (length_header _ _)
  have hversion : Bytes.byteAt (frame message) 0 = .ok version := rfl
  have hput : Bytes.byteAt (frame message) 1 = .ok put := rfl
  simp [Request.parse, hlength, hversion, hput, hword, length_frame, hdrop]

theorem frameOf_eq_ok {records : List Record} {room : Nat} {request : Bytes}
    (hroom : headerSize ≤ room) (hlimit : room ≤ SizedField.snepInformation.limit)
    (h : frameOf records room = .ok request) :
    ∃ cs, Message.contents records (room - headerSize) = .ok cs ∧
      request = frame (Message.wire cs) ∧ request.length ≤ room ∧
      Request.parse request = .ok ⟨version, put, Message.wire cs⟩ := by
  rw [frameOf_eq records hroom hlimit] at h
  cases hcs : Message.contents records (room - headerSize) with
  | error e =>
    rw [hcs] at h
    cases h
  | ok cs =>
    rw [hcs] at h
    cases h
    obtain ⟨-, -, hsize⟩ := Message.contents_eq_ok_iff.mp hcs
    rw [← Message.length_wireFrom true] at hsize
    have hwire : (Message.wire cs).length ≤ room - headerSize := hsize
    have hlimit' : room ≤ 4294967295 := hlimit
    refine ⟨cs, rfl, rfl, ?_, parse_frame (by omega)⟩
    rw [length_frame]
    omega

end NearField.Snep
