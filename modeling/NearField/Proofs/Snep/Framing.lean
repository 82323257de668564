import NearField.Proofs.Ndef.RoundTrip
import NearField.Proofs.Snep

/-! # Framing

A put request is written if its message is, and the message fits the four bytes of its length. What
is read as a request is the header of its information with the information behind it, but for the
minor version. Writing and reading agree with the framing by a peer.
-/
namespace NearField.Snep
open Ndef

theorem check_snepInformation_iff {length : Nat} :
    SizedField.snepInformation.check length = .ok () ↔ length < 0x1_0000_0000 := by
  rw [SizedField.check_eq_ok_iff]
  exact Nat.lt_succ_iff.symm

theorem write_of_no_room (records : List Record) {buffer : Bytes}
    (hroom : buffer.length < headerSize) :
    write records buffer = .error (.bufferOverflow headerSize buffer.length) := by
  rw [write, Bytes.requireRoom, if_pos hroom, error_bind]

theorem message_of_write {records : List Record} {buffer out : Bytes} {size : Nat}
    (h : Message.write records buffer = .ok (out, size)) :
    ∃ message : Bytes, message = out.take size ∧ message.length = size ∧
      out = message ++ buffer.drop size := by
  obtain ⟨cs, -, rfl, rfl⟩ := Message.contents_of_write h
  exact ⟨Message.wire cs, by rw [List.take_left], rfl, rfl⟩

theorem write_eq_ok_iff {records : List Record} {buffer out : Bytes} {size : Nat} :
    write records buffer = .ok (out, size) ↔
      headerSize ≤ buffer.length ∧ ∃ information message : Bytes,
        Message.write records (buffer.drop headerSize) = .ok (information, message.length) ∧
        message = information.take message.length ∧ message.length < 0x1_0000_0000 ∧
        size = headerSize + message.length ∧ out = frame message ++ buffer.drop size := by
  by_cases hroom : headerSize ≤ buffer.length
  · have hout {information message : Bytes}
        (h : Message.write records (buffer.drop headerSize) = .ok (information, message.length))
        (hmessage : message = information.take message.length) :
        header put message.length ++ information =
          frame message ++ buffer.drop (headerSize + message.length) := by
      obtain ⟨written, hwritten, -, hinformation⟩ := message_of_write h
      rw [← hmessage] at hwritten
      rw [hinformation, hwritten, frame, List.append_assoc, List.drop_drop]
    rw [write_of_room records hroom]
    constructor
    · intro h
      obtain ⟨⟨information, length⟩, hwrite, h⟩ := bind_eq_ok_iff.mp h
      obtain ⟨⟨⟩, hcheck, h⟩ := bind_eq_ok_iff.mp h
      obtain ⟨message, hmessage, rfl, -⟩ := message_of_write hwrite
      cases h
      exact ⟨hroom, information, message, hwrite, hmessage, check_snepInformation_iff.mp hcheck,
        rfl, hout hwrite hmessage⟩
    · rintro ⟨-, information, message, hwrite, hmessage, hlimit, rfl, rfl⟩
      have hcheck := check_snepInformation_iff.mpr hlimit
      simp only [hwrite, ok_bind, hcheck, hout hwrite hmessage, pure_eq_ok]
  · rw [write_of_no_room records (Nat.not_le.mp hroom)]
    simp [hroom]

namespace Request

theorem parse_of_short {f : Bytes} (h : f.length < headerSize) :
    parse f = .error (.invalidLength headerSize f.length) := by
  rw [parse, Bytes.requireLength, if_pos h, error_bind]

theorem shiftRight_bne_version (v : UInt8) :
    (v >>> 4 != Snep.version >>> 4) = decide (v.toNat / 16 ≠ 1) := by
  have hall : ∀ v : UInt8, (v >>> 4 != Snep.version >>> 4) = decide (v.toNat / 16 ≠ 1) :=
    Bytes.forall_byte (by decide +kernel)
  exact hall v

theorem length_cons (v q a b c d : UInt8) (information : Bytes) :
    (v :: q :: a :: b :: c :: d :: information).length = headerSize + information.length :=
  Nat.add_comm information.length 6

theorem parse_cons (v q a b c d : UInt8) (information : Bytes) :
    parse (v :: q :: a :: b :: c :: d :: information) =
      if v.toNat / 16 ≠ 1 then .error (.frameFormat (.unsupportedVersion v))
      else if information.length ≠ Bytes.value32 a b c d then
        .error (.invalidLength (headerSize + Bytes.value32 a b c d)
          (headerSize + information.length))
      else .ok ⟨v, q, information⟩ := by
  have hlength := length_cons v q a b c d information
  have hrequire : Bytes.requireLength (v :: q :: a :: b :: c :: d :: information) headerSize =
      .ok () := by
    rw [Bytes.requireLength_eq_ok_iff, hlength]
    exact Nat.le_add_right _ _
  have hversion : Bytes.byteAt (v :: q :: a :: b :: c :: d :: information) 0 = .ok v := rfl
  have hrequest : Bytes.byteAt (v :: q :: a :: b :: c :: d :: information) 1 = .ok q := rfl
  have hword : Bytes.word32At (v :: q :: a :: b :: c :: d :: information) 2 =
      .ok (Bytes.value32 a b c d) := rfl
  have hdrop : (v :: q :: a :: b :: c :: d :: information).drop headerSize = information := rfl
  simp only [parse, hrequire, hversion, hrequest, hword, hlength, hdrop, ok_bind,
    shiftRight_bne_version, decide_eq_true_eq, bne_iff_ne, ne_eq, Nat.add_left_cancel_iff]
  split
  · rfl
  split <;> rfl

theorem exists_header {f : Bytes} (h : headerSize ≤ f.length) :
    ∃ v q a b c d information, f = v :: q :: a :: b :: c :: d :: information := by
  match f, h with
  | v :: q :: a :: b :: c :: d :: information, _ => exact ⟨v, q, a, b, c, d, information, rfl⟩

/-- What is read as a request: major version 1, and just the information that is declared. -/
theorem parse_eq_ok_iff {f : Bytes} {r : Request} :
    parse f = .ok r ↔ ∃ a b c d, f = r.version :: r.request :: a :: b :: c :: d :: r.information ∧
      r.version.toNat / 16 = 1 ∧ Bytes.value32 a b c d = r.information.length := by
  constructor
  · intro h
    by_cases hshort : f.length < headerSize
    · rw [parse_of_short hshort] at h
      cases h
    obtain ⟨v, q, a, b, c, d, information, rfl⟩ := exists_header (Nat.not_lt.mp hshort)
    rw [parse_cons] at h
    by_cases hversion : v.toNat / 16 = 1
    · by_cases hlength : information.length = Bytes.value32 a b c d
      · rw [if_neg (not_not.mpr hversion), if_neg (not_not.mpr hlength)] at h
        cases h
        exact ⟨a, b, c, d, rfl, hversion, hlength.symm⟩
      · rw [if_neg (not_not.mpr hversion), if_pos hlength] at h
        cases h
    · rw [if_pos hversion] at h
      cases h
  · rintro ⟨a, b, c, d, rfl, hversion, hlength⟩
    rw [parse_cons, if_neg (not_not.mpr hversion), if_neg (not_not.mpr hlength.symm)]

theorem parse_eq_error {f : Bytes} {e : Error} (h : parse f = .error e) :
    (f.length < headerSize ∧ e = .invalidLength headerSize f.length) ∨
      ∃ v q a b c d information, f = v :: q :: a :: b :: c :: d :: information ∧
        ((v.toNat / 16 ≠ 1 ∧ e = .frameFormat (.unsupportedVersion v)) ∨
          (information.length ≠ Bytes.value32 a b c d ∧
            e = .invalidLength (headerSize + Bytes.value32 a b c d) f.length)) := by
  by_cases hshort : f.length < headerSize
  · rw [parse_of_short hshort] at h
    cases h
    exact .inl ⟨hshort, rfl⟩
  obtain ⟨v, q, a, b, c, d, information, rfl⟩ := exists_header (Nat.not_lt.mp hshort)
  refine .inr ⟨v, q, a, b, c, d, information, rfl, ?_⟩
  rw [parse_cons] at h
  split at h
  · next hversion =>
    cases h
    exact .inl ⟨hversion, rfl⟩
  split at h
  · next hlength =>
    cases h
    refine .inr ⟨hlength, ?_⟩
    rw [length_cons]
  · cases h

theorem writeHeader_of_parse {f : Bytes} {r : Request} (h : parse f = .ok r) {room : Nat}
    (hroom : headerSize ≤ room) :
    ∃ front, writeHeader room r.request r.information.length = .ok front ∧
      front ++ r.information = (r.version &&& 0xF0) :: f.tail := by
  obtain ⟨a, b, c, d, rfl, hversion, hlength⟩ := parse_eq_ok_iff.mp h
  have hlimit : r.information.length ≤ SizedField.snepInformation.limit := by
    rw [← hlength]
    exact Nat.le_of_lt_succ (Bytes.value32_lt a b c d)
  have hmajor : ∀ v : UInt8, v.toNat / 16 = 1 → v &&& 0xF0 = Snep.version :=
    Bytes.forall_byte (by decide +kernel)
  refine ⟨_, writeHeader_eq hroom hlimit r.request, ?_⟩
  rw [header, ← hlength, Bytes.word32_value32, hmajor r.version hversion]
  rfl

end Request

/-- Records are framed as a put request exactly if there is room for the header and their message is
written behind it; the request is then the message as a peer frames it. A byte string is read as a
request exactly if its major version is 1 and it declares its own length; it is then the header of
its information, the minor version apart, and the information. Every other byte string is refused
for its length or its version. -/
theorem framing_exact :
    (∀ records buffer out size, write records buffer = .ok (out, size) ↔
      6 ≤ buffer.length ∧ ∃ information message : Bytes,
        Message.write records (buffer.drop 6) = .ok (information, message.length) ∧
        message = information.take message.length ∧ message.length < 0x1_0000_0000 ∧
        size = 6 + message.length ∧ out = frame message ++ buffer.drop size) ∧
    (∀ message : Bytes, message.length < 0x1_0000_0000 →
      ∃ r, Request.parse (frame message) = .ok r ∧ r.version = 0x10 ∧ r.isPut = true ∧
        r.information = message) ∧
    (∀ f r, Request.parse f = .ok r ↔
      ∃ a b c d, f = r.version :: r.request :: a :: b :: c :: d :: r.information ∧
        r.version.toNat / 16 = 1 ∧ Bytes.value32 a b c d = r.information.length) ∧
    (∀ f r room, Request.parse f = .ok r → 6 ≤ room → ∃ front,
      writeHeader room r.request r.information.length = .ok front ∧
        front ++ r.information = (r.version &&& 0xF0) :: f.tail) ∧
    (∀ f e, Request.parse f = .error e →
      (f.length < 6 ∧ e = .invalidLength 6 f.length) ∨
        ∃ v q a b c d information, f = v :: q :: a :: b :: c :: d :: information ∧
          ((v.toNat / 16 ≠ 1 ∧ e = .frameFormat (.unsupportedVersion v)) ∨
            (information.length ≠ Bytes.value32 a b c d ∧
              e = .invalidLength (6 + Bytes.value32 a b c d) f.length))) := by
  refine ⟨fun _ _ _ _ => write_eq_ok_iff, ?_, fun _ _ => Request.parse_eq_ok_iff, ?_, ?_⟩
  · intro message hlimit
    exact ⟨_, parse_frame hlimit, rfl, rfl, rfl⟩
  · intro f r room h hroom
    exact Request.writeHeader_of_parse h hroom
  · intro f e h
    exact Request.parse_eq_error h

end NearField.Snep
