import NearField.Proofs.Ndef.ReportText
import NearField.Proofs.Ndef.Reporting
import NearField.Proofs.Ndef.Spans
import NearField.Proofs.Snep.Framing

/-! # Refusals of records and messages

Records with typed flags are refused for what their fields hold or for the room that they need, and
for nothing else. What arrives is refused for the frame around a message, for a message that breaks
off, or for a field that a report has no room for.
-/
namespace NearField

/-- A field that is no base64url, one that its length byte cannot tell, or a lack of room. -/
def Error.isContentFault : Error → Bool
  | base64 _ | bufferOverflow .. | shortRecordTooLong _ | fieldTooLong .ndefType _
  | fieldTooLong .ndefId _ => true
  | _ => false

/-- A frame that is no request, or not one for a put. -/
def Error.isFrameFault : Error → Bool
  | invalidLength .. | frameFormat _ => true
  | _ => false

theorem map_eq_error_iff {α β : Type} {x : Except Error α} {f : α → β} {e : Error} :
    x.map f = .error e ↔ x = .error e := by
  cases x <;> simp

theorem SizedField.check_eq_error_iff {field : SizedField} {length : Nat} {e : Error} :
    field.check length = .error e ↔ field.limit < length ∧ e = .fieldTooLong field length := by
  unfold check
  split
  · next h => simp [Nat.not_lt.mpr h]
  · next h => simp [Nat.not_le.mp h, eq_comm]

theorem Bytes.requireRoom_eq_error_iff {room needed : Nat} {e : Error} :
    requireRoom room needed = .error e ↔ room < needed ∧ e = .bufferOverflow needed room := by
  unfold requireRoom
  split
  · next h => simp [h, eq_comm]
  · next h => simp [h]

theorem Base64.readField_error {t : Text} {room : Nat} {e : Error}
    (h : readField t room = .error e) : e.isContentFault = true := by
  unfold readField at h
  split at h
  · cases h
  · cases h
    rfl
  · cases h
    rfl

namespace Ndef

theorem readChecked_error {check : Nat → Except Error Unit} {t : Text} {room : Nat} {e : Error}
    (h : readChecked check t room = .error e) :
    Base64.readField t room = .error e ∨ ∃ length ≤ room, check length = .error e := by
  rcases bind_eq_error_iff.mp h with hread | ⟨data, hread, h⟩
  · exact .inl hread
  · rcases bind_eq_error_iff.mp h with hcheck | ⟨_, -, hpure⟩
    · exact .inr ⟨data.length, (Base64.readField_eq_ok_iff.mp hread).2, hcheck⟩
    · cases hpure

namespace Record
variable {r : Record} {room : Nat} {e : Error}

def texts (r : Record) : List Text := [r.type, r.id, r.payload]

/-- What a record is refused for in some room: its flags, its header, a text in the room that is
left for it, a length that one byte does not hold, or the length of its payload. -/
inductive Refuses (r : Record) (room : Nat) : Error → Prop
  | flags (reserved : ¬ Flags.isTyped r.flags.toNat = true) :
      Refuses r room (.reservedFlags r.flags.toNat)
  | header (short : room < r.headerSize) : Refuses r room (.bufferOverflow r.headerSize room)
  | text {t : Text} {left : Nat} {e : Error} (mem : t ∈ r.texts) (fits : left ≤ room)
      (read : Base64.readField t left = .error e) : Refuses r room e
  | byteLength {field : SizedField} {length : Nat} {e : Error}
      (name : field = .ndefType ∨ field = .ndefId) (long : field.check length = .error e) :
      Refuses r room e
  | payloadLength {length : Nat} {e : Error} (fits : length ≤ room)
      (long : r.checkPayload length = .error e) : Refuses r room e

theorem content_refuses (h : r.content room = .error e) : r.Refuses room e := by
  unfold content at h
  by_cases hflags : Flags.isTyped r.flags.toNat = true
  · rw [if_pos hflags] at h
    rcases bind_eq_error_iff.mp h with hheader | ⟨⟨⟩, -, h⟩
    · obtain ⟨hshort, rfl⟩ := Bytes.requireRoom_eq_error_iff.mp hheader
      exact .header hshort
    rcases bind_eq_error_iff.mp h with htype | ⟨type, -, h⟩
    · rcases readChecked_error htype with hread | ⟨length, -, hlong⟩
      · exact .text (by simp [texts]) (by omega) hread
      · exact .byteLength (.inl rfl) hlong
    rcases bind_eq_error_iff.mp h with hid | ⟨id, -, h⟩
    · rcases readChecked_error hid with hread | ⟨length, -, hlong⟩
      · exact .text (by simp [texts]) (by omega) hread
      · exact .byteLength (.inr rfl) hlong
    rcases bind_eq_error_iff.mp h with hpayload | ⟨payload, -, hpure⟩
    · rcases readChecked_error hpayload with hread | ⟨length, hlength, hlong⟩
      · exact .text (by simp [texts]) (by omega) hread
      · exact .payloadLength (by omega) hlong
    · cases hpure
  · rw [if_neg hflags] at h
    cases h
    exact .flags hflags

theorem checkPayload_eq_error {length : Nat} (h : r.checkPayload length = .error e) :
    e = .shortRecordTooLong length ∨
      (SizedField.ndefPayload.limit < length ∧ e = .fieldTooLong .ndefPayload length) := by
  unfold checkPayload at h
  split at h
  · split at h
    · cases h
      exact .inl rfl
    · cases h
  · exact .inr (SizedField.check_eq_error_iff.mp h)

/-- In a room that 32 bits can tell, a payload is too long only for a length byte. -/
theorem content_error (hflags : Flags.isTyped r.flags.toNat = true) (hroom : room ≤ 4294967295)
    (h : r.content room = .error e) : e.isContentFault = true := by
  cases content_refuses h with
  | flags reserved => exact absurd hflags reserved
  | header short => rfl
  | text mem fits read => exact Base64.readField_error read
  | byteLength name long =>
    rw [(SizedField.check_eq_error_iff.mp long).2]
    rcases name with rfl | rfl <;> rfl
  | payloadLength fits long =>
    rcases checkPayload_eq_error long with rfl | ⟨hlimit, -⟩
    · rfl
    · exact absurd (Nat.le_trans fits hroom) (Nat.not_le.mpr hlimit)

end Record

namespace Message
variable {records : List Record} {room : Nat} {e : Error}

theorem contents_error (hflags : ∀ r ∈ records, Flags.isTyped r.flags.toNat = true)
    (hroom : room ≤ 4294967295) (h : contents records room = .error e) :
    e.isContentFault = true := by
  induction records generalizing room with
  | nil => cases h
  | cons r rest ih =>
    obtain ⟨hr, hrest⟩ := List.forall_mem_cons.mp hflags
    rcases bind_eq_error_iff.mp h with hfirst | ⟨c, -, h⟩
    · exact Record.content_error hr hroom hfirst
    · rcases bind_eq_error_iff.mp h with hbehind | ⟨cs, -, hpure⟩
      · exact ih hrest (by omega) hbehind
      · cases hpure

theorem encode_error (hflags : ∀ r ∈ records, Flags.isTyped r.flags.toNat = true)
    (hroom : room ≤ 4294967295) (h : encode records room = .error e) : e.isContentFault = true := by
  rw [encode_eq, map_eq_error_iff] at h
  exact contents_error hflags hroom h

end Message
end Ndef

open Ndef

theorem Snep.frameOf_error {records : List Record} {room : Nat} {e : Error}
    (hflags : ∀ r ∈ records, Flags.isTyped r.flags.toNat = true) (hleast : headerSize ≤ room)
    (hroom : room ≤ SizedField.snepInformation.limit) (h : frameOf records room = .error e) :
    e.isContentFault = true := by
  rw [frameOf_eq records hleast hroom, map_eq_error_iff] at h
  exact Message.contents_error hflags (Nat.le_trans (Nat.sub_le _ _) hroom) h

theorem Snep.Request.parse_error {frame : Bytes} {e : Error} (h : parse frame = .error e) :
    e.isFrameFault = true := by
  rcases parse_eq_error h with ⟨-, rfl⟩ | ⟨v, q, a, b, c, d, information, rfl, ⟨-, rfl⟩ | ⟨-, rfl⟩⟩
  · rfl
  · rfl
  · rfl

namespace Ndef

theorem readAll_error {message : Bytes} {e : Error} (h : readAll message = .error e) :
    ∃ remaining needed, e = .messageTruncated remaining needed := by
  obtain ⟨views, rest, failures, -, -, hending, hitems⟩ := Message.exists_items message
  cases hending with
  | whole =>
    rw [List.append_nil] at hitems
    rw [readAll_eq_ok_iff.mpr hitems] at h
    cases h
  | truncated hrest hneeded =>
    rw [readAll_of_truncated hitems] at h
    cases h
    exact ⟨_, _, rfl⟩

theorem Report.ofMessage_error {message : Bytes} {e : Error}
    (h : (ofMessage message).result = .error e) :
    (∃ remaining needed, e = .messageTruncated remaining needed) ∨
      ∃ needed available, e = .bufferOverflow needed available := by
  unfold ofMessage at h
  cases hread : readAll message with
  | error cause =>
    rw [hread] at h
    cases h
    exact .inl (readAll_error hread)
  | ok records =>
    rw [hread] at h
    exact .inr (entries_error h)

end Ndef
end NearField
