import NearField.Nci
import NearField.Proofs.Base64.Shortage
import NearField.Proofs.Ndef.Refusals

/-! # Shortages

Every check of room reports the room that there is and the size that was wanted, and the size is
larger. Only the size of a field that is read is worked out apart from its check, and for padding
beyond the last group it comes out too small. A message or a request passes such a report on.
-/
namespace NearField
open Ndef

/-- What a refusal in `room` bytes tells of the room: there is no more of it, and it is less than is
needed unless one of the texts is overpadded. -/
def Error.TellsShortage (texts : List Text) (room : Nat) : Error → Prop
  | bufferOverflow needed available =>
    available ≤ room ∧ (available < needed ∨ ∃ t ∈ texts, Base64.Overpadded t)
  | _ => True

section Steps
variable {texts : List Text} {room : Nat} {e : Error}

theorem Error.TellsShortage.mono {texts' : List Text} {room' : Nat}
    (h : e.TellsShortage texts room) (htexts : texts ⊆ texts') (hroom : room ≤ room') :
    e.TellsShortage texts' room' := by
  cases e with
  | bufferOverflow needed available =>
    obtain ⟨hle, hlt | ⟨t, ht, hover⟩⟩ := h
    · exact ⟨Nat.le_trans hle hroom, .inl hlt⟩
    · exact ⟨Nat.le_trans hle hroom, .inr ⟨t, htexts ht, hover⟩⟩
  | _ => trivial

theorem Base64.readField_tells {t : Text} (h : readField t room = .error e) :
    e.TellsShortage [t] room := by
  cases e with
  | bufferOverflow needed available =>
    obtain ⟨hdecode, rfl, rfl⟩ := readField_eq_overflow_iff.mp h
    refine ⟨Nat.le_refl _, ?_⟩
    by_cases hover : Overpadded t
    · exact .inr ⟨t, List.mem_singleton_self t, hover⟩
    · exact .inl (lt_decodedLength hdecode hover)
  | _ => trivial

/-- Writing reports the size with padding, which is at least the size that is checked. -/
theorem Base64.writeField_shortage {data : Bytes} {needed available : Nat}
    (h : writeField data room = .error (.bufferOverflow needed available)) :
    available = room ∧ available < needed := by
  unfold writeField at h
  split at h
  · next hlt =>
    cases h
    rw [unpaddedLength] at hlt
    refine ⟨rfl, ?_⟩
    rw [paddedLength]
    omega
  · cases h

theorem Nci.writePacket_shortage {group opcode : UInt8} {payload : Bytes} {needed available : Nat}
    (h : writePacket room group opcode payload = .error (.bufferOverflow needed available)) :
    available = room ∧ available < needed := by
  rcases bind_eq_error_iff.mp h with hroom | ⟨⟨⟩, -, h⟩
  · obtain ⟨hlt, he⟩ := Bytes.requireRoom_eq_error_iff.mp hroom
    cases he
    exact ⟨rfl, hlt⟩
  rcases bind_eq_error_iff.mp h with hheader | ⟨header, -, hpure⟩
  · rcases bind_eq_error_iff.mp hheader with hcheck | ⟨⟨⟩, -, h⟩
    · cases (SizedField.check_eq_error_iff.mp hcheck).2
    rcases bind_eq_error_iff.mp h with hroom | ⟨⟨⟩, -, hpure⟩
    · obtain ⟨hlt, he⟩ := Bytes.requireRoom_eq_error_iff.mp hroom
      cases he
      exact ⟨rfl, hlt⟩
    · cases hpure
  · cases hpure

end Steps

namespace Ndef
variable {room : Nat} {e : Error}

theorem Record.content_tells {r : Record} (h : r.content room = .error e) :
    e.TellsShortage r.texts room := by
  cases content_refuses h with
  | flags reserved => trivial
  | header short => exact ⟨Nat.le_refl room, .inl short⟩
  | text mem fits read =>
    exact (Base64.readField_tells read).mono (List.cons_subset.mpr ⟨mem, List.nil_subset _⟩) fits
  | byteLength name long =>
    rw [(SizedField.check_eq_error_iff.mp long).2]
    trivial
  | payloadLength fits long =>
    rcases checkPayload_eq_error long with rfl | ⟨-, rfl⟩ <;> trivial

namespace Message

theorem contents_tells {records : List Record} (h : contents records room = .error e) :
    e.TellsShortage (records.flatMap Record.texts) room := by
  induction records generalizing room with
  | nil => cases h
  | cons r rest ih =>
    rw [List.flatMap_cons]
    rcases bind_eq_error_iff.mp h with hfirst | ⟨c, -, h⟩
    · exact (Record.content_tells hfirst).mono (List.subset_append_left _ _) (Nat.le_refl room)
    rcases bind_eq_error_iff.mp h with hbehind | ⟨cs, -, hpure⟩
    · exact (ih hbehind).mono (List.subset_append_right _ _) (Nat.sub_le room _)
    · cases hpure

theorem write_tells {records : List Record} {buffer : Bytes} (h : write records buffer = .error e) :
    e.TellsShortage (records.flatMap Record.texts) buffer.length := by
  rw [write_eq, map_eq_error_iff] at h
  exact contents_tells h

end Message
end Ndef

theorem Snep.write_tells {records : List Record} {frame : Bytes} {e : Error}
    (h : write records frame = .error e) :
    e.TellsShortage (records.flatMap Record.texts) frame.length := by
  by_cases hroom : headerSize ≤ frame.length
  · rw [write_of_room records hroom] at h
    rcases bind_eq_error_iff.mp h with hmessage | ⟨⟨information, length⟩, -, h⟩
    · refine (Message.write_tells hmessage).mono (List.Subset.refl _) ?_
      rw [List.length_drop]
      exact Nat.sub_le _ _
    rcases bind_eq_error_iff.mp h with hcheck | ⟨⟨⟩, -, hpure⟩
    · rw [(SizedField.check_eq_error_iff.mp hcheck).2]
      trivial
    · cases hpure
  · have hlt := Nat.not_le.mp hroom
    rw [write_of_no_room records hlt] at h
    cases h
    exact ⟨Nat.le_refl _, .inl hlt⟩

theorem Base64.readField_of_overpadded {t : Text} (h : Overpadded t) :
    readField t (decodedLength t) = .error (.bufferOverflow (decodedLength t) (decodedLength t)) :=
  readField_eq_overflow_iff.mpr ⟨decode_of_overpadded h, rfl, rfl⟩

/-- An overpadded payload in a message that leaves it just the room that it is said to need. -/
theorem Ndef.Message.write_of_overpadded {t : Text} (h : Base64.Overpadded t) :
    write [{ payload := t }] (List.replicate (6 + Base64.decodedLength t) 0) =
      .error (.bufferOverflow (Base64.decodedLength t) (Base64.decodedLength t)) := by
  have hflags : Flags.isTyped ({ payload := t } : Record).flags.toNat = true :=
    Flags.isTyped_iff.mpr (.inl rfl)
  have hsize : ({ payload := t } : Record).headerSize = 6 := by
    have hlong : Flags.has 0 Flags.shortRecord = false := by decide
    simp [Record.headerSize, Record.isShort, hlong]
  have hheader : Bytes.requireRoom (6 + Base64.decodedLength t) 6 = .ok () :=
    Bytes.requireRoom_eq_ok_iff.mpr (Nat.le_add_right _ _)
  have hempty {field : SizedField} {room : Nat} : readChecked field.check [] room = .ok [] :=
    readChecked_eq_ok_iff.mpr
      ⟨Base64.spells_encode [], Nat.zero_le _, SizedField.check_eq_ok_iff.mpr (Nat.zero_le _)⟩
  have hpayload {check : Nat → Except Error Unit} :
      readChecked check t (Base64.decodedLength t) =
        .error (.bufferOverflow (Base64.decodedLength t) (Base64.decodedLength t)) := by
    rw [readChecked, Base64.readField_of_overpadded h, error_bind]
  have hcontent : Record.content { payload := t } (6 + Base64.decodedLength t) =
      .error (.bufferOverflow (Base64.decodedLength t) (Base64.decodedLength t)) := by
    rw [Record.content, if_pos hflags, hsize, hheader, ok_bind]
    simp only [hempty, hpayload, ok_bind, error_bind, List.length_nil, Nat.sub_zero,
      Nat.add_sub_cancel_left]
  rw [write_eq, List.length_replicate, contents, hcontent]
  rfl

/-- Reading a field tells of a true shortage in every room just if the padding of the text stays in
its last group. Writing a field and a packet always do. Records that are put into a message or a
request tell of no more room than the buffer has, and of too little of it, unless a text of theirs
is overpadded; and any such payload can be told of a shortage that is none. -/
theorem shortages_told (t : Text) (data payload : Bytes) (group opcode : UInt8) (limit : Nat)
    (records : List Record) (buffer : Bytes) :
    ((∀ room needed available,
        Base64.readField t room = .error (.bufferOverflow needed available) →
          available = room ∧ available < needed) ↔ ¬ Base64.Overpadded t) ∧
    (∀ needed available, Base64.writeField data limit = .error (.bufferOverflow needed available) →
      available = limit ∧ available < needed) ∧
    (∀ needed available,
      Nci.writePacket limit group opcode payload = .error (.bufferOverflow needed available) →
        available = limit ∧ available < needed) ∧
    (∀ needed available,
      Message.write records buffer = .error (.bufferOverflow needed available) ∨
          Snep.write records buffer = .error (.bufferOverflow needed available) →
        available ≤ buffer.length ∧
          (available < needed ∨ ∃ r ∈ records, ∃ t ∈ r.texts, Base64.Overpadded t)) ∧
    (Base64.Overpadded t → ∃ buffer needed,
      Message.write [{ payload := t }] buffer = .error (.bufferOverflow needed needed)) := by
  refine ⟨Base64.shortage_iff t, fun _ _ => Base64.writeField_shortage,
    fun _ _ => Nci.writePacket_shortage, ?_, fun ht => ⟨_, _, Message.write_of_overpadded ht⟩⟩
  intro needed available h
  have htells : (Error.bufferOverflow needed available).TellsShortage
      (records.flatMap Record.texts) buffer.length := by
    rcases h with h | h
    · exact Message.write_tells h
    · exact Snep.write_tells h
  obtain ⟨hle, hlt | ⟨t, ht, hover⟩⟩ := htells
  · exact ⟨hle, .inl hlt⟩
  · obtain ⟨r, hr, ht⟩ := List.mem_flatMap.mp ht
    exact ⟨hle, .inr ⟨r, hr, t, ht, hover⟩⟩

/-- One byte with twice the padding is said to need one byte, and is refused where there are two. -/
theorem exists_untrue_shortage : ∃ t room needed available,
    Base64.readField t room = .error (.bufferOverflow needed available) ∧ ¬ available < needed :=
  ⟨"QQ====".toList, 2, 1, 2, rfl, by decide⟩

end NearField
