import NearField.Proofs.Base64.Spelling

/-! # Round trips of a field

Bytes that are written as base64url are read back from the text, and a text that can be read is
written again but for the padding at its end. Each way takes just the room that its result needs.
-/
namespace NearField.Base64
variable {t t' : Text} {data data' : Bytes}

theorem readInto_of_spells (h : Spells t data) (front rest : Bytes) :
    readInto t (front ++ rest) front.length =
      if data.length ≤ rest.length then .ok (front ++ data ++ rest.drop data.length, data.length)
      else .error (.bufferOverflow data.length rest.length) := by
  rw [readInto_behind]
  by_cases hroom : data.length ≤ rest.length
  · rw [readField_eq_ok_iff.mpr ⟨h, hroom⟩, if_pos hroom, map_ok]
  · rw [readField_of_short h (Nat.not_le.mp hroom), if_neg hroom, map_error]

theorem Spells.eq_iff (h : Spells t data) (h' : Spells t' data') :
    data = data' ↔ Text.dropEndWhile (· == '=') t = Text.dropEndWhile (· == '=') t' := by
  rw [h.dropEndWhile_eq, h'.dropEndWhile_eq]
  exact ⟨congrArg encode, encode_injective⟩

/-- Writing needs the length without padding, and no more. What is written is read back where there
is room for the bytes, and leaves everything around them alone. What can be read is written again
without the padding at its end; so a text that is not empty holds a byte, and two texts hold the
same bytes if they differ in that padding only. -/
theorem field_round_trip :
    let bare (t : Text) := Text.dropEndWhile (· == '=') t
    (∀ (data : Bytes) (room : Nat),
      (∃ t, writeField data room = .ok t) ↔ unpaddedLength data.length ≤ room) ∧
    (∀ (data : Bytes) (room : Nat) (t : Text), writeField data room = .ok t →
      (Text.utf8 t).length = unpaddedLength data.length ∧
      ∀ front rest : Bytes, readInto t (front ++ rest) front.length =
        if data.length ≤ rest.length then
          .ok (front ++ data ++ rest.drop data.length, data.length)
        else .error (.bufferOverflow data.length rest.length)) ∧
    (∀ (t : Text) (room : Nat) (data : Bytes), readField t room = .ok data →
      (∀ room', unpaddedLength data.length ≤ room' → writeField data room' = .ok (bare t)) ∧
      (t ≠ [] → 0 < data.length)) ∧
    (∀ (t t' : Text) (room room' : Nat) (data data' : Bytes), readField t room = .ok data →
      readField t' room' = .ok data' → (data = data' ↔ bare t = bare t')) := by
  intro bare
  refine ⟨fun data room => ?_, fun data room t hwrite => ?_, fun t room data hread => ?_,
    fun t t' room room' data data' hread hread' => ?_⟩
  · simp [writeField_eq_ok_iff]
  · obtain ⟨-, rfl⟩ := writeField_eq_ok_iff.mp hwrite
    exact ⟨length_symbols data, readInto_of_spells (spells_encode data)⟩
  · obtain ⟨hspells, -⟩ := readField_eq_ok_iff.mp hread
    refine ⟨fun room' hroom => ?_, fun hne => ?_⟩
    · rw [writeField_eq hroom]
      exact congrArg Except.ok hspells.dropEndWhile_eq.symm
    · rw [List.length_pos_iff]
      exact fun hnil => hne (hspells.nil_iff.mpr hnil)
  · exact (readField_eq_ok_iff.mp hread).1.eq_iff (readField_eq_ok_iff.mp hread').1

end NearField.Base64
