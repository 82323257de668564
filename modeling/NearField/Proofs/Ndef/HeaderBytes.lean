import NearField.Ndef.Header

/-! # Bytes of a header

A header stands for its bytes. Starting a record writes those of a header without lengths, each
length is set by replacing its bytes alone, and parsing gives back the header.
-/
namespace NearField.Ndef
namespace Flags

theorem isTyped_iff {n : Nat} :
    isTyped n = true ↔ n = 0 ∨ n = 0x10 ∨ n = 0x20 ∨ n = 0x30 := by
  constructor
  · intro h
    have he : n &&& 0x30 = n := by simpa [isTyped, typed, chunked, shortRecord] using h
    have hle : n ≤ 0x30 := he ▸ Nat.and_le_right
    have hall : ∀ n : Fin 49, n.val &&& 0x30 = n.val →
        n.val = 0 ∨ n.val = 0x10 ∨ n.val = 0x20 ∨ n.val = 0x30 := by decide
    exact hall ⟨n, by omega⟩ he
  · rintro (rfl | rfl | rfl | rfl) <;> decide

theorem has_or_code (flags : UInt8) (typeName : TypeName) {bit : UInt8}
    (h : bit ∈ [shortRecord, idPresent]) :
    has (flags &&& all ||| Coded.code typeName) bit = has flags bit := by
  have hall : ∀ flags : UInt8, ∀ t ∈ (Coded.all : List TypeName),
      has (flags &&& all ||| Coded.code t) shortRecord = has flags shortRecord ∧
        has (flags &&& all ||| Coded.code t) idPresent = has flags idPresent :=
    Bytes.forall_byte (by decide +kernel)
  obtain ⟨hshort, hid⟩ := hall flags typeName (Coded.mem_all typeName)
  simp only [List.mem_cons, List.not_mem_nil, or_false] at h
  rcases h with rfl | rfl
  · exact hshort
  · exact hid

end Flags

namespace Header

def payloadLengthBytes (h : Header) : Bytes :=
  if Flags.has h.flags Flags.shortRecord then [UInt8.ofNat h.payloadLength]
  else Bytes.word32 h.payloadLength

def idLengthBytes (h : Header) : Bytes :=
  if Flags.has h.flags Flags.idPresent then [UInt8.ofNat h.idLength] else []

def bytes (h : Header) : Bytes :=
  h.flags :: UInt8.ofNat h.typeLength :: (h.payloadLengthBytes ++ h.idLengthBytes)

theorem length_bytes (h : Header) : h.bytes.length = h.size := by
  unfold bytes payloadLengthBytes idLengthBytes size sizeFor
  split <;> split <;> rfl

/-- Every length fits its bytes, and a length without bytes is zero. -/
structure Fits (h : Header) : Prop where
  type : h.typeLength ≤ 255
  id : h.idLength ≤ if Flags.has h.flags Flags.idPresent then 255 else 0
  payload : h.payloadLength ≤ if Flags.has h.flags Flags.shortRecord then 255 else 4294967295

theorem blank_eq_bytes (flags : UInt8) (typeName : TypeName) :
    blank flags typeName = bytes ⟨flags &&& Flags.all ||| Coded.code typeName, 0, 0, 0⟩ := by
  have hshort : Flags.has (flags &&& Flags.all ||| Coded.code typeName) Flags.shortRecord =
      Flags.has flags Flags.shortRecord := Flags.has_or_code flags typeName (by simp)
  have hid : Flags.has (flags &&& Flags.all ||| Coded.code typeName) Flags.idPresent =
      Flags.has flags Flags.idPresent := Flags.has_or_code flags typeName (by simp)
  unfold blank bytes payloadLengthBytes idLengthBytes sizeFor
  simp only [hshort, hid]
  split <;> split <;> rfl

theorem start_eq (buffer : Bytes) (flags : UInt8) (typeName : TypeName) :
    start buffer flags typeName = (Bytes.requireRoom buffer.length (sizeFor flags)).map fun _ =>
      bytes ⟨flags &&& Flags.all ||| Coded.code typeName, 0, 0, 0⟩ ++
        buffer.drop (sizeFor flags) := by
  unfold start
  rw [Bytes.overwrite_zero, length_blank, blank_eq_bytes]
  cases Bytes.requireRoom buffer.length (sizeFor flags) <;> rfl

theorem setTypeLength_bytes (h : Header) (rest : Bytes) (length : Nat) :
    setTypeLength (h.bytes ++ rest) length =
      (SizedField.ndefType.check length).map fun _ =>
        { h with typeLength := length }.bytes ++ rest := by
  have hroom : Bytes.requireRoom (h.bytes ++ rest).length (typeLengthPlace + 1) = .ok () := by
    rw [Bytes.requireRoom_eq_ok_iff]
    simp [bytes, typeLengthPlace]
  unfold setTypeLength
  simp only [hroom, bind, Except.bind]
  cases SizedField.ndefType.check length <;> rfl

theorem setIdLength_bytes (h : Header) (rest : Bytes) (length : Nat)
    (hid : Flags.has h.flags Flags.idPresent = true) :
    setIdLength (h.bytes ++ rest) length =
      (SizedField.ndefId.check length).map fun _ =>
        { h with idLength := length }.bytes ++ rest := by
  have hbyte : Bytes.byteAt (h.bytes ++ rest) 0 = .ok h.flags := rfl
  obtain ⟨front, hplace, hsplit⟩ : ∃ front : Bytes, front.length = idLengthPlace h.flags ∧
      ∀ n, { h with idLength := n }.bytes ++ rest = front ++ [UInt8.ofNat n] ++ rest := by
    refine ⟨h.flags :: UInt8.ofNat h.typeLength :: h.payloadLengthBytes, ?_, fun n => ?_⟩
    · unfold payloadLengthBytes idLengthPlace sizeFor
      rw [hid]
      split <;> rfl
    · simp [bytes, idLengthBytes, hid, payloadLengthBytes]
  have hroom : Bytes.requireRoom (h.bytes ++ rest).length (idLengthPlace h.flags + 1) = .ok () := by
    rw [Bytes.requireRoom_eq_ok_iff, hsplit h.idLength, ← hplace]
    simp only [List.length_append, List.length_singleton]
    omega
  unfold setIdLength
  rw [hbyte]
  simp only [bind, Except.bind, hid, hroom, if_true]
  rw [hsplit h.idLength, hsplit length, ← hplace,
    Bytes.overwrite_between front [UInt8.ofNat h.idLength] rest [UInt8.ofNat length] rfl]
  cases SizedField.ndefId.check length <;> rfl

theorem setPayloadLength_bytes (h : Header) (rest : Bytes) (length : Nat) :
    setPayloadLength (h.bytes ++ rest) length =
      if Flags.has h.flags Flags.shortRecord then
        if maxShortPayload < length then .error (.shortRecordTooLong length)
        else .ok ({ h with payloadLength := length }.bytes ++ rest)
      else (SizedField.ndefPayload.check length).map fun _ =>
        { h with payloadLength := length }.bytes ++ rest := by
  have hbyte : Bytes.byteAt (h.bytes ++ rest) 0 = .ok h.flags := rfl
  have hsplit (n : Nat) : { h with payloadLength := n }.bytes ++ rest =
      [h.flags, UInt8.ofNat h.typeLength] ++ { h with payloadLength := n }.payloadLengthBytes ++
        (h.idLengthBytes ++ rest) := by
    simp [bytes, idLengthBytes]
  unfold setPayloadLength
  rw [hbyte]
  simp only [bind, Except.bind]
  by_cases hs : Flags.has h.flags Flags.shortRecord = true
  · have hp (n : Nat) : { h with payloadLength := n }.payloadLengthBytes = [UInt8.ofNat n] := by
      simp [payloadLengthBytes, hs]
    have hroom : Bytes.requireRoom (h.bytes ++ rest).length (payloadLengthPlace + 1) = .ok () := by
      rw [Bytes.requireRoom_eq_ok_iff, hsplit h.payloadLength, hp]
      simp [payloadLengthPlace]
    simp only [hs, if_true, hroom]
    rw [hsplit h.payloadLength, hsplit length, hp, hp]
    split <;> rfl
  · have hp (n : Nat) : { h with payloadLength := n }.payloadLengthBytes = Bytes.word32 n := by
      simp [payloadLengthBytes, hs]
    have hroom : payloadLengthPlace + 4 ≤ (h.bytes ++ rest).length := by
      rw [hsplit h.payloadLength, hp]
      simp [payloadLengthPlace, Bytes.word32]
    simp only [hs, Bool.false_eq_true, if_false,
      Bytes.putWord32_of_le length hroom (by decide)]
    rw [hsplit h.payloadLength, hsplit length, hp, hp]
    cases SizedField.ndefPayload.check length <;> rfl

theorem shortLength_bytes {h : Header} (hf : h.Fits) (rest : Bytes)
    (hs : Flags.has h.flags Flags.shortRecord = true) :
    UInt8.toNat <$> Bytes.byteAt (h.bytes ++ rest) payloadLengthPlace = .ok h.payloadLength := by
  have hle := hf.payload
  rw [if_pos hs] at hle
  have hbyte : Bytes.byteAt (h.bytes ++ rest) payloadLengthPlace =
      .ok (UInt8.ofNat h.payloadLength) := by
    simp only [bytes, payloadLengthBytes, hs, if_true]
    rfl
  rw [hbyte]
  exact congrArg Except.ok (UInt8.toNat_ofNat_of_lt' (Nat.lt_succ_of_le hle))

theorem longLength_bytes {h : Header} (hf : h.Fits) (rest : Bytes)
    (hs : ¬ Flags.has h.flags Flags.shortRecord = true) :
    Bytes.word32At (h.bytes ++ rest) payloadLengthPlace = .ok h.payloadLength := by
  have hle := hf.payload
  rw [if_neg hs] at hle
  have hword : Bytes.word32At (h.bytes ++ rest) payloadLengthPlace =
      .ok (Bytes.value32 (UInt8.ofNat (h.payloadLength / 0x100_0000))
        (UInt8.ofNat (h.payloadLength / 0x1_0000)) (UInt8.ofNat (h.payloadLength / 0x100))
        (UInt8.ofNat h.payloadLength)) := by
    simp only [bytes, payloadLengthBytes, hs]
    rfl
  rw [hword, Bytes.value32_ofNat (Nat.lt_succ_of_le hle)]

theorem idLength_bytes {h : Header} (hf : h.Fits) (rest : Bytes)
    (hi : Flags.has h.flags Flags.idPresent = true) :
    UInt8.toNat <$> Bytes.byteAt (h.bytes ++ rest) (idLengthPlace h.flags) = .ok h.idLength := by
  have hle := hf.id
  rw [if_pos hi] at hle
  have hbyte : Bytes.byteAt (h.bytes ++ rest) (idLengthPlace h.flags) =
      .ok (UInt8.ofNat h.idLength) := by
    simp only [bytes, payloadLengthBytes, idLengthBytes, idLengthPlace, sizeFor, hi, if_true]
    split <;> rfl
  rw [hbyte]
  exact congrArg Except.ok (UInt8.toNat_ofNat_of_lt' (Nat.lt_succ_of_le hle))

theorem idLength_eq_zero {h : Header} (hf : h.Fits)
    (hi : ¬ Flags.has h.flags Flags.idPresent = true) : h.idLength = 0 := by
  have hle := hf.id
  rw [if_neg hi] at hle
  exact Nat.le_zero.mp hle

theorem parse_bytes {h : Header} (hf : h.Fits) (rest : Bytes) :
    parse (h.bytes ++ rest) = .ok h := by
  have hsize : sizeFor h.flags ≤ (h.bytes ++ rest).length := by
    rw [List.length_append, length_bytes]
    exact Nat.le_add_right _ _
  have hleast := Nat.le_trans (leastSize_le_sizeFor h.flags) hsize
  have htype : Bytes.byteAt (h.bytes ++ rest) typeLengthPlace = .ok (UInt8.ofNat h.typeLength) :=
    rfl
  have htoNat := UInt8.toNat_ofNat_of_lt' (Nat.lt_succ_of_le hf.type)
  have hshort := shortLength_bytes hf rest
  have hlong := longLength_bytes hf rest
  have hid := idLength_bytes hf rest
  obtain ⟨tail, htail⟩ : ∃ tail, h.bytes ++ rest = h.flags :: tail := ⟨_, rfl⟩
  rw [htail] at hsize hleast htype hshort hlong hid ⊢
  simp only [parse, bind, Except.bind, pure, Except.pure, if_neg (Nat.not_lt.mpr hsize),
    if_neg (Nat.not_lt.mpr hleast), htype, htoNat]
  by_cases hs : Flags.has h.flags Flags.shortRecord = true
  · by_cases hi : Flags.has h.flags Flags.idPresent = true
    · simp only [if_pos hs, if_pos hi, hshort hs, hid hi]
    · simp only [if_pos hs, if_neg hi, hshort hs]
      rw [← idLength_eq_zero hf hi]
  · by_cases hi : Flags.has h.flags Flags.idPresent = true
    · simp only [if_neg hs, if_pos hi, hlong hs, hid hi]
    · simp only [if_neg hs, if_neg hi, hlong hs]
      rw [← idLength_eq_zero hf hi]

end Header
end NearField.Ndef
