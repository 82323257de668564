import NearField.Ndef.Cursor
import NearField.Proofs.Ndef.HeaderBytes

/-! # Exactness of reading

A header is read off just its own bytes, and a record off just its header and its fields. So a byte
string reads to its end as some records if and only if it is the bytes of these records, one after
the other: reading neither loses nor invents anything.
-/
namespace NearField

namespace Bytes
variable {data : Bytes} {start : Nat}

theorem byteAt_eq_ok {b : UInt8} (h : byteAt data start = .ok b) :
    data.drop start = b :: data.drop (start + 1) := by
  unfold byteAt at h
  obtain ⟨stop, -, hbyte⟩ := bind_eq_ok_iff.mp h
  cases hget : data[start]? with
  | none => simp [hget] at hbyte
  | some found =>
    obtain rfl : found = b := by simpa [hget] using hbyte
    obtain ⟨hlt, rfl⟩ := List.getElem?_eq_some_iff.mp hget
    exact List.drop_eq_getElem_cons hlt

theorem word32At_eq_ok {n : Nat} (h : word32At data start = .ok n) :
    data.drop start = word32 n ++ data.drop (start + 4) ∧ n < 0x1_0000_0000 := by
  unfold word32At at h
  obtain ⟨stop, -, hword⟩ := bind_eq_ok_iff.mp h
  split at hword
  · next a b c d rest hdrop =>
    cases hword
    have hrest : data.drop (start + 4) = rest := by
      rw [← List.drop_drop, hdrop]
      rfl
    rw [hdrop, hrest, word32_value32]
    exact ⟨rfl, value32_lt a b c d⟩
  · cases hword

end Bytes

namespace Ndef

namespace Header

def payloadLengthIn (flags : UInt8) (data : Bytes) : Except Error Nat :=
  if Flags.has flags Flags.shortRecord then UInt8.toNat <$> Bytes.byteAt data payloadLengthPlace
  else Bytes.word32At data payloadLengthPlace

def idLengthIn (flags : UInt8) (data : Bytes) : Except Error Nat :=
  if Flags.has flags Flags.idPresent then UInt8.toNat <$> Bytes.byteAt data (idLengthPlace flags)
  else .ok 0

theorem parse_cons (flags : UInt8) (tail : Bytes) :
    parse (flags :: tail) =
      if (flags :: tail).length < leastSize then
        .error (.messageTruncated (flags :: tail).length leastSize)
      else if (flags :: tail).length < sizeFor flags then
        .error (.messageTruncated (flags :: tail).length (sizeFor flags))
      else do
        let typeLength ← Bytes.byteAt (flags :: tail) typeLengthPlace
        let payloadLength ← payloadLengthIn flags (flags :: tail)
        let idLength ← idLengthIn flags (flags :: tail)
        return ⟨flags, typeLength.toNat, idLength, payloadLength⟩ := by
  simp only [parse, payloadLengthIn, idLengthIn]
  split
  · rfl
  split
  · rfl
  cases Flags.has flags Flags.shortRecord <;> cases Flags.has flags Flags.idPresent <;> rfl

theorem parse_eq_ok {data : Bytes} {h : Header} (hparse : parse data = .ok h) :
    (∃ tail, data = h.flags :: tail) ∧
      (∃ t, Bytes.byteAt data typeLengthPlace = .ok t ∧ h.typeLength = t.toNat) ∧
      payloadLengthIn h.flags data = .ok h.payloadLength ∧
      idLengthIn h.flags data = .ok h.idLength := by
  cases data with
  | nil => cases hparse
  | cons flags tail =>
    rw [parse_cons] at hparse
    by_cases hleast : (flags :: tail).length < leastSize
    · rw [if_pos hleast] at hparse
      cases hparse
    by_cases hsize : (flags :: tail).length < sizeFor flags
    · rw [if_neg hleast, if_pos hsize] at hparse
      cases hparse
    simp only [if_neg hleast, if_neg hsize, bind_eq_ok_iff, pure_eq_ok, Except.ok.injEq] at hparse
    obtain ⟨t, ht, p, hp, i, hi, rfl⟩ := hparse
    exact ⟨⟨tail, rfl⟩, ⟨t, ht, rfl⟩, hp, hi⟩

theorem byteLength_eq_ok {data : Bytes} {start n : Nat}
    (h : UInt8.toNat <$> Bytes.byteAt data start = .ok n) :
    data.drop start = [UInt8.ofNat n] ++ data.drop (start + 1) ∧ n ≤ 255 := by
  cases hbyte : Bytes.byteAt data start with
  | error e =>
    rw [hbyte] at h
    cases h
  | ok b =>
    rw [hbyte] at h
    obtain rfl : b.toNat = n := Except.ok.inj h
    have hlt := b.toNat_lt
    rw [UInt8.ofNat_toNat]
    exact ⟨Bytes.byteAt_eq_ok hbyte, by omega⟩

theorem payloadLengthIn_eq_ok {data : Bytes} {h : Header}
    (hread : payloadLengthIn h.flags data = .ok h.payloadLength) :
    data.drop payloadLengthPlace = h.payloadLengthBytes ++
        data.drop (payloadLengthPlace + h.payloadLengthBytes.length) ∧
      h.payloadLength ≤ if Flags.has h.flags Flags.shortRecord then 255 else 4294967295 := by
  unfold payloadLengthIn at hread
  unfold payloadLengthBytes
  by_cases hs : Flags.has h.flags Flags.shortRecord = true
  · simp only [hs, if_true] at hread ⊢
    exact byteLength_eq_ok hread
  · simp only [hs, Bool.false_eq_true, if_false] at hread ⊢
    obtain ⟨hdrop, hlt⟩ := Bytes.word32At_eq_ok hread
    exact ⟨hdrop, Nat.le_of_lt_succ hlt⟩

theorem idLengthIn_eq_ok {data : Bytes} {h : Header}
    (hread : idLengthIn h.flags data = .ok h.idLength) :
    data.drop (payloadLengthPlace + h.payloadLengthBytes.length) =
        h.idLengthBytes ++ data.drop h.size ∧
      h.idLength ≤ if Flags.has h.flags Flags.idPresent then 255 else 0 := by
  have hpayload : h.payloadLengthBytes.length =
      if Flags.has h.flags Flags.shortRecord then 1 else 4 := by
    unfold payloadLengthBytes
    split <;> rfl
  unfold idLengthIn at hread
  unfold idLengthBytes
  by_cases hi : Flags.has h.flags Flags.idPresent = true
  · have hsize : h.size = payloadLengthPlace + h.payloadLengthBytes.length + 1 := by
      rw [size, sizeFor, hpayload, if_pos hi, payloadLengthPlace]
    have hplace : idLengthPlace h.flags = payloadLengthPlace + h.payloadLengthBytes.length := by
      rw [idLengthPlace, ← size, hsize, Nat.add_sub_cancel]
    simp only [hi, if_true, hplace, hsize] at hread ⊢
    exact byteLength_eq_ok hread
  · have hsize : h.size = payloadLengthPlace + h.payloadLengthBytes.length := by
      rw [size, sizeFor, hpayload, if_neg hi, payloadLengthPlace, Nat.add_zero]
    simp only [hi, Bool.false_eq_true, if_false, Except.ok.injEq] at hread ⊢
    rw [hsize, ← hread]
    exact ⟨rfl, Nat.le_refl 0⟩

theorem parse_eq_ok_iff {data : Bytes} {h : Header} :
    parse data = .ok h ↔ h.Fits ∧ ∃ rest, data = h.bytes ++ rest := by
  constructor
  · intro hparse
    obtain ⟨⟨tail, hflags⟩, ⟨t, htype, htypeLength⟩, hpayload, hid⟩ := parse_eq_ok hparse
    obtain ⟨hpayloadBytes, hpayloadLimit⟩ := payloadLengthIn_eq_ok hpayload
    obtain ⟨hidBytes, hidLimit⟩ := idLengthIn_eq_ok hid
    have hlt := t.toNat_lt
    refine ⟨⟨by omega, hidLimit, hpayloadLimit⟩, data.drop h.size, ?_⟩
    calc data = h.flags :: data.drop typeLengthPlace := by rw [hflags]; rfl
      _ = h.flags :: t :: data.drop payloadLengthPlace := by rw [Bytes.byteAt_eq_ok htype]; rfl
      _ = h.bytes ++ data.drop h.size := by
        rw [hpayloadBytes, hidBytes, bytes, htypeLength, UInt8.ofNat_toNat]
        simp
  · rintro ⟨hfits, rest, rfl⟩
    exact parse_bytes hfits rest

end Header

namespace RawRecord
variable (v : RawRecord)

def bytes : Bytes := v.header.bytes ++ v.type ++ v.id ++ v.payload

/-- The header tells how long the fields are. -/
structure Intact : Prop where
  header : v.header.Fits
  type : v.type.length = v.header.typeLength
  id : v.id.length = v.header.idLength
  payload : v.payload.length = v.header.payloadLength

theorem length_bytes {v : RawRecord} (h : v.Intact) : v.bytes.length = v.header.recordSize := by
  rw [bytes, List.length_append, List.length_append, List.length_append, h.type, h.id, h.payload,
    Header.length_bytes, Header.recordSize]

theorem bytes_ne_nil : v.bytes ≠ [] := by simp [bytes, Header.bytes]

theorem split_bytes {v : RawRecord} (hv : v.Intact) (rest : Bytes) :
    split (v.bytes ++ rest) = .ok (v, rest) := by
  have hlen := v.length_bytes hv
  have hparse : Header.parse (v.bytes ++ rest) = .ok v.header := by
    rw [Header.parse_eq_ok_iff]
    exact ⟨hv.header, v.type ++ (v.id ++ (v.payload ++ rest)), by simp [bytes]⟩
  have hroom : ¬ (v.bytes ++ rest).length < v.header.recordSize := by
    rw [List.length_append, hlen]
    omega
  have hfields : (v.bytes ++ rest).drop v.header.size =
      v.type ++ (v.id ++ (v.payload ++ rest)) := by
    rw [bytes, List.append_assoc, List.append_assoc, List.append_assoc]
    exact List.drop_left' (Header.length_bytes v.header)
  rw [split, hparse]
  simp only [ok_bind, if_neg hroom, hfields, List.drop_left' hlen, List.drop_left' hv.type,
    List.drop_left' hv.id, List.take_left' hv.type, List.take_left' hv.id,
    List.take_left' hv.payload]
  rfl

theorem split_eq_ok {data rest : Bytes} {v : RawRecord} (h : split data = .ok (v, rest)) :
    v.Intact ∧ data = v.bytes ++ rest := by
  unfold split at h
  obtain ⟨header, hparse, h⟩ := bind_eq_ok_iff.mp h
  obtain ⟨hfits, tail, rfl⟩ := Header.parse_eq_ok_iff.mp hparse
  by_cases hshort : (header.bytes ++ tail).length < header.recordSize
  · simp only [if_pos hshort, throw_eq_error, error_bind] at h
    cases h
  have hlong := Nat.not_lt.mp hshort
  rw [List.length_append, Header.length_bytes, Header.recordSize] at hlong
  have htail : (header.bytes ++ tail).drop header.size = tail :=
    List.drop_left' (Header.length_bytes header)
  simp only [if_neg hshort, htail, pure_eq_ok, Except.ok.injEq, Prod.mk.injEq] at h
  obtain ⟨rfl, rfl⟩ := h
  refine ⟨⟨hfits, ?_, ?_, ?_⟩, ?_⟩
  · simp only [List.length_take]
    omega
  · simp only [List.length_take, List.length_drop]
    omega
  · simp only [List.length_take, List.length_drop]
    omega
  · have hrest : (header.bytes ++ tail).drop header.recordSize =
        tail.drop (header.typeLength + header.idLength + header.payloadLength) := by
      rw [Header.recordSize, Nat.add_assoc, Nat.add_assoc, ← List.drop_drop, htail, Nat.add_assoc]
    rw [hrest, bytes, List.append_assoc, List.append_assoc, List.append_assoc]
    simp only [← List.drop_drop, List.take_append_drop]

end RawRecord

namespace Message

def ofRecords (views : List RawRecord) : Bytes := (views.map RawRecord.bytes).flatten

theorem ofRecords_cons (v : RawRecord) (rest : List RawRecord) :
    ofRecords (v :: rest) = v.bytes ++ ofRecords rest := rfl

theorem length_payload_le {views : List RawRecord} {v : RawRecord} (hv : v ∈ views) :
    v.payload.length ≤ (ofRecords views).length := by
  have hinside : v.bytes.length ≤ (ofRecords views).length :=
    (List.sublist_flatten_of_mem (List.mem_map_of_mem hv)).length_le
  rw [RawRecord.bytes, List.length_append] at hinside
  exact Nat.le_trans (Nat.le_add_left _ _) hinside

theorem drain_ofRecords {views : List RawRecord} (h : ∀ v ∈ views, v.Intact) :
    (Cursor.mk (ofRecords views) false).drain = (views.map .ok, ⟨[], false⟩) := by
  induction views with
  | nil =>
    rw [Cursor.drain]
    rfl
  | cons v rest ih =>
    obtain ⟨hv, hrest⟩ := List.forall_mem_cons.mp h
    have hsplit := RawRecord.split_bytes hv (ofRecords rest)
    have hne : ofRecords (v :: rest) ≠ [] :=
      List.append_ne_nil_of_left_ne_nil v.bytes_ne_nil (ofRecords rest)
    rw [Cursor.drain_of_split_ok hne hsplit, ih hrest]
    rfl

theorem items_eq_ok {message : Bytes} {views : List RawRecord}
    (h : items message = views.map .ok) :
    (∀ v ∈ views, v.Intact) ∧ message = ofRecords views := by
  induction views generalizing message with
  | nil =>
    by_cases hne : message = []
    · exact ⟨by simp, hne⟩
    cases hsplit : RawRecord.split message with
    | error e =>
      rw [items_of_split_error hne hsplit] at h
      cases h
    | ok found =>
      rw [items_of_split_ok hne hsplit] at h
      cases h
  | cons v rest ih =>
    by_cases hne : message = []
    · rw [hne, items_nil] at h
      cases h
    cases hsplit : RawRecord.split message with
    | error e =>
      rw [items_of_split_error hne hsplit] at h
      cases h
    | ok found =>
      obtain ⟨found, behind⟩ := found
      rw [items_of_split_ok hne hsplit, List.map_cons, List.cons.injEq] at h
      obtain ⟨hfound, hbehind⟩ := h
      cases hfound
      obtain ⟨hintact, rfl⟩ := ih hbehind
      obtain ⟨hv, rfl⟩ := RawRecord.split_eq_ok hsplit
      exact ⟨List.forall_mem_cons.mpr ⟨hv, hintact⟩, rfl⟩

/-- A message reads to its end as some records exactly if it consists of them. -/
theorem items_eq_ok_iff {message : Bytes} {views : List RawRecord} :
    items message = views.map .ok ↔ (∀ v ∈ views, v.Intact) ∧ message = ofRecords views := by
  constructor
  · exact items_eq_ok
  · rintro ⟨hintact, rfl⟩
    rw [items, drain_ofRecords hintact]

end Message
end Ndef
end NearField
