import NearField.Proofs.Ndef.RoundTrip

/-! # Spans of a byte string

Any byte string is a run of records and a remainder that holds no whole record. Asked again and
again, a cursor yields just these records, then one failure if the remainder is not empty, and then
nothing for ever after. Every part of a record is taken from inside the byte string.
-/
namespace NearField

namespace Bytes
variable {data : Bytes} {start length : Nat}

/-- One past the last address. -/
def addressLimit : Nat := 0x1_0000_0000_0000_0000

theorem rangeEnd_of_lt (h : start + length < addressLimit) :
    rangeEnd start length = .ok (start + length) := if_pos h

theorem byteAt_of_lt (h : start < data.length) (hend : start + 1 < addressLimit) :
    ∃ b, byteAt data start = .ok b := by
  refine ⟨data[start], ?_⟩
  rw [byteAt, rangeEnd_of_lt hend, ok_bind, List.getElem?_eq_getElem h]
  rfl

theorem word32At_of_le (h : start + 4 ≤ data.length) (hend : start + 4 < addressLimit) :
    ∃ n, word32At data start = .ok n := by
  have hlen : 4 ≤ (data.drop start).length := by
    rw [List.length_drop]
    omega
  rw [word32At, rangeEnd_of_lt hend, ok_bind]
  match data.drop start, hlen with
  | a :: b :: c :: d :: rest, _ => exact ⟨value32 a b c d, rfl⟩

theorem sliceAt_of_le (h : start + length ≤ data.length) (hend : start + length < addressLimit) :
    sliceAt data start length = .ok ((data.drop start).take length) := by
  rw [sliceAt, rangeEnd_of_lt hend, ok_bind, requireLength_eq_ok_iff.mpr h]
  rfl

end Bytes

namespace Ndef

namespace Header

theorem sizeFor_le (flags : UInt8) : sizeFor flags ≤ 7 := by
  unfold sizeFor
  split <;> split <;> decide

theorem parse_of_le {flags : UInt8} {tail : Bytes} (h : sizeFor flags ≤ (flags :: tail).length) :
    ∃ header, parse (flags :: tail) = .ok header := by
  have hleast := Nat.le_trans (leastSize_le_sizeFor flags) h
  have hlimit := sizeFor_le flags
  obtain ⟨t, ht⟩ : ∃ t, Bytes.byteAt (flags :: tail) typeLengthPlace = .ok t :=
    Bytes.byteAt_of_lt (Nat.lt_of_lt_of_le (by decide) hleast) (by decide)
  obtain ⟨p, hp⟩ : ∃ p, payloadLengthIn flags (flags :: tail) = .ok p := by
    unfold payloadLengthIn
    by_cases hs : Flags.has flags Flags.shortRecord = true
    · obtain ⟨b, hb⟩ : ∃ b, Bytes.byteAt (flags :: tail) payloadLengthPlace = .ok b :=
        Bytes.byteAt_of_lt (Nat.lt_of_lt_of_le (by decide) hleast) (by decide)
      exact ⟨b.toNat, by rw [if_pos hs, hb]; rfl⟩
    · have hlong : payloadLengthPlace + 4 ≤ (flags :: tail).length := by
        unfold sizeFor at h
        rw [if_neg hs] at h
        exact Nat.le_trans (Nat.le_add_right _ _) h
      rw [if_neg hs]
      exact Bytes.word32At_of_le hlong (by decide)
  obtain ⟨i, hi⟩ : ∃ i, idLengthIn flags (flags :: tail) = .ok i := by
    unfold idLengthIn
    by_cases hid : Flags.has flags Flags.idPresent = true
    · have hplace : idLengthPlace flags < (flags :: tail).length := by
        unfold leastSize at hleast
        unfold idLengthPlace
        omega
      obtain ⟨b, hb⟩ := Bytes.byteAt_of_lt hplace
        (by unfold idLengthPlace Bytes.addressLimit; omega)
      exact ⟨b.toNat, by rw [if_pos hid, hb]; rfl⟩
    · exact ⟨0, if_neg hid⟩
  rw [parse_cons, if_neg (Nat.not_lt.mpr hleast), if_neg (Nat.not_lt.mpr h), ht, hp, hi]
  exact ⟨_, rfl⟩

theorem parse_eq_error {data : Bytes} {e : Error} (h : parse data = .error e) :
    ∃ needed, data.length < needed ∧ e = .messageTruncated data.length needed := by
  cases data with
  | nil =>
    cases h
    exact ⟨leastSize, by decide, rfl⟩
  | cons flags tail =>
    by_cases hsize : sizeFor flags ≤ (flags :: tail).length
    · obtain ⟨header, hheader⟩ := parse_of_le hsize
      rw [hheader] at h
      cases h
    · have hshort := Nat.not_le.mp hsize
      rw [parse_cons, if_pos hshort] at h
      by_cases hleast : (flags :: tail).length < leastSize
      · rw [if_pos hleast] at h
        cases h
        exact ⟨leastSize, hleast, rfl⟩
      · rw [if_neg hleast] at h
        cases h
        exact ⟨sizeFor flags, hshort, rfl⟩

theorem Fits.recordSize_lt {h : Header} (hf : h.Fits) : h.recordSize < Bytes.addressLimit := by
  have hsize : h.size ≤ 7 := sizeFor_le h.flags
  have htype := hf.type
  have hid : h.idLength ≤ 255 := Nat.le_trans hf.id (by split <;> decide)
  have hpayload : h.payloadLength ≤ 4294967295 := Nat.le_trans hf.payload (by split <;> decide)
  unfold recordSize Bytes.addressLimit
  omega

end Header

namespace RawRecord

theorem split_eq_error {data : Bytes} {e : Error} (h : split data = .error e) :
    ∃ needed, data.length < needed ∧ e = .messageTruncated data.length needed := by
  unfold split at h
  rcases bind_eq_error_iff.mp h with hparse | ⟨header, -, h⟩
  · exact Header.parse_eq_error hparse
  · by_cases hshort : data.length < header.recordSize
    · simp only [if_pos hshort, throw_eq_error, error_bind, Except.error.injEq] at h
      exact ⟨header.recordSize, hshort, h.symm⟩
    · simp only [if_neg hshort, pure_eq_ok] at h
      cases h

/-- The record at the front of `data`, each part of it taken as a range that is checked. -/
def splitChecked (data : Bytes) : Except Error (RawRecord × Bytes) := do
  let header ← Header.parse data
  if data.length < header.recordSize then
    throw (.messageTruncated data.length header.recordSize)
  let record ← Bytes.sliceAt data 0 header.recordSize
  let type ← Bytes.sliceAt record header.size header.typeLength
  let id ← Bytes.sliceAt record (header.size + header.typeLength) header.idLength
  let payload ← Bytes.sliceAt record (header.size + header.typeLength + header.idLength)
    header.payloadLength
  return (⟨header, type, id, payload⟩, data.drop header.recordSize)

theorem splitChecked_eq (data : Bytes) : splitChecked data = split data := by
  unfold splitChecked split
  cases hparse : Header.parse data with
  | error e => rfl
  | ok header =>
  by_cases hshort : data.length < header.recordSize
  · simp only [ok_bind, if_pos hshort]
    rfl
  have hlimit := (Header.parse_eq_ok_iff.mp hparse).1.recordSize_lt
  have hrecord : Bytes.sliceAt data 0 header.recordSize = .ok (data.take header.recordSize) :=
    Bytes.sliceAt_of_le (by omega) (by omega)
  have hlen : (data.take header.recordSize).length = header.recordSize := by
    rw [List.length_take]
    omega
  -- a range that ends inside the record is the same range of `data`
  have hfield (start length : Nat) (h : start + length ≤ header.recordSize) :
      Bytes.sliceAt (data.take header.recordSize) start length =
        .ok ((data.drop start).take length) := by
    rw [Bytes.sliceAt_of_le (by omega) (by omega), List.drop_take, List.take_take,
      Nat.min_eq_left (by omega)]
  have htype := hfield header.size header.typeLength (by unfold Header.recordSize; omega)
  have hid := hfield (header.size + header.typeLength) header.idLength
    (by unfold Header.recordSize; omega)
  have hpayload := hfield (header.size + header.typeLength + header.idLength) header.payloadLength
    (by unfold Header.recordSize; omega)
  simp only [ok_bind, if_neg hshort, hrecord, htype, hid, hpayload, List.drop_drop]

end RawRecord

namespace Header

/-- Writes a header from what was read of it. -/
def rewrite (h : Header) (typeName : TypeName) (buffer : Bytes) : Except Error Bytes := do
  let buffer ← start buffer h.marks typeName
  let buffer ← setTypeLength buffer h.typeLength
  let buffer ← if Flags.has h.flags Flags.idPresent then setIdLength buffer h.idLength
    else pure buffer
  setPayloadLength buffer h.payloadLength

theorem marks_or_code {h : Header} {typeName : TypeName} (hname : h.typeName? = some typeName) :
    sizeFor h.marks = sizeFor h.flags ∧
      h.marks &&& Flags.all ||| Coded.code typeName = h.flags := by
  have hall : ∀ flags : UInt8, sizeFor (flags &&& Flags.all) = sizeFor flags ∧
      flags &&& Flags.all &&& Flags.all ||| (flags &&& Flags.typeNameBits) = flags :=
    Bytes.forall_byte (by decide +kernel)
  rw [Coded.ofCode?_eq_some_iff.mp hname]
  exact hall h.flags

section Setting
variable {h : Header} {n : Nat}

theorem setTypeLength_of_fits (hn : n ≤ 255) (rest : Bytes) :
    setTypeLength (h.bytes ++ rest) n = .ok ({ h with typeLength := n }.bytes ++ rest) := by
  have hcheck : SizedField.ndefType.check n = .ok () := SizedField.check_eq_ok_iff.mpr hn
  rw [setTypeLength_bytes, hcheck, map_ok]

theorem setIdLength_of_fits (hid : Flags.has h.flags Flags.idPresent = true) (hn : n ≤ 255)
    (rest : Bytes) :
    setIdLength (h.bytes ++ rest) n = .ok ({ h with idLength := n }.bytes ++ rest) := by
  have hcheck : SizedField.ndefId.check n = .ok () := SizedField.check_eq_ok_iff.mpr hn
  rw [setIdLength_bytes h rest n hid, hcheck, map_ok]

theorem setPayloadLength_of_fits
    (hn : n ≤ if Flags.has h.flags Flags.shortRecord then 255 else 4294967295) (rest : Bytes) :
    setPayloadLength (h.bytes ++ rest) n = .ok ({ h with payloadLength := n }.bytes ++ rest) := by
  rw [setPayloadLength_bytes]
  by_cases hs : Flags.has h.flags Flags.shortRecord = true
  · rw [if_pos hs] at hn ⊢
    exact if_neg (Nat.not_lt.mpr hn)
  · rw [if_neg hs] at hn ⊢
    have hcheck : SizedField.ndefPayload.check n = .ok () := SizedField.check_eq_ok_iff.mpr hn
    rw [hcheck, map_ok]

end Setting

theorem rewrite_eq {h : Header} (hf : h.Fits) {typeName : TypeName}
    (hname : h.typeName? = some typeName) {buffer : Bytes} (hroom : h.size ≤ buffer.length) :
    h.rewrite typeName buffer = .ok (h.bytes ++ buffer.drop h.size) := by
  obtain ⟨hsize, hflags⟩ := marks_or_code hname
  obtain ⟨flags, typeLength, idLength, payloadLength⟩ := h
  have hstart : start buffer (Header.marks ⟨flags, typeLength, idLength, payloadLength⟩) typeName =
      .ok (Header.bytes ⟨flags, 0, 0, 0⟩ ++ buffer.drop (sizeFor flags)) := by
    have hrequire : Bytes.requireRoom buffer.length (sizeFor flags) = .ok () :=
      Bytes.requireRoom_eq_ok_iff.mpr hroom
    rw [start_eq, hsize, hflags, hrequire, map_ok]
  have htype := setTypeLength_of_fits (h := ⟨flags, 0, 0, 0⟩) hf.type (buffer.drop (sizeFor flags))
  rw [rewrite, hstart, ok_bind, htype, ok_bind]
  by_cases hi : Flags.has flags Flags.idPresent = true
  · have hid := hf.id
    rw [if_pos hi] at hid
    have hset := setIdLength_of_fits (h := ⟨flags, typeLength, 0, 0⟩) hi hid
      (buffer.drop (sizeFor flags))
    rw [if_pos hi, hset, ok_bind]
    exact setPayloadLength_of_fits (h := ⟨flags, typeLength, idLength, 0⟩) hf.payload _
  · have hzero : idLength = 0 := idLength_eq_zero hf hi
    subst hzero
    rw [if_neg hi, pure_eq_ok, ok_bind]
    exact setPayloadLength_of_fits (h := ⟨flags, typeLength, 0, 0⟩) hf.payload _

end Header

namespace Cursor

/-- The cursor after it was asked once. One that yields nothing stays as it is. -/
def advance (c : Cursor) : Cursor := (c.next?.map Prod.snd).getD c

/-- What a cursor yields when it was asked `n` times before. -/
def answer (c : Cursor) : Nat → Option Item
  | 0 => c.next?.map Prod.fst
  | n + 1 => c.advance.answer n

theorem answer_eq (c : Cursor) (n : Nat) : c.answer n = c.drain.1[n]? := by
  induction n generalizing c with
  | zero =>
    cases h : c.next? with
    | none => rw [answer, h, drain_of_none h]; rfl
    | some step => rw [answer, h, drain_of_some h]; rfl
  | succ n ih =>
    rw [answer, ih]
    cases h : c.next? with
    | none =>
      have hstay : c.advance = c := by rw [advance, h]; rfl
      rw [hstay, drain_of_none h]
      rfl
    | some step =>
      have hmove : c.advance = step.2 := by rw [advance, h]; rfl
      rw [hmove, drain_of_some h, List.getElem?_cons_succ]

end Cursor

/-- A span holds a record and nothing else: the header in the size that its flags ask for, and the
fields in the lengths that it tells. Unless its format is the reserved one, the header has the same
bytes when it is written from what was read. -/
structure RawRecord.Fills (v : RawRecord) (span : Bytes) : Prop where
  parts : span = span.take v.header.size ++ v.type ++ v.id ++ v.payload
  header : Header.parse span = .ok v.header
  headerSize : (span.take v.header.size).length = v.header.size
  type : v.type.length = v.header.typeLength
  id : v.id.length = v.header.idLength
  payload : v.payload.length = v.header.payloadLength
  rewritten : v.header.typeNameBits ≠ 7 → ∃ typeName, v.header.typeName? = some typeName ∧
    ∀ buffer : Bytes, v.header.size ≤ buffer.length →
      v.header.rewrite typeName buffer =
        .ok (span.take v.header.size ++ buffer.drop v.header.size)

theorem RawRecord.fills_bytes {v : RawRecord} (hv : v.Intact) : v.Fills v.bytes := by
  have hheader : v.bytes.take v.header.size = v.header.bytes := by
    rw [bytes, List.append_assoc, List.append_assoc]
    exact List.take_left' (Header.length_bytes v.header)
  refine ⟨?_, ?_, ?_, hv.type, hv.id, hv.payload, ?_⟩
  · rw [hheader, bytes]
  · exact Header.parse_eq_ok_iff.mpr ⟨hv.header, v.type ++ (v.id ++ v.payload), by simp [bytes]⟩
  · rw [hheader, Header.length_bytes]
  · intro hnamed
    obtain ⟨typeName, hcode⟩ := TypeName.exists_code hnamed
    have hname : v.header.typeName? = some typeName := Coded.ofCode?_eq_some_iff.mpr hcode
    refine ⟨typeName, hname, ?_⟩
    intro buffer hroom
    rw [hheader]
    exact Header.rewrite_eq hv.header hname hroom

theorem RawRecord.leastSize_le_length {v : RawRecord} (hv : v.Intact) :
    Header.leastSize ≤ v.bytes.length := by
  rw [length_bytes hv]
  exact v.header.leastSize_le_recordSize

namespace Message

/-- The failure that a remainder ends in: none if nothing remains. -/
inductive Ending : Bytes → List Cursor.Item → Prop
  | whole : Ending [] []
  | truncated {rest : Bytes} {needed : Nat} (hrest : rest ≠ []) (hneeded : rest.length < needed) :
      Ending rest [.error (.messageTruncated rest.length needed)]

/-- Whole records are split off one by one, until nothing is left or what is left is too short. -/
theorem exists_items (message : Bytes) :
    ∃ views rest failures, (∀ v ∈ views, RawRecord.Intact v) ∧ message = ofRecords views ++ rest ∧
      Ending rest failures ∧ items message = views.map .ok ++ failures := by
  induction hn : message.length using Nat.strongRecOn generalizing message with
  | ind n ih =>
    by_cases hne : message = []
    · subst hne
      exact ⟨[], [], [], by simp, rfl, .whole, items_nil⟩
    cases hsplit : RawRecord.split message with
    | error e =>
      obtain ⟨needed, hneeded, rfl⟩ := RawRecord.split_eq_error hsplit
      exact ⟨[], message, _, by simp, rfl, .truncated hne hneeded,
        items_of_split_error hne hsplit⟩
    | ok found =>
      obtain ⟨v, behind⟩ := found
      have hshorter := RawRecord.length_split hsplit
      unfold Header.leastSize at hshorter
      obtain ⟨views, rest, failures, hviews, hbehind, hending, hitems⟩ :=
        ih behind.length (by omega) behind rfl
      obtain ⟨hv, hmessage⟩ := RawRecord.split_eq_ok hsplit
      refine ⟨v :: views, rest, failures, List.forall_mem_cons.mpr ⟨hv, hviews⟩, ?_, hending, ?_⟩
      · rw [hmessage, hbehind, ofRecords_cons, List.append_assoc]
      · rw [items_of_split_ok hne hsplit, hitems, List.map_cons, List.cons_append]

theorem leastSize_mul_le_length {views : List RawRecord} (hviews : ∀ v ∈ views, v.Intact) :
    Header.leastSize * views.length ≤ (ofRecords views).length := by
  induction views with
  | nil => exact Nat.zero_le _
  | cons v rest ih =>
    obtain ⟨hv, hrest⟩ := List.forall_mem_cons.mp hviews
    have hleast := RawRecord.leastSize_le_length hv
    have hbehind := ih hrest
    rw [ofRecords_cons, List.length_append, List.length_cons, Nat.mul_succ]
    omega

/-- Asked again and again, a cursor on any byte string yields the records that fill the spans at its
front one after the other, then one failure if anything is left behind them, and nothing after that.
No access to the byte string is out of its range. -/
theorem read_spans (message : Bytes) :
    ∃ (views : List RawRecord) (spans : List Bytes) (rest : Bytes) (failures : List Cursor.Item),
      (∀ n, (Cursor.mk message false).answer n = (views.map .ok ++ failures)[n]?) ∧
      views.length ≤ message.length / 3 ∧
      List.Forall₂ RawRecord.Fills views spans ∧
      message = spans.flatten ++ rest ∧
      Ending rest failures ∧
      ∀ data, RawRecord.splitChecked data = RawRecord.split data := by
  obtain ⟨views, rest, failures, hviews, hmessage, hending, hitems⟩ := exists_items message
  refine ⟨views, views.map RawRecord.bytes, rest, failures, ?_, ?_, ?_, hmessage, hending,
    RawRecord.splitChecked_eq⟩
  · intro n
    rw [Cursor.answer_eq, ← hitems, items]
  · have hcount := leastSize_mul_le_length hviews
    unfold Header.leastSize at hcount
    rw [hmessage, List.length_append]
    omega
  · rw [List.forall₂_map_right_iff, List.forall₂_same]
    exact fun v hv => RawRecord.fills_bytes (hviews v hv)

end Message
end Ndef
end NearField
