import Mathlib.Data.List.Forall2
import NearField.Proofs.Ndef.Content

/-! # Writing a message

A message of typed records is written if and only if every field of theirs decodes, everything fits
its length field, and the buffer takes the whole. What is then at the front of the buffer is the
wire form of the contents, whatever the buffer held before.
-/
namespace NearField.Ndef

/-- A typed record stands for a content. -/
structure Record.Holds (r : Record) (c : Content) : Prop where
  flags : c.flags = r.flags
  typeName : c.typeName = r.typeName
  type : Base64.Spells r.type c.type
  id : Base64.Spells r.id c.id
  payload : Base64.Spells r.payload c.payload

namespace Record
variable {r : Record} {c : Content} {room : Nat}

theorem Holds.isShort_eq (h : r.Holds c) : r.isShort = c.isShort := by
  rw [isShort, Content.isShort_eq, h.flags]

theorem Holds.headerSize_eq (h : r.Holds c) : r.headerSize = c.headerSize := by
  rw [headerSize, Content.headerSize, h.isShort_eq, h.id.isEmpty_eq]

theorem checkPayload_eq_ok_iff {length : Nat} :
    r.checkPayload length = .ok () ↔ length ≤ if r.isShort then 255 else 4294967295 := by
  unfold checkPayload
  cases r.isShort with
  | true =>
    by_cases h : Header.maxShortPayload < length
    · have hlong : ¬ length ≤ 255 := Nat.not_le.mpr h
      simp [h, hlong]
    · have hshort : length ≤ 255 := Nat.not_lt.mp h
      simp [h, hshort]
  | false =>
    simp [SizedField.check_eq_ok_iff, SizedField.limit]

theorem content_eq_ok_iff : r.content room = .ok c ↔ r.Holds c ∧ c.Fits ∧ c.size ≤ room := by
  unfold content
  by_cases htyped : Flags.isTyped r.flags.toNat = true
  · simp only [htyped, if_true, bind_eq_ok_iff, readChecked_eq_ok_iff, pure_eq_ok,
      Except.ok.injEq, SizedField.check_eq_ok_iff, checkPayload_eq_ok_iff]
    constructor
    · rintro ⟨⟨⟩, hroom, type, ⟨htype, htypeRoom, htypeLimit⟩, id, ⟨hid, hidRoom, hidLimit⟩,
        payload, ⟨hpayload, hpayloadRoom, hpayloadLimit⟩, rfl⟩
      have hholds : r.Holds ⟨r.flags, r.typeName, type, id, payload⟩ :=
        ⟨rfl, rfl, htype, hid, hpayload⟩
      rw [Bytes.requireRoom_eq_ok_iff] at hroom
      refine ⟨hholds, ⟨htyped, htypeLimit, hidLimit, hpayloadLimit⟩, ?_⟩
      rw [Content.size, ← hholds.headerSize_eq]
      dsimp only
      omega
    · rintro ⟨hholds, ⟨-, htype, hid, hpayload⟩, hsize⟩
      rw [Content.size, ← hholds.headerSize_eq] at hsize
      rw [← hholds.isShort_eq] at hpayload
      refine ⟨(), Bytes.requireRoom_eq_ok_iff.mpr (by omega), c.type,
        ⟨hholds.type, by omega, htype⟩, c.id, ⟨hholds.id, by omega, hid⟩, c.payload,
        ⟨hholds.payload, by omega, hpayload⟩, ?_⟩
      rw [← hholds.flags, ← hholds.typeName]
  · simp only [htyped, Bool.false_eq_true, if_false, reduceCtorEq, false_iff, not_and]
    intro hholds hfits
    rw [← hholds.flags] at htyped
    exact absurd hfits.flags htyped

theorem readChecked_of_short {check : Nat → Except Error Unit} {t : Text} {data : Bytes}
    (h : Base64.Spells t data) (hroom : room < data.length) :
    readChecked check t room = .error (.bufferOverflow data.length room) := by
  rw [readChecked, Base64.readField_of_short h hroom, error_bind]

theorem readChecked_of_fits {check : Nat → Except Error Unit} {t : Text} {data : Bytes}
    (h : Base64.Spells t data) (hroom : ¬ room < data.length)
    (hcheck : check data.length = .ok ()) : readChecked check t room = .ok data :=
  readChecked_eq_ok_iff.mpr ⟨h, Nat.not_lt.mp hroom, hcheck⟩

/-- The first part of a record that finds too little room is blamed. -/
theorem content_of_short (hholds : r.Holds c) (hfits : c.Fits) (hroom : room < c.size) :
    ∃ needed available, r.content room = .error (.bufferOverflow needed available) ∧
      available < needed ∧ available ≤ room := by
  unfold content
  obtain ⟨htyped, htype, hid, hpayload⟩ := hfits
  replace htype : SizedField.ndefType.check c.type.length = .ok () :=
    SizedField.check_eq_ok_iff.mpr htype
  replace hid : SizedField.ndefId.check c.id.length = .ok () := SizedField.check_eq_ok_iff.mpr hid
  rw [hholds.flags] at htyped
  rw [Content.size, ← hholds.headerSize_eq] at hroom
  rw [if_pos htyped]
  by_cases hheader : room < r.headerSize
  · refine ⟨r.headerSize, room, ?_, hheader, Nat.le_refl room⟩
    rw [Bytes.requireRoom, if_pos hheader, error_bind]
  rw [Bytes.requireRoom, if_neg hheader, ok_bind]
  by_cases htypeRoom : room - r.headerSize < c.type.length
  · refine ⟨c.type.length, room - r.headerSize, ?_, htypeRoom, Nat.sub_le _ _⟩
    rw [readChecked_of_short hholds.type htypeRoom, error_bind]
  rw [readChecked_of_fits hholds.type htypeRoom htype, ok_bind]
  by_cases hidRoom : room - r.headerSize - c.type.length < c.id.length
  · refine ⟨c.id.length, room - r.headerSize - c.type.length, ?_, hidRoom, by omega⟩
    rw [readChecked_of_short hholds.id hidRoom, error_bind]
  rw [readChecked_of_fits hholds.id hidRoom hid, ok_bind]
  refine ⟨c.payload.length, room - r.headerSize - c.type.length - c.id.length, ?_, by omega,
    by omega⟩
  rw [readChecked_of_short hholds.payload (by omega), error_bind]

end Record

namespace Message

def wireFrom (first : Bool) : List Content → Bytes
  | [] => []
  | c :: rest => c.wire first rest.isEmpty ++ wireFrom false rest

/-- The records in their order, the first marked as the beginning and the last as the end. -/
def wire (contents : List Content) : Bytes := wireFrom true contents

def size : List Content → Nat
  | [] => 0
  | c :: rest => c.size + size rest

theorem length_wireFrom (first : Bool) (contents : List Content) :
    (wireFrom first contents).length = size contents := by
  induction contents generalizing first with
  | nil => rfl
  | cons c rest ih =>
    rw [wireFrom, List.length_append, Content.length_wire, ih, size]

/-- The contents of records that are written into `room` bytes. -/
def contents : List Record → Nat → Except Error (List Content)
  | [], _ => .ok []
  | r :: rest, room => do
    let c ← r.content room
    let behind ← contents rest (room - c.size)
    return c :: behind

theorem contents_eq_ok_iff {records : List Record} {room : Nat} {cs : List Content} :
    contents records room = .ok cs ↔ List.Forall₂ Record.Holds records cs ∧
      (∀ c ∈ cs, c.Fits) ∧ size cs ≤ room := by
  induction records generalizing room cs with
  | nil =>
    simp only [contents, Except.ok.injEq, List.forall₂_nil_left_iff]
    constructor
    · rintro rfl
      exact ⟨rfl, by simp, Nat.zero_le room⟩
    · rintro ⟨rfl, -, -⟩
      rfl
  | cons r rest ih =>
    simp only [contents, bind_eq_ok_iff, Record.content_eq_ok_iff, ih, pure_eq_ok,
      Except.ok.injEq]
    constructor
    · rintro ⟨c, ⟨hholds, hfits, hsize⟩, behind, ⟨hall, hfitAll, hsizeAll⟩, rfl⟩
      refine ⟨.cons hholds hall, List.forall_mem_cons.mpr ⟨hfits, hfitAll⟩, ?_⟩
      rw [size]
      omega
    · rintro ⟨hall, hfits, hsize⟩
      cases hall with
      | cons hholds hall =>
        obtain ⟨hfit, hfits⟩ := List.forall_mem_cons.mp hfits
        rw [size] at hsize
        exact ⟨_, ⟨hholds, hfit, by omega⟩, _, ⟨hall, hfits, by omega⟩, rfl⟩

theorem contents_mono {records : List Record} {room room' : Nat} {cs : List Content}
    (h : contents records room = .ok cs) (hroom : room ≤ room') :
    contents records room' = .ok cs := by
  obtain ⟨hholds, hfits, hsize⟩ := contents_eq_ok_iff.mp h
  exact contents_eq_ok_iff.mpr ⟨hholds, hfits, Nat.le_trans hsize hroom⟩

theorem contents_of_short {records : List Record} {room : Nat} {cs : List Content}
    (hholds : List.Forall₂ Record.Holds records cs) (hfits : ∀ c ∈ cs, c.Fits)
    (hroom : room < size cs) :
    ∃ needed available, contents records room = .error (.bufferOverflow needed available) ∧
      available < needed ∧ available ≤ room := by
  induction hholds generalizing room with
  | nil => exact absurd hroom (Nat.not_lt_zero room)
  | @cons r c rest behind hr hrest ih =>
    obtain ⟨hfit, hfits⟩ := List.forall_mem_cons.mp hfits
    rw [size] at hroom
    by_cases hshort : room < c.size
    · obtain ⟨needed, available, he, hlt, hle⟩ := Record.content_of_short hr hfit hshort
      exact ⟨needed, available, by rw [contents, he, error_bind], hlt, hle⟩
    · obtain ⟨needed, available, he, hlt, hle⟩ := @ih (room - c.size) hfits (by omega)
      refine ⟨needed, available, ?_, hlt, by omega⟩
      rw [contents, Record.content_eq_ok_iff.mpr ⟨hr, hfit, Nat.not_lt.mp hshort⟩, ok_bind, he,
        error_bind]

theorem length_contents {records : List Record} {room : Nat} {cs : List Content}
    (h : contents records room = .ok cs) : records.length = cs.length :=
  (contents_eq_ok_iff.mp h).1.length_eq

theorem writeFrom_eq (first : Bool) (records : List Record) (buffer : Bytes) :
    writeFrom first buffer records = (contents records buffer.length).map fun cs =>
      (wireFrom first cs ++ buffer.drop (wireFrom first cs).length,
        (wireFrom first cs).length) := by
  induction records generalizing first buffer with
  | nil => rfl
  | cons r rest ih =>
    rw [writeFrom, contents, Record.write_eq]
    cases hc : r.content buffer.length with
    | error e => rfl
    | ok c =>
    obtain ⟨-, -, hsize⟩ := Record.content_eq_ok_iff.mp hc
    have hlen := c.length_wire first rest.isEmpty
    have hbehind : (c.wire first rest.isEmpty ++ buffer.drop c.size).drop c.size =
        buffer.drop c.size := List.drop_left' hlen
    simp only [map_ok, ok_bind, Bytes.overwrite_zero, hlen, hbehind, List.take_left' hlen, ih]
    rw [List.length_drop]
    cases hcs : contents rest (buffer.length - c.size) with
    | error e => rfl
    | ok cs =>
      have hempty : rest.isEmpty = cs.isEmpty := by
        rw [Bool.eq_iff_iff, List.isEmpty_iff_length_eq_zero, List.isEmpty_iff_length_eq_zero,
          length_contents hcs]
      simp only [map_ok, ok_bind, pure_eq_ok, wireFrom, ← hempty, List.length_append, hlen,
        List.drop_drop, List.append_assoc]

theorem write_eq (records : List Record) (buffer : Bytes) :
    write records buffer = (contents records buffer.length).map fun cs =>
      (wire cs ++ buffer.drop (wire cs).length, (wire cs).length) :=
  writeFrom_eq true records buffer

theorem contents_of_write {records : List Record} {buffer out : Bytes} {size : Nat}
    (h : write records buffer = .ok (out, size)) :
    ∃ cs, contents records buffer.length = .ok cs ∧ size = (wire cs).length ∧
      out = wire cs ++ buffer.drop size := by
  rw [write_eq] at h
  cases hcs : contents records buffer.length with
  | error e =>
    rw [hcs] at h
    cases h
  | ok cs =>
    rw [hcs] at h
    cases h
    exact ⟨cs, rfl, rfl, rfl⟩

theorem encode_eq (records : List Record) (room : Nat) :
    encode records room = (contents records room).map wire := by
  rw [encode, write_eq, List.length_replicate]
  cases contents records room with
  | error e => rfl
  | ok cs => simp

theorem contents_of_encode {records : List Record} {room : Nat} {message : Bytes}
    (h : encode records room = .ok message) :
    ∃ cs, contents records room = .ok cs ∧ message = wire cs ∧ message.length ≤ room := by
  rw [encode_eq] at h
  cases hcs : contents records room with
  | error e =>
    rw [hcs] at h
    cases h
  | ok cs =>
    rw [hcs] at h
    cases h
    obtain ⟨-, -, hsize⟩ := contents_eq_ok_iff.mp hcs
    rw [← length_wireFrom true] at hsize
    exact ⟨cs, rfl, rfl, hsize⟩

/-- A buffer takes a message exactly if the fields decode, fit their lengths, and leave room for
each other. It then begins with the wire form of the message and is as before behind it. Where only
the room is missing, that is what is reported. -/
theorem write_exact (records : List Record) (buffer : Bytes) :
    (∀ out size, write records buffer = .ok (out, size) ↔
      ∃ cs, List.Forall₂ Record.Holds records cs ∧ (∀ c ∈ cs, c.Fits) ∧
        (wire cs).length ≤ buffer.length ∧ size = (wire cs).length ∧
        out = wire cs ++ buffer.drop size) ∧
    (∀ cs, List.Forall₂ Record.Holds records cs → (∀ c ∈ cs, c.Fits) →
      buffer.length < (wire cs).length →
      ∃ needed available, write records buffer = .error (.bufferOverflow needed available) ∧
        available < needed ∧ available ≤ buffer.length) := by
  constructor
  · intro out size
    rw [write_eq]
    constructor
    · intro h
      cases hcs : contents records buffer.length with
      | error e =>
        rw [hcs] at h
        cases h
      | ok cs =>
        rw [hcs] at h
        cases h
        obtain ⟨hholds, hfits, hsize⟩ := contents_eq_ok_iff.mp hcs
        rw [← length_wireFrom true] at hsize
        exact ⟨cs, hholds, hfits, hsize, rfl, rfl⟩
    · rintro ⟨cs, hholds, hfits, hsize, rfl, rfl⟩
      rw [wire, length_wireFrom] at hsize
      rw [contents_eq_ok_iff.mpr ⟨hholds, hfits, hsize⟩]
      rfl
  · intro cs hholds hfits hshort
    rw [wire, length_wireFrom] at hshort
    obtain ⟨needed, available, he, hlt, hle⟩ := contents_of_short hholds hfits hshort
    exact ⟨needed, available, by rw [write_eq, he, map_error], hlt, hle⟩

end Message
end NearField.Ndef
