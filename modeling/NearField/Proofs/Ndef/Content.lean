import NearField.Ndef.Message
import NearField.Proofs.Base64.Spelling
import NearField.Proofs.Ndef.HeaderBytes

/-! # Content of a message

A record with its fields decoded has a fixed wire form, and a message is the concatenation of the
wire forms of its records. Writing typed records into a buffer is decoding them, checking what is
decoded, and putting the wire form over the front of the buffer.
-/
namespace NearField.Ndef

/-- A record with its fields decoded. -/
structure Content where
  flags : UInt8
  typeName : TypeName
  type : Bytes := []
  id : Bytes := []
  payload : Bytes := []
  deriving DecidableEq, Repr

namespace Content
variable (c : Content)

def isShort : Bool := c.flags &&& 0x10 != 0

/-- The typed flags above the type name format, with a bit each for the beginning of the message,
for its end and for an id. -/
def firstByte (first last : Bool) : UInt8 :=
  c.flags ||| (if first then 0x80 else 0) ||| (if last then 0x40 else 0) |||
    (if c.id.isEmpty then 0 else 0x08) ||| Coded.code c.typeName

/-- Header and fields. The length of the payload takes one byte or four, the most significant one
first. -/
def wire (first last : Bool) : Bytes :=
  let n := c.payload.length
  [c.firstByte first last, UInt8.ofNat c.type.length] ++
    (if c.isShort then [UInt8.ofNat n]
      else [UInt8.ofNat (n / 0x100_0000), UInt8.ofNat (n / 0x1_0000), UInt8.ofNat (n / 0x100),
        UInt8.ofNat n]) ++
    (if c.id.isEmpty then [] else [UInt8.ofNat c.id.length]) ++ c.type ++ c.id ++ c.payload

def headerSize : Nat := 2 + (if c.isShort then 1 else 4) + (if c.id.isEmpty then 0 else 1)

def size : Nat := c.headerSize + c.type.length + c.id.length + c.payload.length

theorem length_wire (first last : Bool) : (c.wire first last).length = c.size := by
  unfold wire size headerSize
  simp only [List.length_append, List.length_cons, List.length_nil]
  split <;> split <;> rfl

/-- What can be told in a record: flags that may be typed, and lengths that their bytes hold. -/
structure Fits : Prop where
  flags : Flags.isTyped c.flags.toNat = true
  type : c.type.length ≤ 255
  id : c.id.length ≤ 255
  payload : c.payload.length ≤ if c.isShort then 255 else 4294967295

def header (first last : Bool) : Header :=
  ⟨c.firstByte first last, c.type.length, c.id.length, c.payload.length⟩

end Content

namespace Flags

theorem eq_of_isTyped {flags : UInt8} (h : isTyped flags.toNat = true) :
    flags = 0 ∨ flags = 0x10 ∨ flags = 0x20 ∨ flags = 0x30 := by
  rcases isTyped_iff.mp h with h | h | h | h
  · exact .inl (UInt8.toNat_inj.mp h)
  · exact .inr (.inl (UInt8.toNat_inj.mp h))
  · exact .inr (.inr (.inl (UInt8.toNat_inj.mp h)))
  · exact .inr (.inr (.inr (UInt8.toNat_inj.mp h)))

theorem has_shortRecord_marked (flags : UInt8) (first last named : Bool) :
    has (marked flags first last named) shortRecord = has flags shortRecord := by
  have hall : ∀ flags : UInt8, ∀ first last named : Bool,
      has (marked flags first last named) shortRecord = has flags shortRecord :=
    Bytes.forall_byte (by decide +kernel)
  exact hall flags first last named

theorem has_idPresent_marked {flags : UInt8} (h : isTyped flags.toNat = true)
    (first last named : Bool) : has (marked flags first last named) idPresent = named := by
  revert first last named
  rcases eq_of_isTyped h with rfl | rfl | rfl | rfl <;> decide

theorem marked_and_all {flags : UInt8} (h : isTyped flags.toNat = true)
    (first last named : Bool) : marked flags first last named &&& all =
      marked flags first last named := by
  revert first last named
  rcases eq_of_isTyped h with rfl | rfl | rfl | rfl <;> decide

theorem has_marked_or_code {flags : UInt8} (h : isTyped flags.toNat = true)
    (first last named : Bool) (typeName : TypeName) :
    has (marked flags first last named ||| Coded.code typeName) shortRecord =
        has flags shortRecord ∧
      has (marked flags first last named ||| Coded.code typeName) idPresent = named := by
  rw [← marked_and_all h, has_or_code _ _ (by simp), has_or_code _ _ (by simp),
    has_shortRecord_marked, has_idPresent_marked h]
  exact ⟨rfl, rfl⟩

end Flags

namespace Content
variable {c : Content}

theorem isShort_eq (c : Content) : c.isShort = Flags.has c.flags Flags.shortRecord := rfl

theorem firstByte_eq (c : Content) (first last : Bool) : c.firstByte first last =
    Flags.marked c.flags first last (!c.id.isEmpty) ||| Coded.code c.typeName := by
  unfold firstByte Flags.marked
  cases c.id.isEmpty <;> rfl

theorem has_firstByte (h : Flags.isTyped c.flags.toNat = true) (first last : Bool) :
    Flags.has (c.firstByte first last) Flags.shortRecord = c.isShort ∧
      Flags.has (c.firstByte first last) Flags.idPresent = !c.id.isEmpty := by
  rw [firstByte_eq, isShort_eq]
  exact Flags.has_marked_or_code h first last _ c.typeName

theorem wire_eq (h : Flags.isTyped c.flags.toNat = true) (first last : Bool) :
    c.wire first last = (c.header first last).bytes ++ c.type ++ c.id ++ c.payload := by
  obtain ⟨hshort, hid⟩ := has_firstByte h first last
  unfold wire header Header.bytes Header.payloadLengthBytes Header.idLengthBytes Bytes.word32
  rw [hshort, hid]
  cases c.id.isEmpty <;> simp

end Content

/-- The bytes of a text that is read into `room` bytes, if their number passes a check. -/
def readChecked (check : Nat → Except Error Unit) (t : Text) (room : Nat) : Except Error Bytes := do
  let data ← Base64.readField t room
  check data.length
  return data

theorem readChecked_eq_ok_iff {check : Nat → Except Error Unit} {t : Text} {room : Nat}
    {data : Bytes} : readChecked check t room = .ok data ↔
      Base64.Spells t data ∧ data.length ≤ room ∧ check data.length = .ok () := by
  rw [← and_assoc, ← Base64.readField_eq_ok_iff, readChecked]
  cases Base64.readField t room with
  | error e => simp
  | ok data' =>
    cases hcheck : check data'.length with
    | error e =>
      simp only [ok_bind, hcheck, error_bind, reduceCtorEq, Except.ok.injEq, false_iff, not_and]
      rintro rfl
      simp [hcheck]
    | ok =>
      simp only [ok_bind, hcheck, pure_eq_ok, Except.ok.injEq, iff_self_and]
      rintro rfl
      exact hcheck

namespace Record

/-- A field goes behind the fields before it, and its length into the header in front of them. -/
theorem addField_eq {t : Text} {setLength : Bytes → Nat → Except Error Bytes}
    {check : Nat → Except Error Unit} {header : Bytes} {header' : Nat → Bytes}
    (hset : ∀ rest n, setLength (header ++ rest) n = (check n).map fun _ => header' n ++ rest)
    (fields rest : Bytes) :
    addField t setLength (header ++ fields ++ rest, (header ++ fields).length) =
      (readChecked check t rest.length).map fun data =>
        (header' data.length ++ (fields ++ data) ++ rest.drop data.length,
          (header ++ fields).length + data.length) := by
  unfold addField readChecked
  rw [Base64.readInto_behind]
  cases Base64.readField t rest.length with
  | error e => rfl
  | ok data =>
    have hsplit : header ++ fields ++ data ++ rest.drop data.length =
        header ++ (fields ++ data ++ rest.drop data.length) := by simp
    simp only [map_ok, ok_bind, hsplit, hset]
    cases check data.length with
    | error e => rfl
    | ok _ => simp

variable (r : Record)

def isShort : Bool := Flags.has r.flags Flags.shortRecord

def headerSize : Nat := 2 + (if r.isShort then 1 else 4) + (if r.id.isEmpty then 0 else 1)

theorem sizeFor_wireFlags (h : Flags.isTyped r.flags.toNat = true) (first last : Bool) :
    Header.sizeFor (r.wireFlags first last) = r.headerSize := by
  unfold Header.sizeFor headerSize isShort wireFlags
  rw [Flags.has_shortRecord_marked, Flags.has_idPresent_marked h]
  cases r.id.isEmpty <;> rfl

def checkPayload (length : Nat) : Except Error Unit :=
  if r.isShort then
    if Header.maxShortPayload < length then .error (.shortRecordTooLong length) else .ok ()
  else SizedField.ndefPayload.check length

/-- The content of a record that is written into `room` bytes. Each field is given the room that is
left behind the fields before it. -/
def content (room : Nat) : Except Error Content :=
  if Flags.isTyped r.flags.toNat then do
    Bytes.requireRoom room r.headerSize
    let type ← readChecked SizedField.ndefType.check r.type (room - r.headerSize)
    let id ← readChecked SizedField.ndefId.check r.id (room - r.headerSize - type.length)
    let payload ← readChecked r.checkPayload r.payload
      (room - r.headerSize - type.length - id.length)
    return ⟨r.flags, r.typeName, type, id, payload⟩
  else .error (.reservedFlags r.flags.toNat)

theorem addId_eq {h : Header} (hid : Flags.has h.flags Flags.idPresent = !r.id.isEmpty)
    (hzero : h.idLength = 0) (fields rest : Bytes) :
    r.addId (h.bytes ++ fields ++ rest, (h.bytes ++ fields).length) =
      (readChecked SizedField.ndefId.check r.id rest.length).map fun data =>
        ({ h with idLength := data.length }.bytes ++ (fields ++ data) ++ rest.drop data.length,
          (h.bytes ++ fields).length + data.length) := by
  unfold addId
  cases he : r.id.isEmpty with
  | true =>
    have hnil := List.isEmpty_iff.mp he
    have hread : readChecked SizedField.ndefId.check r.id rest.length = .ok [] := by
      rw [readChecked_eq_ok_iff, hnil]
      exact ⟨Base64.spells_encode [], Nat.zero_le _, rfl⟩
    obtain ⟨flags, typeLength, idLength, payloadLength⟩ := h
    obtain rfl : idLength = 0 := hzero
    simp [hread]
  | false =>
    rw [he, Bool.not_false] at hid
    exact addField_eq (fun rest n => Header.setIdLength_bytes h rest n hid) fields rest

theorem setPayloadLength_bytes {h : Header} {flags : UInt8}
    (hshort : Flags.has flags Flags.shortRecord = r.isShort)
    (hshort' : Flags.has h.flags Flags.shortRecord = r.isShort) (rest : Bytes) (length : Nat) :
    setPayloadLength flags (h.bytes ++ rest) length = (r.checkPayload length).map fun _ =>
      { h with payloadLength := length }.bytes ++ rest := by
  unfold setPayloadLength checkPayload
  rw [Header.setPayloadLength_bytes, hshort, hshort']
  cases r.isShort with
  | true => by_cases hlong : Header.maxShortPayload < length <;> simp [hlong]
  | false => simp

theorem addFields_eq {b : UInt8} {flags : UInt8} (hid : Flags.has b Flags.idPresent = !r.id.isEmpty)
    (hshort : Flags.has flags Flags.shortRecord = r.isShort)
    (hshort' : Flags.has b Flags.shortRecord = r.isShort) (rest : Bytes) :
    (do
      let written ← addField r.type Header.setTypeLength
        ((Header.mk b 0 0 0).bytes ++ rest, r.headerSize)
      let written ← r.addId written
      addField r.payload (setPayloadLength flags) written) =
    (do
      let type ← readChecked SizedField.ndefType.check r.type rest.length
      let id ← readChecked SizedField.ndefId.check r.id (rest.length - type.length)
      let payload ← readChecked r.checkPayload r.payload (rest.length - type.length - id.length)
      return ((Header.mk b type.length id.length payload.length).bytes ++ type ++ id ++ payload ++
          rest.drop (type.length + id.length + payload.length),
        r.headerSize + type.length + id.length + payload.length)) := by
  have hsize : ∀ n i p, (Header.mk b n i p).bytes.length = r.headerSize := by
    intro n i p
    rw [Header.length_bytes, Header.size, Header.sizeFor, headerSize, hid, hshort']
    cases r.id.isEmpty <;> rfl
  have htype := addField_eq (t := r.type) (Header.setTypeLength_bytes ⟨b, 0, 0, 0⟩) [] rest
  simp only [List.append_nil, List.nil_append, hsize] at htype
  rw [htype]
  cases readChecked SizedField.ndefType.check r.type rest.length with
  | error e => rfl
  | ok type =>
  have hadd := r.addId_eq (h := ⟨b, type.length, 0, 0⟩) hid rfl type (rest.drop type.length)
  simp only [List.length_append, hsize, List.length_drop] at hadd
  simp only [map_ok, ok_bind]
  rw [hadd]
  cases readChecked SizedField.ndefId.check r.id (rest.length - type.length) with
  | error e => rfl
  | ok id =>
  have hpay := addField_eq (t := r.payload)
    (r.setPayloadLength_bytes (h := ⟨b, type.length, id.length, 0⟩) hshort hshort')
    (type ++ id) ((rest.drop type.length).drop id.length)
  simp only [List.length_append, hsize, List.length_drop, ← Nat.add_assoc] at hpay
  simp only [map_ok, ok_bind]
  rw [hpay]
  cases readChecked r.checkPayload r.payload (rest.length - type.length - id.length) with
  | error e => rfl
  | ok payload =>
    simp [List.append_assoc, List.drop_drop, Nat.add_assoc]

theorem write_eq (first last : Bool) (buffer : Bytes) :
    r.write first last buffer = (r.content buffer.length).map fun c =>
      (Bytes.overwrite buffer 0 (c.wire first last), c.size) := by
  unfold write content
  by_cases htyped : Flags.isTyped r.flags.toNat = true
  · have hsize := r.sizeFor_wireFlags htyped first last
    have hmarked : r.wireFlags first last &&& Flags.all = r.wireFlags first last :=
      Flags.marked_and_all htyped first last _
    have hshort : Flags.has (r.wireFlags first last) Flags.shortRecord = r.isShort :=
      Flags.has_shortRecord_marked _ _ _ _
    obtain ⟨hshort', hid⟩ : Flags.has (r.wireFlags first last ||| Coded.code r.typeName)
        Flags.shortRecord = r.isShort ∧ Flags.has (r.wireFlags first last ||| Coded.code r.typeName)
        Flags.idPresent = !r.id.isEmpty := Flags.has_marked_or_code htyped first last _ r.typeName
    simp only [htyped, if_true, Header.start_eq, hsize, hmarked]
    cases hroom : Bytes.requireRoom buffer.length r.headerSize with
    | error e => rfl
    | ok =>
    simp only [map_ok, ok_bind]
    rw [r.addFields_eq hid hshort hshort', List.length_drop]
    cases readChecked SizedField.ndefType.check r.type (buffer.length - r.headerSize) with
    | error e => rfl
    | ok type =>
    simp only [ok_bind]
    cases hread : readChecked SizedField.ndefId.check r.id
      (buffer.length - r.headerSize - type.length) with
    | error e => rfl
    | ok id =>
    simp only [ok_bind]
    cases readChecked r.checkPayload r.payload
      (buffer.length - r.headerSize - type.length - id.length) with
    | error e => rfl
    | ok payload =>
    obtain ⟨hspells, -, -⟩ := readChecked_eq_ok_iff.mp hread
    have hheader : (Content.mk r.flags r.typeName type id payload).headerSize = r.headerSize := by
      rw [headerSize, hspells.isEmpty_eq]
      rfl
    simp only [ok_bind, pure_eq_ok, map_ok, Bytes.overwrite_zero, Content.length_wire]
    rw [Content.wire_eq htyped]
    simp only [Content.header, Content.firstByte_eq, Content.size, hheader, wireFlags,
      hspells.isEmpty_eq, List.drop_drop, Nat.add_assoc]
  · simp only [Bool.not_eq_true] at htyped
    simp [htyped]

end Record

end NearField.Ndef
