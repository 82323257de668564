import NearField.Proofs.Ndef.Reading

/-! # Round trips of messages

A message that was written reads back as the records that were typed for it. A message that is read
is written again, byte by byte, from the records that could have been typed for it, if its marks
stand where they belong; and no other messages are written.
-/
namespace NearField

/-- Read into any room that takes the bytes, the text gives just them. -/
def Base64.DecodesTo (t : Text) (data : Bytes) : Prop :=
  ∀ room, data.length ≤ room → readField t room = .ok data

theorem Base64.Spells.decodesTo {t : Text} {data : Bytes} (h : Spells t data) : DecodesTo t data :=
  fun _ hroom => readField_eq_ok_iff.mpr ⟨h, hroom⟩

namespace Ndef

/-- A record of a message tells of the record that was typed for its place. -/
structure RawRecord.Tells (v : RawRecord) (r : Record) (first last : Bool) : Prop where
  typeName : v.header.typeName? = some r.typeName
  marks : v.header.marks = r.flags ||| (if first then 0x80 else 0) |||
    (if last then 0x40 else 0) ||| (if v.id.isEmpty then 0 else 0x08)
  type : Base64.DecodesTo r.type v.type
  id : Base64.DecodesTo r.id v.id
  payload : Base64.DecodesTo r.payload v.payload

theorem Flags.parts_marked_or_code {flags : UInt8} (h : isTyped flags.toNat = true)
    (first last named : Bool) (typeName : TypeName) :
    (marked flags first last named ||| Coded.code typeName) &&& all =
        marked flags first last named ∧
      (marked flags first last named ||| Coded.code typeName) &&& typeNameBits =
        Coded.code typeName := by
  revert first last named
  rcases eq_of_isTyped h with rfl | rfl | rfl | rfl <;> cases typeName <;> decide

/-- The first byte of a record holds its marks and its type name format side by side. -/
theorem Content.parts_firstByte {c : Content} (h : c.Fits) (first last : Bool) :
    c.firstByte first last &&& Flags.all = c.flags ||| (if first then 0x80 else 0) |||
        (if last then 0x40 else 0) ||| (if c.id.isEmpty then 0 else 0x08) ∧
      c.firstByte first last &&& Flags.typeNameBits = Coded.code c.typeName := by
  obtain ⟨hmarks, hname⟩ :=
    Flags.parts_marked_or_code h.flags first last (!c.id.isEmpty) c.typeName
  rw [firstByte_eq, hmarks, hname, Flags.marked]
  cases c.id.isEmpty <;> exact ⟨rfl, rfl⟩

theorem Content.raw_tells {r : Record} {c : Content} (hholds : r.Holds c) (hfits : c.Fits)
    (first last : Bool) : (c.raw first last).Tells r first last := by
  obtain ⟨hmarks, hname⟩ := parts_firstByte hfits first last
  refine ⟨?_, ?_, hholds.type.decodesTo, hholds.id.decodesTo, hholds.payload.decodesTo⟩
  · rw [← hholds.typeName]
    exact Coded.ofCode?_eq_some_iff.mpr hname.symm
  · rw [← hholds.flags]
    exact hmarks

namespace Message

theorem getElem?_rawFrom (first : Bool) (cs : List Content) (i : Nat) :
    (rawFrom first cs)[i]? =
      cs[i]?.map fun c => c.raw (first && i == 0) (i + 1 == cs.length) := by
  induction cs generalizing first i with
  | nil => rfl
  | cons c rest ih =>
    cases i with
    | zero =>
      have hlast : (0 + 1 == (c :: rest).length) = rest.isEmpty := by cases rest <;> rfl
      rw [hlast]
      simp [rawFrom]
    | succ i => simpa [rawFrom] using ih false i

/-- A message that was written is read to its last byte, as the records that were typed for it. -/
theorem drain_of_write {records : List Record} {buffer out : Bytes} {size : Nat}
    (h : write records buffer = .ok (out, size)) :
    ∃ views : List RawRecord,
      (Cursor.mk (out.take size) false).drain = (views.map .ok, ⟨[], false⟩) ∧
      views.length = records.length ∧
      ∀ i r, records[i]? = some r → ∃ v : RawRecord, views[i]? = some v ∧
        v.Tells r (i == 0) (i + 1 == records.length) := by
  obtain ⟨cs, hcs, rfl, rfl⟩ := contents_of_write h
  obtain ⟨hholds, hfits, -⟩ := contents_eq_ok_iff.mp hcs
  have hlength := hholds.length_eq
  refine ⟨rawFrom true cs, ?_, by rw [length_rawFrom, hlength], ?_⟩
  · rw [List.take_left, wire, ← ofRecords_rawFrom true hfits]
    exact drain_ofRecords (rawFrom_intact true hfits)
  · intro i r hr
    obtain ⟨hi, rfl⟩ := List.getElem?_eq_some_iff.mp hr
    have hi' : i < cs.length := hlength ▸ hi
    refine ⟨cs[i].raw (true && i == 0) (i + 1 == cs.length), ?_, ?_⟩
    · rw [getElem?_rawFrom, List.getElem?_eq_getElem hi', Option.map_some]
    · rw [← hlength]
      exact Content.raw_tells (hholds.get hi hi') (hfits _ (List.getElem_mem hi')) _ _

/-- A short record without an id, and a long one with a padded id. -/
theorem drain_of_write_two :
    let records : List Record :=
      [⟨0x10, .wellKnown, "QQ".toList, [], "QkM".toList⟩,
        ⟨0x20, .external, "QUI".toList, "QQ==".toList, []⟩]
    ∃ views : List RawRecord,
      (Cursor.mk [0x91, 1, 2, 0x41, 0x42, 0x43, 0x6C, 2, 0, 0, 0, 0, 1, 0x41, 0x42, 0x41]
        false).drain = (views.map .ok, ⟨[], false⟩) ∧
      views.length = records.length ∧
      ∀ i r, records[i]? = some r → ∃ v : RawRecord, views[i]? = some v ∧
        v.Tells r (i == 0) (i + 1 == records.length) := by
  intro records
  have hwrite : write records (List.replicate 18 0) = .ok
      ([0x91, 1, 2, 0x41, 0x42, 0x43, 0x6C, 2, 0, 0, 0, 0, 1, 0x41, 0x42, 0x41, 0, 0], 16) := by
    decide
  exact drain_of_write hwrite

end Message

/-- The record to type for a record of a message: the flags that can be typed, and the shortest
texts of the fields. The reserved type name format cannot be typed. -/
def RawRecord.respelled? (v : RawRecord) : Option Record :=
  v.header.typeName?.map fun typeName =>
    ⟨v.header.flags &&& Flags.typed, typeName, Base64.encode v.type, Base64.encode v.id,
      Base64.encode v.payload⟩

/-- The first byte of a record is made up of its typed flags, its marks, and its format. -/
theorem Flags.marked_parts (b : UInt8) :
    marked (b &&& typed) (has b messageBegin) (has b messageEnd) (has b idPresent) |||
      (b &&& typeNameBits) = b := by
  have hall : ∀ b : UInt8, marked (b &&& typed) (has b messageBegin) (has b messageEnd)
      (has b idPresent) ||| (b &&& typeNameBits) = b := Bytes.forall_byte (by decide +kernel)
  exact hall b

theorem Flags.isTyped_and_typed (b : UInt8) :
    isTyped (b &&& typed).toNat = true ∧ has (b &&& typed) shortRecord = has b shortRecord := by
  have hall : ∀ b : UInt8, isTyped (b &&& typed).toNat = true ∧
      has (b &&& typed) shortRecord = has b shortRecord := Bytes.forall_byte (by decide +kernel)
  exact hall b

theorem TypeName.exists_code {b : UInt8} (h : b &&& Flags.typeNameBits ≠ 7) :
    ∃ typeName : TypeName, Coded.code typeName = b &&& Flags.typeNameBits := by
  have hall : ∀ b : UInt8, b &&& Flags.typeNameBits ≠ 7 →
      (Coded.ofCode? (b &&& Flags.typeNameBits) : Option TypeName).isSome :=
    Bytes.forall_byte (by decide +kernel)
  obtain ⟨typeName, hname⟩ := Option.isSome_iff_exists.mp (hall b h)
  exact ⟨typeName, Coded.ofCode?_eq_some_iff.mp hname⟩

namespace RawRecord

theorem exists_respelled {v : RawRecord} {first last : Bool} (hv : v.Intact)
    (hmarks : v.Canonical first last) :
    ∃ r c, v.respelled? = some r ∧ r.Holds c ∧ c.Fits ∧ c.raw first last = v := by
  obtain ⟨typeName, hcode⟩ := TypeName.exists_code hmarks.typeName
  obtain ⟨htyped, hshort⟩ := Flags.isTyped_and_typed v.header.flags
  have hname : v.header.typeName? = some typeName := Coded.ofCode?_eq_some_iff.mpr hcode
  have hfits := hv.header
  -- the marks are put back from place and id, the other flags are typed: no bit is left over
  have hfirst : Content.firstByte
      ⟨v.header.flags &&& Flags.typed, typeName, v.type, v.id, v.payload⟩ first last =
        v.header.flags := by
    rw [Content.firstByte_eq, ← hmarks.begins, ← hmarks.ends, ← hmarks.named, hcode]
    exact Flags.marked_parts v.header.flags
  refine ⟨_, ⟨v.header.flags &&& Flags.typed, typeName, v.type, v.id, v.payload⟩,
    congrArg (Option.map _) hname, ?_, ?_, ?_⟩
  · exact ⟨rfl, rfl, Base64.spells_encode v.type, Base64.spells_encode v.id,
      Base64.spells_encode v.payload⟩
  · refine ⟨htyped, hv.type ▸ hfits.type, ?_, ?_⟩
    · rw [hv.id]
      exact Nat.le_trans hfits.id (by split <;> decide)
    · rw [hv.payload, Content.isShort_eq, hshort]
      exact hfits.payload
  · rw [Content.raw, Content.header, hfirst, hv.type, hv.id, hv.payload]

end RawRecord

namespace Message

theorem exists_respelledFrom {views : List RawRecord} {first : Bool}
    (hviews : ∀ v ∈ views, v.Intact) (hmarks : CanonicalFrom first views) :
    ∃ records cs, List.Forall₂ (fun v r => RawRecord.respelled? v = some r) views records ∧
      List.Forall₂ Record.Holds records cs ∧ (∀ c ∈ cs, c.Fits) ∧ rawFrom first cs = views := by
  induction views generalizing first with
  | nil => exact ⟨[], [], .nil, .nil, by simp, rfl⟩
  | cons v rest ih =>
    obtain ⟨hv, hrest⟩ := List.forall_mem_cons.mp hviews
    obtain ⟨hmark, hmarks⟩ := hmarks
    obtain ⟨records, cs, hrecords, hholds, hfits, rfl⟩ := ih hrest hmarks
    obtain ⟨r, c, hr, hc, hfit, hraw⟩ := RawRecord.exists_respelled hv hmark
    refine ⟨r :: records, c :: cs, .cons hr hrecords, .cons hc hholds,
      List.forall_mem_cons.mpr ⟨hfit, hfits⟩, ?_⟩
    rw [rawFrom, ← isEmpty_rawFrom false, hraw]

/-- The canonical messages are just the ones that are written. Each is written from the records to
type for it, byte by byte. -/
theorem write_canonical :
    (∀ message views, items message = views.map .ok → CanonicalFrom true views →
      ∃ records, List.Forall₂ (fun v r => RawRecord.respelled? v = some r) views records ∧
        ∀ buffer : Bytes, message.length ≤ buffer.length →
          write records buffer =
            .ok (message ++ buffer.drop message.length, message.length)) ∧
    (∀ records buffer out size, write records buffer = .ok (out, size) →
      ∃ views, items (out.take size) = views.map .ok ∧ CanonicalFrom true views) := by
  constructor
  · intro message views hread hmarks
    obtain ⟨hviews, rfl⟩ := items_eq_ok_iff.mp hread
    obtain ⟨records, cs, hrecords, hholds, hfits, rfl⟩ := exists_respelledFrom hviews hmarks
    refine ⟨records, hrecords, ?_⟩
    intro buffer hroom
    rw [ofRecords_rawFrom true hfits] at hroom ⊢
    have hsize : size cs ≤ buffer.length := by rwa [length_wireFrom] at hroom
    rw [write_eq, contents_eq_ok_iff.mpr ⟨hholds, hfits, hsize⟩]
    rfl
  · intro records buffer out size h
    obtain ⟨cs, hcs, rfl, rfl⟩ := contents_of_write h
    obtain ⟨-, hfits, -⟩ := contents_eq_ok_iff.mp hcs
    refine ⟨rawFrom true cs, ?_, canonicalFrom_rawFrom true hfits⟩
    rw [List.take_left]
    exact items_wireFrom true hfits

end Message
end Ndef
end NearField
