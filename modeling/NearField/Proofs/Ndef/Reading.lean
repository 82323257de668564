import NearField.Proofs.Ndef.Exactness
import NearField.Proofs.Ndef.Writing

/-! # Reading a written message

The wire form of a record reads back as its fields, so a written message reads to its end as its
records in their order. Such a message is canonical: each mark of a record stands just where the
place and the id of the record ask for it.
-/
namespace NearField.Ndef

namespace Content
variable (c : Content)

def raw (first last : Bool) : RawRecord := ⟨c.header first last, c.type, c.id, c.payload⟩

theorem header_fits {c : Content} (h : c.Fits) (first last : Bool) :
    (c.header first last).Fits := by
  obtain ⟨hshort, hid⟩ := has_firstByte h.flags first last
  refine ⟨h.type, ?_, ?_⟩
  · change c.id.length ≤
      if Flags.has (c.firstByte first last) Flags.idPresent = true then 255 else 0
    rw [hid]
    cases hempty : c.id.isEmpty with
    | true => simp [List.isEmpty_iff.mp hempty]
    | false => exact h.id
  · change c.payload.length ≤
      if Flags.has (c.firstByte first last) Flags.shortRecord = true then 255 else 4294967295
    rw [hshort]
    exact h.payload

theorem raw_intact {c : Content} (h : c.Fits) (first last : Bool) : (c.raw first last).Intact :=
  ⟨header_fits h first last, rfl, rfl, rfl⟩

theorem bytes_raw {c : Content} (h : c.Fits) (first last : Bool) :
    (c.raw first last).bytes = c.wire first last :=
  (wire_eq h.flags first last).symm

end Content

/-- The marks of a record that stands at a place. -/
structure RawRecord.Canonical (v : RawRecord) (first last : Bool) : Prop where
  begins : Flags.has v.header.flags Flags.messageBegin = first
  ends : Flags.has v.header.flags Flags.messageEnd = last
  named : Flags.has v.header.flags Flags.idPresent = !v.id.isEmpty
  typeName : v.header.typeNameBits ≠ 7

theorem Flags.place_marked_or_code {flags : UInt8} (h : isTyped flags.toNat = true)
    (first last named : Bool) (typeName : TypeName) :
    has (marked flags first last named ||| Coded.code typeName) messageBegin = first ∧
      has (marked flags first last named ||| Coded.code typeName) messageEnd = last ∧
      (marked flags first last named ||| Coded.code typeName) &&& typeNameBits ≠ 7 := by
  revert first last named
  rcases eq_of_isTyped h with rfl | rfl | rfl | rfl <;> cases typeName <;> decide

theorem Content.place_firstByte {c : Content} (h : c.Fits) (first last : Bool) :
    Flags.has (c.firstByte first last) Flags.messageBegin = first ∧
      Flags.has (c.firstByte first last) Flags.messageEnd = last ∧
      c.firstByte first last &&& Flags.typeNameBits ≠ 7 := by
  rw [firstByte_eq]
  exact Flags.place_marked_or_code h.flags first last _ c.typeName

theorem Content.raw_canonical {c : Content} (h : c.Fits) (first last : Bool) :
    (c.raw first last).Canonical first last := by
  obtain ⟨hbegin, hend, htype⟩ := place_firstByte h first last
  exact ⟨hbegin, hend, (has_firstByte h.flags first last).2, htype⟩

namespace Message

/-- Just the first record begins the message and just the last one ends it. -/
def CanonicalFrom (first : Bool) : List RawRecord → Prop
  | [] => True
  | v :: rest => v.Canonical first rest.isEmpty ∧ CanonicalFrom false rest

/-- A message that reads to its end as records whose marks are where they belong. -/
def IsCanonical (message : Bytes) (least most : Nat) : Prop :=
  ∃ records, items message = records.map .ok ∧ CanonicalFrom true records ∧
    least ≤ records.length ∧ records.length ≤ most

theorem IsCanonical.mono {message : Bytes} {least least' most most' : Nat}
    (h : IsCanonical message least most) (hleast : least' ≤ least) (hmost : most ≤ most') :
    IsCanonical message least' most' := by
  obtain ⟨records, hread, hcanonical, hl, hm⟩ := h
  exact ⟨records, hread, hcanonical, Nat.le_trans hleast hl, Nat.le_trans hm hmost⟩

def rawFrom (first : Bool) : List Content → List RawRecord
  | [] => []
  | c :: rest => c.raw first rest.isEmpty :: rawFrom false rest

theorem length_rawFrom (first : Bool) (cs : List Content) :
    (rawFrom first cs).length = cs.length := by
  induction cs generalizing first with
  | nil => rfl
  | cons c rest ih => rw [rawFrom, List.length_cons, ih, List.length_cons]

theorem isEmpty_rawFrom (first : Bool) (cs : List Content) :
    (rawFrom first cs).isEmpty = cs.isEmpty := by
  cases cs <;> rfl

theorem payload_rawFrom (first : Bool) (cs : List Content) :
    (rawFrom first cs).map RawRecord.payload = cs.map Content.payload := by
  induction cs generalizing first with
  | nil => rfl
  | cons c rest ih =>
    rw [rawFrom, List.map_cons, ih, List.map_cons]
    rfl

theorem rawFrom_intact (first : Bool) {cs : List Content} (h : ∀ c ∈ cs, c.Fits) :
    ∀ v ∈ rawFrom first cs, v.Intact := by
  induction cs generalizing first with
  | nil => simp [rawFrom]
  | cons c rest ih =>
    obtain ⟨hc, hrest⟩ := List.forall_mem_cons.mp h
    exact List.forall_mem_cons.mpr ⟨Content.raw_intact hc first rest.isEmpty, ih false hrest⟩

theorem ofRecords_rawFrom (first : Bool) {cs : List Content} (h : ∀ c ∈ cs, c.Fits) :
    ofRecords (rawFrom first cs) = wireFrom first cs := by
  induction cs generalizing first with
  | nil => rfl
  | cons c rest ih =>
    obtain ⟨hc, hrest⟩ := List.forall_mem_cons.mp h
    rw [rawFrom, ofRecords_cons, Content.bytes_raw hc, ih false hrest, wireFrom]

theorem items_wireFrom (first : Bool) {cs : List Content} (h : ∀ c ∈ cs, c.Fits) :
    items (wireFrom first cs) = (rawFrom first cs).map .ok :=
  items_eq_ok_iff.mpr ⟨rawFrom_intact first h, (ofRecords_rawFrom first h).symm⟩

theorem canonicalFrom_rawFrom (first : Bool) {cs : List Content} (h : ∀ c ∈ cs, c.Fits) :
    CanonicalFrom first (rawFrom first cs) := by
  induction cs generalizing first with
  | nil => trivial
  | cons c rest ih =>
    obtain ⟨hc, hrest⟩ := List.forall_mem_cons.mp h
    refine ⟨?_, ih false hrest⟩
    rw [isEmpty_rawFrom]
    exact Content.raw_canonical hc first rest.isEmpty

theorem isCanonical_wire {cs : List Content} (h : ∀ c ∈ cs, c.Fits) :
    IsCanonical (wire cs) cs.length cs.length :=
  ⟨rawFrom true cs, items_wireFrom true h, canonicalFrom_rawFrom true h,
    Nat.le_of_eq (length_rawFrom true cs).symm, Nat.le_of_eq (length_rawFrom true cs)⟩

theorem isCanonical_of_encode {records : List Record} {room : Nat} {message : Bytes}
    (h : encode records room = .ok message) :
    IsCanonical message records.length records.length ∧ message.length ≤ room := by
  obtain ⟨cs, hcs, rfl, hsize⟩ := contents_of_encode h
  obtain ⟨-, hfits, -⟩ := contents_eq_ok_iff.mp hcs
  exact ⟨length_contents hcs ▸ isCanonical_wire hfits, hsize⟩

end Message
end NearField.Ndef
