import NearField.Ndef.Report
import NearField.Proofs.Ndef.RoundTrip

/-! # Text of a report

A report lists its records in brackets, with commas between them. Of the fields of a record only the
payload can be too long for its line: then the report ends behind the entries before it.
-/
namespace NearField
namespace Ndef

namespace Report

/-- The longest payload that an entry shows. -/
def maxPayload : Nat := 513

/-- How a record is shown: its type name format by number, and the texts of its fields. -/
def entryPieces (typeName : Nat) (type id payload : Text) : List Text :=
  ["\x7b\"tnf\": ".toList, Text.decimal typeName, ", \"type\": \"".toList, type,
    "\", \"id\": \"".toList, id, "\", \"payload\": \"".toList, payload, "\"\x7d".toList]

def listText (entries : List (List Text)) : Text :=
  "[".toList ++ List.intercalate ",".toList (entries.map List.flatten) ++ "]\r\n".toList

end Report

def RawRecord.shown (v : RawRecord) : List Text :=
  Report.entryPieces v.header.typeNameBits.toNat (Base64.encode v.type) (Base64.encode v.id)
    (Base64.encode v.payload)

/-- The entry of a typed record: its texts without their padding. -/
def Record.shown (r : Record) : List Text :=
  Report.entryPieces (Coded.code r.typeName).toNat (Text.dropEndWhile (· == '=') r.type)
    (Text.dropEndWhile (· == '=') r.id) (Text.dropEndWhile (· == '=') r.payload)

theorem Record.Holds.shown_eq {r : Record} {c : Content} (hholds : r.Holds c) (hfits : c.Fits)
    (first last : Bool) : (c.raw first last).shown = r.shown := by
  have hname : (c.raw first last).header.typeNameBits = Coded.code r.typeName := by
    rw [← hholds.typeName]
    exact (Content.parts_firstByte hfits first last).2
  rw [RawRecord.shown, Record.shown, hname, hholds.type.dropEndWhile_eq,
    hholds.id.dropEndWhile_eq, hholds.payload.dropEndWhile_eq]
  rfl

theorem Message.shown_rawFrom {records : List Record} {cs : List Content} (first : Bool)
    (hholds : List.Forall₂ Record.Holds records cs) (hfits : ∀ c ∈ cs, c.Fits) :
    (rawFrom first cs).map RawRecord.shown = records.map Record.shown := by
  induction hholds generalizing first with
  | nil => rfl
  | @cons r c rest behind hr hrest ih =>
    obtain ⟨hc, hbehind⟩ := List.forall_mem_cons.mp hfits
    rw [rawFrom, List.map_cons, List.map_cons, hr.shown_eq hc, ih false hbehind]

namespace Report
variable {v : RawRecord}

theorem writeField_of_intact (hv : v.Intact) :
    Base64.writeField v.type fieldRoom = .ok (Base64.encode v.type) ∧
      Base64.writeField v.id fieldRoom = .ok (Base64.encode v.id) := by
  have hroom {data : Bytes} (h : data.length ≤ 255) :
      Base64.writeField data fieldRoom = .ok (Base64.encode data) := by
    refine Base64.writeField_eq ?_
    rw [fieldRoom_eq, Base64.unpaddedLength]
    omega
  constructor
  · exact hroom (hv.type ▸ hv.header.type)
  · refine hroom ?_
    rw [hv.id]
    exact Nat.le_trans hv.header.id (by split <;> decide)

theorem unpaddedLength_le_fieldRoom {n : Nat} :
    Base64.unpaddedLength n ≤ fieldRoom ↔ n ≤ maxPayload := by
  rw [fieldRoom_eq, Base64.unpaddedLength, maxPayload]
  omega

theorem entry_eq_ok (hv : v.Intact) (h : v.payload.length ≤ maxPayload) :
    entry v = .ok v.shown := by
  obtain ⟨htype, hid⟩ := writeField_of_intact hv
  have hpayload := Base64.writeField_eq (unpaddedLength_le_fieldRoom.mpr h)
  rw [entry, htype, ok_bind, hid, ok_bind, hpayload, ok_bind]
  rfl

theorem entry_eq_error (hv : v.Intact) (h : maxPayload < v.payload.length) :
    entry v =
      .error (.bufferOverflow (Base64.paddedLength v.payload.length) fieldRoom) := by
  obtain ⟨htype, hid⟩ := writeField_of_intact hv
  have hlong : fieldRoom < Base64.unpaddedLength v.payload.length := by
    rw [← Nat.not_le, unpaddedLength_le_fieldRoom]
    exact Nat.not_le.mpr h
  rw [entry, htype, ok_bind, hid, ok_bind, Base64.writeField, if_pos hlong, error_bind]

end Report

theorem mapM_id_eq_ok_iff {found : List Cursor.Item} {views : List RawRecord} :
    found.mapM id = .ok views ↔ found = views.map .ok := by
  induction found generalizing views with
  | nil => cases views <;> simp
  | cons item rest ih =>
    simp only [List.mapM_cons, bind_eq_ok_iff, id_eq, ih, pure_eq_ok, Except.ok.injEq]
    constructor
    · rintro ⟨v, rfl, behind, rfl, rfl⟩
      rfl
    · intro h
      cases views with
      | nil => cases h
      | cons v behind =>
        obtain ⟨rfl, rfl⟩ := List.cons.inj h
        exact ⟨v, rfl, behind, rfl, rfl⟩

theorem readAll_eq_ok_iff {message : Bytes} {views : List RawRecord} :
    readAll message = .ok views ↔ items message = views.map .ok := mapM_id_eq_ok_iff

/-- The first item that is no record decides that a message cannot be read. -/
theorem readAll_of_truncated {message : Bytes} {views : List RawRecord} {e : Error}
    (h : items message = views.map .ok ++ [.error e]) : readAll message = .error e := by
  have hread : ∀ views : List RawRecord,
      (views.map .ok ++ [.error e] : List Cursor.Item).mapM id = .error e := by
    intro views
    induction views with
    | nil => rfl
    | cons v rest ih =>
      rw [List.map_cons, List.cons_append, List.mapM_cons, ih]
      rfl
  rw [readAll, h, hread views]

namespace Report
variable {views rest : List RawRecord}

/-- Entries behind each other, each of them behind a comma unless it is the first of all. -/
def entriesText (first : Bool) : List RawRecord → Text
  | [] => []
  | v :: rest => (if first then [] else ",".toList) ++ v.shown.flatten ++ entriesText false rest

theorem entriesText_true (views : List RawRecord) :
    entriesText true views =
      List.intercalate ",".toList ((views.map RawRecord.shown).map List.flatten) := by
  induction views with
  | nil => rfl
  | cons v rest ih =>
    cases rest with
    | nil => simp [entriesText, List.intercalate]
    | cons w rest =>
      have hcomma : entriesText true (v :: w :: rest) =
          v.shown.flatten ++ ",".toList ++ entriesText true (w :: rest) := by simp [entriesText]
      rw [hcomma, ih]
      simp [List.intercalate]

theorem entries_append {first : Bool} (hviews : ∀ v ∈ views, v.Intact)
    (hshort : ∀ v ∈ views, v.payload.length ≤ maxPayload) :
    (entries first (views ++ rest)).text =
        entriesText first views ++ (entries (first && views.isEmpty) rest).text ∧
      (entries first (views ++ rest)).result =
        (entries (first && views.isEmpty) rest).result := by
  induction views generalizing first with
  | nil => simp [entriesText]
  | cons v behind ih =>
    obtain ⟨hv, hviews⟩ := List.forall_mem_cons.mp hviews
    obtain ⟨hpayload, hshort⟩ := List.forall_mem_cons.mp hshort
    obtain ⟨htext, hresult⟩ := @ih false hviews hshort
    simp only [List.cons_append, entries, entry_eq_ok hv hpayload, after, text, List.flatten_append,
      entriesText, List.isEmpty_cons, Bool.and_false]
    constructor
    · rw [← text, htext]
      cases first <;> simp [text]
    · exact hresult

theorem ofMessage_eq {message : Bytes} (hread : items message = views.map .ok) :
    ofMessage message = after ["[".toList] (entries true views) := by
  rw [ofMessage, readAll_eq_ok_iff.mpr hread]

theorem ofMessage_of_short {message : Bytes} (hread : items message = views.map .ok)
    (hshort : ∀ v ∈ views, v.payload.length ≤ maxPayload) :
    (ofMessage message).result = .ok () ∧
      (ofMessage message).text = listText (views.map RawRecord.shown) := by
  obtain ⟨hviews, -⟩ := Message.items_eq_ok_iff.mp hread
  obtain ⟨htext, hresult⟩ := @entries_append _ [] true hviews hshort
  rw [List.append_nil] at htext hresult
  rw [ofMessage_eq hread]
  refine ⟨hresult, ?_⟩
  rw [listText, ← entriesText_true, List.append_assoc]
  exact congrArg ("[".toList ++ ·) htext

theorem ofMessage_of_length_le {message : Bytes} (hread : items message = views.map .ok)
    (hlength : message.length ≤ maxPayload) :
    (ofMessage message).result = .ok () ∧
      (ofMessage message).text = listText (views.map RawRecord.shown) := by
  obtain ⟨-, rfl⟩ := Message.items_eq_ok_iff.mp hread
  exact ofMessage_of_short hread fun v hv => Nat.le_trans (Message.length_payload_le hv) hlength

theorem exists_first_long (h : ∃ v ∈ views, maxPayload < v.payload.length) :
    ∃ front v behind, views = front ++ v :: behind ∧
      (∀ u ∈ front, u.payload.length ≤ maxPayload) ∧ maxPayload < v.payload.length := by
  obtain ⟨v, hfind⟩ : ∃ v, views.find? (fun v => maxPayload < v.payload.length) = some v := by
    rw [← Option.isSome_iff_exists, List.find?_isSome]
    simpa using h
  obtain ⟨hlong, front, behind, hsplit, hfront⟩ := List.find?_eq_some_iff_append.mp hfind
  exact ⟨front, v, behind, hsplit, by simpa using hfront, by simpa using hlong⟩

/-- The first payload that is too long ends a report behind the entries before it, and behind the
comma that would part it from them. -/
theorem ofMessage_of_first_long {message : Bytes} {front behind : List RawRecord}
    (hread : items message = (front ++ v :: behind).map .ok)
    (hfront : ∀ u ∈ front, u.payload.length ≤ maxPayload)
    (hlong : maxPayload < v.payload.length) :
    (ofMessage message).result =
        .error (.bufferOverflow (Base64.paddedLength v.payload.length) fieldRoom) ∧
      (ofMessage message).text = "[".toList ++ entriesText true front ++
        if front.isEmpty then [] else ",".toList := by
  obtain ⟨hviews, -⟩ := Message.items_eq_ok_iff.mp hread
  obtain ⟨hintact, hrest⟩ := List.forall_mem_append.mp hviews
  obtain ⟨hv, -⟩ := List.forall_mem_cons.mp hrest
  obtain ⟨htext, hresult⟩ := @entries_append _ (v :: behind) true hintact hfront
  have hended (first : Bool) : entries first (v :: behind) =
      ⟨if first then [] else [",".toList],
        .error (.bufferOverflow (Base64.paddedLength v.payload.length) fieldRoom)⟩ := by
    rw [entries, entry_eq_error hv hlong, after, List.append_nil]
  rw [Bool.true_and, hended] at htext hresult
  rw [ofMessage_eq hread]
  refine ⟨hresult, ?_⟩
  rw [List.append_assoc]
  refine congrArg ("[".toList ++ ·) (htext.trans ?_)
  cases front.isEmpty <;> rfl

theorem ofMessage_of_long {message : Bytes} (hread : items message = views.map .ok)
    (h : ∃ v ∈ views, maxPayload < v.payload.length) :
    ∃ v ∈ views, maxPayload < v.payload.length ∧ (ofMessage message).result =
      .error (.bufferOverflow (Base64.paddedLength v.payload.length) fieldRoom) := by
  obtain ⟨front, v, behind, rfl, hfront, hlong⟩ := exists_first_long h
  exact ⟨v, List.mem_append_right front List.mem_cons_self, hlong,
    (ofMessage_of_first_long hread hfront hlong).1⟩

end Report
end Ndef
end NearField
