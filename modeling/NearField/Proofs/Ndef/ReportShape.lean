import NearField.Proofs.Ndef.ReportText

/-! # What a report tells

Two reports are the same text exactly if they are of messages with the same records, as far as an
entry shows them: type name format, type, id and payload. Fields cannot hold the quotes and commas
around them, so a report can be taken apart in one way only.
-/
namespace NearField

/-- Texts are told from what stands behind them by a character that is in neither. -/
theorem Text.append_cons_inj {c : Char} {s t u v : Text} (hs : c ∉ s) (ht : c ∉ t)
    (h : s ++ c :: u = t ++ c :: v) : s = t ∧ u = v := by
  induction s generalizing t with
  | nil =>
    cases t with
    | nil => exact ⟨rfl, (List.cons.inj h).2⟩
    | cons d t => exact absurd (List.cons.inj h).1 fun heq => ht (heq ▸ List.mem_cons_self)
  | cons d s ih =>
    cases t with
    | nil => exact absurd (List.cons.inj h).1 fun heq => hs (heq ▸ List.mem_cons_self)
    | cons e t =>
      obtain ⟨rfl, hrest⟩ := List.cons.inj h
      obtain ⟨rfl, htail⟩ := ih (fun hmem => hs (List.mem_cons_of_mem _ hmem))
        (fun hmem => ht (List.mem_cons_of_mem _ hmem)) hrest
      exact ⟨rfl, htail⟩

theorem Base64.quote_notMem_encode (data : Bytes) : '"' ∉ encode data := by
  intro h
  have hall : ∀ v : Fin 64, '"' ≠ symbol v.val := by decide
  obtain ⟨v, hv, hquote⟩ := exists_symbol_of_mem_encode h
  exact hall ⟨v, hv⟩ hquote

namespace Ndef

theorem Header.typeNameBits_lt (h : Header) : h.typeNameBits.toNat < 8 := by
  have hall : ∀ b : UInt8, (b &&& Flags.typeNameBits).toNat < 8 :=
    Bytes.forall_byte (by decide +kernel)
  exact hall h.flags

theorem Header.comma_notMem_typeNameBits (h : Header) :
    ',' ∉ Text.decimal h.typeNameBits.toNat := by
  have hall : ∀ n : Fin 8, ',' ∉ Text.decimal n.val := by decide
  exact hall ⟨h.typeNameBits.toNat, h.typeNameBits_lt⟩

theorem Header.typeNameBits_eq_of_decimal {h h' : Header}
    (heq : Text.decimal h.typeNameBits.toNat = Text.decimal h'.typeNameBits.toNat) :
    h.typeNameBits = h'.typeNameBits := by
  have hall : ∀ m n : Fin 8, Text.decimal m.val = Text.decimal n.val → m = n := by decide
  have hfin := hall ⟨_, h.typeNameBits_lt⟩ ⟨_, h'.typeNameBits_lt⟩ heq
  exact UInt8.toNat_inj.mp (Fin.mk.inj hfin)

/-- Two records differ at most in how their header is written: in marks, in the size of the payload
length, and in whether an empty id is told of. -/
structure RawRecord.SameContent (v w : RawRecord) : Prop where
  typeName : v.header.typeNameBits = w.header.typeNameBits
  type : v.type = w.type
  id : v.id = w.id
  payload : v.payload = w.payload

namespace RawRecord
variable {v w : RawRecord} {s t : Text}

theorem flatten_shown_append (v : RawRecord) (s : Text) :
    v.shown.flatten ++ s = "\x7b\"tnf\": ".toList ++ (Text.decimal v.header.typeNameBits.toNat ++
      ',' :: (" \"type\": \"".toList ++ (Base64.encode v.type ++
        '"' :: (", \"id\": \"".toList ++ (Base64.encode v.id ++
          '"' :: (", \"payload\": \"".toList ++ (Base64.encode v.payload ++
            '"' :: '\x7d' :: s))))))) := by
  simp [shown, Report.entryPieces]

/-- An entry is told from what stands behind it, and tells the content of its record. -/
theorem sameContent_of_shown (h : v.shown.flatten ++ s = w.shown.flatten ++ t) :
    v.SameContent w ∧ s = t := by
  rw [flatten_shown_append, flatten_shown_append, List.append_cancel_left_eq] at h
  obtain ⟨hname, h⟩ := Text.append_cons_inj v.header.comma_notMem_typeNameBits
    w.header.comma_notMem_typeNameBits h
  rw [List.append_cancel_left_eq] at h
  obtain ⟨htype, h⟩ := Text.append_cons_inj (Base64.quote_notMem_encode _)
    (Base64.quote_notMem_encode _) h
  rw [List.append_cancel_left_eq] at h
  obtain ⟨hid, h⟩ := Text.append_cons_inj (Base64.quote_notMem_encode _)
    (Base64.quote_notMem_encode _) h
  rw [List.append_cancel_left_eq] at h
  obtain ⟨hpayload, h⟩ := Text.append_cons_inj (Base64.quote_notMem_encode _)
    (Base64.quote_notMem_encode _) h
  exact ⟨⟨Header.typeNameBits_eq_of_decimal hname, Base64.encode_injective htype,
    Base64.encode_injective hid, Base64.encode_injective hpayload⟩, (List.cons.inj h).2⟩

theorem SameContent.entry_eq (h : v.SameContent w) : Report.entry v = Report.entry w := by
  rw [Report.entry, Report.entry, h.typeName, h.type, h.id, h.payload]

end RawRecord

namespace Report
variable {views views' : List RawRecord} {first : Bool}

theorem sameContent_of_entriesText {ending : Text}
    (h : entriesText first views ++ ']' :: ending = entriesText first views' ++ ']' :: ending) :
    List.Forall₂ RawRecord.SameContent views views' := by
  induction views generalizing first views' with
  | nil =>
    cases views' with
    | nil => exact .nil
    | cons w behind => cases first <;> simp [entriesText, RawRecord.shown, entryPieces] at h
  | cons v rest ih =>
    cases views' with
    | nil => cases first <;> simp [entriesText, RawRecord.shown, entryPieces] at h
    | cons w behind =>
      simp only [entriesText, List.append_assoc, List.append_cancel_left_eq] at h
      obtain ⟨hsame, hrest⟩ := RawRecord.sameContent_of_shown h
      exact .cons hsame (ih hrest)

theorem entries_congr (h : List.Forall₂ RawRecord.SameContent views views') :
    entries first views = entries first views' := by
  induction h generalizing first with
  | nil => rfl
  | cons hsame hrest ih => rw [entries, entries, hsame.entry_eq, ih]

theorem ofMessage_congr {m m' : Bytes} (hread : items m = views.map .ok)
    (hread' : items m' = views'.map .ok) (h : List.Forall₂ RawRecord.SameContent views views') :
    ofMessage m = ofMessage m' := by
  rw [ofMessage_eq hread, ofMessage_eq hread', entries_congr h]

theorem exists_views_of_result {m : Bytes} (h : (ofMessage m).result = .ok ()) :
    ∃ views, items m = views.map .ok ∧ (∀ v ∈ views, v.payload.length ≤ maxPayload) ∧
      (ofMessage m).text = "[".toList ++ entriesText true views ++ "]\r\n".toList := by
  cases hread : readAll m with
  | error e =>
    rw [ofMessage, hread] at h
    cases h
  | ok views =>
    have hitems := readAll_eq_ok_iff.mp hread
    have hshort : ∀ v ∈ views, v.payload.length ≤ maxPayload := by
      by_contra hlong
      simp only [not_forall, Nat.not_le] at hlong
      obtain ⟨v, hv, hlong⟩ := hlong
      obtain ⟨u, -, -, hresult⟩ := ofMessage_of_long hitems ⟨v, hv, hlong⟩
      rw [hresult] at h
      cases h
    refine ⟨views, hitems, hshort, ?_⟩
    rw [(ofMessage_of_short hitems hshort).2, listText, ← entriesText_true]

/-- Two reports are equal exactly if the records that they report have the same contents, one by
one. The rest of the headers is not told. -/
theorem text_eq_iff {m m' : Bytes} (h : (ofMessage m).result = .ok ())
    (h' : (ofMessage m').result = .ok ()) :
    ∃ views views' : List RawRecord, items m = views.map .ok ∧ items m' = views'.map .ok ∧
      ((ofMessage m).text = (ofMessage m').text ↔
        List.Forall₂ RawRecord.SameContent views views') := by
  obtain ⟨views, hread, -, htext⟩ := exists_views_of_result h
  obtain ⟨views', hread', -, htext'⟩ := exists_views_of_result h'
  refine ⟨views, views', hread, hread', ?_⟩
  constructor
  · intro heq
    rw [htext, htext', List.append_assoc, List.append_assoc, List.append_cancel_left_eq] at heq
    exact @sameContent_of_entriesText _ _ _ "\r\n".toList heq
  · intro hsame
    rw [ofMessage_congr hread hread' hsame]

/-- A short record with both marks, and a long one that has neither but the length of an empty
id. -/
theorem text_eq_iff_short_long :
    let m : Bytes := [0xD1, 1, 1, 0x54, 0x78]
    let m' : Bytes := [0x09, 1, 0, 0, 0, 1, 0, 0x54, 0x78]
    (ofMessage m).result = .ok () ∧ (ofMessage m').result = .ok () ∧
      (ofMessage m).text = (ofMessage m').text := by
  intro m m'
  let v : RawRecord := ⟨⟨0xD1, 1, 0, 1⟩, [0x54], [], [0x78]⟩
  let w : RawRecord := ⟨⟨0x09, 1, 0, 1⟩, [0x54], [], [0x78]⟩
  have hread : items m = [v].map .ok := Message.items_eq_ok_iff.mpr
    ⟨by simpa using ⟨⟨by decide, by decide, by decide⟩, rfl, rfl, rfl⟩, by decide⟩
  have hread' : items m' = [w].map .ok := Message.items_eq_ok_iff.mpr
    ⟨by simpa using ⟨⟨by decide, by decide, by decide⟩, rfl, rfl, rfl⟩, by decide⟩
  have hok := (ofMessage_of_short hread (by decide)).1
  have hok' := (ofMessage_of_short hread' (by decide)).1
  obtain ⟨views, views', hviews, hviews', heq⟩ := text_eq_iff hok hok'
  have hinj : Function.Injective (List.map (Except.ok : RawRecord → Cursor.Item)) :=
    List.map_injective_iff.mpr fun _ _ h => Except.ok.inj h
  obtain rfl := hinj (hread.symm.trans hviews)
  obtain rfl := hinj (hread'.symm.trans hviews')
  exact ⟨hok, hok', heq.mpr (.cons ⟨by decide, rfl, rfl, rfl⟩ .nil)⟩

end Report
end Ndef
end NearField
