import NearField.Ndef.Printing
import NearField.Proofs.Ndef.ReportOutput
import NearField.Proofs.Ndef.ReportShape

/-! # Printing into a limited sink

Printing a message offers the pieces of its report one after the other and ends with the result of
the report, unless a piece is refused before. So a limited sink holds a front of what an unlimited
one holds, and the failure that counts is the one that is met first.
-/
namespace NearField

def Text.IsAscii (t : Text) : Prop := ∀ c ∈ t, c.toNat < 128

instance (t : Text) : Decidable (Text.IsAscii t) :=
  List.decidableBAll (fun c : Char => c.toNat < 128) t

theorem Text.utf8_of_isAscii {t : Text} (h : t.IsAscii) :
    utf8 t = t.map fun c => UInt8.ofNat c.toNat := by
  induction t with
  | nil => rfl
  | cons c rest ih =>
    obtain ⟨hc, hrest⟩ := List.forall_mem_cons.mp h
    have hbyte : String.utf8EncodeChar c = [UInt8.ofNat c.toNat] := by
      unfold String.utf8EncodeChar
      exact if_pos (Nat.le_of_lt_succ hc)
    rw [List.map_cons, ← ih hrest, utf8, List.flatMap_cons, hbyte]
    rfl

theorem Text.isAscii_append {s t : Text} : IsAscii (s ++ t) ↔ IsAscii s ∧ IsAscii t :=
  List.forall_mem_append

theorem Base64.isAscii_encode (data : Bytes) : Text.IsAscii (encode data) := by
  intro c hc
  obtain ⟨v, hv, rfl⟩ := exists_symbol_of_mem_encode hc
  exact symbol_lt hv

theorem Base64.isAscii_of_writeField {data : Bytes} {room : Nat} {t : Text}
    (h : writeField data room = .ok t) : Text.IsAscii t := by
  rw [(writeField_eq_ok_iff.mp h).2]
  exact isAscii_encode data

namespace Ndef

theorem Header.isAscii_typeNameBits (h : Header) :
    Text.IsAscii (Text.decimal h.typeNameBits.toNat) := by
  have hall : ∀ n : Fin 8, Text.IsAscii (Text.decimal n.val) := by decide
  exact hall ⟨h.typeNameBits.toNat, h.typeNameBits_lt⟩

namespace Sink

theorem run_offer_none (piece : Text) (kept : Bytes) :
    (offer piece).run ⟨none, kept⟩ = .ok () ⟨none, kept ++ Text.utf8 piece⟩ := rfl

theorem run_offer_some (piece : Text) (limit : Nat) (kept : Bytes) :
    (offer piece).run ⟨some limit, kept⟩ =
      if limit < (kept ++ Text.utf8 piece).length then
        .error .reportRefused ⟨some limit, (kept ++ Text.utf8 piece).take limit⟩
      else .ok () ⟨some limit, kept ++ Text.utf8 piece⟩ := by
  have hoffer : (offer piece).run ⟨some limit, kept⟩ =
      (if limit < (kept ++ Text.utf8 piece).length then throw .reportRefused
        else pure () : Printing Unit).run
          ⟨some limit, (kept ++ Text.utf8 piece).take limit⟩ := rfl
  rw [hoffer]
  split
  · rfl
  · next h =>
    rw [List.take_of_length_le (Nat.not_lt.mp h)]
    rfl

theorem run_offers_none (pieces : List Text) (kept : Bytes) :
    (forM pieces offer).run ⟨none, kept⟩ = .ok () ⟨none, kept ++ Text.utf8 pieces.flatten⟩ := by
  induction pieces generalizing kept with
  | nil => simp [Text.utf8]
  | cons piece rest ih =>
    rw [List.forM_cons, EStateM.run_bind, run_offer_none]
    simp only [ih, List.flatten_cons, Text.utf8_append, List.append_assoc]

/-- A sink that has reached its limit with some piece holds the front of all pieces. -/
theorem run_offers_some (pieces : List Text) (limit : Nat) {kept : Bytes}
    (hkept : kept.length ≤ limit) :
    (forM pieces offer).run ⟨some limit, kept⟩ =
      if limit < (kept ++ Text.utf8 pieces.flatten).length then
        .error .reportRefused ⟨some limit, (kept ++ Text.utf8 pieces.flatten).take limit⟩
      else .ok () ⟨some limit, kept ++ Text.utf8 pieces.flatten⟩ := by
  induction pieces generalizing kept with
  | nil =>
    rw [List.flatten_nil, Text.utf8, List.flatMap_nil, List.append_nil,
      if_neg (Nat.not_lt.mpr hkept)]
    rfl
  | cons piece rest ih =>
    rw [List.forM_cons, EStateM.run_bind, run_offer_some, List.flatten_cons, Text.utf8_append,
      ← List.append_assoc]
    by_cases hpiece : limit < (kept ++ Text.utf8 piece).length
    · have hall : limit < (kept ++ Text.utf8 piece ++ Text.utf8 rest.flatten).length := by
        rw [List.length_append]
        omega
      simp only [if_pos hpiece, if_pos hall]
      rw [List.take_append_of_le_length (Nat.le_of_lt hpiece)]
    · simp only [if_neg hpiece]
      exact ih (Nat.not_lt.mp hpiece)

end Sink

namespace Report

/-- The pieces of a report in their order, and its result behind them. -/
def offer (r : Report) : Printing Unit := do
  forM r.pieces Sink.offer
  ofExcept r.result

theorem offer_after (pieces : List Text) (r : Report) :
    (after pieces r).offer = forM pieces Sink.offer >>= fun _ => r.offer := by
  simp only [offer, after, List.forM_append, bind_assoc]

/-- An entry in front of a report. A field that is too long for its line ends the report there. -/
def behindEntry (rest : Report) : Except Error (List Text) → Report
  | .error e => ⟨[], .error e⟩
  | .ok pieces => after pieces rest

theorem entries_cons (first : Bool) (v : RawRecord) (rest : List RawRecord) :
    entries first (v :: rest) =
      after (if first then [] else [",".toList]) ((entries false rest).behindEntry (entry v)) :=
  rfl

theorem printEntry_eq (v : RawRecord) (rest : Report) :
    (printEntry v >>= fun _ => rest.offer) = (rest.behindEntry (entry v)).offer := by
  unfold printEntry
  cases entry v with
  | error e => rfl
  | ok pieces => simp only [behindEntry, offer_after, ofExcept, pure_bind]

theorem printItems_eq (first : Bool) (views : List RawRecord) :
    printItems first (views.map .ok) = (entries first views).offer := by
  induction views generalizing first with
  | nil => simp [printItems, entries, offer, ofExcept]
  | cons v rest ih =>
    rw [List.map_cons, printItems, entries_cons, offer_after]
    simp only [ih, printEntry_eq, ofExcept, pure_bind]
    cases first <;> simp

theorem print_eq (message : Bytes) : print message = (ofMessage message).offer := by
  unfold print ofMessage
  cases hread : readAll message with
  | error e => rfl
  | ok records =>
    have hskip (rest : Printing Unit) :
        (discard (ofExcept (Except.ok records : Except Error _)) >>= fun _ => rest) = rest := rfl
    rw [offer_after, readAll_eq_ok_iff.mp hread, printItems_eq, List.forM_cons, List.forM_nil,
      hskip, bind_assoc]
    rfl

theorem printed_none (message : Bytes) :
    printed message none = (Text.utf8 (ofMessage message).text, (ofMessage message).result) := by
  rw [printed, print_eq, offer, EStateM.run_bind, Sink.run_offers_none, List.nil_append]
  cases (ofMessage message).result <;> rfl

theorem printed_some (message : Bytes) (limit : Nat) :
    printed message (some limit) = ((Text.utf8 (ofMessage message).text).take limit,
      if limit < (Text.utf8 (ofMessage message).text).length then .error .reportRefused
      else (ofMessage message).result) := by
  rw [printed, print_eq, offer, EStateM.run_bind, Sink.run_offers_some _ _ (Nat.zero_le limit),
    List.nil_append, text]
  by_cases hwhole : limit < (Text.utf8 (ofMessage message).pieces.flatten).length
  · simp only [if_pos hwhole]
  · rw [List.take_of_length_le (Nat.not_lt.mp hwhole)]
    simp only [if_neg hwhole]
    cases (ofMessage message).result <;> rfl

/-- A sink that keeps `limit` bytes holds the first bytes of what a sink without a limit holds, as
many as there are of them. If there are more, printing fails as it goes past the limit; otherwise it
ends as it does without a limit. And without a limit, the sink holds the text of the report, and
printing ends with its result. -/
theorem printed_limited (message : Bytes) (limit : Nat) :
    let (whole, result) := printed message none
    printed message (some limit) = (whole.take (min limit whole.length),
      if limit < whole.length then .error .reportRefused else result) ∧
    whole = Text.utf8 (ofMessage message).text ∧ result = (ofMessage message).result := by
  rw [printed_none, printed_some]
  refine ⟨?_, rfl, rfl⟩
  rw [← List.take_eq_take_min]

theorem isAscii_of_entry {v : RawRecord} {pieces : List Text} (h : entry v = .ok pieces) :
    Text.IsAscii pieces.flatten := by
  obtain ⟨type, htype, h⟩ := bind_eq_ok_iff.mp h
  obtain ⟨id, hid, h⟩ := bind_eq_ok_iff.mp h
  obtain ⟨payload, hpayload, h⟩ := bind_eq_ok_iff.mp h
  cases h
  have htypeName := v.header.isAscii_typeNameBits
  replace htype := Base64.isAscii_of_writeField htype
  replace hid := Base64.isAscii_of_writeField hid
  replace hpayload := Base64.isAscii_of_writeField hpayload
  simp only [List.flatten_cons, Text.isAscii_append]
  exact ⟨by decide, htypeName, by decide, htype, by decide, hid, by decide, hpayload, by decide⟩

theorem text_after (pieces : List Text) (r : Report) :
    (after pieces r).text = pieces.flatten ++ r.text := List.flatten_append

theorem isAscii_entries (first : Bool) (views : List RawRecord) :
    Text.IsAscii (entries first views).text := by
  induction views generalizing first with
  | nil =>
    have hend : Text.IsAscii ["]\r\n".toList].flatten := by decide
    exact hend
  | cons v rest ih =>
    rw [entries_cons, text_after, Text.isAscii_append]
    constructor
    · cases first <;> decide
    · cases hentry : entry v with
      | error e => exact List.forall_mem_nil _
      | ok pieces =>
        rw [behindEntry, text_after, Text.isAscii_append]
        exact ⟨isAscii_of_entry hentry, ih false⟩

theorem isAscii_ofMessage (message : Bytes) : Text.IsAscii (ofMessage message).text := by
  unfold ofMessage
  cases readAll message with
  | error e => exact List.forall_mem_nil _
  | ok records =>
    rw [text_after, Text.isAscii_append]
    exact ⟨by decide, isAscii_entries true records⟩

/-- Reports are of one-byte characters, so what a sink keeps of one is the same counted in
characters and in bytes. -/
theorem printed_some_eq_within (message : Bytes) (limit : Nat) :
    printed message (some limit) = (Text.utf8 ((ofMessage message).within limit).1,
      ((ofMessage message).within limit).2) := by
  have hascii := isAscii_ofMessage message
  have hfront : Text.IsAscii ((ofMessage message).text.take limit) :=
    fun c hc => hascii c (List.mem_of_mem_take hc)
  have htake : (Text.utf8 (ofMessage message).text).take limit =
      Text.utf8 ((ofMessage message).text.take limit) := by
    rw [Text.utf8_of_isAscii hascii, Text.utf8_of_isAscii hfront, List.map_take]
  have hlength : (Text.utf8 (ofMessage message).text).length = (ofMessage message).text.length := by
    rw [Text.utf8_of_isAscii hascii, List.length_map]
  rw [printed_some, within_eq, htake, hlength]

end Report
end Ndef
end NearField
