import NearField.Proofs.Ndef.ReportText
import NearField.Proofs.Ndef.Spans

/-! # Output of a report

What is written for a message is told by the items that a cursor yields for it. Nothing is written
for a message that breaks off; a payload that has no room ends the list behind the entries before
it; and otherwise the list is complete.
-/
namespace NearField.Ndef

namespace Report

/-- What pieces a sink takes is told by their characters together. -/
theorem cut_eq (room : Nat) (pieces : List Text) :
    cut room pieces = (pieces.flatten.take room, decide (pieces.flatten.length ≤ room)) := by
  induction pieces generalizing room with
  | nil => simp [cut]
  | cons piece rest ih =>
    rw [List.flatten_cons, List.length_append, cut]
    by_cases hpiece : room < piece.length
    · have hall : ¬ piece.length + rest.flatten.length ≤ room := by omega
      rw [if_pos hpiece, List.take_append_of_le_length (Nat.le_of_lt hpiece), decide_eq_false hall]
    · have hiff : piece.length + rest.flatten.length ≤ room ↔
          rest.flatten.length ≤ room - piece.length := by omega
      rw [if_neg hpiece, ih, List.take_append, List.take_of_length_le (Nat.not_lt.mp hpiece),
        decide_eq_decide.mpr hiff]

theorem within_eq (r : Report) (limit : Nat) : r.within limit = (r.text.take limit,
    if limit < r.text.length then .error .reportRefused else r.result) := by
  rw [within, cut_eq, ← text]
  by_cases h : r.text.length ≤ limit
  · have hroom : ¬ limit < r.text.length := Nat.not_lt.mpr h
    simp [h, hroom]
  · have hroom : limit < r.text.length := Nat.not_le.mp h
    simp [h, hroom]

theorem within_of_length_le {r : Report} {limit : Nat} (h : r.text.length ≤ limit) :
    r.within limit = (r.text, r.result) := by
  rw [within_eq, List.take_of_length_le h, if_neg (Nat.not_lt.mpr h)]

/-- A message that breaks off is refused for that, and nothing is written. One whose payloads have
at most 513 bytes is written as the bracketed list of its entries. Any other is refused for the
first payload that is longer, behind the entries before it and a comma if there are any. Whatever is
written reaches every sink that has room for it. -/
theorem ofMessage_exact (message : Bytes) :
    let report := ofMessage message
    let entries (views : List RawRecord) : Text :=
      List.intercalate ",".toList ((views.map RawRecord.shown).map List.flatten)
    (∀ limit, report.text.length ≤ limit → report.within limit = (report.text, report.result)) ∧
    ((∃ (views : List RawRecord) (remaining needed : Nat),
        items message = views.map .ok ++ [.error (.messageTruncated remaining needed)] ∧
        report.result = .error (.messageTruncated remaining needed) ∧ report.text = []) ∨
      ∃ views : List RawRecord, items message = views.map .ok ∧
        ((∀ v ∈ views, v.payload.length ≤ 513) ∧ report.result = .ok () ∧
            report.text = "[".toList ++ entries views ++ "]\r\n".toList ∨
          ∃ front v behind, views = front ++ v :: behind ∧
            (∀ u ∈ front, u.payload.length ≤ 513) ∧ 513 < v.payload.length ∧
            report.result = .error (.bufferOverflow (4 * ((v.payload.length + 2) / 3)) 684) ∧
            report.text = "[".toList ++ entries front ++
              if front.isEmpty then [] else ",".toList)) := by
  intro report entries
  have hentries (views : List RawRecord) : entriesText true views = entries views :=
    entriesText_true views
  refine ⟨fun limit => within_of_length_le, ?_⟩
  obtain ⟨views, rest, failures, -, -, hending, hitems⟩ := Message.exists_items message
  cases hending with
  | truncated hrest hneeded =>
    refine .inl ⟨views, _, _, hitems, ?_⟩
    simp only [report, ofMessage, readAll_of_truncated hitems]
    exact ⟨trivial, rfl⟩
  | whole =>
    rw [List.append_nil] at hitems
    refine .inr ⟨views, hitems, ?_⟩
    by_cases hshort : ∀ v ∈ views, v.payload.length ≤ maxPayload
    · obtain ⟨hresult, htext⟩ := ofMessage_of_short hitems hshort
      refine .inl ⟨hshort, hresult, htext.trans ?_⟩
      rw [listText, ← entriesText_true, hentries]
    · simp only [not_forall, Nat.not_le, exists_prop] at hshort
      obtain ⟨front, v, behind, rfl, hfront, hlong⟩ := exists_first_long hshort
      obtain ⟨hresult, htext⟩ := ofMessage_of_first_long hitems hfront hlong
      refine .inr ⟨front, v, behind, rfl, hfront, hlong, ?_, ?_⟩
      · rw [Nat.mul_comm]
        exact hresult
      · rw [← hentries]
        exact htext

end Report
end NearField.Ndef
