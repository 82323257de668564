import NearField.Ndef.Report

/-! # Reports that break off

A message that cannot be read has no report. Once a report has begun, only a field that is longer
than the room for it can end the report early.
-/
namespace NearField

theorem Base64.writeField_error {data : Bytes} {room : Nat} {e : Error}
    (h : writeField data room = .error e) :
    ∃ needed available, e = .bufferOverflow needed available := by
  unfold writeField at h
  split at h
  · cases h
    exact ⟨_, _, rfl⟩
  · cases h

namespace Ndef.Report

theorem entry_error {v : RawRecord} {e : Error} (h : entry v = .error e) :
    ∃ needed available, e = .bufferOverflow needed available := by
  simp only [entry, bind_eq_error_iff, pure_eq_ok, reduceCtorEq, and_false, exists_false,
    or_false] at h
  rcases h with h | ⟨type, -, h | ⟨id, -, h⟩⟩
  · exact Base64.writeField_error h
  · exact Base64.writeField_error h
  · exact Base64.writeField_error h

theorem entries_error {records : List RawRecord} {first : Bool} {e : Error}
    (h : (entries first records).result = .error e) :
    ∃ needed available, e = .bufferOverflow needed available := by
  induction records generalizing first with
  | nil => cases h
  | cons v rest ih =>
    simp only [entries, after] at h
    cases hentry : entry v with
    | error e' =>
      rw [hentry] at h
      cases h
      exact entry_error hentry
    | ok pieces =>
      rw [hentry] at h
      exact ih h

/-- A report that has begun is broken off only by a field that is too long for it. -/
theorem result_error {message : Bytes} {e : Error} (h : (ofMessage message).result = .error e) :
    (ofMessage message).pieces = [] ∨ ∃ needed available, e = .bufferOverflow needed available := by
  unfold ofMessage at h ⊢
  cases hread : readAll message with
  | error e' => exact .inl rfl
  | ok records =>
    rw [hread] at h
    exact .inr (entries_error h)

end Ndef.Report
end NearField
