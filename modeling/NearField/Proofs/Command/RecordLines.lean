import NearField.Proofs.Command.Rendering
import NearField.Proofs.Command.Words

/-! # Lines that end in records

A tag is set and records are put over SNEP by lines that have their records last. Whatever stands in
front of them, both read the same records.
-/
namespace NearField

theorem Text.dropEndWhile_append_cons {p : Char → Bool} (s t : Text) {c : Char} (h : p c = false) :
    dropEndWhile p (s ++ c :: t) = s ++ c :: dropEndWhile p t := by
  simp only [dropEndWhile, List.reverse_append, List.reverse_cons, List.append_assoc,
    List.dropWhile_append]
  cases hrest : t.reverse.dropWhile p with
  | nil => simp [h]
  | cons d rest => simp

namespace Command
open Ndef

def withoutBreaks (typed : Text) : Text :=
  Text.dropEndWhile (fun c => c == '\r' || c == '\n') typed

/-- The records at the end of a line. Line breaks behind them do not count. -/
def recordsIn (typed : Text) : Except Error (List Record) :=
  match Reader.records.run ⟨some (withoutBreaks typed)⟩ with
  | .ok l _ => .ok l.records
  | .error e _ => .error e

theorem recordsIn_eq_ok_iff {typed : Text} {records : List Record} :
    recordsIn typed = .ok records ↔
      ∃ l s, l.records = records ∧ Reader.records.run ⟨some (withoutBreaks typed)⟩ = .ok l s := by
  unfold recordsIn
  cases Reader.records.run ⟨some (withoutBreaks typed)⟩ <;> simp

theorem splitLine_append {word : Text} (hword : ∀ c ∈ word, c ∉ Reader.space)
    (front typed : Text) :
    splitLine (word ++ ' ' :: (front ++ ' ' :: typed)) =
      (word, some (front ++ ' ' :: withoutBreaks typed)) := by
  rw [← List.cons_append, ← List.append_assoc]
  simp only [splitLine]
  rw [Text.dropEndWhile_append_cons _ _ rfl, List.append_assoc, List.cons_append]
  simp only [Input.token?_append hword (List.mem_singleton_self ' '), withoutBreaks]

variable {typed : Text} {records : List Record}

theorem ofLine_set {c : Emulator.Controller} {word : Text} {command : Command}
    (hword : ∀ c ∈ word, c ∉ Reader.space)
    (h : ofLine c ("tag set ".toList ++ word ++ " ".toList ++ typed) = .ok command) :
    ∃ place records, command = .setTag place records ∧ Numeral.unsigned word = .ok place ∧
      recordsIn typed = .ok records := by
  have hline : "tag set ".toList ++ word ++ " ".toList ++ typed =
      "tag".toList ++ ' ' :: ("set ".toList ++ word ++ ' ' :: typed) := by simp
  have hfamily : Family.ofKeyword? "tag".toList = some .tag := by decide
  rw [hline, ofLine, splitLine_append (by simp [Reader.space])] at h
  simp only [hfamily, Family.readArguments, Family.readInput, Family.reader, List.append_assoc] at h
  split at h
  · next found s hrun =>
    cases h
    have hset := Reader.operation_reads (t := "set".toList) (by simp [Reader.space])
      (word ++ ' ' :: withoutBreaks typed)
    obtain ⟨place, u, l, hplace, hrecords, rfl⟩ := Reader.tag_set_eq_ok hset hrun
    obtain ⟨w, htoken, hnumber⟩ := Reader.endpointPlace_eq_ok hplace
    rw [Input.token?_append hword (List.mem_singleton_self ' ')] at htoken
    cases htoken
    exact ⟨place, l.records, rfl, hnumber, recordsIn_eq_ok_iff.mpr ⟨l, s, rfl, hrecords⟩⟩
  · cases h

theorem ofLine_put (hrecords : recordsIn typed = .ok records) (hne : records ≠ [])
    (c : Emulator.Controller) :
    ofLine c ("snep put -1 -1 ".toList ++ typed) = .ok (.send ⟨.last, .last⟩ records) := by
  obtain ⟨l, s, rfl, hread⟩ := recordsIn_eq_ok_iff.mp hrecords
  have hlast : Numeral.Signed "-1".toList (-1) :=
    .minus (.decimal (.single (by decide)) (by decide))
  have hsaps : Reader.saps.Reads "-1 -1 ".toList ⟨.last, .last⟩ :=
    @Reader.saps_reads ⟨.last, .last⟩ _ _ ⟨trivial, trivial⟩ hlast hlast
  have hkept : l.records.isEmpty = false := by simpa using hne
  have hsnep := Reader.snep_eq hsaps hread
  rw [hkept, if_neg (by decide)] at hsnep
  have hline : "snep put -1 -1 ".toList ++ typed =
      "snep".toList ++ ' ' :: ("put -1 -1".toList ++ ' ' :: typed) := by simp
  have hfamily : Family.ofKeyword? "snep".toList = some .snep := by decide
  have harguments (rest : Text) : "put -1 -1".toList ++ ' ' :: rest =
      "put ".toList ++ ("-1 -1 ".toList ++ rest) := rfl
  rw [hline, ofLine, splitLine_append (by simp [Reader.space])]
  simp only [hfamily, Family.readArguments, Family.readInput, Family.reader, harguments, hsnep]

end Command
end NearField
