import NearField.Proofs.Command.Quoting
import NearField.Proofs.Emulator.Reception
import NearField.Proofs.Emulator.Refusals

/-! # Failure lines

Every failed line adds one line to the failures of a transcript, however many pieces of it the error
quotes. So the failures of a run are read back from the transcript, each one once and in order.
-/
namespace NearField

namespace Text

theorem lines_go_append {piece : Text} (h : piece.OneLine) (done rest : Text) :
    lines.go done (piece ++ rest) = lines.go (piece.reverse ++ done) rest := by
  induction piece generalizing done with
  | nil => rfl
  | cons c piece ih =>
    obtain ⟨hc, hpiece⟩ := List.ne_and_not_mem_of_not_mem_cons h
    rw [List.cons_append, lines.go, ih hpiece, List.reverse_cons, List.append_assoc,
      List.singleton_append]
    exact fun hbreak => hc hbreak.symm

/-- A piece may end in a carriage return: only the one of the line break is taken off. -/
theorem lines_append {piece : Text} (h : piece.OneLine) (rest : Text) :
    lines (piece ++ "\r\n".toList ++ rest) = piece :: lines rest := by
  rw [lines, List.append_assoc, lines_go_append h]
  change lines.close ('\r' :: (piece.reverse ++ [])) :: lines.go [] rest = _
  rw [lines.close, List.append_nil, List.reverse_reverse, lines]

theorem lines_flatMap {pieces : List Text} (h : ∀ piece ∈ pieces, piece.OneLine) :
    lines (pieces.flatMap fun piece => piece ++ "\r\n".toList) = pieces := by
  induction pieces with
  | nil => rfl
  | cons piece pieces ih =>
    obtain ⟨hpiece, hpieces⟩ := List.forall_mem_cons.mp h
    rw [List.flatMap_cons, lines_append hpiece, ih hpieces]

end Text

namespace Error

theorem texts_of_isCause {e : Error} (h : e.isCause = true) : e.texts = [] := by
  cases e <;> simp_all [isCause, isContentFault, isFrameFault, texts]

theorem texts_of_isRefusal {e : Error} (h : e.isRefusal = true) : e.texts = [] := by
  cases e with
  | failed operation cause => exact texts_of_isCause (e := cause) h
  | _ => simp_all [isRefusal, isContentFault, texts]

end Error

namespace Console

def Event.blamed : Event → Text
  | output _ => []
  | failure line => line

theorem flatMap_blamed_outputs (pieces : List Text) :
    (pieces.map Event.output).flatMap Event.blamed = [] := by
  simp [Event.blamed]

theorem Transcript.failures_addAll (t : Transcript) (events : List Event) :
    (t.addAll events).failures = t.failures ++ events.flatMap Event.blamed := by
  induction events generalizing t with
  | nil => simp [addAll]
  | cons event rest ih =>
    have hcons : t.addAll (event :: rest) = (t.add event).addAll rest := rfl
    rw [hcons, ih, List.flatMap_cons]
    cases event <;> simp [add, Event.blamed]

end Console

namespace Emulator
open Console Command

theorem Effect.blamed_events (effect : Effect) : effect.events.flatMap Event.blamed = [] := by
  cases effect with
  | received link frame message => exact flatMap_blamed_outputs _
  | _ => rfl

namespace Host
variable {h : Host} {command : Command} {line : Text} {e : Error}

def failedBy (h : Host) : Move → List Error
  | .line line =>
    match (h.execute line).result with
    | .ok () => []
    | .error e => [e]
  | _ => []

def failures (h : Host) : List Move → List Error
  | [] => []
  | m :: rest => h.failedBy m ++ (h.move m).failures rest

theorem blamed_abandoned (h : Host) (command : Command) :
    (h.abandoned command).2.flatMap Event.blamed = [] := by
  unfold abandoned
  split
  · split
    · dsimp only
      split
      · exact flatMap_blamed_outputs _
      · rfl
    · rfl
  · rfl

theorem blamed_toldBy (h : Host) (m : Move) :
    (h.toldBy m).flatMap Event.blamed = (h.failedBy m).flatMap failureLine := by
  cases m with
  | incident i => rfl
  | queue frames => rfl
  | line line =>
    unfold toldBy failedBy
    cases hread : Command.ofLine h.controller line with
    | error e =>
      simp [execute_of_unread hread, Event.blamed]
    | ok command =>
      cases hd : h.decide command with
      | ok effect =>
        simp [execute_of_done hread hd, effect.blamed_events]
      | error e =>
        simp only [execute_of_refused hread hd, List.flatMap_append, h.blamed_abandoned command]
        simp [Event.blamed]

theorem blamed_told (h : Host) (ms : List Move) :
    (h.told ms).flatMap Event.blamed = (h.failures ms).flatMap failureLine := by
  induction ms generalizing h with
  | nil => rfl
  | cons m rest ih =>
    rw [told, failures, List.flatMap_append, List.flatMap_append, h.blamed_toldBy m, ih]

theorem oneLine_message_of_execute (hline : (withoutBreaks line).OneLine)
    (he : (h.execute line).result = .error e) : e.message.OneLine := by
  refine Error.Quotes.oneLine_message ?_ hline
  cases hread : Command.ofLine h.controller line with
  | error cause =>
    rw [execute_of_unread hread] at he
    cases he
    exact ofLine_quotes hread
  | ok command =>
    cases hd : h.decide command with
    | ok effect =>
      rw [execute_of_done hread hd] at he
      cases he
    | error cause =>
      rw [execute_of_refused hread hd] at he
      cases he
      have hrefusal := decide_error (ofLine_checked hread) hd
      exact Error.quotes_of_texts_eq_nil (Error.texts_of_isRefusal hrefusal) _

theorem oneLine_message_of_mem {ms : List Move}
    (hlines : ∀ line, Move.line line ∈ ms → (withoutBreaks line).OneLine)
    (he : e ∈ h.failures ms) : e.message.OneLine := by
  induction ms generalizing h with
  | nil => cases he
  | cons m rest ih =>
    rcases List.mem_append.mp he with hfirst | hrest
    · cases m with
      | incident i => cases hfirst
      | queue frames => cases hfirst
      | line line =>
        cases hresult : (h.execute line).result with
        | ok =>
          simp only [failedBy, hresult] at hfirst
          cases hfirst
        | error cause =>
          simp only [failedBy, hresult] at hfirst
          rw [List.mem_singleton.mp hfirst]
          exact oneLine_message_of_execute (hlines line List.mem_cons_self) hresult
    · exact ih (fun line hline => hlines line (List.mem_cons_of_mem _ hline)) hrest

/-- Whatever happens to a host, its transcript tells of each line that failed in one line, in the
order of the failures, as long as no line breaks before its end. -/
theorem failureLines_told {t : Transcript} (hempty : t.failures = []) (start : Host)
    {ms : List Move} (hlines : ∀ line, Move.line line ∈ ms → (withoutBreaks line).OneLine) :
    (t.addAll (start.told ms)).failureLines =
      (start.failures ms).map fun e => "KO: ".toList ++ e.message := by
  have hpieces : ∀ piece ∈ (start.failures ms).map fun e => "KO: ".toList ++ e.message,
      Text.OneLine piece := by
    intro piece hpiece
    obtain ⟨e, he, rfl⟩ := List.mem_map.mp hpiece
    exact .append (by decide) (oneLine_message_of_mem hlines he)
  calc (t.addAll (start.told ms)).failureLines
      = Text.lines ((start.failures ms).flatMap failureLine) := by
        rw [Transcript.failureLines, Transcript.failures_addAll, hempty, List.nil_append,
          start.blamed_told ms]
    _ = Text.lines (((start.failures ms).map fun e => "KO: ".toList ++ e.message).flatMap
          fun piece => piece ++ "\r\n".toList) := by
        rw [List.flatMap_map]
        rfl
    _ = (start.failures ms).map fun e => "KO: ".toList ++ e.message := Text.lines_flatMap hpieces

/-- Carriage returns inside a line are kept in what it is told of, and a line that succeeds is not
told of. -/
theorem failureLines_told_sample :
    let start : Host := { controller := sampleController }
    let ms := [.line "hci\r reset\r\n".toList, .line "nci rf_intf_deactivate_ntf\n".toList,
      .line "snep get\r 4".toList, .incident (.arrival [0xFF]), .line "snep put 4 32\r\n".toList]
    (({} : Transcript).addAll (start.told ms)).failureLines =
      ["KO: unknown command 'hci\r'".toList, "KO: invalid operation 'get\r'".toList,
        "KO: 'snep put' failed: invalid packet length: expected 6, got 1".toList] := by
  intro start ms
  have hlines : ∀ line, Move.line line ∈ ms → (withoutBreaks line).OneLine := by
    intro line hline
    simp only [ms, List.mem_cons, Move.line.injEq, reduceCtorEq, List.not_mem_nil, or_false,
      false_or] at hline
    rcases hline with rfl | rfl | rfl | rfl <;> decide
  have hfailures : start.failures ms =
      [.unknownCommand "hci\r".toList, .invalidOperation "get\r".toList,
        .failed .snepPut (.invalidLength 6 1)] := by rfl
  rw [failureLines_told rfl start hlines, hfailures]
  rfl

end Host
end Emulator
end NearField
