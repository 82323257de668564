import NearField.Proofs.Command.RecordLines
import NearField.Proofs.Emulator.Sending
import NearField.Proofs.Ndef.ReportText

/-! # Content of tags

A tag is given the message that a put request of the same records carries: what a tag takes fits
into a frame as well. The message is short enough for each of its payloads to be shown.
-/
namespace NearField.Emulator.Host
open Ndef

/-- A set of a tag fails without any change, or the tag holds a message that shows the records as
they were typed. From any host with an active endpoint and a link that is up, a put of the same
records carries the same message. -/
theorem execute_set (h : Host) {word : Text} (hword : ∀ c ∈ word, c ≠ ' ') (typed : Text) :
    let x := h.execute ("tag set ".toList ++ word ++ " ".toList ++ typed)
    (∀ e, x.result = .error e → x.host = h) ∧
    (x.result = .ok () → ∃ place tag message records, Numeral.unsigned word = .ok place ∧
      Command.recordsIn typed = .ok records ∧ x.host.controller.tagAt place = .ok tag ∧
      tag.content = message ∧ message.length ≤ 512 ∧
      (Report.ofMessage message).result = .ok () ∧
      (Report.ofMessage message).text = Report.listText (records.map Record.shown) ∧
      ∀ (h' : Host) (active : Nat) (endpoint : Endpoint),
        h'.controller.activeEndpoint = some active →
        h'.controller.endpoints[active]? = some endpoint → h'.controller.linkDown = false →
        let y := h'.execute ("snep put -1 -1 ".toList ++ typed)
        y.result = .ok () ∧ ∃ frame,
          y.host.controller.sent = h'.controller.sent ++ [(⟨active, endpoint.used⟩, frame)] ∧
          Snep.Request.parse frame = .ok ⟨Snep.version, Snep.put, message⟩) := by
  have hspace : ∀ c ∈ word, c ∉ Command.Reader.space := by simpa [Command.Reader.space] using hword
  cases hread : Command.ofLine h.controller
      ("tag set ".toList ++ word ++ " ".toList ++ typed) with
  | error e =>
    rw [execute_of_unread hread]
    refine ⟨fun _ _ => rfl, ?_⟩
    intro hok
    cases hok
  | ok command =>
  obtain ⟨place, records, rfl, hplace, hrecords⟩ := Command.ofLine_set hspace hread
  cases hd : h.decide (.setTag place records) with
  | error e =>
    rw [execute_of_refused hread hd]
    refine ⟨fun _ _ => rfl, ?_⟩
    intro hok
    cases hok
  | ok effect =>
  obtain ⟨message, tag, rfl, htag, hmessage⟩ := decide_setTag hd
  obtain ⟨cs, hcs, rfl, hlength⟩ := Message.contents_of_encode hmessage
  obtain ⟨hholds, hfits, -⟩ := Message.contents_eq_ok_iff.mp hcs
  have hstored := Controller.tagAt_modifyTag_self htag fun t =>
    { t with content := Message.wire cs, writes := t.writes + 1 }
  obtain ⟨hresult, htext⟩ := Report.ofMessage_of_length_le (Message.items_wireFrom true hfits)
    (Nat.le_trans hlength (by decide))
  rw [Message.shown_rawFrom true hholds hfits] at htext
  have hne : records ≠ [] := by
    rintro rfl
    cases hd
  rw [execute_of_done hread hd]
  refine ⟨by simp, ?_⟩
  intro _
  refine ⟨place, _, _, records, hplace, hrecords, hstored, rfl, hlength, hresult, htext, ?_⟩
  intro h' active endpoint hactive hendpoint hup
  have hsend : h'.decide (.send ⟨.last, .last⟩ records) =
      .ok (.sent ⟨active, endpoint.used⟩ (Snep.frame (Message.wire cs))) :=
    decide_send_eq hactive hendpoint hup (Message.contents_mono hcs (by decide))
  have hsize : (Message.wire cs).length < 0x1_0000_0000 := Nat.lt_of_le_of_lt hlength (by decide)
  rw [execute_of_done (Command.ofLine_put hrecords hne _) hsend]
  exact ⟨rfl, _, rfl, Snep.parse_frame hsize⟩

/-- A record with a padded type is shown without the padding, and could be sent as it is stored. -/
theorem execute_set_sample :
    let h : Host := { controller := sampleController }
    let word : Text := "1".toList
    let typed : Text := "[16,1,QQ==,,QkM]".toList
    ∃ tag frame,
      (h.execute ("tag set ".toList ++ word ++ " ".toList ++ typed)).host.controller.tagAt 1 =
        .ok tag ∧
      (Report.ofMessage tag.content).text =
        "[\x7b\"tnf\": 1, \"type\": \"QQ\", \"id\": \"\", ".toList ++
          "\"payload\": \"QkM\"\x7d]\r\n".toList ∧
      (h.execute ("snep put -1 -1 ".toList ++ typed)).host.controller.sent =
        [(⟨0, ⟨4, 32⟩⟩, frame)] ∧
      Snep.Request.parse frame = .ok ⟨Snep.version, Snep.put, tag.content⟩ := by
  intro h word typed
  let records : List Record := [⟨0x10, .wellKnown, "QQ==".toList, [], "QkM".toList⟩]
  have hread : Command.ofLine h.controller ("tag set ".toList ++ word ++ " ".toList ++ typed) =
      .ok (.setTag 1 records) := by rfl
  have hmessage : Message.encode records tagRoom = .ok [0xD1, 1, 2, 0x41, 0x42, 0x43] := by
    rw [Message.encode_eq]
    decide
  have hd : h.decide (.setTag 1 records) =
      .ok (.tagWritten 1 [0xD1, 1, 2, 0x41, 0x42, 0x43]) := by
    simp only [decide, hmessage]
    rfl
  have hword : ∀ c ∈ word, c ≠ ' ' := by simp [word]
  obtain ⟨place, tag, message, records', hplace, hrecords, htag, rfl, -, -, htext, hsend⟩ :=
    (execute_set h hword typed).2 (congrArg Execution.result (execute_of_done hread hd))
  have hnumber : Numeral.unsigned word = .ok 1 := by rfl
  have hknown : Command.recordsIn typed = .ok records := by rfl
  rw [hnumber] at hplace
  rw [hknown] at hrecords
  cases hplace
  cases hrecords
  have hlist : Report.listText (records.map Record.shown) =
      "[\x7b\"tnf\": 1, \"type\": \"QQ\", \"id\": \"\", ".toList ++
        "\"payload\": \"QkM\"\x7d]\r\n".toList := by
    decide
  obtain ⟨-, frame, hframe, hparse⟩ := hsend h 0 _ rfl rfl rfl
  exact ⟨tag, frame, htag, htext.trans hlist, hframe, hparse⟩

end NearField.Emulator.Host
