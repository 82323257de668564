import NearField.Emulator.Sample
import NearField.Emulator.Surroundings
import NearField.Proofs.Emulator.AllOrNothing
import NearField.Proofs.Ndef.ReportText
import NearField.Proofs.Snep

/-! # Loop-back

A frame that comes back to the host that sent it is received over the points that it was sent over.
The report then shows the records as they were typed, unless a payload is too long for its line.
-/
namespace NearField.Emulator
open Ndef

theorem Controller.setUsed_setUsed (c : Controller) (link : Link) :
    (c.setUsed link).setUsed link = c.setUsed link := by
  refine modifyEndpoint_self fun e he => ?_
  rw [setUsed, getElem?_modifyEndpoint, if_pos rfl] at he
  obtain ⟨old, -, rfl⟩ := Option.map_eq_some_iff.mp he
  rfl

theorem Controller.messageOf_frameOf {records : List Record} {frame : Bytes}
    (hframe : Snep.frameOf records linkRoom = .ok frame) :
    ∃ cs, List.Forall₂ Record.Holds records cs ∧ (∀ c ∈ cs, c.Fits) ∧
      messageOf frame = .ok (Message.wire cs) := by
  obtain ⟨cs, hcs, -, -, hparse⟩ := Snep.frameOf_eq_ok (by decide) (by decide) hframe
  obtain ⟨hholds, hfits, -⟩ := Message.contents_eq_ok_iff.mp hcs
  refine ⟨cs, hholds, hfits, ?_⟩
  rw [messageOf, hparse, ok_bind]
  rfl

namespace Host
variable {h : Host} {link : Link} {frame : Bytes} {saps : Llcp.Saps}

theorem ofLine_receive (c : Controller) :
    Command.ofLine c "snep put -1 -1".toList = .ok (.receive ⟨.last, .last⟩) := by
  rfl

theorem link_of_sent (hlink : h.link saps = .ok link) :
    (((Effect.sent link frame).apply h).meet (.arrival frame)).link ⟨.last, .last⟩ = .ok link := by
  obtain ⟨endpoint, hactive, hendpoint, -⟩ := link_eq_ok_iff.mp hlink
  refine link_eq_ok_iff.mpr ⟨{ endpoint with used := link.points }, hactive, ?_, rfl⟩
  change (h.controller.setUsed link).endpoints[link.endpoint]? = _
  rw [Controller.setUsed, Controller.getElem?_modifyEndpoint, if_pos rfl, hendpoint,
    Option.map_some]

theorem apply_received (hempty : h.controller.incoming = []) (message : Bytes) :
    (Effect.received link frame message).apply
        (((Effect.sent link frame).apply h).meet (.arrival frame)) =
      { (Effect.sent link frame).apply h with
        received := ((Effect.sent link frame).apply h).received ++ [frame.length] } := by
  have hused := congrArg Controller.endpoints (h.controller.setUsed_setUsed link)
  simp only [Controller.setUsed, Controller.modifyEndpoint] at hused
  simp [Effect.apply, meet, hempty, Controller.setUsed, Controller.modifyEndpoint, hused]

/-- A frame that was sent and comes back is received and shown as it was typed, over the points that
it was sent over. Only a payload that is too long for its line is refused. -/
theorem execute_echo {line : Text} {records : List Record}
    (hempty : h.controller.incoming = [])
    (hread : Command.ofLine h.controller line = .ok (.send saps records))
    (hok : (h.execute line).result = .ok ()) :
    let sent := (h.execute line).host
    ∃ link frame payloads, sent.controller.sent = h.controller.sent ++ [(link, frame)] ∧
      sent.echo = some (sent.meet (.arrival frame)) ∧
      List.Forall₂ (fun r data => Base64.DecodesTo r.payload data) records payloads ∧
      let x := (sent.meet (.arrival frame)).execute "snep put -1 -1".toList
      ((∀ data ∈ payloads, data.length ≤ 513) →
        x.result = .ok () ∧ x.host.controller.incoming = [] ∧
          x.host = { sent with received := sent.received ++ [frame.length] } ∧
          ∀ t : Console.Transcript, t.addAll x.events = { t with
            output := t.output ++ Report.listText (records.map Record.shown) }) ∧
      ((∃ data ∈ payloads, 513 < data.length) → ∃ needed available,
        x.result = .error (.failed .snepPut (.bufferOverflow needed available))) := by
  obtain ⟨command, effect, hread', hd, hx⟩ := exists_effect_of_execute hok
  rw [hread] at hread'
  cases hread'
  obtain ⟨link, frame, rfl, hlink, hup, hframe⟩ := decide_send hd
  obtain ⟨cs, hholds, hfits, hmessage⟩ := Controller.messageOf_frameOf hframe
  have hitems : items (Message.wire cs) = (Message.rawFrom true cs).map .ok :=
    Message.items_wireFrom true hfits
  have hincoming : (((Effect.sent link frame).apply h).meet (.arrival frame)).controller.incoming =
      [frame] := congrArg (· ++ [frame]) hempty
  have hdecide := decide_receive_eq (link_of_sent hlink) hup hincoming hmessage
  rw [hx]
  refine ⟨link, frame, cs.map Content.payload, rfl, ?_, ?_, ?_, ?_⟩
  · simp [echo, lastSent, Effect.apply]
  · rw [List.forall₂_map_right_iff]
    exact hholds.imp fun r c hc => hc.payload.decodesTo
  · intro hshort
    rw [← Message.payload_rawFrom true, List.forall_mem_map] at hshort
    obtain ⟨hresult, htext⟩ := Report.ofMessage_of_short hitems hshort
    rw [hresult] at hdecide
    rw [execute_of_done (ofLine_receive _) hdecide, apply_received hempty]
    refine ⟨rfl, hempty, rfl, ?_⟩
    intro t
    rw [Effect.addAll_events, Effect.report, htext, Message.shown_rawFrom true hholds hfits]
  · intro hlong
    rw [← Message.payload_rawFrom true] at hlong
    obtain ⟨data, hdata, hlong⟩ := hlong
    obtain ⟨v, hv, rfl⟩ := List.mem_map.mp hdata
    obtain ⟨u, -, -, hresult⟩ := Report.ofMessage_of_long hitems ⟨v, hv, hlong⟩
    rw [hresult] at hdecide
    rw [execute_of_refused (ofLine_receive _) hdecide]
    exact ⟨_, _, rfl⟩

/-- A padded type is shown without its padding. -/
theorem execute_echo_sample :
    let sent := (({ controller := sampleController } : Host).execute
      "snep put -1 0x20 [16,1,QQ==,,QkM]".toList).host
    ∃ looped, sent.echo = some looped ∧
      (looped.execute "snep put -1 -1".toList).result = .ok () ∧
      ∀ t : Console.Transcript, t.addAll (looped.execute "snep put -1 -1".toList).events =
        { t with output := t.output ++
          ("[\x7b\"tnf\": 1, \"type\": \"QQ\", \"id\": \"\", ".toList ++
            "\"payload\": \"QkM\"\x7d]\r\n".toList) } := by
  let h : Host := { controller := sampleController }
  have hread : Command.ofLine h.controller "snep put -1 0x20 [16,1,QQ==,,QkM]".toList =
      .ok (.send ⟨.last, .value 32⟩ [⟨0x10, .wellKnown, "QQ==".toList, [], "QkM".toList⟩]) := by rfl
  have hframe : Snep.frameOf [⟨0x10, .wellKnown, "QQ==".toList, [], "QkM".toList⟩]
      Controller.linkRoom = .ok [0x10, 0x02, 0, 0, 0, 6, 0xD1, 1, 2, 0x41, 0x42, 0x43] := by
    rw [Snep.frameOf_eq _ (by decide) (by decide)]
    decide
  have hd : h.decide
      (.send ⟨.last, .value 32⟩ [⟨0x10, .wellKnown, "QQ==".toList, [], "QkM".toList⟩]) =
        .ok (.sent ⟨0, ⟨4, 32⟩⟩ [0x10, 0x02, 0, 0, 0, 6, 0xD1, 1, 2, 0x41, 0x42, 0x43]) := by
    simp only [decide, hframe]
    rfl
  have hok : (h.execute "snep put -1 0x20 [16,1,QQ==,,QkM]".toList).result = .ok () := by
    rw [execute_of_done hread hd]
  obtain ⟨link, frame, payloads, -, hecho, hpayloads, hshort, -⟩ := execute_echo rfl hread hok
  have hbytes : ∀ data ∈ payloads, data.length ≤ 513 := by
    cases hpayloads with
    | cons hdata hrest =>
      cases hrest
      have hspells := (Base64.readField_eq_ok_iff.mp (hdata _ (Nat.le_refl _))).1
      have hknown : Base64.readField "QkM".toList 2 = .ok [0x42, 0x43] := by decide
      rw [hspells.unique (Base64.readField_eq_ok_iff.mp hknown).1]
      decide
  have hlist : Report.listText ([⟨0x10, .wellKnown, "QQ==".toList, [], "QkM".toList⟩].map
      Record.shown) =
        "[\x7b\"tnf\": 1, \"type\": \"QQ\", \"id\": \"\", ".toList ++
          "\"payload\": \"QkM\"\x7d]\r\n".toList := by
    decide
  obtain ⟨hresult, -, -, hshown⟩ := hshort hbytes
  rw [hlist] at hshown
  exact ⟨_, hecho, hresult, hshown⟩

end Host
end NearField.Emulator
