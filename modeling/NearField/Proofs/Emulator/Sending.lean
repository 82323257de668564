import NearField.Emulator.Sample
import NearField.Proofs.Command.Rendering
import NearField.Proofs.Emulator.AllOrNothing
import NearField.Proofs.Snep

/-! # Sending records

Records that are typed in any of their renderings leave over the link of the active endpoint as one
frame: a put request around their message.
-/
namespace NearField.Emulator
open Ndef

theorem holds_typed (c : Content) : (Command.typed c).Holds c :=
  ⟨rfl, rfl, Base64.spells_encode c.type, Base64.spells_encode c.id, Base64.spells_encode c.payload⟩

theorem contents_typed {cs : List Content} {room : Nat} (hfits : ∀ c ∈ cs, c.Fits)
    (hroom : (Message.wire cs).length ≤ room) :
    Message.contents (cs.map Command.typed) room = .ok cs := by
  rw [Message.wire, Message.length_wireFrom] at hroom
  refine Message.contents_eq_ok_iff.mpr ⟨?_, hfits, hroom⟩
  rw [List.forall₂_map_left_iff, List.forall₂_same]
  exact fun c _ => holds_typed c

namespace Host
variable {h : Host} {place : Nat} {endpoint : Endpoint} {saps : Llcp.Saps} {cs : List Content}

/-- Over a link that is up, only the room of its frame limits what is sent. -/
theorem decide_send_eq {records : List Record}
    (hactive : h.controller.activeEndpoint = some place)
    (hendpoint : h.controller.endpoints[place]? = some endpoint)
    (hup : h.controller.linkDown = false)
    (hcontents : Message.contents records (Controller.linkRoom - Snep.headerSize) = .ok cs) :
    h.decide (.send saps records) =
      .ok (.sent ⟨place, saps.orUsed endpoint.used⟩ (Snep.frame (Message.wire cs))) := by
  have hlink : h.link saps = .ok ⟨place, saps.orUsed endpoint.used⟩ :=
    link_eq_ok_iff.mpr ⟨endpoint, hactive, hendpoint, rfl⟩
  have hframe : Snep.frameOf records Controller.linkRoom = .ok (Snep.frame (Message.wire cs)) := by
    rw [Snep.frameOf_eq _ (by decide) (by decide), hcontents, map_ok]
  simp only [decide, hlink, ok_bind, Controller.linkUp_eq_ok_iff.mpr hup, hframe,
    Operation.scope_ok, pure_eq_ok]

theorem decide_typed (hactive : h.controller.activeEndpoint = some place)
    (hendpoint : h.controller.endpoints[place]? = some endpoint)
    (hup : h.controller.linkDown = false) (hfits : ∀ c ∈ cs, c.Fits)
    (hsize : (Message.wire cs).length ≤ 1018) :
    h.decide (.send saps (cs.map Command.typed)) =
      .ok (.sent ⟨place, saps.orUsed endpoint.used⟩ (Snep.frame (Message.wire cs))) :=
  decide_send_eq hactive hendpoint hup (contents_typed hfits hsize)

/-- Records that are typed for an active endpoint leave in one frame. The points of the endpoint
become the ones used, and nothing else changes. -/
theorem execute_send {line : Text} (hactive : h.controller.activeEndpoint = some place)
    (hendpoint : h.controller.endpoints[place]? = some endpoint)
    (hup : h.controller.linkDown = false) (hsaps : saps.InRange) (hne : cs ≠ [])
    (hcount : cs.length ≤ maxRecords)
    (hcs : ∀ c ∈ cs, c.Fits ∧ c.type ≠ [] ∧ c.payload ≠ [])
    (hsize : (Message.wire cs).length ≤ 1018) (hline : Command.SendLine saps cs line) :
    let points := saps.orUsed endpoint.used
    let message := Message.wire cs
    let frame := [0x10, 0x02] ++ Bytes.word32 message.length ++ message
    h.execute line =
      { host := { h with
          controller := { h.controller with
            endpoints := h.controller.endpoints.modify place fun e => { e with used := points }
            sent := h.controller.sent ++ [(⟨place, points⟩, frame)] }
          transferred := h.transferred ++ [frame.length] }
        events := []
        result := .ok () } := by
  have hread := hline.ofLine_eq hsaps hcs hne hcount h.controller
  have hfits : ∀ c ∈ cs, c.Fits := fun c hc => (hcs c hc).1
  exact execute_of_done hread (decide_typed hactive hendpoint hup hfits hsize)

/-- A record for the points used last, with its numbers in other notations than decimal. -/
theorem execute_send_sample :
    (({ controller := sampleController } : Host).execute
        "snep put -1 0x20 [16,+1 QQ,,QkM]\r\n".toList).host =
      { controller := { sampleController with
          sent := [(⟨0, ⟨4, 32⟩⟩, [0x10, 0x02, 0, 0, 0, 6, 0xD1, 1, 2, 0x41, 0x42, 0x43])] }
        transferred := [12] } := by
  let c : Content := ⟨0x10, .wellKnown, [0x41], [], [0x42, 0x43]⟩
  have hlast : Numeral.Signed "-1".toList (-1) :=
    .minus (.decimal (.single (by decide)) (by decide))
  have hpoint : Numeral.Signed "0x20".toList 32 :=
    .unsigned (.bare (.hexadecimal (.inl rfl)
      (.snoc (d := 0) (.single (d := 2) (by decide)) (by decide))))
  have hflags : Numeral.Unsigned "16".toList 16 :=
    .bare (.decimal (.snoc (d := 6) (.single (d := 1) (by decide)) (by decide)) (by decide))
  have hname : Numeral.Unsigned "+1".toList 1 :=
    .plus (.decimal (.single (by decide)) (by decide))
  have hrecord : Command.RecordText c "[16,+1 QQ,,QkM]".toList :=
    @Command.RecordText.fields c _ _ ',' ' ' ',' ',' hflags hname (by decide) (by decide)
      (by decide) (by decide)
  have hrecords : Command.RecordsText [c] "[16,+1 QQ,,QkM]".toList :=
    @Command.RecordsText.cons _ _ [] _ _ (by simp) hrecord .nil
  have hline : Command.SendLine ⟨.last, .value 32⟩ [c]
      "snep put -1 0x20 [16,+1 QQ,,QkM]\r\n".toList :=
    @Command.SendLine.words ⟨.last, .value 32⟩ _ _ _ _ "\r\n".toList hlast hpoint hrecords (by simp)
  have hcs : ∀ x ∈ [c], x.Fits ∧ x.type ≠ [] ∧ x.payload ≠ [] :=
    List.forall_mem_singleton.mpr
      ⟨⟨by decide, by decide, by decide, by decide⟩, by decide, by decide⟩
  have hsaps : Llcp.Saps.InRange ⟨.last, .value 32⟩ := ⟨trivial, show 32 < 64 by decide⟩
  have h := execute_send (h := { controller := sampleController }) rfl rfl rfl hsaps (by decide)
    (by decide) hcs (by decide) hline
  rw [h]
  decide

end Host
end NearField.Emulator
