import NearField.Proofs.Emulator.Effect

/-! # Packets of notifications

Whatever packet is built is one of three: an endpoint discovered, an interface activated, a link
deactivated. Each holds the length of its own payload, and tells of an endpoint or an interface that
the controller has.
-/
namespace NearField
namespace Nci

theorem writePacket_eq_ok {room : Nat} {group opcode : UInt8} {payload packet : Bytes}
    (h : writePacket room group opcode payload = .ok packet) :
    packet = header group opcode payload.length ++ payload := by
  unfold writePacket writeHeader at h
  simp only [bind_eq_ok_iff, pure_eq_ok, Except.ok.injEq] at h
  obtain ⟨-, -, -, ⟨-, -, -, -, rfl⟩, rfl⟩ := h
  rfl

theorem writePacket_eq {room : Nat} {group opcode : UInt8} {payload : Bytes}
    (hlength : payload.length ≤ 255) :
    writePacket room group opcode payload =
      if room < headerSize + payload.length then
        .error (.bufferOverflow (headerSize + payload.length) room)
      else .ok (header group opcode payload.length ++ payload) := by
  have hcheck : SizedField.nciPayload.check payload.length = .ok () :=
    SizedField.check_eq_ok_iff.mpr hlength
  unfold writePacket
  by_cases hroom : room < headerSize + payload.length
  · rw [Bytes.requireRoom, if_pos hroom, error_bind, if_pos hroom]
  · have hheader : Bytes.requireRoom room headerSize = .ok () :=
      Bytes.requireRoom_eq_ok_iff.mpr (by omega)
    rw [Bytes.requireRoom, if_neg hroom, ok_bind, if_neg hroom, writeHeader, hcheck, ok_bind,
      hheader]
    rfl

end Nci

namespace Emulator.Controller
open Nci
variable {c : Controller} {place interface room : Nat} {packet : Bytes}

theorem discoverPacket_eq_ok {stage : DiscoveryStage}
    (h : c.discoverPacket place stage room = .ok packet) :
    ∃ e, c.endpoints[place]? = some e ∧ packet = [0x61, 0x03, 5, endpointId place,
      Coded.code e.protocol, Coded.code e.mode, 0, Coded.code stage] := by
  unfold discoverPacket at h
  simp only [bind_eq_ok_iff, endpointAt_eq_ok_iff] at h
  obtain ⟨e, he, hpacket⟩ := h
  exact ⟨e, he, writePacket_eq_ok hpacket⟩

theorem activatedPacket_eq_ok (h : c.activatedPacket place interface room = .ok packet) :
    ∃ e i, c.endpoints[place]? = some e ∧ c.interfaces[interface]? = some i ∧
      packet = [0x61, 0x05, 11, endpointId place, Coded.code i.kind, Coded.code e.protocol,
        Coded.code e.mode, 0xFF, 0x01, 0, Coded.code e.mode, 0, 0, 0] := by
  unfold activatedPacket at h
  cases hfails : c.activationFails with
  | true => simp [hfails] at h
  | false =>
    cases hi : c.interfaces[interface]? with
    | none => simp [hfails, hi] at h
    | some i =>
      simp only [hfails, hi, Bool.false_eq_true, if_false, bind_eq_ok_iff,
        endpointAt_eq_ok_iff] at h
      obtain ⟨e, he, hpacket⟩ := h
      exact ⟨e, i, he, rfl, writePacket_eq_ok hpacket⟩

end Emulator.Controller

theorem Nci.deactivatePacket_eq_ok {type : DeactivationType} {reason : DeactivationReason}
    {room : Nat} {packet : Bytes} (h : deactivatePacket room type reason = .ok packet) :
    packet = [0x61, 0x06, 2, Coded.code type, Coded.code reason] :=
  writePacket_eq_ok h

end NearField
