import NearField.Proofs.Emulator.Refusals

/-! # Numbers of endpoints

Notifications tell of an endpoint by a number of one byte, and a table of endpoints has no limit.
The numbers are those of the places, from 1 on, up to the 255th. The next endpoint has the number 0,
which should be none, and behind it the numbers start over.
-/
namespace NearField.Emulator
open Nci

namespace Controller
variable {c : Controller} {place place' : Nat} {packet packet' : Bytes}

inductive Announces (c : Controller) (place : Nat) (packet : Bytes) : Prop
  | discovered (stage : DiscoveryStage) (room : Nat)
      (built : c.discoverPacket place stage room = .ok packet)
  | activated (interface room : Nat) (built : c.activatedPacket place interface room = .ok packet)

def announced? (packet : Bytes) : Option UInt8 := packet[headerSize]?

theorem Announces.announced (h : c.Announces place packet) :
    announced? packet = some (endpointId place) := by
  cases h with
  | discovered stage room built =>
    obtain ⟨e, -, rfl⟩ := discoverPacket_eq_ok built
    rfl
  | activated interface room built =>
    obtain ⟨e, i, -, -, rfl⟩ := activatedPacket_eq_ok built
    rfl

theorem Announces.place_lt (h : c.Announces place packet) : place < c.endpoints.length := by
  cases h with
  | discovered stage room built =>
    obtain ⟨e, he, -⟩ := discoverPacket_eq_ok built
    exact (List.getElem?_eq_some_iff.mp he).1
  | activated interface room built =>
    obtain ⟨e, i, he, -⟩ := activatedPacket_eq_ok built
    exact (List.getElem?_eq_some_iff.mp he).1

theorem endpointId_eq_iff : endpointId place = endpointId place' ↔ place % 256 = place' % 256 := by
  unfold endpointId
  rw [← UInt8.toNat_inj, UInt8.toNat_ofNat', UInt8.toNat_ofNat']
  omega

theorem endpointId_eq_zero_iff : endpointId place = 0 ↔ place % 256 = 255 := by
  unfold endpointId
  rw [← UInt8.toNat_inj, UInt8.toNat_ofNat']
  show _ = 0 ↔ _
  omega

end Controller

/-- A line is read as the notification of a discovery, succeeds, and delivers a packet. -/
structure Host.Discovers (h : Host) (line : Text) (place : Nat) (stage : DiscoveryStage)
    (packet : Bytes) : Prop where
  read : Command.ofLine h.controller line = .ok (.notify (.discover place stage))
  succeeds : (h.execute line).result = .ok ()
  delivers : (h.execute line).host.notifications = h.notifications ++ [packet]

theorem Host.Discovers.built {h : Host} {line : Text} {place : Nat} {stage : DiscoveryStage}
    {packet : Bytes} (hd : h.Discovers line place stage packet) :
    h.controller.discoverPacket place stage maxPacketSize = .ok packet := by
  obtain ⟨command, effect, hread, hdecide, hexecute⟩ := exists_effect_of_execute hd.succeeds
  cases hd.read.symm.trans hread
  obtain ⟨packet', rfl, hbuilt⟩ := decide_discover hdecide
  have hdelivers := hd.delivers
  rw [hexecute] at hdelivers
  obtain rfl : packet' = packet := by simpa [Effect.apply] using hdelivers
  exact hbuilt

theorem Host.exists_discovers {h : Host} {line : Text} {place : Nat} {stage : DiscoveryStage}
    (hread : Command.ofLine h.controller line = .ok (.notify (.discover place stage))) :
    ∃ packet, h.Discovers line place stage packet := by
  obtain ⟨packet, hbuilt⟩ := Controller.exists_discoverPacket (Command.ofLine_checked hread) stage
  have hdecide : h.decide (.notify (.discover place stage)) = .ok (.notified packet) := by
    simp [decide, hbuilt]
  have hexecute := execute_of_done hread hdecide
  exact ⟨packet, hread, by rw [hexecute], by rw [hexecute, Effect.apply]⟩

namespace Controller
variable {c : Controller}

/-- What is told of the endpoints of a controller tells them apart: by the number in a packet, and
by the whole packet that a line delivers for a discovery. The lines may come at different times, but
the endpoints stay. -/
structure TellsApart (c : Controller) : Prop where
  packets : ∀ place place' packet packet', place ≠ place' → c.Announces place packet →
    c.Announces place' packet' → announced? packet ≠ announced? packet'
  lines : ∀ (h h' : Host) line line' place place' stage stage' packet,
    h.controller.endpoints.length = c.endpoints.length →
    h'.controller.endpoints.length = c.endpoints.length →
    h.Discovers line place stage packet → h'.Discovers line' place' stage' packet →
    place = place' ∧ stage = stage'

/-- No endpoint of a controller is told of by the number 0. -/
def AvoidsZero (c : Controller) : Prop :=
  ∀ place packet, c.Announces place packet → announced? packet ≠ some 0

theorem tellsApart_of_length_le (hlength : c.endpoints.length ≤ 256) : c.TellsApart where
  packets place place' packet packet' hne hpacket hpacket' := by
    have hplace := hpacket.place_lt
    have hplace' := hpacket'.place_lt
    rw [hpacket.announced, hpacket'.announced, ne_eq, Option.some.injEq, endpointId_eq_iff]
    omega
  lines h h' line line' place place' stage stage' packet hlen hlen' hd hd' := by
    obtain ⟨e, he, hpacket⟩ := discoverPacket_eq_ok hd.built
    obtain ⟨e', he', hpacket'⟩ := discoverPacket_eq_ok hd'.built
    have hplace := (List.getElem?_eq_some_iff.mp he).1
    have hplace' := (List.getElem?_eq_some_iff.mp he').1
    rw [hpacket] at hpacket'
    simp only [List.cons.injEq, true_and, and_true] at hpacket'
    obtain ⟨hid, -, -, hstage⟩ := hpacket'
    rw [endpointId_eq_iff] at hid
    exact ⟨by omega, Coded.code_inj _ _ hstage⟩

theorem exists_announced {place : Nat} (h : place < c.endpoints.length) :
    ∃ packet, c.Announces place packet ∧ announced? packet = some (endpointId place) := by
  obtain ⟨packet, hbuilt⟩ := exists_discoverPacket h .last
  have hpacket := Announces.discovered .last maxPacketSize hbuilt
  exact ⟨packet, hpacket, hpacket.announced⟩

/-- The numbers tell 256 endpoints apart and no more, and the last of these has the number 0. No
line is refused for that: each that is read as the notification of a discovery delivers a packet. -/
theorem endpointIds_exact (c : Controller) :
    (c.TellsApart ↔ c.endpoints.length ≤ 256) ∧ (c.AvoidsZero ↔ c.endpoints.length ≤ 255) ∧
    ∀ (h : Host) line place stage, h.controller = c →
      Command.ofLine c line = .ok (.notify (.discover place stage)) →
      ∃ packet, h.Discovers line place stage packet := by
  refine ⟨⟨fun h => ?_, tellsApart_of_length_le⟩, ⟨fun h => ?_, ?_⟩, ?_⟩
  · by_cases hlength : c.endpoints.length ≤ 256
    · exact hlength
    · have hlast : 256 < c.endpoints.length := Nat.not_le.mp hlength
      obtain ⟨packet, hpacket, hid⟩ := exists_announced (Nat.zero_lt_of_lt hlast)
      obtain ⟨packet', hpacket', hid'⟩ := exists_announced hlast
      have hsame : endpointId 0 = endpointId 256 := endpointId_eq_iff.mpr rfl
      rw [hsame, ← hid'] at hid
      exact absurd hid (h.packets 0 256 packet packet' (by decide) hpacket hpacket')
  · by_cases hlength : c.endpoints.length ≤ 255
    · exact hlength
    · obtain ⟨packet, hpacket, hid⟩ := exists_announced (Nat.not_le.mp hlength)
      exact absurd hid (h 255 packet hpacket)
  · intro hlength place packet hpacket
    have hplace := hpacket.place_lt
    rw [hpacket.announced, ne_eq, Option.some.injEq, endpointId_eq_zero_iff]
    omega
  · rintro h line place stage rfl hread
    exact Host.exists_discovers hread

/-- Among 257 endpoints one has the number 0, and the first and the last are told of alike. -/
theorem exists_shared_packet : ∃ c : Controller,
    (∃ packet, c.discoverPacket 255 .last maxPacketSize = .ok packet ∧
      packet[headerSize]? = some 0) ∧
    ∃ packet, c.discoverPacket 0 .last maxPacketSize = .ok packet ∧
      c.discoverPacket 256 .last maxPacketSize = .ok packet :=
  ⟨{ endpoints := List.replicate 257 ⟨.nfcDep, .fPassivePoll, {}, none⟩ },
    ⟨_, rfl, rfl⟩, ⟨_, rfl, rfl⟩⟩

end Controller
end NearField.Emulator
