import Mathlib.Logic.Relation
import NearField.Emulator.Sample
import NearField.Emulator.Surroundings
import NearField.Proofs.Command.Bounds
import NearField.Proofs.Emulator.AllOrNothing
import NearField.Proofs.Ndef.Reading
import NearField.Proofs.Snep

/-! # What holds through every run

Lines of any text and changes of the surroundings follow each other in any order. Whatever they are,
the points that a host remembers stay in range, what it has sent are put requests of canonical
messages, its connections and notifications are well formed, and its tags hold canonical messages.
-/
namespace NearField.Emulator
open Ndef

/-- What no command changes of a controller: how its endpoints are talked to, and its
interfaces. -/
structure Equipment where
  endpoints : List (Protocol × TechMode)
  interfaces : List Interface

def Controller.equipment (c : Controller) : Equipment :=
  ⟨c.endpoints.map fun e => (e.protocol, e.mode), c.interfaces⟩

namespace Equipment
variable (q : Equipment)

/-- A frame that went out: a put request to an endpoint that is there. -/
structure Carries (link : Link) (frame : Bytes) : Prop where
  endpoint : link.endpoint < q.endpoints.length
  points : link.points.InRange
  size : frame.length ≤ 1024
  request : ∃ message, Snep.Request.parse frame = .ok ⟨0x10, Snep.put, message⟩ ∧
    Message.IsCanonical message 1 4

structure Connects (link : Link) : Prop where
  endpoint : link.endpoint < q.endpoints.length
  points : link.points.InRange
  destination : 1 ≤ link.points.destination.toNat
  source : 1 ≤ link.points.source.toNat

/-- The notifications there are, each with the length of what follows its third byte. -/
inductive Announces : Bytes → Prop
  | discovered {place : Nat} {protocol : Protocol} {mode : TechMode} (stage : DiscoveryStage)
      (endpoint : q.endpoints[place]? = some (protocol, mode)) :
      Announces [0x61, 0x03, 5, UInt8.ofNat (place + 1), Coded.code protocol, Coded.code mode, 0,
        Coded.code stage]
  | activated {place i : Nat} {protocol : Protocol} {mode : TechMode} {interface : Interface}
      (endpoint : q.endpoints[place]? = some (protocol, mode))
      (present : q.interfaces[i]? = some interface) :
      Announces [0x61, 0x05, 11, UInt8.ofNat (place + 1), Coded.code interface.kind,
        Coded.code protocol, Coded.code mode, 0xFF, 0x01, 0, Coded.code mode, 0, 0, 0]
  | deactivated (type : DeactivationType) (reason : DeactivationReason) :
      Announces [0x61, 0x06, 2, Coded.code type, Coded.code reason]

end Equipment

structure Tag.Sound (t : Tag) : Prop where
  size : t.content.length ≤ 512
  canonical : Message.IsCanonical t.content 0 4

structure Endpoint.Sound (e : Endpoint) : Prop where
  used : e.used.InRange
  tag : ∀ t ∈ e.tag, t.Sound

structure Host.Sound (h : Host) : Prop where
  endpoints : ∀ e ∈ h.controller.endpoints, e.Sound
  interface : ∀ i ∈ h.controller.activeInterface, i < h.controller.interfaces.length
  sent : ∀ entry ∈ h.controller.sent, h.controller.equipment.Carries entry.1 entry.2
  connects : ∀ link ∈ h.controller.connects, h.controller.equipment.Connects link
  notifications : ∀ packet ∈ h.notifications, h.controller.equipment.Announces packet

/-- A host that a run can begin with: its logs and its tags are empty. -/
structure Host.Fresh (h : Host) : Prop where
  used : ∀ e ∈ h.controller.endpoints, e.used.InRange
  tags : ∀ e ∈ h.controller.endpoints, ∀ t ∈ e.tag, t.content = []
  interface : ∀ i ∈ h.controller.activeInterface, i < h.controller.interfaces.length
  sent : h.controller.sent = []
  connects : h.controller.connects = []
  notifications : h.notifications = []

/-- Changes of the surroundings other than of the interfaces. -/
def Incident.SparesInterfaces : Incident → Prop
  | activeInterface _ | interfacesLost _ => False
  | _ => True

inductive Host.Step : Host → Host → Prop
  | line (h : Host) (line : Text) : Step h (h.execute line).host
  | incident (h : Host) (i : Incident) (spares : i.SparesInterfaces) : Step h (h.meet i)

theorem Tag.sound_of_empty {t : Tag} (h : t.content = []) : t.Sound := by
  refine ⟨by simp [h], [], ?_, trivial, Nat.le_refl 0, Nat.zero_le 4⟩
  rw [h]
  exact items_nil

theorem Host.Fresh.sound {h : Host} (hf : h.Fresh) : h.Sound where
  endpoints e he := ⟨hf.used e he, fun t ht => Tag.sound_of_empty (hf.tags e he t ht)⟩
  interface := hf.interface
  sent := by simp [hf.sent]
  connects := by simp [hf.connects]
  notifications := by simp [hf.notifications]

theorem Controller.equipment_modifyEndpoint (c : Controller) (place : Nat)
    {f : Endpoint → Endpoint}
    (hf : ∀ e, (f e).protocol = e.protocol ∧ (f e).mode = e.mode) :
    (c.modifyEndpoint place f).equipment = c.equipment := by
  rw [equipment, c.map_modifyEndpoint place fun e => Prod.ext (hf e).1 (hf e).2]
  rfl

theorem Effect.equipment_apply (h : Host) (effect : Effect) :
    (effect.apply h).controller.equipment = h.controller.equipment := by
  cases effect with
  | notified packet => rfl
  | _ => exact h.controller.equipment_modifyEndpoint _ fun e => ⟨rfl, rfl⟩

theorem Host.equipment_meet (h : Host) {i : Incident} (hi : i.SparesInterfaces) :
    (h.meet i).controller.equipment = h.controller.equipment := by
  cases i with
  | activeInterface place => exact hi.elim
  | interfacesLost kept => exact hi.elim
  | tagFails place fails => exact h.controller.equipment_modifyEndpoint place fun e => ⟨rfl, rfl⟩
  | _ => rfl

def Effect.Sound (q : Equipment) : Effect → Prop
  | sent link frame => q.Carries link frame
  | connected link => q.Connects link
  | received link _ _ => link.points.InRange
  | notified packet => q.Announces packet
  | activated _ interface packet => q.Announces packet ∧ interface < q.interfaces.length
  | tagWritten _ content => content.length ≤ 512 ∧ Message.IsCanonical content 0 4
  | tagFormatted _ => True

namespace Host
variable {h : Host}

theorem points_inRange (hs : h.Sound) {saps : Llcp.Saps} (hsaps : saps.InRange) {link : Link}
    (hlink : h.link saps = .ok link) :
    link.endpoint < h.controller.equipment.endpoints.length ∧ link.points.InRange := by
  obtain ⟨e, -, he, hpoints⟩ := link_eq_ok_iff.mp hlink
  constructor
  · rw [Controller.equipment, List.length_map]
    exact (List.getElem?_eq_some_iff.mp he).1
  · rw [hpoints]
    exact Llcp.Saps.orUsed_inRange hsaps (hs.endpoints e (List.mem_of_getElem? he)).used

theorem equipment_endpoint {place : Nat} {e : Endpoint}
    (he : h.controller.endpoints[place]? = some e) :
    h.controller.equipment.endpoints[place]? = some (e.protocol, e.mode) := by
  rw [Controller.equipment, List.getElem?_map, he, Option.map_some]

theorem sound_of_notify {n : Nci.Notification} {effect : Effect}
    (hd : h.decide (.notify n) = .ok effect) : effect.Sound h.controller.equipment := by
  cases n with
  | discover place stage =>
    obtain ⟨packet, rfl, hpacket⟩ := decide_discover hd
    obtain ⟨e, he, rfl⟩ := Controller.discoverPacket_eq_ok hpacket
    exact .discovered stage (equipment_endpoint he)
  | activate endpoint selection =>
    obtain ⟨place, interface, packet, rfl, -, hpacket⟩ := decide_activate hd
    obtain ⟨e, i, he, hi, rfl⟩ := Controller.activatedPacket_eq_ok hpacket
    exact ⟨.activated (equipment_endpoint he) hi, (List.getElem?_eq_some_iff.mp hi).1⟩
  | deactivate type reason =>
    obtain ⟨packet, rfl, hpacket⟩ := decide_deactivate hd
    rw [Nci.deactivatePacket_eq_ok hpacket]
    exact .deactivated type reason

theorem sound_of_decide (hs : h.Sound) {command : Command} (hc : command.InRange)
    {effect : Effect} (hd : h.decide command = .ok effect) :
    effect.Sound h.controller.equipment := by
  cases command with
  | send saps records =>
    obtain ⟨hsaps, hne, hmost⟩ := hc
    obtain ⟨link, frame, rfl, hlink, -, hframe⟩ := decide_send hd
    obtain ⟨hplace, hpoints⟩ := points_inRange hs hsaps hlink
    obtain ⟨cs, hcs, rfl, hsize, hparse⟩ := Snep.frameOf_eq_ok (by decide) (by decide) hframe
    obtain ⟨-, hfits, -⟩ := Message.contents_eq_ok_iff.mp hcs
    have hcanonical := Message.isCanonical_wire hfits
    rw [← Message.length_contents hcs] at hcanonical
    exact ⟨hplace, hpoints, hsize, Message.wire cs, hparse,
      hcanonical.mono (List.length_pos_iff.mpr hne) hmost⟩
  | receive saps =>
    obtain ⟨link, frame, message, rfl, hlink, -⟩ := decide_receive hd
    exact (points_inRange hs hc hlink).2
  | connect saps =>
    obtain ⟨link, rfl, hlink, hconnectable⟩ := decide_connect hd
    obtain ⟨hplace, hpoints⟩ := points_inRange hs hc hlink
    obtain ⟨hdestination, hsource⟩ := Llcp.Points.ne_zero_of_checkConnectable hconnectable
    exact ⟨hplace, hpoints, UInt8.pos_iff_ne_zero.mpr hdestination,
      UInt8.pos_iff_ne_zero.mpr hsource⟩
  | notify n => exact sound_of_notify hd
  | setTag place records =>
    obtain ⟨message, tag, rfl, -, hmessage⟩ := decide_setTag hd
    obtain ⟨⟨read, hread, hcanonical, -, hmost⟩, hsize⟩ := Message.isCanonical_of_encode hmessage
    exact ⟨hsize, read, hread, hcanonical, Nat.zero_le _, Nat.le_trans hmost hc⟩
  | clearTag place =>
    obtain ⟨tag, rfl, -⟩ := decide_clearTag hd
    exact ⟨Nat.zero_le _, [], items_nil, trivial, Nat.zero_le _, Nat.zero_le _⟩
  | formatTag place =>
    obtain ⟨tag, rfl, -⟩ := decide_formatTag hd
    trivial

theorem Sound.apply (hs : h.Sound) {effect : Effect} (he : effect.Sound h.controller.equipment) :
    (effect.apply h).Sound := by
  have hequipment := Effect.equipment_apply h effect
  have hused (link : Link) (hlink : link.points.InRange) :
      ∀ e ∈ (h.controller.setUsed link).endpoints, e.Sound :=
    Controller.forall_modifyEndpoint hs.endpoints fun e hsound => ⟨hlink, hsound.tag⟩
  have htag (place : Nat) (f : Tag → Tag) (hf : ∀ t : Tag, t.Sound → (f t).Sound) :
      ∀ e ∈ (h.controller.modifyTag place f).endpoints, e.Sound := by
    refine Controller.forall_modifyEndpoint hs.endpoints fun e hsound => ⟨hsound.used, ?_⟩
    intro t ht
    obtain ⟨old, hold, rfl⟩ := Option.map_eq_some_iff.mp ht
    exact hf old (hsound.tag old hold)
  cases effect with
  | sent link frame =>
    refine ⟨hused link he.points, hs.interface, ?_, hequipment ▸ hs.connects,
      hequipment ▸ hs.notifications⟩
    rw [hequipment]
    exact List.forall_mem_append.mpr ⟨hs.sent, List.forall_mem_singleton.mpr he⟩
  | connected link =>
    refine ⟨hused link he.points, hs.interface, hequipment ▸ hs.sent, ?_,
      hequipment ▸ hs.notifications⟩
    rw [hequipment]
    exact List.forall_mem_append.mpr ⟨hs.connects, List.forall_mem_singleton.mpr he⟩
  | received link frame message =>
    exact ⟨hused link he, hs.interface, hequipment ▸ hs.sent, hequipment ▸ hs.connects,
      hequipment ▸ hs.notifications⟩
  | notified packet =>
    exact ⟨hs.endpoints, hs.interface, hs.sent, hs.connects,
      List.forall_mem_append.mpr ⟨hs.notifications, List.forall_mem_singleton.mpr he⟩⟩
  | activated place interface packet =>
    obtain ⟨hpacket, hinterface⟩ := he
    refine ⟨?_, ?_, hequipment ▸ hs.sent, hequipment ▸ hs.connects, ?_⟩
    · exact Controller.forall_modifyEndpoint hs.endpoints fun e hsound =>
        ⟨⟨Nat.zero_lt_succ 63, Nat.zero_lt_succ 63⟩, hsound.tag⟩
    · rintro i hi
      cases hi
      exact hinterface
    · rw [hequipment]
      exact List.forall_mem_append.mpr ⟨hs.notifications, List.forall_mem_singleton.mpr hpacket⟩
  | tagWritten place content =>
    exact ⟨htag place _ fun t _ => ⟨he.1, he.2⟩, hs.interface, hequipment ▸ hs.sent,
      hequipment ▸ hs.connects, hequipment ▸ hs.notifications⟩
  | tagFormatted place =>
    exact ⟨htag place _ fun t _ => Tag.sound_of_empty rfl, hs.interface, hequipment ▸ hs.sent,
      hequipment ▸ hs.connects, hequipment ▸ hs.notifications⟩

theorem Sound.abandoned (hs : h.Sound) {command : Command} {e : Error}
    (hd : h.decide command = .error e) : (h.abandoned command).1.Sound := by
  rcases abandoned_cases hd with hnone | ⟨saps, link, frame, waiting, pieces, -, -, -, -, hsome, -⟩
  · rw [hnone]
    exact hs
  · rw [hsome]
    exact ⟨hs.endpoints, hs.interface, hs.sent, hs.connects, hs.notifications⟩

theorem Sound.execute (hs : h.Sound) (line : Text) : (h.execute line).host.Sound := by
  cases hread : Command.ofLine h.controller line with
  | error e =>
    rw [execute_of_unread hread]
    exact hs
  | ok command =>
    cases hd : h.decide command with
    | ok effect =>
      rw [execute_of_done hread hd]
      exact hs.apply (sound_of_decide hs (Command.ofLine_inRange hread) hd)
    | error e =>
      rw [execute_of_refused hread hd]
      exact hs.abandoned hd

theorem Sound.meet (hs : h.Sound) {i : Incident} (hi : i.SparesInterfaces) :
    (h.meet i).Sound := by
  have hequipment := equipment_meet h hi
  cases i with
  | activeInterface place => exact hi.elim
  | interfacesLost kept => exact hi.elim
  | tagFails place fails =>
    refine ⟨?_, hs.interface, hequipment ▸ hs.sent, hequipment ▸ hs.connects,
      hequipment ▸ hs.notifications⟩
    refine Controller.forall_modifyEndpoint hs.endpoints fun e hsound => ⟨hsound.used, ?_⟩
    intro t ht
    obtain ⟨old, hold, rfl⟩ := Option.map_eq_some_iff.mp ht
    exact ⟨(hsound.tag old hold).size, (hsound.tag old hold).canonical⟩
  | sentRead =>
    exact ⟨hs.endpoints, hs.interface,
      fun entry hentry => hs.sent entry (List.dropLast_subset _ hentry), hs.connects,
      hs.notifications⟩
  | notificationRead =>
    exact ⟨hs.endpoints, hs.interface, hs.sent, hs.connects,
      fun packet hpacket => hs.notifications packet (List.dropLast_subset _ hpacket)⟩
  | _ => exact ⟨hs.endpoints, hs.interface, hs.sent, hs.connects, hs.notifications⟩

theorem Sound.step (hs : h.Sound) {h' : Host} (hstep : Step h h') : h'.Sound := by
  cases hstep with
  | line line => exact hs.execute line
  | incident i hi => exact hs.meet hi

/-- However lines and incidents follow each other, every host they lead to is sound. -/
theorem sound_of_run {h h' : Host} (hfresh : h.Fresh) (hrun : Relation.ReflTransGen Step h h') :
    h'.Sound := by
  induction hrun with
  | refl => exact hfresh.sound
  | tail _ hstep ih => exact ih.step hstep

theorem sample_sound_of_run :
    ((({ controller := sampleController } : Host).meet (.linkDown false)).execute
      "snep put -1 32 [16,1,QQ,,QkM]".toList).host.Sound := by
  have hfresh : Host.Fresh { controller := sampleController } := by
    refine ⟨?_, ?_, ?_, rfl, rfl, rfl⟩ <;>
      simp [sampleController, Llcp.Points.InRange, Llcp.pointCount]
  exact sound_of_run hfresh (.tail (.single (.incident _ (.linkDown false) trivial)) (.line _ _))

end Host
end NearField.Emulator
