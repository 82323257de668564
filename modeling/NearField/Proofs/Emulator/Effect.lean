import NearField.Command.Execute
import NearField.Proofs.Emulator.Endpoints

/-! # Effects of commands

A command either has one effect on its host or fails, and which of them is decided by the host as it
stands. A failure leaves the host alone, but for a receive: it has taken a frame off the queue, and
may have written a part of the report, when it can still fail.
-/
namespace NearField.Emulator

/-- What a command that succeeds has done. -/
inductive Effect
  | sent (link : Link) (frame : Bytes)
  | connected (link : Link)
  | received (link : Link) (frame message : Bytes)
  | notified (packet : Bytes)
  | activated (place interface : Nat) (packet : Bytes)
  | tagWritten (place : Nat) (content : Bytes)
  | tagFormatted (place : Nat)
  deriving DecidableEq, Repr

namespace Effect

/-- The host that an effect leaves. -/
def apply (h : Host) : Effect → Host
  | sent link frame =>
    { h with
      controller := { h.controller.setUsed link with sent := h.controller.sent ++ [(link, frame)] }
      transferred := h.transferred ++ [frame.length] }
  | connected link =>
    { h with
      controller := { h.controller.setUsed link with connects := h.controller.connects ++ [link] }
      transferred := h.transferred ++ [Controller.connectSize] }
  | received link frame _ =>
    { h with
      controller := { h.controller.setUsed link with incoming := h.controller.incoming.tail }
      received := h.received ++ [frame.length] }
  | notified packet => { h with notifications := h.notifications ++ [packet] }
  | activated place interface packet =>
    { h with
      controller := { h.controller.clear place with activeInterface := some interface }
      notifications := h.notifications ++ [packet] }
  | tagWritten place content =>
    { h with controller := h.controller.modifyTag place fun t =>
      { t with content := content, writes := t.writes + 1 } }
  | tagFormatted place =>
    { h with controller := h.controller.modifyTag place fun t =>
      { t with content := [], formats := t.formats + 1 } }

/-- What an effect writes to the console: only a receive tells what it received. -/
def events : Effect → List Console.Event
  | received _ _ message => (Ndef.Report.ofMessage message).pieces.map .output
  | _ => []

end Effect

namespace Controller
variable (c : Controller)

def linkUp : Except Error Unit := if c.linkDown then .error (.host .linkDown) else .ok ()

def nextFrame : Except Error Bytes :=
  match c.incoming with
  | [] => .error (.host .noRequestPending)
  | frame :: _ => .ok frame

def workingTag (operation : Operation) (fault : HostFault) (place : Nat) : Except Error Unit := do
  let tag ← c.tagAt place
  operation.scope (if tag.failing then .error (.host fault) else .ok ())

def plan (named : Option Nat) (selection : Nci.Selection) (room : Nat) :
    Except Error (Nat × Nat × Bytes) := do
  let (place, endpoint) ← c.chosenEndpoint named
  let k ← c.chosenInterface endpoint selection
  let packet ← Operation.activate.scope (c.activatedPacket place k room)
  return (place, k, packet)

end Controller

namespace Host
variable (h : Host)

/-- The frame that is received next, its message, and a report of it that can be written. -/
def nextMessage : Except Error (Bytes × Bytes) := do
  h.controller.linkUp
  let frame ← h.controller.nextFrame
  let message ← Controller.messageOf frame
  (Ndef.Report.ofMessage message).result
  return (frame, message)

/-- The effect that a command will have. -/
def decide : Command → Except Error Effect
  | .send saps records => do
    let link ← h.link saps
    let frame ← Operation.snepPut.scope do
      h.controller.linkUp
      Snep.frameOf records Controller.linkRoom
    return .sent link frame
  | .receive saps => do
    let link ← h.link saps
    let (frame, message) ← Operation.snepPut.scope h.nextMessage
    return .received link frame message
  | .connect saps => do
    let link ← h.link saps
    link.points.checkConnectable
    Operation.llcpConnect.scope h.controller.linkUp
    return .connected link
  | .notify (.discover place stage) => do
    let packet ← Operation.discover.scope
      (h.controller.discoverPacket place stage Nci.maxPacketSize)
    return .notified packet
  | .notify (.activate endpoint selection) => do
    let (place, endpoint) ← h.controller.chosenEndpoint endpoint
    let interface ← h.controller.chosenInterface endpoint selection
    let packet ← Operation.activate.scope
      (h.controller.activatedPacket place interface Nci.maxPacketSize)
    return .activated place interface packet
  | .notify (.deactivate type reason) => do
    let packet ← Operation.deactivate.scope (Nci.deactivatePacket Nci.maxPacketSize type reason)
    return .notified packet
  | .setTag place records =>
    if records.isEmpty then .error .noRecord
    else do
      let message ← Ndef.Message.encode records tagRoom
      h.controller.workingTag .tagSet .tagWriteFailed place
      return .tagWritten place message
  | .clearTag place => do
    h.controller.workingTag .tagClear .tagWriteFailed place
    return .tagWritten place []
  | .formatTag place => do
    h.controller.workingTag .tagFormat .tagFormatFailed place
    return .tagFormatted place

/-- The host and the console output that a failing command leaves. -/
def abandoned : Command → Session
  | .receive saps =>
    match h.link saps, h.controller.linkDown, h.controller.incoming with
    | .ok _, false, frame :: waiting =>
      ({ h with controller := { h.controller with incoming := waiting } },
        match Controller.messageOf frame with
        | .ok message => (Ndef.Report.ofMessage message).pieces.map .output
        | .error _ => [])
    | _, _, _ => (h, [])
  | _ => (h, [])

def outcome (command : Command) : EStateM.Result Error Session Unit :=
  match h.decide command with
  | .ok effect => .ok () (effect.apply h, effect.events)
  | .error e => .error e (h.abandoned command)

end Host

namespace Controller
variable {c : Controller}

@[simp] theorem run_requireLink (c : Controller) :
    requireLink.run c = match c.linkUp with
      | .ok () => .ok () c
      | .error e => .error e c := by
  unfold requireLink linkUp
  cases hdown : c.linkDown <;> simp [hdown]

theorem run_useLink {link : Link} {endpoint : Endpoint}
    (h : c.endpoints[link.endpoint]? = some endpoint) :
    (useLink link).run c = .ok () (c.setUsed link) := by
  simp [useLink, endpointAt_eq_ok_iff.mpr h]

/-- The controller is changed only once the packet is there. -/
theorem run_activate (reset : Controller → Nat → Controller) (c : Controller)
    (named : Option Nat) (selection : Nci.Selection) (room : Nat) :
    (activate reset named selection room).run c = match c.plan named selection room with
      | .ok (place, k, packet) => .ok packet { reset c place with activeInterface := some k }
      | .error e => .error e c := by
  unfold activate plan
  cases hchosen : c.chosenEndpoint named with
  | error e => simp [hchosen]
  | ok chosen =>
    obtain ⟨place, endpoint⟩ := chosen
    cases hk : c.chosenInterface endpoint selection with
    | error e => simp [hchosen, hk]
    | ok k => cases hpacket : c.activatedPacket place k room <;> simp [hchosen, hk, hpacket]

end Controller

namespace Host
variable {h : Host} {saps : Llcp.Saps} {link : Link}

@[simp] theorem onController_eq {α : Type} (work : Work Controller α) :
    onController work = Work.on Host.controller (fun h c => { h with controller := c }) work := rfl

theorem link_eq_ok_iff : h.link saps = .ok link ↔ ∃ endpoint,
    h.controller.activeEndpoint = some link.endpoint ∧
      h.controller.endpoints[link.endpoint]? = some endpoint ∧
      link.points = saps.orUsed endpoint.used := by
  obtain ⟨place, points⟩ := link
  simp only [Host.link, bind_eq_ok_iff, Prod.exists, Controller.active_eq_ok_iff, pure_eq_ok,
    Except.ok.injEq, Link.mk.injEq]
  constructor
  · rintro ⟨active, endpoint, ⟨hactive, hendpoint⟩, rfl, rfl⟩
    exact ⟨endpoint, hactive, hendpoint, rfl⟩
  · rintro ⟨endpoint, hactive, hendpoint, rfl⟩
    exact ⟨place, endpoint, ⟨hactive, hendpoint⟩, rfl, rfl⟩

theorem run_send (h : Host) (saps : Llcp.Saps) (records : List Ndef.Record) :
    (perform (.send saps records)).run (h, []) = h.outcome (.send saps records) := by
  simp only [perform, sendRecords, outcome, decide, abandoned]
  cases hlink : h.link saps with
  | error e => simp [hlink]
  | ok link =>
    obtain ⟨endpoint, -, hendpoint, -⟩ := link_eq_ok_iff.mp hlink
    have huse := Controller.run_useLink hendpoint
    cases hup : h.controller.linkUp with
    | error e => simp [hlink, Controller.sendRecords, hup]
    | ok =>
      cases hframe : Snep.frameOf records Controller.linkRoom with
      | error e => simp [hlink, Controller.sendRecords, hup, hframe]
      | ok frame =>
        simp [hlink, Controller.sendRecords, hup, hframe, huse, Effect.apply, Effect.events,
          Controller.setUsed, Controller.modifyEndpoint]

theorem run_connect (h : Host) (saps : Llcp.Saps) :
    (perform (.connect saps)).run (h, []) = h.outcome (.connect saps) := by
  simp only [perform, connect, outcome, decide, abandoned]
  cases hlink : h.link saps with
  | error e => simp [hlink]
  | ok link =>
    obtain ⟨endpoint, -, hendpoint, -⟩ := link_eq_ok_iff.mp hlink
    have huse := Controller.run_useLink hendpoint
    cases hpoints : link.points.checkConnectable with
    | error e => simp [hlink, hpoints]
    | ok =>
      cases hup : h.controller.linkUp with
      | error e => simp [hlink, hpoints, Controller.connect, hup]
      | ok =>
        simp [hlink, hpoints, Controller.connect, hup, huse, Effect.apply, Effect.events,
          Controller.setUsed, Controller.modifyEndpoint]

theorem decide_activate_eq (h : Host) (named : Option Nat) (selection : Nci.Selection) :
    h.decide (.notify (.activate named selection)) = (do
      let (place, k, packet) ← h.controller.plan named selection Nci.maxPacketSize
      return .activated place k packet) := by
  simp only [decide, Controller.plan, bind_assoc, pure_bind]

theorem run_notify (h : Host) (n : Nci.Notification) :
    (perform (.notify n)).run (h, []) = h.outcome (.notify n) := by
  simp only [perform, notify, outcome, abandoned]
  cases n with
  | discover place stage =>
    unfold decide
    cases hpacket : h.controller.discoverPacket place stage Nci.maxPacketSize <;>
      simp [Controller.notify, Nci.Notification.operation, hpacket, Effect.apply, Effect.events]
  | deactivate type reason =>
    unfold decide
    cases hpacket : Nci.deactivatePacket Nci.maxPacketSize type reason <;>
      simp [Controller.notify, Nci.Notification.operation, hpacket, Effect.apply, Effect.events]
  | activate named selection =>
    rw [decide_activate_eq]
    simp only [Controller.notify]
    cases hplan : h.controller.plan named selection Nci.maxPacketSize <;>
      simp [Controller.run_activate, hplan, Effect.apply, Effect.events]

theorem run_changeTag (h : Host) (operation : Operation) (fault : HostFault) (place : Nat)
    (f : Tag → Tag) :
    (changeTag operation place (do Tag.requireWorking fault; modify f)).run h =
      match h.controller.workingTag operation fault place with
      | .ok () => .ok () { h with controller := h.controller.modifyTag place f }
      | .error e => .error e h := by
  unfold changeTag Controller.workingTag
  cases htag : h.controller.tagAt place with
  | error e => simp [Controller.onTag, htag]
  | ok tag =>
    have hself := Controller.setTag_self htag
    have hmodify := Controller.setTag_eq_modifyTag htag f
    cases hfailing : tag.failing <;>
      simp [Controller.onTag, Tag.requireWorking, htag, hfailing, hself, hmodify]

theorem run_clearTag (h : Host) (place : Nat) :
    (perform (.clearTag place)).run (h, []) = h.outcome (.clearTag place) := by
  simp only [perform, clearTag, outcome, decide, abandoned, Work.run_onFst, Tag.write,
    run_changeTag]
  cases h.controller.workingTag .tagClear .tagWriteFailed place <;> rfl

theorem run_formatTag (h : Host) (place : Nat) :
    (perform (.formatTag place)).run (h, []) = h.outcome (.formatTag place) := by
  simp only [perform, formatTag, outcome, decide, abandoned, Work.run_onFst, Tag.format,
    run_changeTag]
  cases h.controller.workingTag .tagFormat .tagFormatFailed place <;> rfl

theorem run_setTag (h : Host) (place : Nat) (records : List Ndef.Record) :
    (perform (.setTag place records)).run (h, []) = h.outcome (.setTag place records) := by
  simp only [perform, setTag, outcome, decide, abandoned]
  cases hempty : records.isEmpty with
  | true => simp
  | false =>
    cases hmessage : Ndef.Message.encode records tagRoom with
    | error e => simp
    | ok message =>
      have hchange := run_changeTag h .tagSet .tagWriteFailed place fun t =>
        { t with content := message, writes := t.writes + 1 }
      cases hworking : h.controller.workingTag .tagSet .tagWriteFailed place with
      | error e => simp [Tag.write, hchange, hworking]
      | ok => simp [Tag.write, hchange, hworking, Effect.apply, Effect.events]

theorem run_receive (h : Host) (saps : Llcp.Saps) :
    (perform (.receive saps)).run (h, []) = h.outcome (.receive saps) := by
  simp only [perform, receiveMessage, Controller.receiveMessage, outcome, decide, abandoned]
  cases hlink : h.link saps with
  | error e => simp [hlink]
  | ok link =>
    obtain ⟨endpoint, -, hendpoint, -⟩ := link_eq_ok_iff.mp hlink
    cases hdown : h.controller.linkDown with
    | true => simp [hlink, hdown, nextMessage, Controller.linkUp]
    | false =>
    cases hincoming : h.controller.incoming with
    | nil =>
      simp [hlink, hdown, hincoming, nextMessage, Controller.linkUp, Controller.takeFrame,
        Controller.nextFrame]
    | cons frame waiting =>
    cases hmessage : Controller.messageOf frame with
    | error e =>
      simp [hlink, hdown, hincoming, hmessage, nextMessage, Controller.linkUp,
        Controller.takeFrame, Controller.nextFrame]
    | ok message =>
    have huse : (Controller.useLink link).run { h.controller with incoming := waiting } = _ :=
      Controller.run_useLink hendpoint
    simp only [hdown] at huse
    cases hreport : (Ndef.Report.ofMessage message).result with
    | error e =>
      simp [hlink, hdown, hincoming, hmessage, hreport, nextMessage, Controller.linkUp,
        Controller.takeFrame, Controller.nextFrame, writeReport]
    | ok =>
      simp [hlink, hdown, hincoming, hmessage, hreport, nextMessage, Controller.linkUp,
        Controller.takeFrame, Controller.nextFrame, writeReport, huse, Effect.apply,
        Effect.events, Controller.setUsed, Controller.modifyEndpoint]

theorem run_perform (h : Host) (command : Command) :
    (perform command).run (h, []) = h.outcome command := by
  cases command with
  | send saps records => exact run_send h saps records
  | receive saps => exact run_receive h saps
  | connect saps => exact run_connect h saps
  | notify n => exact run_notify h n
  | setTag place records => exact run_setTag h place records
  | clearTag place => exact run_clearTag h place
  | formatTag place => exact run_formatTag h place

end Host

namespace Controller
variable {c : Controller} {place : Nat}

theorem linkUp_eq_ok_iff : c.linkUp = .ok () ↔ c.linkDown = false := by
  unfold linkUp
  cases c.linkDown <;> simp

theorem nextFrame_eq_ok_iff {frame : Bytes} :
    c.nextFrame = .ok frame ↔ c.incoming.head? = some frame := by
  unfold nextFrame
  cases c.incoming <;> simp

theorem workingTag_eq_ok_iff {operation : Operation} {fault : HostFault} :
    c.workingTag operation fault place = .ok () ↔
      ∃ tag, c.tagAt place = .ok tag ∧ tag.failing = false := by
  simp only [workingTag, bind_eq_ok_iff, Operation.scope_eq_ok_iff]
  refine exists_congr fun tag => and_congr_right fun _ => ?_
  cases tag.failing <;> simp

/-- The endpoint of an activation: the one that is named, or else the active one. -/
structure Chooses (c : Controller) (named : Option Nat) (place : Nat) (endpoint : Endpoint) :
    Prop where
  named : named.or c.activeEndpoint = some place
  present : c.endpoints[place]? = some endpoint

theorem chosenEndpoint_eq_ok_iff {named : Option Nat} {endpoint : Endpoint} :
    c.chosenEndpoint named = .ok (place, endpoint) ↔ c.Chooses named place endpoint := by
  cases named with
  | none =>
    rw [chosenEndpoint, active_eq_ok_iff]
    exact ⟨fun h => ⟨h.1, h.2⟩, fun h => ⟨h.named, h.present⟩⟩
  | some asked =>
    simp only [chosenEndpoint, bind_eq_ok_iff, endpointAt_eq_ok_iff, pure_eq_ok, Except.ok.injEq,
      Prod.mk.injEq]
    constructor
    · rintro ⟨found, hfound, rfl, rfl⟩
      exact ⟨rfl, hfound⟩
    · rintro ⟨hnamed, hpresent⟩
      cases hnamed
      exact ⟨endpoint, hpresent, rfl, rfl⟩

end Controller

namespace Host
variable {h : Host} {saps : Llcp.Saps} {effect : Effect}

theorem decide_send {records : List Ndef.Record}
    (hd : h.decide (.send saps records) = .ok effect) :
    ∃ link frame, effect = .sent link frame ∧ h.link saps = .ok link ∧
      h.controller.linkDown = false ∧ Snep.frameOf records Controller.linkRoom = .ok frame := by
  simp only [decide, bind_eq_ok_iff, Operation.scope_eq_ok_iff, pure_eq_ok, Except.ok.injEq] at hd
  obtain ⟨link, hlink, frame, ⟨⟨⟩, hup, hframe⟩, rfl⟩ := hd
  exact ⟨link, frame, rfl, hlink, Controller.linkUp_eq_ok_iff.mp hup, hframe⟩

theorem decide_receive (hd : h.decide (.receive saps) = .ok effect) :
    ∃ link frame message, effect = .received link frame message ∧ h.link saps = .ok link ∧
      h.controller.incoming.head? = some frame ∧ Controller.messageOf frame = .ok message ∧
      (Ndef.Report.ofMessage message).result = .ok () := by
  simp only [decide, nextMessage, bind_eq_ok_iff, Operation.scope_eq_ok_iff, pure_eq_ok,
    Except.ok.injEq] at hd
  obtain ⟨link, hlink, x, ⟨⟨⟩, -, frame, hframe, message, hmessage, ⟨⟩, hreport, rfl⟩, rfl⟩ := hd
  exact ⟨link, frame, message, rfl, hlink, Controller.nextFrame_eq_ok_iff.mp hframe, hmessage,
    hreport⟩

theorem decide_connect (hd : h.decide (.connect saps) = .ok effect) :
    ∃ link, effect = .connected link ∧ h.link saps = .ok link ∧
      link.points.checkConnectable = .ok () := by
  simp only [decide, bind_eq_ok_iff, pure_eq_ok, Except.ok.injEq] at hd
  obtain ⟨link, hlink, ⟨⟩, hpoints, -, -, rfl⟩ := hd
  exact ⟨link, rfl, hlink, hpoints⟩

theorem decide_discover {place : Nat} {stage : DiscoveryStage}
    (hd : h.decide (.notify (.discover place stage)) = .ok effect) :
    ∃ packet, effect = .notified packet ∧
      h.controller.discoverPacket place stage Nci.maxPacketSize = .ok packet := by
  simp only [decide, bind_eq_ok_iff, Operation.scope_eq_ok_iff, pure_eq_ok, Except.ok.injEq] at hd
  obtain ⟨packet, hpacket, rfl⟩ := hd
  exact ⟨packet, rfl, hpacket⟩

theorem decide_deactivate {type : DeactivationType} {reason : DeactivationReason}
    (hd : h.decide (.notify (.deactivate type reason)) = .ok effect) :
    ∃ packet, effect = .notified packet ∧
      Nci.deactivatePacket Nci.maxPacketSize type reason = .ok packet := by
  simp only [decide, bind_eq_ok_iff, Operation.scope_eq_ok_iff, pure_eq_ok, Except.ok.injEq] at hd
  obtain ⟨packet, hpacket, rfl⟩ := hd
  exact ⟨packet, rfl, hpacket⟩

theorem decide_activate {endpoint : Option Nat} {selection : Nci.Selection}
    (hd : h.decide (.notify (.activate endpoint selection)) = .ok effect) :
    ∃ place interface packet, effect = .activated place interface packet ∧
      endpoint.or h.controller.activeEndpoint = some place ∧
      h.controller.activatedPacket place interface Nci.maxPacketSize = .ok packet := by
  simp only [decide, bind_eq_ok_iff, Operation.scope_eq_ok_iff, pure_eq_ok, Except.ok.injEq] at hd
  obtain ⟨chosen, hchosen, interface, -, packet, hpacket, rfl⟩ := hd
  exact ⟨chosen.1, interface, packet, rfl, (Controller.chosenEndpoint_eq_ok_iff.mp hchosen).named,
    hpacket⟩

theorem decide_setTag {place : Nat} {records : List Ndef.Record}
    (hd : h.decide (.setTag place records) = .ok effect) :
    ∃ message tag, effect = .tagWritten place message ∧ h.controller.tagAt place = .ok tag ∧
      Ndef.Message.encode records tagRoom = .ok message := by
  simp only [decide] at hd
  cases hempty : records.isEmpty with
  | true =>
    rw [if_pos hempty] at hd
    cases hd
  | false =>
    simp only [hempty, Bool.false_eq_true, if_false, bind_eq_ok_iff, pure_eq_ok,
      Except.ok.injEq] at hd
    obtain ⟨message, hmessage, ⟨⟩, hworking, rfl⟩ := hd
    obtain ⟨tag, htag, -⟩ := Controller.workingTag_eq_ok_iff.mp hworking
    exact ⟨message, tag, rfl, htag, hmessage⟩

theorem decide_clearTag {place : Nat} (hd : h.decide (.clearTag place) = .ok effect) :
    ∃ tag, effect = .tagWritten place [] ∧ h.controller.tagAt place = .ok tag := by
  simp only [decide, bind_eq_ok_iff, pure_eq_ok, Except.ok.injEq] at hd
  obtain ⟨⟨⟩, hworking, rfl⟩ := hd
  obtain ⟨tag, htag, -⟩ := Controller.workingTag_eq_ok_iff.mp hworking
  exact ⟨tag, rfl, htag⟩

theorem decide_formatTag {place : Nat} (hd : h.decide (.formatTag place) = .ok effect) :
    ∃ tag, effect = .tagFormatted place ∧ h.controller.tagAt place = .ok tag := by
  simp only [decide, bind_eq_ok_iff, pure_eq_ok, Except.ok.injEq] at hd
  obtain ⟨⟨⟩, hworking, rfl⟩ := hd
  obtain ⟨tag, htag, -⟩ := Controller.workingTag_eq_ok_iff.mp hworking
  exact ⟨tag, rfl, htag⟩

end Host

def Effect.IsOf (command : Command) : Effect → Prop
  | sent .. => ∃ saps records, command = .send saps records
  | connected _ => ∃ saps, command = .connect saps
  | received .. => ∃ saps, command = .receive saps
  | notified _ => (∃ place stage, command = .notify (.discover place stage)) ∨
      ∃ type reason, command = .notify (.deactivate type reason)
  | activated .. => ∃ named selection, command = .notify (.activate named selection)
  | tagWritten place _ => (∃ records, command = .setTag place records) ∨ command = .clearTag place
  | tagFormatted place => command = .formatTag place

theorem Host.isOf_of_decide {h : Host} {command : Command} {effect : Effect}
    (hd : h.decide command = .ok effect) : effect.IsOf command := by
  cases command with
  | send saps records =>
    obtain ⟨link, frame, rfl, -⟩ := decide_send hd
    exact ⟨saps, records, rfl⟩
  | receive saps =>
    obtain ⟨link, frame, message, rfl, -⟩ := decide_receive hd
    exact ⟨saps, rfl⟩
  | connect saps =>
    obtain ⟨link, rfl, -⟩ := decide_connect hd
    exact ⟨saps, rfl⟩
  | notify n =>
    cases n with
    | discover place stage =>
      obtain ⟨packet, rfl, -⟩ := decide_discover hd
      exact .inl ⟨place, stage, rfl⟩
    | activate named selection =>
      obtain ⟨place, interface, packet, rfl, -⟩ := decide_activate hd
      exact ⟨named, selection, rfl⟩
    | deactivate type reason =>
      obtain ⟨packet, rfl, -⟩ := decide_deactivate hd
      exact .inr ⟨type, reason, rfl⟩
  | setTag place records =>
    obtain ⟨message, tag, rfl, -⟩ := decide_setTag hd
    exact .inl ⟨records, rfl⟩
  | clearTag place =>
    obtain ⟨tag, rfl, -⟩ := decide_clearTag hd
    exact .inr rfl
  | formatTag place =>
    obtain ⟨tag, rfl, -⟩ := decide_formatTag hd
    rfl

end NearField.Emulator
