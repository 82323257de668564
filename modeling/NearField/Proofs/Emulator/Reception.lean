import NearField.Emulator.Sample
import NearField.Proofs.Emulator.Negotiation
import NearField.Proofs.Snep.Framing

/-! # Reception

Frames wait in a queue, in the order in which they arrived, and only a receive takes one off it: the
oldest, whatever it turns out to hold. So the frames taken are always the first ones that arrived,
and they alone tell what is logged and what is written.
-/
namespace NearField
open Command

/-- The information of a frame that is a put request. -/
def Snep.putInformation? (frame : Bytes) : Option Bytes :=
  match Request.parse frame with
  | .ok request => if request.isPut then some request.information else none
  | .error _ => none

/-- A put request whose information has a report. -/
def Snep.isReported (frame : Bytes) : Bool :=
  (putInformation? frame).any fun information => (Ndef.Report.ofMessage information).result.isOk

def Snep.reportedSizes (frames : List Bytes) : List Nat :=
  (frames.filter isReported).map List.length

def Snep.reports (frames : List Bytes) : Text :=
  (frames.filterMap putInformation?).flatMap fun information =>
    (Ndef.Report.ofMessage information).text

theorem Snep.reportedSizes_append (first rest : List Bytes) :
    reportedSizes (first ++ rest) = reportedSizes first ++ reportedSizes rest := by
  simp [reportedSizes]

theorem Snep.reports_append (first rest : List Bytes) :
    reports (first ++ rest) = reports first ++ reports rest := by
  simp [reports]

namespace Emulator
open Console

theorem Controller.messageOf_eq_ok_iff {frame message : Bytes} :
    messageOf frame = .ok message ↔ Snep.putInformation? frame = some message := by
  unfold messageOf Snep.putInformation?
  cases Snep.Request.parse frame with
  | error e => simp
  | ok request => cases hput : request.isPut <;> simp [hput]

theorem Controller.messageOf_eq_error {frame : Bytes} (h : Snep.putInformation? frame = none) :
    ∃ e, messageOf frame = .error e := by
  cases hmessage : messageOf frame with
  | error e => exact ⟨e, rfl⟩
  | ok message => simp [messageOf_eq_ok_iff.mp hmessage] at h

namespace Host
variable {h : Host} {line : Text} {command : Command} {frames : List Bytes}

/-- A command takes a frame if it is a receive, there is an active endpoint, the link is up, and a
frame waits. -/
def takes (h : Host) : Command → Bool
  | .receive _ =>
    h.controller.active.isOk && !h.controller.linkDown && !h.controller.incoming.isEmpty
  | _ => false

def takesFrame (h : Host) (line : Text) : Bool :=
  match Command.ofLine h.controller line with
  | .ok command => h.takes command
  | .error _ => false

theorem isOk_link (h : Host) (saps : Llcp.Saps) :
    (h.link saps).isOk = h.controller.active.isOk := by
  unfold link
  cases h.controller.active <;> rfl

/-- A receive that takes no frame is refused, for a reason other than any frame, and leaves the host
alone. -/
theorem receive_of_not_takes {saps : Llcp.Saps} (hs : h.takes (.receive saps) = false) :
    h.decide (.receive saps) = (do
      let _ ← h.link saps
      Operation.snepPut.scope
        (.error (.host (if h.controller.linkDown then .linkDown else .noRequestPending)))) ∧
      h.abandoned (.receive saps) = (h, []) := by
  rw [takes, ← h.isOk_link saps] at hs
  cases hlink : h.link saps with
  | error e => simp [decide, abandoned, hlink]
  | ok link =>
    cases hdown : h.controller.linkDown with
    | true => simp [decide, abandoned, nextMessage, Controller.linkUp, hlink, hdown]
    | false =>
      have hempty : h.controller.incoming = [] := by
        rw [hlink, hdown] at hs
        simpa [Except.isOk, Except.toBool] using hs
      simp [decide, abandoned, nextMessage, Controller.linkUp, Controller.nextFrame, hlink, hdown,
        hempty]

theorem snep_put_of_takesFrame (hs : h.takesFrame line = true) :
    ["snep".toList, "put".toList] <+: words line := by
  cases hread : Command.ofLine h.controller line with
  | error e => simp [takesFrame, hread] at hs
  | ok command =>
    simp only [takesFrame, hread] at hs
    obtain ⟨ws, hws, -⟩ := ofLine_words hread
    rw [hws]
    cases command with
    | receive saps => exact List.prefix_append _ ws
    | _ => cases hs

theorem decide_queue (hs : h.takes command = false)
    (hs' : (h.move (.queue frames)).takes command = false) :
    (h.move (.queue frames)).decide command = h.decide command := by
  cases command with
  | receive saps =>
    rw [(receive_of_not_takes hs).1, (receive_of_not_takes hs').1]
    rfl
  | notify n => cases n <;> rfl
  | _ => rfl

theorem abandoned_queue (hs : h.takes command = false) : h.abandoned command = (h, []) := by
  cases command with
  | receive saps => exact (receive_of_not_takes hs).2
  | _ => rfl

theorem apply_queue {effect : Effect} (frames : List Bytes) (hs : h.takes command = false)
    (hd : h.decide command = .ok effect) :
    effect.apply (h.move (.queue frames)) = (effect.apply h).move (.queue frames) ∧
      (effect.apply h).received = h.received ∧ effect.events = [] := by
  cases effect with
  | received link frame message =>
    obtain ⟨saps, rfl⟩ := isOf_of_decide hd
    rw [(receive_of_not_takes hs).1] at hd
    cases hlink : h.link saps <;> simp [hlink] at hd
  | _ => exact ⟨rfl, rfl, rfl⟩

theorem takes_of_ofLine (hread : Command.ofLine h.controller line = .ok command) :
    h.takesFrame line = h.takes command := by
  rw [takesFrame, hread]

/-- A line that takes no frame does the same whatever waits, and what waits stays. -/
theorem execute_queue (hs : h.takesFrame line = false)
    (hs' : (h.move (.queue frames)).takesFrame line = false) :
    (h.move (.queue frames)).execute line =
      { h.execute line with host := (h.execute line).host.move (.queue frames) } := by
  have hsame : Command.ofLine (h.move (.queue frames)).controller line =
      Command.ofLine h.controller line := rfl
  refine execute_change (fun h => h.move (.queue frames)) hsame ?_ ?_ ?_
  · intro command hread
    rw [takes_of_ofLine hread] at hs
    rw [takes_of_ofLine (hsame.trans hread)] at hs'
    exact decide_queue hs hs'
  · intro command effect hread hd
    rw [takes_of_ofLine hread] at hs
    exact (apply_queue frames hs hd).1
  · intro command hread
    rw [takes_of_ofLine hread] at hs
    rw [takes_of_ofLine (hsame.trans hread)] at hs'
    rw [abandoned_queue hs, abandoned_queue hs']

theorem execute_of_not_takes (hs : h.takesFrame line = false) :
    (h.execute line).host.controller.incoming = h.controller.incoming ∧
      (h.execute line).host.received = h.received ∧
      (h.execute line).events.flatMap Event.printed = [] := by
  cases hread : Command.ofLine h.controller line with
  | error e =>
    rw [execute_of_unread hread]
    exact ⟨rfl, rfl, rfl⟩
  | ok command =>
    rw [takes_of_ofLine hread] at hs
    cases hd : h.decide command with
    | ok effect =>
      obtain ⟨hqueue, hreceived, hevents⟩ := apply_queue h.controller.incoming hs hd
      rw [execute_of_done hread hd, hevents]
      exact ⟨congrArg (fun h => h.controller.incoming) hqueue, hreceived, rfl⟩
    | error e =>
      rw [execute_of_refused hread hd, abandoned_queue hs]
      exact ⟨rfl, rfl, rfl⟩

theorem takes_receive {saps : Llcp.Saps} (hs : h.takes (.receive saps) = true) :
    ∃ link frame waiting, h.link saps = .ok link ∧ h.controller.linkDown = false ∧
      h.controller.incoming = frame :: waiting := by
  rw [takes, ← h.isOk_link saps, Bool.and_eq_true, Bool.and_eq_true] at hs
  obtain ⟨⟨hactive, hup⟩, hwaits⟩ := hs
  cases hlink : h.link saps with
  | error e =>
    rw [hlink] at hactive
    cases hactive
  | ok link =>
    cases hincoming : h.controller.incoming with
    | nil =>
      rw [hincoming] at hwaits
      cases hwaits
    | cons frame waiting => exact ⟨link, frame, waiting, rfl, by simpa using hup, rfl⟩

/-- A line that takes a frame counts and shows it as far as it is a put request with a report. -/
theorem execute_of_takes (hs : h.takesFrame line = true) :
    ∃ frame waiting, h.controller.incoming = frame :: waiting ∧
      (h.execute line).host.controller.incoming = waiting ∧
      (h.execute line).host.received = h.received ++ Snep.reportedSizes [frame] ∧
      (h.execute line).events.flatMap Event.printed = Snep.reports [frame] := by
  cases hread : Command.ofLine h.controller line with
  | error e => simp [takesFrame, hread] at hs
  | ok command =>
  rw [takes_of_ofLine hread] at hs
  cases command with
  | receive saps =>
    obtain ⟨link, frame, waiting, hlink, hup, hincoming⟩ := takes_receive hs
    refine ⟨frame, waiting, hincoming, ?_⟩
    cases hinformation : Snep.putInformation? frame with
    | none =>
      obtain ⟨e, hmessage⟩ := Controller.messageOf_eq_error hinformation
      have hd : h.decide (.receive saps) = .error (.failed .snepPut e) := by
        simp [decide, nextMessage, Controller.linkUp, Controller.nextFrame, hlink, hup, hincoming,
          hmessage]
      rw [execute_of_refused hread hd]
      simp [abandoned, hlink, hup, hincoming, hmessage, Snep.reportedSizes, Snep.isReported,
        Snep.reports, hinformation, Event.printed]
    | some message =>
      have hmessage := Controller.messageOf_eq_ok_iff.mpr hinformation
      have hd := decide_receive_eq hlink hup hincoming hmessage
      have hreports : Snep.reports [frame] = (Ndef.Report.ofMessage message).pieces.flatten := by
        simp [Snep.reports, hinformation, Ndef.Report.text]
      rw [hreports]
      cases hreport : (Ndef.Report.ofMessage message).result with
      | ok =>
        rw [hreport] at hd
        rw [execute_of_done hread hd]
        refine ⟨by simp [Effect.apply, hincoming], ?_, flatMap_printed_outputs _⟩
        simp [Effect.apply, Snep.reportedSizes, Snep.isReported, hinformation, hreport,
          Except.isOk, Except.toBool]
      | error cause =>
        rw [hreport] at hd
        rw [execute_of_refused hread hd]
        simp only [abandoned, hlink, hup, hincoming, hmessage]
        refine ⟨trivial, ?_, ?_⟩
        · simp [Snep.reportedSizes, Snep.isReported, hinformation, hreport,
            Except.isOk, Except.toBool]
        · rw [List.flatMap_append, flatMap_printed_outputs]
          simp [Event.printed]
  | _ => cases hs

end Host

namespace Move

def arrived : Move → List Bytes
  | .incident (.arrival frame) => [frame]
  | _ => []

/-- A move that leaves it to lines to take frames. -/
def SparesQueue : Move → Prop
  | .queue _ => False
  | .line _ | .incident _ => True

end Move

namespace Host
variable {h : Host} {m : Move} {ms : List Move}

/-- How many frames a move takes off the queue. -/
def takenBy (h : Host) : Move → Nat
  | .line line => (h.takesFrame line).toNat
  | _ => 0

/-- What a move writes to the console. -/
def toldBy (h : Host) : Move → List Event
  | .line line => (h.execute line).events
  | _ => []

def taken (h : Host) : List Move → Nat
  | [] => 0
  | m :: rest => h.takenBy m + (h.move m).taken rest

def told (h : Host) : List Move → List Event
  | [] => []
  | m :: rest => h.toldBy m ++ (h.move m).told rest

/-- From one host to another, `k` of the frames are taken, counted and shown; the others wait. -/
structure Receives (h h' : Host) (frames : List Bytes) (k : Nat) (events : List Event) : Prop where
  enough : k ≤ frames.length
  waiting : h'.controller.incoming = frames.drop k
  counted : h'.received = h.received ++ Snep.reportedSizes (frames.take k)
  shown : events.flatMap Event.printed = Snep.reports (frames.take k)

theorem Receives.none {h' : Host} {frames : List Bytes} {events : List Event}
    (hwaiting : h'.controller.incoming = frames) (hcounted : h'.received = h.received)
    (hshown : events.flatMap Event.printed = []) : h.Receives h' frames 0 events :=
  ⟨Nat.zero_le _, hwaiting, hcounted.trans (List.append_nil _).symm, hshown⟩

theorem receives_meet (h : Host) (i : Incident) :
    h.Receives (h.meet i) (h.controller.incoming ++ Move.arrived (.incident i)) 0 [] := by
  have hwaiting : (h.meet i).controller.incoming =
      h.controller.incoming ++ Move.arrived (.incident i) := by
    cases i with
    | arrival frame => rfl
    | _ => exact (List.append_nil _).symm
  have hcounted : (h.meet i).received = h.received := by cases i <;> rfl
  exact .none hwaiting hcounted rfl

theorem receives_execute (h : Host) (line : Text) :
    h.Receives (h.execute line).host h.controller.incoming (h.takesFrame line).toNat
      (h.execute line).events := by
  cases htakes : h.takesFrame line with
  | false =>
    obtain ⟨hwaiting, hcounted, hshown⟩ := execute_of_not_takes htakes
    exact .none hwaiting hcounted hshown
  | true =>
    obtain ⟨frame, waiting, hincoming, hwaiting, hcounted, hshown⟩ := execute_of_takes htakes
    rw [hincoming]
    exact ⟨by simp, hwaiting, hcounted, hshown⟩

theorem receives_move (hm : m.SparesQueue) :
    h.Receives (h.move m) (h.controller.incoming ++ m.arrived) (h.takenBy m) (h.toldBy m) := by
  cases m with
  | line line =>
    change h.Receives _ (h.controller.incoming ++ []) _ _
    rw [List.append_nil]
    exact h.receives_execute line
  | incident i => exact h.receives_meet i
  | queue frames => exact hm.elim

theorem Receives.append {h' h'' : Host} {first rest : List Bytes} {k k' : Nat}
    {events events' : List Event} (hfirst : h.Receives h' first k events)
    (hrest : h'.Receives h'' (h'.controller.incoming ++ rest) k' events') :
    h.Receives h'' (first ++ rest) (k + k') (events ++ events') := by
  have hdrop : (first ++ rest).drop k = h'.controller.incoming ++ rest := by
    rw [List.drop_append_of_le_length hfirst.enough, hfirst.waiting]
  have htake : (first ++ rest).take (k + k') =
      first.take k ++ (h'.controller.incoming ++ rest).take k' := by
    rw [List.take_add, hdrop, List.take_append_of_le_length hfirst.enough]
  have hlength := congrArg List.length hdrop
  have henough := hfirst.enough
  refine ⟨?_, ?_, ?_, ?_⟩
  · have := hrest.enough
    simp only [List.length_drop, List.length_append] at *
    omega
  · rw [hrest.waiting, ← hdrop, List.drop_drop]
  · rw [hrest.counted, hfirst.counted, htake, Snep.reportedSizes_append, List.append_assoc]
  · rw [List.flatMap_append, hrest.shown, hfirst.shown, htake, Snep.reports_append]

theorem receives_moves (hms : ∀ m ∈ ms, m.SparesQueue) :
    h.Receives (h.moves ms) (h.controller.incoming ++ ms.flatMap Move.arrived) (h.taken ms)
      (h.told ms) := by
  induction ms generalizing h with
  | nil => exact .none (List.append_nil _).symm rfl rfl
  | cons m rest ih =>
    obtain ⟨hm, hrest⟩ := List.forall_mem_cons.mp hms
    rw [List.flatMap_cons, ← List.append_assoc]
    exact (receives_move hm).append (ih hrest)

/-- Frames are taken in the order in which they arrived, each of them once and by a line that takes
one: the first ones are gone and the others wait, the put requests with a report among the first
ones are counted, and the reports of the put requests among them are written. A line that takes no
frame does the same whatever waits. -/
theorem reception_in_order (start : Host) (hempty : start.controller.incoming = [])
    (hnone : start.received = []) (t : Transcript) (hblank : t.output = [])
    (hms : ∀ m ∈ ms, m.SparesQueue) :
    let arrived := ms.flatMap Move.arrived
    let k := start.taken ms
    (k ≤ arrived.length ∧ (start.moves ms).controller.incoming = arrived.drop k ∧
      (start.moves ms).received = ((arrived.take k).filter Snep.isReported).map List.length ∧
      (t.addAll (start.told ms)).output =
        ((arrived.take k).filterMap Snep.putInformation?).flatMap fun information =>
          (Ndef.Report.ofMessage information).text) ∧
    ∀ (h : Host) line,
      (h.takesFrame line = true → ["snep".toList, "put".toList] <+: words line) ∧
      ∀ frames, h.takesFrame line = false → (h.move (.queue frames)).takesFrame line = false →
        (h.move (.queue frames)).execute line =
          { h.execute line with host := (h.execute line).host.move (.queue frames) } := by
  intro arrived k
  constructor
  · obtain ⟨henough, hwaiting, hcounted, hshown⟩ := receives_moves (h := start) hms
    rw [hempty, List.nil_append] at henough hwaiting hcounted hshown
    rw [hnone, List.nil_append] at hcounted
    refine ⟨henough, hwaiting, hcounted, ?_⟩
    rw [Transcript.output_addAll, hshown, hblank]
    rfl
  · intro h line
    exact ⟨snep_put_of_takesFrame, fun frames => execute_queue⟩

/-- A frame that is no request is taken without a trace, the one behind it is shown, and a connect
leaves the third one waiting. -/
theorem reception_in_order_sample :
    let start : Host := { controller := sampleController }
    let ms := [.incident (.arrival [0xFF]), .incident (.arrival [0x10, 0x02, 0, 0, 0, 0]),
      .line "snep put -1 -1".toList, .incident (.arrival []), .line "snep put 4 32".toList,
      .line "llcp connect 4 32".toList]
    (start.moves ms).controller.incoming = [[]] ∧ (start.moves ms).received = [6] ∧
      (({} : Transcript).addAll (start.told ms)).output = "[]\r\n".toList := by
  intro start ms
  have hspares : ∀ m ∈ ms, m.SparesQueue := by simp [ms, Move.SparesQueue]
  have htaken : start.taken ms = 2 := by rfl
  have hfirst : Snep.putInformation? [0xFF] = none := by rfl
  have hsecond : Snep.putInformation? [0x10, 0x02, 0, 0, 0, 0] = some [] := by rfl
  have hreport : Ndef.Report.ofMessage [] = ⟨["[".toList, "]\r\n".toList], .ok ()⟩ := by
    rw [Ndef.Report.ofMessage, Ndef.readAll, Ndef.items_nil]
    rfl
  obtain ⟨⟨-, hwaiting, hcounted, hshown⟩, -⟩ :=
    reception_in_order start rfl rfl {} rfl hspares
  have hframes : (ms.flatMap Move.arrived).take 2 = [[0xFF], [0x10, 0x02, 0, 0, 0, 0]] := by rfl
  rw [htaken, hframes] at hcounted hshown
  rw [htaken] at hwaiting
  refine ⟨hwaiting, hcounted.trans ?_, hshown.trans ?_⟩
  · simp [Snep.isReported, hfirst, hsecond, hreport, Except.isOk, Except.toBool]
  · simp [hfirst, hsecond, hreport, Ndef.Report.text]

end Host
end Emulator
end NearField
