import Mathlib.Logic.ExistsUnique
import NearField.Proofs.Emulator.Packets
import NearField.Proofs.Ndef.Reporting

/-! # All or nothing

A line that fails is told of once and leaves its host as it was, except that a receive has taken its
frame off the queue. A line that succeeds has just one of the effects that a command can have.
-/
namespace NearField

namespace Console

def Event.printed : Event → Text
  | output piece => piece
  | failure _ => []

theorem flatMap_printed_outputs (pieces : List Text) :
    (pieces.map Event.output).flatMap Event.printed = pieces.flatten := by
  rw [List.flatMap_map, List.flatten_eq_flatMap]
  rfl

namespace Transcript

theorem output_addAll (t : Transcript) (events : List Event) :
    (t.addAll events).output = t.output ++ events.flatMap Event.printed := by
  induction events generalizing t with
  | nil => simp [addAll]
  | cons event rest ih =>
    have hcons : t.addAll (event :: rest) = (t.add event).addAll rest := rfl
    rw [hcons, ih, List.flatMap_cons]
    cases event <;> simp [add, Event.printed]

theorem addAll_outputs (t : Transcript) (pieces : List Text) :
    t.addAll (pieces.map .output) = { t with output := t.output ++ pieces.flatten } := by
  induction pieces generalizing t with
  | nil => simp [addAll]
  | cons piece rest ih =>
    have hcons : t.addAll ((piece :: rest).map .output) =
        (t.add (.output piece)).addAll (rest.map .output) := rfl
    rw [hcons, ih, add, List.flatten_cons, List.append_assoc]

end Transcript
end Console

namespace Emulator
open Console

/-- The active endpoint is there and is the one of the link. -/
structure Host.Reaches (h : Host) (link : Link) : Prop where
  active : h.controller.activeEndpoint = some link.endpoint
  present : link.endpoint < h.controller.endpoints.length

/-- What an effect is about is there. -/
def Effect.Possible (h : Host) : Effect → Prop
  | sent link _ | connected link => h.Reaches link
  | received link frame message => h.Reaches link ∧ h.controller.incoming.head? = some frame ∧
      Controller.messageOf frame = .ok message
  | notified _ => True
  | activated place interface _ =>
      place < h.controller.endpoints.length ∧ interface < h.controller.interfaces.length
  | tagWritten place _ | tagFormatted place => ∃ tag, h.controller.tagAt place = .ok tag

namespace Host
variable {h : Host} {effect : Effect}

theorem reaches_of_link {saps : Llcp.Saps} {link : Link} (hlink : h.link saps = .ok link) :
    h.Reaches link := by
  obtain ⟨endpoint, hactive, hendpoint, -⟩ := link_eq_ok_iff.mp hlink
  exact ⟨hactive, (List.getElem?_eq_some_iff.mp hendpoint).1⟩

/-- The points that are left at the active endpoint tell the link. -/
theorem Reaches.eq_of_setUsed_eq {link link' : Link} (hreach : h.Reaches link)
    (hreach' : h.Reaches link')
    (heq : (h.controller.setUsed link).endpoints = (h.controller.setUsed link').endpoints) :
    link = link' := by
  have hplace : link.endpoint = link'.endpoint :=
    Option.some.inj (hreach.active.symm.trans hreach'.active)
  have hendpoint := congrArg (fun endpoints => endpoints[link.endpoint]?) heq
  simp only [Controller.setUsed, Controller.getElem?_modifyEndpoint, hplace, if_true,
    List.getElem?_eq_getElem hreach'.present, Option.map_some, Option.some.injEq,
    Endpoint.mk.injEq] at hendpoint
  obtain ⟨endpoint, points⟩ := link
  obtain ⟨endpoint', points'⟩ := link'
  rw [Link.mk.injEq]
  exact ⟨hplace, hendpoint.2.2.1⟩

theorem possible_of_decide {command : Command} (hd : h.decide command = .ok effect) :
    effect.Possible h := by
  cases command with
  | send saps records =>
    obtain ⟨link, frame, rfl, hlink, -⟩ := decide_send hd
    exact reaches_of_link hlink
  | receive saps =>
    obtain ⟨link, frame, message, rfl, hlink, hframe, hmessage, -⟩ := decide_receive hd
    exact ⟨reaches_of_link hlink, hframe, hmessage⟩
  | connect saps =>
    obtain ⟨link, rfl, hlink, -⟩ := decide_connect hd
    exact reaches_of_link hlink
  | notify n =>
    cases n with
    | discover place stage =>
      obtain ⟨packet, rfl, -⟩ := decide_discover hd
      trivial
    | deactivate type reason =>
      obtain ⟨packet, rfl, -⟩ := decide_deactivate hd
      trivial
    | activate endpoint selection =>
      obtain ⟨place, interface, packet, rfl, -, hpacket⟩ := decide_activate hd
      obtain ⟨e, i, he, hi, -⟩ := Controller.activatedPacket_eq_ok hpacket
      exact ⟨(List.getElem?_eq_some_iff.mp he).1, (List.getElem?_eq_some_iff.mp hi).1⟩
  | setTag place records =>
    obtain ⟨message, tag, rfl, htag, -⟩ := decide_setTag hd
    exact ⟨tag, htag⟩
  | clearTag place =>
    obtain ⟨tag, rfl, htag⟩ := decide_clearTag hd
    exact ⟨tag, htag⟩
  | formatTag place =>
    obtain ⟨tag, rfl, htag⟩ := decide_formatTag hd
    exact ⟨tag, htag⟩

end Host

namespace Effect
variable {h : Host} {effect effect' : Effect}

def logLengths (h : Host) : List Nat :=
  [h.controller.sent.length, h.controller.connects.length, h.received.length,
    h.notifications.length, h.controller.cleared.length]

def growth : Effect → List Nat
  | sent .. => [1, 0, 0, 0, 0]
  | connected .. => [0, 1, 0, 0, 0]
  | received .. => [0, 0, 1, 0, 0]
  | notified .. => [0, 0, 0, 1, 0]
  | activated .. => [0, 0, 0, 1, 1]
  | tagWritten .. | tagFormatted .. => [0, 0, 0, 0, 0]

theorem logLengths_apply (h : Host) (effect : Effect) :
    logLengths (effect.apply h) = List.zipWith (· + ·) (logLengths h) effect.growth := by
  cases effect <;> simp [logLengths, apply, growth, Controller.setUsed, Controller.clear,
    Controller.forget, Controller.modifyTag, Controller.modifyEndpoint]

theorem growth_eq_of_apply_eq (heq : effect.apply h = effect'.apply h) :
    effect.growth = effect'.growth := by
  have hlogs := congrArg logLengths heq
  simp only [logLengths_apply] at hlogs
  cases effect <;> cases effect' <;> simp [logLengths, growth] at hlogs ⊢

/-- The tag that an effect changes, and how. -/
def tagChange? : Effect → Option (Nat × (Tag → Tag))
  | tagWritten place content =>
    some (place, fun t => { t with content := content, writes := t.writes + 1 })
  | tagFormatted place => some (place, fun t => { t with content := [], formats := t.formats + 1 })
  | _ => none

section TagChange
variable {place place' : Nat} {f f' : Tag → Tag} {tag : Tag}

/-- Only the two changes of a tag show in no log. -/
theorem exists_tagChange (hgrowth : effect.growth = [0, 0, 0, 0, 0]) :
    ∃ place f, effect.tagChange? = some (place, f) := by
  cases effect with
  | tagWritten place content => exact ⟨place, _, rfl⟩
  | tagFormatted place => exact ⟨place, _, rfl⟩
  | _ => simp [growth] at hgrowth

theorem apply_of_tagChange (hchange : effect.tagChange? = some (place, f)) :
    effect.apply h = { h with controller := h.controller.modifyTag place f } := by
  cases effect <;> cases hchange <;> rfl

theorem tagAt_of_tagChange (hp : effect.Possible h)
    (hchange : effect.tagChange? = some (place, f)) :
    ∃ tag, h.controller.tagAt place = .ok tag := by
  cases effect <;> cases hchange <;> exact hp

theorem ne_of_tagChange (hchange : effect.tagChange? = some (place, f)) : f tag ≠ tag := by
  cases effect <;> cases hchange
  · exact fun h => Nat.succ_ne_self tag.writes (congrArg Tag.writes h)
  · exact fun h => Nat.succ_ne_self tag.formats (congrArg Tag.formats h)

theorem eq_of_tagChange (hchange : effect.tagChange? = some (place, f))
    (hchange' : effect'.tagChange? = some (place, f')) (hsame : f tag = f' tag) :
    effect = effect' := by
  cases effect <;> cases hchange <;> cases effect' <;> cases hchange'
  · exact congrArg (tagWritten place) (congrArg Tag.content hsame)
  · exact absurd (congrArg Tag.writes hsame) (Nat.succ_ne_self tag.writes)
  · exact absurd (congrArg Tag.formats hsame) (Nat.succ_ne_self tag.formats)
  · rfl

theorem tagChange_injective (hp : effect.Possible h)
    (hchange : effect.tagChange? = some (place, f))
    (hchange' : effect'.tagChange? = some (place', f'))
    (heq : effect.apply h = effect'.apply h) : effect = effect' := by
  obtain ⟨tag, htag⟩ := tagAt_of_tagChange hp hchange
  rw [apply_of_tagChange hchange, apply_of_tagChange hchange'] at heq
  obtain ⟨rfl, hsame⟩ := Controller.eq_of_modifyTag_eq htag (ne_of_tagChange hchange)
    (congrArg Host.controller heq)
  exact eq_of_tagChange hchange hchange' hsame

end TagChange

/-- Effects of different kinds grow different logs, but for the two that change a tag. -/
theorem apply_injective (hp : effect.Possible h) (hp' : effect'.Possible h)
    (heq : effect.apply h = effect'.apply h) : effect = effect' := by
  have hgrowth := growth_eq_of_apply_eq heq
  cases effect with
  | sent link frame =>
    cases effect' with
    | sent link' frame' =>
      have hsent := congrArg (fun h => h.controller.sent) heq
      simpa [apply] using hsent
    | _ => simp [growth] at hgrowth
  | connected link =>
    cases effect' with
    | connected link' =>
      have hconnects := congrArg (fun h => h.controller.connects) heq
      simpa [apply] using hconnects
    | _ => simp [growth] at hgrowth
  | received link frame message =>
    cases effect' with
    | received link' frame' message' =>
      obtain ⟨hreach, hframe, hmessage⟩ := hp
      obtain ⟨hreach', hframe', hmessage'⟩ := hp'
      obtain rfl : frame = frame' := Option.some.inj (hframe.symm.trans hframe')
      obtain rfl : message = message' := Except.ok.inj (hmessage.symm.trans hmessage')
      rw [hreach.eq_of_setUsed_eq hreach' (congrArg (fun h => h.controller.endpoints) heq)]
    | _ => simp [growth] at hgrowth
  | notified packet =>
    cases effect' with
    | notified packet' =>
      have hpackets := congrArg Host.notifications heq
      simpa [apply] using hpackets
    | _ => simp [growth] at hgrowth
  | activated place interface packet =>
    cases effect' with
    | activated place' interface' packet' =>
      have hcleared := congrArg (fun h => h.controller.cleared) heq
      have hinterface := congrArg (fun h => h.controller.activeInterface) heq
      have hpackets := congrArg Host.notifications heq
      simp only [apply, Controller.clear, List.append_cancel_left_eq, List.cons.injEq, and_true,
        Option.some.injEq] at hcleared hinterface hpackets
      rw [hcleared, hinterface, hpackets]
    | _ => simp [growth] at hgrowth
  | tagWritten place content | tagFormatted place =>
    obtain ⟨place', f', hchange'⟩ := exists_tagChange hgrowth.symm
    exact tagChange_injective hp rfl hchange' heq

/-- What an effect tells on the console. -/
def report : Effect → Text
  | received _ _ message => (Ndef.Report.ofMessage message).text
  | _ => []

theorem addAll_events (t : Transcript) (effect : Effect) :
    t.addAll effect.events = { t with output := t.output ++ effect.report } := by
  cases effect with
  | received link frame message => exact t.addAll_outputs _
  | _ => simp [events, report, Transcript.addAll]

end Effect

namespace Host
variable {h : Host} {line : Text} {command : Command} {effect : Effect} {e : Error}

theorem execute_of_unread (hread : Command.ofLine h.controller line = .error e) :
    h.execute line = ⟨h, [.failure (failureLine e)], .error e⟩ := by
  rw [execute, hread]
  rfl

theorem execute_of_done (hread : Command.ofLine h.controller line = .ok command)
    (hd : h.decide command = .ok effect) :
    h.execute line = ⟨effect.apply h, effect.events, .ok ()⟩ := by
  rw [execute, hread, carryOut, Execution.ofWork, run_perform, outcome, hd]
  rfl

theorem execute_of_refused (hread : Command.ofLine h.controller line = .ok command)
    (hd : h.decide command = .error e) :
    h.execute line = ⟨(h.abandoned command).1,
      (h.abandoned command).2 ++ [.failure (failureLine e)], .error e⟩ := by
  rw [execute, hread, carryOut, Execution.ofWork, run_perform, outcome, hd]
  rfl

theorem exists_effect_of_execute (hok : (h.execute line).result = .ok ()) :
    ∃ command effect, Command.ofLine h.controller line = .ok command ∧
      h.decide command = .ok effect ∧
      h.execute line = ⟨effect.apply h, effect.events, .ok ()⟩ := by
  cases hread : Command.ofLine h.controller line with
  | error e =>
    rw [execute_of_unread hread] at hok
    cases hok
  | ok command =>
    cases hd : h.decide command with
    | error e =>
      rw [execute_of_refused hread hd] at hok
      cases hok
    | ok effect => exact ⟨command, effect, rfl, hd, execute_of_done hread hd⟩

/-- With a link that is up and a message that waits, only the report can stand in the way of a
receive. -/
theorem decide_receive_eq {saps : Llcp.Saps} {link : Link} {frame message : Bytes}
    {waiting : List Bytes} (hlink : h.link saps = .ok link) (hup : h.controller.linkDown = false)
    (hincoming : h.controller.incoming = frame :: waiting)
    (hmessage : Controller.messageOf frame = .ok message) :
    h.decide (.receive saps) =
      (Operation.snepPut.scope (Ndef.Report.ofMessage message).result).map fun _ =>
        .received link frame message := by
  simp only [decide, nextMessage, hlink, Controller.linkUp_eq_ok_iff.mpr hup, ok_bind,
    Controller.nextFrame, hincoming, hmessage]
  cases (Ndef.Report.ofMessage message).result <;> rfl

theorem decide_receive_error {saps : Llcp.Saps} {link : Link} {frame message : Bytes}
    {waiting : List Bytes} (hlink : h.link saps = .ok link) (hup : h.controller.linkDown = false)
    (hincoming : h.controller.incoming = frame :: waiting)
    (hmessage : Controller.messageOf frame = .ok message)
    (hd : h.decide (.receive saps) = .error e) :
    ∃ cause, (Ndef.Report.ofMessage message).result = .error cause ∧
      e = .failed .snepPut cause := by
  rw [decide_receive_eq hlink hup hincoming hmessage] at hd
  cases hreport : (Ndef.Report.ofMessage message).result with
  | error cause =>
    rw [hreport] at hd
    cases hd
    exact ⟨cause, rfl, rfl⟩
  | ok =>
    rw [hreport] at hd
    cases hd

/-- A refused command leaves its host alone, but for the frame that a receive has taken. -/
theorem abandoned_cases (hd : h.decide command = .error e) :
    h.abandoned command = (h, []) ∨
      ∃ saps link frame waiting pieces, command = .receive saps ∧ h.link saps = .ok link ∧
        h.controller.linkDown = false ∧ h.controller.incoming = frame :: waiting ∧
        h.abandoned command =
          ({ h with controller := { h.controller with incoming := waiting } },
            pieces.map .output) ∧
        (pieces = [] ∨ ∃ message needed available, Controller.messageOf frame = .ok message ∧
          pieces = (Ndef.Report.ofMessage message).pieces ∧
          e = .failed .snepPut (.bufferOverflow needed available)) := by
  cases command with
  | receive saps =>
    cases hlink : h.link saps with
    | error => exact .inl (by simp [abandoned, hlink])
    | ok link =>
    cases hup : h.controller.linkDown with
    | true => exact .inl (by simp [abandoned, hlink, hup])
    | false =>
    cases hincoming : h.controller.incoming with
    | nil => exact .inl (by simp [abandoned, hlink, hup, hincoming])
    | cons frame waiting =>
    right
    cases hmessage : Controller.messageOf frame with
    | error =>
      exact ⟨saps, link, frame, waiting, [], rfl, hlink, rfl, rfl,
        by simp [abandoned, hlink, hup, hincoming, hmessage], .inl rfl⟩
    | ok message =>
      refine ⟨saps, link, frame, waiting, (Ndef.Report.ofMessage message).pieces, rfl, hlink, rfl,
        rfl, by simp [abandoned, hlink, hup, hincoming, hmessage], ?_⟩
      obtain ⟨cause, hcause, rfl⟩ := decide_receive_error hlink hup hincoming hmessage hd
      rcases Ndef.Report.result_error hcause with hnil | ⟨needed, available, rfl⟩
      · exact .inl hnil
      · exact .inr ⟨message, needed, available, hmessage, rfl, rfl⟩
  | _ => exact .inl rfl

/-- A change of the host that nothing about a line rests on can be made before or after the line. -/
theorem execute_change (change : Host → Host)
    (hsame : Command.ofLine (change h).controller line = Command.ofLine h.controller line)
    (hdecide : ∀ command, Command.ofLine h.controller line = .ok command →
      (change h).decide command = h.decide command)
    (happly : ∀ command effect, Command.ofLine h.controller line = .ok command →
      h.decide command = .ok effect → effect.apply (change h) = change (effect.apply h))
    (habandoned : ∀ command, Command.ofLine h.controller line = .ok command →
      (change h).abandoned command = (change (h.abandoned command).1, (h.abandoned command).2)) :
    (change h).execute line =
      { h.execute line with host := change (h.execute line).host } := by
  cases hread : Command.ofLine h.controller line with
  | error e => rw [execute_of_unread hread, execute_of_unread (hsame.trans hread)]
  | ok command =>
    have hdecide := hdecide command hread
    cases hd : h.decide command with
    | ok effect =>
      rw [execute_of_done hread hd, execute_of_done (hsame.trans hread) (hdecide.trans hd),
        happly command effect hread hd]
    | error e =>
      rw [execute_of_refused hread hd, execute_of_refused (hsame.trans hread) (hdecide.trans hd),
        habandoned command hread]

/-- What a line leaves: what its effect makes of the host, or the host with frames that wait. -/
theorem host_execute (h : Host) (line : Text) :
    (∃ command effect, Command.ofLine h.controller line = .ok command ∧
      h.decide command = .ok effect ∧ (h.execute line).host = effect.apply h) ∨
    ∃ waiting, (h.execute line).host =
      { h with controller := { h.controller with incoming := waiting } } := by
  cases hread : Command.ofLine h.controller line with
  | error e => exact .inr ⟨h.controller.incoming, by rw [execute_of_unread hread]⟩
  | ok command =>
    cases hd : h.decide command with
    | ok effect => exact .inl ⟨command, effect, rfl, hd, by rw [execute_of_done hread hd]⟩
    | error e =>
      rw [execute_of_refused hread hd]
      rcases abandoned_cases hd with
        hnone | ⟨saps, link, frame, waiting, pieces, -, -, -, -, hsome, -⟩
      · exact .inr ⟨h.controller.incoming, by rw [hnone]⟩
      · exact .inr ⟨waiting, by rw [hsome]⟩

/-- A failing line is told of in one line and changes nothing, except that a receive has taken the
oldest frame and may have written a part of its report. A line that succeeds has one effect and no
other, and writes nothing but the report of what it received. -/
theorem execute_all_or_nothing (h : Host) (t : Transcript) (line : Text) :
    let x := h.execute line
    let after := t.addAll x.events
    match x.result with
    | .error e =>
      after.failures = t.failures ++ ("KO: ".toList ++ e.message ++ "\r\n".toList) ∧
        ((x.host = h ∧ after.output = t.output) ∨
          ∃ saps link frame waiting,
            Command.ofLine h.controller line = .ok (.receive saps) ∧ h.link saps = .ok link ∧
            h.controller.linkDown = false ∧ h.controller.incoming = frame :: waiting ∧
            x.host = { h with controller := { h.controller with incoming := waiting } } ∧
            (after.output = t.output ∨ ∃ message needed available,
              Controller.messageOf frame = .ok message ∧
              after.output = t.output ++ (Ndef.Report.ofMessage message).text ∧
              e = .failed .snepPut (.bufferOverflow needed available)))
    | .ok () =>
      after.failures = t.failures ∧
        ∃! effect : Effect, effect.Possible h ∧ x.host = effect.apply h ∧
          after.output = t.output ++ effect.report := by
  cases hread : Command.ofLine h.controller line with
  | error e =>
    simp only [execute_of_unread hread]
    exact ⟨rfl, .inl ⟨trivial, rfl⟩⟩
  | ok command =>
    cases hd : h.decide command with
    | ok effect =>
      simp only [execute_of_done hread hd, Effect.addAll_events]
      refine ⟨trivial, effect, ⟨possible_of_decide hd, rfl, rfl⟩, ?_⟩
      rintro other ⟨hpossible, hsame, -⟩
      exact Effect.apply_injective hpossible (possible_of_decide hd) hsame.symm
    | error e =>
      simp only [execute_of_refused hread hd, Transcript.addAll_append]
      rcases abandoned_cases hd with hnone | ⟨saps, link, frame, waiting, pieces, rfl, hlink, hup,
        hincoming, hsome, hpieces⟩
      · rw [hnone]
        exact ⟨rfl, .inl ⟨rfl, rfl⟩⟩
      · rw [hsome, Transcript.addAll_outputs]
        refine ⟨rfl, .inr ⟨saps, link, frame, waiting, rfl, hlink, hup, hincoming, rfl, ?_⟩⟩
        rcases hpieces with rfl | ⟨message, needed, available, hmessage, rfl, rfl⟩
        · exact .inl (List.append_nil t.output)
        · exact .inr ⟨message, needed, available, hmessage, rfl, rfl⟩

end Host
end Emulator
end NearField
