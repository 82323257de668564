import NearField.Proofs.Command.Refusals
import NearField.Proofs.Emulator.Activations
import NearField.Proofs.Ndef.Refusals

/-! # Refusals of commands

Some checks are made twice: when a line is read and again when its command is carried out, or in a
layer that only gets what another one has checked. The second check never fails: every failure of a
line is one that its first check is made for.
-/
namespace NearField

namespace Error

/-- Failures of inner layers, and of checks that an outer layer has made. -/
def isInternal : Error → Bool
  | noOperation | tooManyRecords .. | reportRefused | messageTruncated .. | invalidLength ..
  | frameFormat _ | host _ | addressOverflow => true
  | _ => false

/-- Failures that no operation has once its command is read. -/
def isCheckedBefore : Error → Bool
  | failed .. | unknownIndex .. | reservedFlags _ | noRecord | tooManyRecords .. | zeroSap _
  | reportRefused | fieldTooLong .ndefPayload _ | fieldTooLong .snepInformation _
  | addressOverflow => true
  | _ => false

def isCause : Error → Bool
  | noInterface | messageTruncated .. | host _ => true
  | e => e.isContentFault || e.isFrameFault

def isRefusal : Error → Bool
  | noActiveEndpoint | notATag | noInterface | noRecord | zeroSap _ => true
  | failed _ cause => cause.isCause
  | e => e.isContentFault

theorem isRefusal_of_isContentFault {e : Error} (h : e.isContentFault = true) :
    e.isRefusal = true := by
  cases e <;> simp_all [isContentFault, isRefusal]

theorem isCause_of_isContentFault {e : Error} (h : e.isContentFault = true) : e.isCause = true := by
  cases e <;> simp_all [isContentFault, isCause]

theorem isCause_of_isFrameFault {e : Error} (h : e.isFrameFault = true) : e.isCause = true := by
  cases e <;> simp_all [isFrameFault, isCause]

theorem outer_of_isTyping {e : Error} (h : e.isTyping = true) :
    e.isInternal = false ∧ (∀ table value, e ≠ .unknownIndex table value) ∧
      ∀ operation cause, e ≠ .failed operation cause := by
  cases e <;> simp_all [isTyping, isInternal]

theorem isCheckedBefore_of_isCause {e : Error} (h : e.isCause = true) :
    e.isCheckedBefore = false := by
  cases e with
  | fieldTooLong field length =>
    cases field <;> simp_all [isCause, isContentFault, isFrameFault, isCheckedBefore]
  | _ => simp_all [isCause, isContentFault, isFrameFault, isCheckedBefore]

theorem outer_of_isRefusal {e : Error} (h : e.isRefusal = true) :
    e.isInternal = false ∧ (∀ table value, e ≠ .unknownIndex table value) ∧
      (∀ flags, e ≠ .reservedFlags flags) ∧
      ∀ operation cause, e = .failed operation cause → cause.isCheckedBefore = false := by
  cases e with
  | failed operation cause =>
    refine ⟨rfl, by simp, by simp, ?_⟩
    rintro operation' cause' ⟨⟩
    exact isCheckedBefore_of_isCause h
  | _ => simp_all [isRefusal, isContentFault, isInternal]

end Error

theorem Llcp.Points.checkConnectable_error {p : Points} {e : Error}
    (h : p.checkConnectable = .error e) : ∃ role, e = .zeroSap role := by
  unfold checkConnectable at h
  by_cases hdestination : p.destination = linkManagement
  · simp only [hdestination, if_true] at h
    cases h
    exact ⟨.destination, rfl⟩
  · by_cases hsource : p.source = linkManagement
    · simp only [if_neg hdestination, if_pos hsource] at h
      cases h
      exact ⟨.source, rfl⟩
    · simp only [if_neg hdestination, if_neg hsource] at h
      cases h

theorem Nci.writePacket_of_short {payload : Bytes} (h : payload.length ≤ 255)
    (group opcode : UInt8) :
    ∃ packet, writePacket maxPacketSize group opcode payload = .ok packet := by
  have hroom : headerSize + payload.length ≤ maxPacketSize := Nat.add_le_add_left h headerSize
  rw [writePacket_eq h, if_neg (Nat.not_lt.mpr hroom)]
  exact ⟨_, rfl⟩

namespace Emulator
open Command Ndef

namespace Controller
variable {c : Controller} {e : Error}

theorem linkUp_error (h : c.linkUp = .error e) : e.isCause = true := by
  unfold linkUp at h
  split at h <;> cases h
  rfl

theorem messageOf_error {frame : Bytes} (h : messageOf frame = .error e) :
    e.isFrameFault = true := by
  rcases bind_eq_error_iff.mp h with hparse | ⟨request, -, h⟩
  · exact Snep.Request.parse_error hparse
  · split at h
    · cases h
    · cases h
      rfl

theorem workingTag_error {operation : Operation} {fault : HostFault} {place : Nat}
    (h : c.workingTag operation fault place = .error e) : e.isRefusal = true := by
  rcases bind_eq_error_iff.mp h with htag | ⟨tag, -, h⟩
  · rw [tagAt_error htag]
    rfl
  · obtain ⟨cause, hcause, rfl⟩ := Operation.scope_eq_error_iff.mp h
    split at hcause <;> cases hcause
    rfl

theorem endpointAt_of_lt {place : Nat} (h : place < c.endpoints.length) :
    c.endpointAt place = .ok c.endpoints[place] :=
  endpointAt_eq_ok_iff.mpr (List.getElem?_eq_getElem h)

theorem exists_discoverPacket {place : Nat} (h : place < c.endpoints.length)
    (stage : DiscoveryStage) :
    ∃ packet, c.discoverPacket place stage Nci.maxPacketSize = .ok packet := by
  rw [discoverPacket, endpointAt_of_lt h, ok_bind]
  exact Nci.writePacket_of_short (by simp) _ _

end Controller

namespace Host
variable {h : Host} {command : Command} {e : Error}

theorem link_isRefusal {saps : Llcp.Saps} (hlink : h.link saps = .error e) :
    e.isRefusal = true := by
  rw [link_error hlink]
  rfl

theorem nextMessage_error (hd : h.nextMessage = .error e) : e.isCause = true := by
  rcases bind_eq_error_iff.mp hd with hup | ⟨⟨⟩, -, hd⟩
  · exact Controller.linkUp_error hup
  rcases bind_eq_error_iff.mp hd with hframe | ⟨frame, -, hd⟩
  · unfold Controller.nextFrame at hframe
    split at hframe <;> cases hframe
    rfl
  rcases bind_eq_error_iff.mp hd with hmessage | ⟨message, -, hd⟩
  · exact Error.isCause_of_isFrameFault (Controller.messageOf_error hmessage)
  rcases bind_eq_error_iff.mp hd with hreport | ⟨⟨⟩, -, hpure⟩
  · rcases Report.ofMessage_error hreport with ⟨remaining, needed, rfl⟩ | ⟨needed, available, rfl⟩
    · rfl
    · rfl
  · cases hpure

/-- A notification is told unless it is an activation, whose endpoint or interface may be missing
and which the controller may reject. -/
theorem notify_error {n : Nci.Notification} (hc : (Command.notify n).Checked h.controller)
    (hd : h.decide (.notify n) = .error e) : e.isRefusal = true := by
  cases n with
  | discover place stage =>
    obtain ⟨packet, hpacket⟩ := Controller.exists_discoverPacket hc stage
    simp [decide, hpacket] at hd
  | deactivate type reason =>
    obtain ⟨packet, hpacket⟩ :
        ∃ packet, Nci.deactivatePacket Nci.maxPacketSize type reason = .ok packet :=
      Nci.writePacket_of_short (by simp) _ _
    simp [decide, hpacket] at hd
  | activate named selection =>
    rw [decide_activate_eq] at hd
    rcases bind_eq_error_iff.mp hd with hplan | ⟨planned, -, hpure⟩
    · cases Controller.plan_refuses hplan with
      | unknownEndpoint hnamed hbeyond =>
        exact absurd (hc.1 _ hnamed) (Nat.not_lt.mpr hbeyond)
      | unknownInterface hchooses hinactive hselection hbeyond =>
        exact absurd (hc.2 _ hselection) (Nat.not_lt.mpr hbeyond)
      | _ => rfl
    · cases hpure

theorem decide_error (hc : command.Checked h.controller) (hd : h.decide command = .error e) :
    e.isRefusal = true := by
  cases command with
  | notify n => exact notify_error hc hd
  | send saps records =>
    rcases bind_eq_error_iff.mp hd with hlink | ⟨link, -, hd⟩
    · exact link_isRefusal hlink
    rcases bind_eq_error_iff.mp hd with hscope | ⟨frame, -, hpure⟩
    · obtain ⟨cause, hcause, rfl⟩ := Operation.scope_eq_error_iff.mp hscope
      rcases bind_eq_error_iff.mp hcause with hup | ⟨⟨⟩, -, hframe⟩
      · exact Controller.linkUp_error hup
      · exact Error.isCause_of_isContentFault (Snep.frameOf_error hc (by decide) (by decide) hframe)
    · cases hpure
  | receive saps =>
    rcases bind_eq_error_iff.mp hd with hlink | ⟨link, -, hd⟩
    · exact link_isRefusal hlink
    rcases bind_eq_error_iff.mp hd with hscope | ⟨frame, -, hpure⟩
    · obtain ⟨cause, hcause, rfl⟩ := Operation.scope_eq_error_iff.mp hscope
      exact nextMessage_error hcause
    · cases hpure
  | connect saps =>
    rcases bind_eq_error_iff.mp hd with hlink | ⟨link, -, hd⟩
    · exact link_isRefusal hlink
    rcases bind_eq_error_iff.mp hd with hpoints | ⟨⟨⟩, -, hd⟩
    · obtain ⟨role, rfl⟩ := Llcp.Points.checkConnectable_error hpoints
      rfl
    rcases bind_eq_error_iff.mp hd with hscope | ⟨⟨⟩, -, hpure⟩
    · obtain ⟨cause, hcause, rfl⟩ := Operation.scope_eq_error_iff.mp hscope
      exact Controller.linkUp_error hcause
    · cases hpure
  | setTag place records =>
    simp only [decide] at hd
    split at hd
    · cases hd
      rfl
    rcases bind_eq_error_iff.mp hd with hmessage | ⟨message, -, hd⟩
    · exact Error.isRefusal_of_isContentFault (Message.encode_error hc.2 (by decide) hmessage)
    rcases bind_eq_error_iff.mp hd with hworking | ⟨⟨⟩, -, hpure⟩
    · exact Controller.workingTag_error hworking
    · cases hpure
  | clearTag place | formatTag place =>
    rcases bind_eq_error_iff.mp hd with hworking | ⟨⟨⟩, -, hpure⟩
    · exact Controller.workingTag_error hworking
    · cases hpure

theorem execute_error {line : Text} (he : (h.execute line).result = .error e) :
    (Command.ofLine h.controller line = .error e ∧ (e = .noArguments ∨
        (∃ word, e = .unknownCommand word) ∨ RefusesAt h.controller ((words line).drop 2) e)) ∨
      e.isRefusal = true := by
  cases hread : Command.ofLine h.controller line with
  | error cause =>
    rw [execute_of_unread hread] at he
    cases he
    exact .inl ⟨rfl, ofLine_error hread⟩
  | ok command =>
    cases hd : h.decide command with
    | ok effect =>
      rw [execute_of_done hread hd] at he
      cases he
    | error cause =>
      rw [execute_of_refused hread hd] at he
      cases he
      exact .inr (decide_error (ofLine_checked hread) hd)

/-- The checks that are made twice agree: no line has a failure of an inner layer, or fails in an
operation for what its reading has checked. An index is refused only while a line is read, for the
number that is typed behind its operation and that the table misses, and flags only while they are
read. Whatever a line is read as names only what is there and flags that may be typed. -/
theorem internal_errors_unreachable (h : Host) (line : Text) :
    (∀ e, (h.execute line).result = .error e →
      e.isInternal = false ∧
      (∀ table value, e = .unknownIndex table value →
        Command.ofLine h.controller line = .error e ∧
        ∃ word, (words line)[2 + table.argument]? = some word ∧
          Misses h.controller word table value) ∧
      (∀ flags, e = .reservedFlags flags → Command.ofLine h.controller line = .error e) ∧
      ∀ operation cause, e = .failed operation cause → cause.isCheckedBefore = false) ∧
    ∀ command, Command.ofLine h.controller line = .ok command → command.Checked h.controller := by
  refine ⟨?_, fun _ => ofLine_checked⟩
  intro e he
  rcases execute_error he with
    ⟨hread, rfl | ⟨word, rfl⟩ | htyping | ⟨table, value, word, rfl, hword, hmisses⟩⟩ | hrefusal
  · exact ⟨rfl, by simp, by simp, by simp⟩
  · exact ⟨rfl, by simp, by simp, by simp⟩
  · obtain ⟨hinternal, hindex, hfailed⟩ := Error.outer_of_isTyping htyping
    exact ⟨hinternal, fun table value he => absurd he (hindex table value), fun _ _ => hread,
      fun operation cause he => absurd he (hfailed operation cause)⟩
  · refine ⟨rfl, ?_, by simp, by simp⟩
    rintro table' value' ⟨⟩
    rw [List.getElem?_drop] at hword
    exact ⟨hread, word, hword, hmisses⟩
  · obtain ⟨hinternal, hindex, hflags, hfailed⟩ := Error.outer_of_isRefusal hrefusal
    exact ⟨hinternal, fun table value he => absurd he (hindex table value),
      fun flags he => absurd he (hflags flags), hfailed⟩

end Host
end Emulator
end NearField
