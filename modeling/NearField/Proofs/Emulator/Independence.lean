import NearField.Proofs.Command.Words
import NearField.Proofs.Emulator.AllOrNothing

/-! # Independence of tag lines

A line on a tag reads and changes that tag alone, and no other line reads or changes it. So a line
on a tag can be exchanged with any line that is not on the same tag, whether they succeed or fail.
-/
namespace NearField
open Command

namespace Emulator

/-- What a line is checked against when it is read: which endpoints there are and which of them are
tags, and how many interfaces. -/
def Controller.outline (c : Controller) : List Bool × Nat :=
  (c.endpoints.map fun e => e.tag.isSome, c.interfaces.length)

namespace Controller
variable {c c' : Controller}

theorem outline_modifyEndpoint (c : Controller) (place : Nat) {f : Endpoint → Endpoint}
    (hf : ∀ e, (f e).tag.isSome = e.tag.isSome) :
    (c.modifyEndpoint place f).outline = c.outline := by
  rw [outline, c.map_modifyEndpoint place hf]
  rfl

theorem tagAt_eq_error_iff {place : Nat} {e : Error} :
    c.tagAt place = .error e ↔ e = .notATag ∧ (c.outline.1[place]?).getD false = false := by
  unfold tagAt outline
  rw [List.getElem?_map]
  cases c.endpoints[place]? with
  | none => simp [eq_comm]
  | some endpoint => cases htag : endpoint.tag <;> simp [htag, eq_comm]

end Controller

end Emulator

namespace Command
open Emulator
variable {c c' : Controller}

theorem Reader.tag_congr (h : c'.outline = c.outline) : Reader.tag c' = Reader.tag c := by
  have hcount : c'.endpoints.length = c.endpoints.length := by
    simpa [Controller.outline] using congrArg (fun o => o.1.length) h
  have herror (place : Nat) (e : Error) : c'.tagAt place = .error e ↔ c.tagAt place = .error e := by
    rw [Controller.tagAt_eq_error_iff, Controller.tagAt_eq_error_iff, h]
  unfold Reader.tag
  rw [hcount]
  refine congrArg (operation >>= ·) (funext fun word => ?_)
  by_cases hset : word = "set".toList
  · rw [if_pos hset, if_pos hset]
    refine congrArg (endpointPlace c.endpoints.length >>= ·) (funext fun place => ?_)
    cases htag : c.tagAt place with
    | error e => rw [(herror place e).mpr htag]
    | ok tag =>
      cases htag' : c'.tagAt place with
      | error e => simp [(herror place e).mp htag'] at htag
      | ok tag' => rfl
  · rw [if_neg hset, if_neg hset]

theorem ofLine_congr (h : c'.outline = c.outline) (line : Text) :
    ofLine c' line = ofLine c line := by
  have hcount : c'.endpoints.length = c.endpoints.length := by
    simpa [Controller.outline] using congrArg (fun o => o.1.length) h
  have hinterfaces : c'.interfaces.length = c.interfaces.length := congrArg Prod.snd h
  have hreader (family : Family) : family.reader c' = family.reader c := by
    cases family with
    | snep | llcp => rfl
    | nci => simp only [Family.reader, Reader.nci, Reader.notification, hcount, hinterfaces]
    | tag => exact Reader.tag_congr h
  simp only [ofLine, Family.readArguments, Family.readInput, hreader]

end Command

namespace Emulator
open Command Console

theorem Effect.outline_apply (h : Host) (effect : Effect) :
    (effect.apply h).controller.outline = h.controller.outline := by
  cases effect with
  | notified packet => rfl
  | sent link frame | connected link | received link frame message
  | activated place interface packet =>
    exact h.controller.outline_modifyEndpoint _ fun e => rfl
  | tagWritten place content | tagFormatted place =>
    exact h.controller.outline_modifyEndpoint _ fun e => Option.isSome_map

theorem Host.outline_execute (h : Host) (line : Text) :
    (h.execute line).host.controller.outline = h.controller.outline := by
  rcases h.host_execute line with ⟨command, effect, -, -, hhost⟩ | ⟨waiting, hhost⟩
  · rw [hhost]
    exact effect.outline_apply h
  · rw [hhost]
    rfl

theorem Host.ofLine_execute (h : Host) (first line : Text) :
    Command.ofLine (h.execute first).host.controller line = Command.ofLine h.controller line :=
  ofLine_congr (h.outline_execute first) line

namespace Controller
variable {c : Controller} {place : Nat} {f : Tag → Tag}

theorem active_modifyTag (c : Controller) (place : Nat) (f : Tag → Tag) :
    (c.active = .error .noActiveEndpoint ∧
        (c.modifyTag place f).active = .error .noActiveEndpoint) ∨
      ∃ other e tag, c.active = .ok (other, e) ∧
        (c.modifyTag place f).active = .ok (other, { e with tag := tag }) := by
  have hactive : (c.modifyTag place f).activeEndpoint = c.activeEndpoint := rfl
  unfold active
  rw [hactive]
  cases c.activeEndpoint with
  | none => exact .inl ⟨rfl, rfl⟩
  | some other =>
    rcases c.endpoint_modifyTag place f other with ⟨hnone, hnone'⟩ | ⟨e, tag, hsome, hsome'⟩
    · exact .inl ⟨by simp [hnone], by simp [hnone']⟩
    · exact .inr ⟨other, e, tag, by simp [hsome], by simp [hsome']⟩

theorem endpointAt_modifyTag (c : Controller) (place : Nat) (f : Tag → Tag) (other : Nat) :
    (∃ cause, c.endpointAt other = .error cause ∧
        (c.modifyTag place f).endpointAt other = .error cause) ∨
      ∃ e tag, c.endpointAt other = .ok e ∧
        (c.modifyTag place f).endpointAt other = .ok { e with tag := tag } := by
  unfold endpointAt
  rcases c.endpoint_modifyTag place f other with ⟨hnone, hnone'⟩ | ⟨e, tag, hsome, hsome'⟩
  · exact .inl ⟨.unknownIndex .endpoints (signedWord other), by simp [hnone], by simp [hnone']⟩
  · exact .inr ⟨e, tag, by simp [hsome], by simp [hsome']⟩

theorem chosenEndpoint_modifyTag (c : Controller) (place : Nat) (f : Tag → Tag)
    (named : Option Nat) :
    (∃ cause, c.chosenEndpoint named = .error cause ∧
        (c.modifyTag place f).chosenEndpoint named = .error cause) ∨
      ∃ other e tag, c.chosenEndpoint named = .ok (other, e) ∧
        (c.modifyTag place f).chosenEndpoint named = .ok (other, { e with tag := tag }) := by
  cases named with
  | none =>
    rcases c.active_modifyTag place f with hnone | hsome
    · exact .inl ⟨.noActiveEndpoint, hnone⟩
    · exact .inr hsome
  | some other =>
    unfold chosenEndpoint
    rcases c.endpointAt_modifyTag place f other with
      ⟨cause, hnone, hnone'⟩ | ⟨e, tag, hsome, hsome'⟩
    · exact .inl ⟨cause, by simp [hnone], by simp [hnone']⟩
    · exact .inr ⟨other, e, tag, by simp [hsome], by simp [hsome']⟩

theorem discoverPacket_modifyTag (c : Controller) (place : Nat) (f : Tag → Tag) (other : Nat)
    (stage : DiscoveryStage) (room : Nat) :
    (c.modifyTag place f).discoverPacket other stage room = c.discoverPacket other stage room := by
  unfold discoverPacket
  rcases c.endpointAt_modifyTag place f other with ⟨cause, hnone, hnone'⟩ | ⟨e, tag, hsome, hsome'⟩
  · rw [hnone, hnone', error_bind]
  · rw [hsome, hsome', ok_bind, ok_bind]

theorem activatedPacket_modifyTag (c : Controller) (place : Nat) (f : Tag → Tag)
    (other k room : Nat) :
    (c.modifyTag place f).activatedPacket other k room = c.activatedPacket other k room := by
  unfold activatedPacket
  rcases c.endpointAt_modifyTag place f other with ⟨cause, hnone, hnone'⟩ | ⟨e, tag, hsome, hsome'⟩
  · rw [hnone, hnone']
    rfl
  · rw [hsome, hsome']
    rfl

theorem setUsed_modifyTag (c : Controller) (place : Nat) (f : Tag → Tag) (link : Link) :
    (c.modifyTag place f).setUsed link = (c.setUsed link).modifyTag place f :=
  modifyEndpoint_comm fun _ _ => rfl

theorem clear_modifyTag (c : Controller) (place : Nat) (f : Tag → Tag) (other : Nat) :
    (c.modifyTag place f).clear other = (c.clear other).modifyTag place f :=
  congrArg (fun d : Controller => { d with cleared := c.cleared ++ [other] })
    (c.setUsed_modifyTag place f ⟨other, {}⟩)

theorem modifyTag_comm {other : Nat} (hne : other ≠ place) (f g : Tag → Tag) :
    (c.modifyTag place f).modifyTag other g = (c.modifyTag other g).modifyTag place f :=
  modifyEndpoint_comm fun hsame => absurd hsame.symm hne

end Controller

namespace Host
variable {h h' : Host} {command : Command} {place : Nat} {f : Tag → Tag}

def retag (h : Host) (place : Nat) (f : Tag → Tag) : Host :=
  { h with controller := h.controller.modifyTag place f }

theorem retag_id (h : Host) (place : Nat) : h.retag place id = h := by
  have hsame : h.controller.modifyTag place id = h.controller :=
    Controller.modifyEndpoint_self fun e _ => by simp
  rw [retag, hsame]

theorem link_retag (h : Host) (place : Nat) (f : Tag → Tag) (saps : Llcp.Saps) :
    (h.retag place f).link saps = h.link saps := by
  unfold link retag
  rcases h.controller.active_modifyTag place f with ⟨hnone, hnone'⟩ | ⟨other, e, tag, hsome, hsome'⟩
  · rw [hnone, hnone']
  · rw [hsome, hsome', ok_bind, ok_bind]

theorem workingTag_congr {c c' : Controller} (htag : c'.tagAt place = c.tagAt place)
    (operation : Operation) (fault : HostFault) :
    c'.workingTag operation fault place = c.workingTag operation fault place := by
  rw [Controller.workingTag, Controller.workingTag, htag]

theorem decide_of_tagPlace (hplace : command.tagPlace? = some place)
    (htag : h'.controller.tagAt place = h.controller.tagAt place) :
    h'.decide command = h.decide command := by
  cases command with
  | setTag other records | clearTag other | formatTag other =>
    cases hplace
    simp only [decide, workingTag_congr htag]
  | _ => cases hplace

theorem decide_retag (hother : command.tagPlace? ≠ some place) :
    (h.retag place f).decide command = h.decide command := by
  cases command with
  | send saps records | receive saps | connect saps =>
    simp only [decide, link_retag]
    rfl
  | notify n =>
    cases n with
    | discover other stage => simp only [decide, retag, Controller.discoverPacket_modifyTag]
    | deactivate type reason => rfl
    | activate named selection =>
      simp only [decide, retag, Controller.activatedPacket_modifyTag]
      rcases h.controller.chosenEndpoint_modifyTag place f named with
        ⟨cause, hnone, hnone'⟩ | ⟨other, e, tag, hsome, hsome'⟩
      · rw [hnone, hnone', error_bind, error_bind]
      · rw [hsome, hsome', ok_bind, ok_bind]
        rfl
  | setTag other records | clearTag other | formatTag other =>
    have hne : place ≠ other := fun hsame => hother (congrArg some hsame.symm)
    exact decide_of_tagPlace rfl (Controller.tagAt_modifyTag_of_ne hne f)

end Host

namespace Effect
variable {h : Host} {command : Command} {effect : Effect} {place : Nat}

def tagPlace? : Effect → Option Nat
  | tagWritten place _ | tagFormatted place => some place
  | _ => none

theorem IsOf.tagPlace?_eq (hof : effect.IsOf command) : effect.tagPlace? = command.tagPlace? := by
  cases effect with
  | sent | activated =>
    obtain ⟨_, _, rfl⟩ := hof
    rfl
  | connected | received =>
    obtain ⟨_, rfl⟩ := hof
    rfl
  | notified packet => rcases hof with ⟨place, stage, rfl⟩ | ⟨type, reason, rfl⟩ <;> rfl
  | tagWritten place content => rcases hof with ⟨records, rfl⟩ | rfl <;> rfl
  | tagFormatted place =>
    cases hof
    rfl

theorem apply_of_tagPlace (hplace : effect.tagPlace? = some place) :
    effect.events = [] ∧ ∃ f, ∀ h, effect.apply h = h.retag place f := by
  cases effect with
  | tagWritten other content | tagFormatted other =>
    cases hplace
    exact ⟨rfl, _, fun h => rfl⟩
  | _ => cases hplace

theorem apply_retag (hother : effect.tagPlace? ≠ some place) (f : Tag → Tag) :
    effect.apply (h.retag place f) = (effect.apply h).retag place f ∧
      (effect.apply h).controller.tagAt place = h.controller.tagAt place := by
  have hne {other : Nat} (hplace : effect.tagPlace? = some other) : other ≠ place :=
    fun hsame => hother (hsame ▸ hplace)
  cases effect with
  | sent link frame | connected link | received link frame message =>
    refine ⟨?_, Controller.tagAt_modifyEndpoint fun _ _ => rfl⟩
    simp only [apply, Host.retag, Controller.setUsed_modifyTag]
    rfl
  | notified packet => exact ⟨rfl, rfl⟩
  | activated other k packet =>
    refine ⟨?_, Controller.tagAt_modifyEndpoint fun _ _ => rfl⟩
    simp only [apply, Host.retag, Controller.clear_modifyTag]
    rfl
  | tagWritten other content | tagFormatted other =>
    refine ⟨?_, Controller.tagAt_modifyTag_of_ne (hne rfl) _⟩
    simp only [apply, Host.retag, Controller.modifyTag_comm (hne rfl)]

end Effect

namespace Host
variable {h h' : Host} {command : Command} {place : Nat} {f : Tag → Tag}

theorem abandoned_retag (h : Host) (command : Command) (place : Nat) (f : Tag → Tag) :
    (h.retag place f).abandoned command =
      ((h.abandoned command).1.retag place f, (h.abandoned command).2) := by
  cases command with
  | receive saps =>
    have hdown : (h.retag place f).controller.linkDown = h.controller.linkDown := rfl
    have hincoming : (h.retag place f).controller.incoming = h.controller.incoming := rfl
    simp only [abandoned, link_retag, hdown, hincoming]
    split <;> rfl
  | _ => rfl

variable {line : Text}

/-- No command that a line is read as changes the tag. -/
def Spares (h : Host) (line : Text) (place : Nat) : Prop :=
  ∀ command, Command.ofLine h.controller line = .ok command → command.tagPlace? ≠ some place

/-- A line that spares a tag does the same whatever is done to the tag. -/
theorem execute_retag (hspares : h.Spares line place) (f : Tag → Tag) :
    (h.retag place f).execute line =
      { h.execute line with host := (h.execute line).host.retag place f } := by
  refine execute_change (fun h => h.retag place f) ?_ ?_ ?_ ?_
  · exact ofLine_congr (h.controller.outline_modifyEndpoint place fun e => Option.isSome_map) line
  · exact fun command hread => decide_retag (hspares command hread)
  · intro command effect hread hd
    have hother := hspares command hread
    rw [← (isOf_of_decide hd).tagPlace?_eq] at hother
    exact (Effect.apply_retag hother f).1
  · exact fun command _ => h.abandoned_retag command place f

theorem tagAt_execute (hspares : h.Spares line place) :
    (h.execute line).host.controller.tagAt place = h.controller.tagAt place := by
  rcases h.host_execute line with ⟨command, effect, hread, hd, hhost⟩ | ⟨waiting, hhost⟩
  · rw [hhost]
    refine (Effect.apply_retag ?_ id).2
    rw [(isOf_of_decide hd).tagPlace?_eq]
    exact hspares command hread
  · rw [hhost]
    rfl

/-- A line on a tag changes the tag, or nothing, in the same way on every host that has the tag, and
writes nothing. -/
theorem execute_tag (hread : Command.ofLine h.controller line = .ok command)
    (hplace : command.tagPlace? = some place) :
    ∃ f events result, events.flatMap Event.printed = [] ∧
      ∀ h' : Host, Command.ofLine h'.controller line = .ok command →
        h'.controller.tagAt place = h.controller.tagAt place →
        h'.execute line = ⟨h'.retag place f, events, result⟩ := by
  cases hd : h.decide command with
  | ok effect =>
    obtain ⟨hevents, f, happly⟩ :=
      Effect.apply_of_tagPlace ((isOf_of_decide hd).tagPlace?_eq.trans hplace)
    refine ⟨f, [], .ok (), rfl, ?_⟩
    intro h' hread' htag
    rw [execute_of_done hread' ((decide_of_tagPlace hplace htag).trans hd), happly, hevents]
  | error e =>
    refine ⟨id, [.failure (failureLine e)], .error e, rfl, ?_⟩
    intro h' hread' htag
    have hd' := (decide_of_tagPlace hplace htag).trans hd
    have hkept : h'.abandoned command = (h', []) := by
      cases command with
      | receive saps => cases hplace
      | _ => rfl
    rw [execute_of_refused hread' hd', hkept, retag_id]
    rfl

variable {a b : Text}

theorem spares_of_names (hb : ¬ ["tag".toList] <+: words b ∨
      ∃ p q, p ≠ q ∧ NamesTag a p ∧ NamesTag b q) (ha : NamesTag a place) (h : Host) :
    h.Spares b place := by
  intro command hread hsame
  rcases ofLine_tagPlace? hread with ⟨named, hnamed, hnames⟩ | ⟨hnone, -⟩
  · obtain rfl : named = place := Option.some.inj (hnamed.symm.trans hsame)
    rcases hb with hkeyword | ⟨p, q, hne, hp, hq⟩
    · exact hkeyword hnames.keyword
    · exact hne ((hp.unique ha).trans (hnames.unique hq))
  · rw [hnone] at hsame
    cases hsame

/-- A line on a tag can be exchanged with any line that is no line on a tag, and with any line on
another tag: both have the same results in either order, the console shows the same, and the host
ends up the same. -/
theorem execute_tag_comm (h : Host) (ha : ["tag".toList] <+: words a)
    (hb : ¬ ["tag".toList] <+: words b ∨ ∃ p q, p ≠ q ∧ NamesTag a p ∧ NamesTag b q) :
    let first := h.execute a
    let second := first.host.execute b
    let first' := h.execute b
    let second' := first'.host.execute a
    first.result = second'.result ∧ second.result = first'.result ∧ second.host = second'.host ∧
      ∀ t : Transcript, ((t.addAll first.events).addAll second.events).output =
        ((t.addAll first'.events).addAll second'.events).output := by
  have hsame := h.ofLine_execute b a
  cases hread : Command.ofLine h.controller a with
  | error e =>
    rw [hread] at hsame
    simp only [execute_of_unread hread, execute_of_unread hsame, Transcript.output_addAll]
    simp [Event.printed]
  | ok command =>
    rcases ofLine_tagPlace? hread with ⟨place, hplace, hnames⟩ | ⟨-, hkeyword⟩
    · have hspares := spares_of_names hb hnames h
      obtain ⟨f, events, result, hsilent, hexecute⟩ := execute_tag hread hplace
      simp only [hexecute h hread rfl, execute_retag hspares,
        hexecute _ (hsame.trans hread) (tagAt_execute hspares), Transcript.output_addAll, hsilent]
      simp
    · exact absurd ha hkeyword

/-- A tag is cleared before or after a connect, and before or after another tag is formatted. -/
theorem execute_tag_comm_sample :
    let tag : Endpoint := { protocol := .t2t, mode := .aPassivePoll, tag := some {} }
    let h : Host := { controller := { endpoints := [tag, tag], activeEndpoint := some 0 } }
    let a := "tag clear 1".toList
    let b := "llcp connect 4 32".toList
    let c := "tag format 0".toList
    ((h.execute a).host.execute b).host = ((h.execute b).host.execute a).host ∧
      ((h.execute a).host.execute c).host = ((h.execute c).host.execute a).host ∧
      (h.execute a).result = .ok () ∧ (h.execute b).result = .ok () ∧
      (h.execute c).result = .ok () := by
  intro tag h a b c
  have ha : ["tag".toList] <+: words a := by decide
  have hconnect : ¬ ["tag".toList] <+: words b := by decide
  have hclear : NamesTag a 1 := ⟨"clear".toList, "1".toList, [], by decide, rfl⟩
  have hformat : NamesTag c 0 := ⟨"format".toList, "0".toList, [], by decide, rfl⟩
  obtain ⟨-, -, hfirst, -⟩ := execute_tag_comm h ha (.inl hconnect)
  obtain ⟨-, -, hsecond, -⟩ := execute_tag_comm h ha (.inr ⟨1, 0, by decide, hclear, hformat⟩)
  exact ⟨hfirst, hsecond, by rfl, by rfl, by rfl⟩

end Host
end Emulator
end NearField
