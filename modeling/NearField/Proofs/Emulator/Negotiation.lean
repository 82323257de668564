import NearField.Emulator.Surroundings
import NearField.Proofs.Command.Words
import NearField.Proofs.Emulator.AllOrNothing

/-! # Negotiation of points

The points remembered for an endpoint are those of the last exchange with it, or none at all once it
was activated again. A line that asks for the last points gets the remembered ones, for each end of
the link by itself; a line that fails, or that is neither an exchange nor an activation, does not
touch what is remembered.
-/
namespace NearField
open Command

theorem Llcp.Points.checkConnectable_eq_zeroSap_iff {p : Points} :
    (∃ role, p.checkConnectable = .error (.zeroSap role)) ↔
      p.destination = 0 ∨ p.source = 0 := by
  unfold checkConnectable linkManagement
  by_cases hd : p.destination = 0
  · simp [hd]
  · by_cases hs : p.source = 0 <;> simp [hd, hs]

namespace Emulator

/-- The points of the last exchange with an endpoint. -/
def Controller.used? (c : Controller) (place : Nat) : Option Llcp.Points :=
  c.endpoints[place]?.map Endpoint.used

namespace Host
variable {h : Host} {line : Text} {command : Command} {effect : Effect} {place : Nat}
  {points : Llcp.Points}

/-- The points that a line asks for with the active endpoint. -/
structure Resolves (h : Host) (line : Text) (place : Nat) (points : Llcp.Points) : Prop where
  active : h.controller.activeEndpoint = some place
  typed : ∃ used d s rest, h.controller.used? place = some used ∧
    (words line).drop 2 = d :: s :: rest ∧ Llcp.Stands d used.destination points.destination ∧
    Llcp.Stands s used.source points.source

/-- A line activates the endpoint that it names, or the active one if it names none. -/
def Activates (h : Host) (line : Text) (place : Nat) : Prop :=
  ∃ named ws, words line = ["nci".toList, "rf_intf_activated_ntf".toList] ++ ws ∧
    PlaceTypedIn ws named ∧ named.or h.controller.activeEndpoint = some place

theorem resolves_iff {saps : Llcp.Saps} {ws : List Text} (hws : words line = command.opening ++ ws)
    (htyped : saps.TypedIn ws) :
    h.Resolves line place points ↔ h.link saps = .ok ⟨place, points⟩ := by
  have hbehind : (words line).drop 2 = ws := by
    rw [hws, ← length_opening command, List.drop_left]
  obtain ⟨d, s, rest, rfl, hd, hs⟩ := htyped
  rw [link_eq_ok_iff]
  constructor
  · rintro ⟨hactive, used, d', s', rest', hused, hdrop, hd', hs'⟩
    obtain ⟨endpoint, hendpoint, rfl⟩ := Option.map_eq_some_iff.mp hused
    rw [hbehind, List.cons.injEq, List.cons.injEq] at hdrop
    obtain ⟨rfl, rfl, -⟩ := hdrop
    refine ⟨endpoint, hactive, hendpoint, ?_⟩
    rw [hd.stands_iff] at hd'
    rw [hs.stands_iff] at hs'
    obtain ⟨destination, source⟩ := points
    rw [Llcp.Saps.orUsed, ← hd', ← hs']
  · rintro ⟨endpoint, hactive, hendpoint, hpoints⟩
    refine ⟨hactive, endpoint.used, d, s, rest, ?_, hbehind, ?_, ?_⟩
    · rw [Controller.used?, hendpoint, Option.map_some]
    · exact hd.stands_iff.mpr (congrArg Llcp.Points.destination hpoints)
    · exact hs.stands_iff.mpr (congrArg Llcp.Points.source hpoints)

theorem activates_iff {ws : List Text} (hws : words line = command.opening ++ ws)
    (htyped : command.TypedIn ws) :
    h.Activates line place ↔ ∃ named selection,
      command = .notify (.activate named selection) ∧
        named.or h.controller.activeEndpoint = some place := by
  unfold Activates
  rw [hws]
  constructor
  · rintro ⟨named, ws', heq, hnamed, hplace⟩
    obtain ⟨hopening, rfl⟩ := List.append_inj heq (length_opening command)
    obtain ⟨endpoint, selection, rfl⟩ := opening_eq_activate hopening
    obtain rfl := PlaceTypedIn.unique htyped hnamed
    exact ⟨endpoint, selection, rfl, hplace⟩
  · rintro ⟨named, selection, rfl, hplace⟩
    exact ⟨named, ws, rfl, htyped, hplace⟩

end Host

def Effect.leaves? : Effect → Option (Nat × Llcp.Points)
  | sent link _ | connected link | received link _ _ => some (link.endpoint, link.points)
  | activated place _ _ => some (place, {})
  | notified _ | tagWritten .. | tagFormatted _ => none

namespace Controller
variable {c : Controller} {place other : Nat}

theorem used?_modifyEndpoint (c : Controller) (other : Nat) (f : Endpoint → Endpoint)
    (place : Nat) : (c.modifyEndpoint other f).used? place =
      if other = place then c.endpoints[place]?.map (fun e => (f e).used) else c.used? place := by
  rw [used?, getElem?_modifyEndpoint]
  by_cases hplace : other = place
  · rw [if_pos hplace, if_pos hplace, Option.map_map]
    rfl
  · rw [if_neg hplace, if_neg hplace, used?]

theorem active_error {e : Error} (h : c.active = .error e) : e = .noActiveEndpoint := by
  unfold active at h
  cases hactive : c.activeEndpoint with
  | none =>
    rw [hactive] at h
    exact (Except.error.inj h).symm
  | some other =>
    simp only [hactive] at h
    cases hendpoint : c.endpoints[other]? with
    | none =>
      rw [hendpoint] at h
      exact (Except.error.inj h).symm
    | some endpoint =>
      rw [hendpoint] at h
      cases h

theorem used?_setUsed {link : Link} (h : link.endpoint < c.endpoints.length) (place : Nat) :
    (c.setUsed link).used? place =
      if link.endpoint = place then some link.points else c.used? place := by
  rw [setUsed, used?_modifyEndpoint]
  by_cases hplace : link.endpoint = place
  · subst hplace
    simp [List.getElem?_eq_getElem h]
  · rw [if_neg hplace, if_neg hplace]

theorem used?_clear (h : other < c.endpoints.length) (place : Nat) :
    (c.clear other).used? place = if other = place then some {} else c.used? place :=
  @used?_setUsed c ⟨other, {}⟩ h place

theorem used?_modifyTag (f : Tag → Tag) (place : Nat) :
    (c.modifyTag other f).used? place = c.used? place := by
  rw [modifyTag, used?_modifyEndpoint]
  split <;> rfl

end Controller

theorem Effect.used?_apply {h : Host} {effect : Effect} (hp : effect.Possible h) (place : Nat) :
    (effect.apply h).controller.used? place =
      match effect.leaves? with
      | some (other, points) =>
          if other = place then some points else h.controller.used? place
      | none => h.controller.used? place := by
  cases effect with
  | sent link frame => exact Controller.used?_setUsed hp.present place
  | connected link => exact Controller.used?_setUsed hp.present place
  | received link frame message => exact Controller.used?_setUsed hp.1.present place
  | activated other interface packet => exact Controller.used?_clear hp.1 place
  | notified packet => rfl
  | tagWritten other content => exact Controller.used?_modifyTag _ place
  | tagFormatted other => exact Controller.used?_modifyTag _ place

namespace Host
variable {h : Host} {line : Text} {command : Command} {effect : Effect} {place : Nat}
  {points : Llcp.Points}

theorem leaves?_eq_some_iff (hd : h.decide command = .ok effect) :
    effect.leaves? = some (place, points) ↔
      (∃ saps, command.saps? = some saps ∧ h.link saps = .ok ⟨place, points⟩) ∨
      (∃ named selection, command = .notify (.activate named selection) ∧
        named.or h.controller.activeEndpoint = some place ∧ points = {}) := by
  have hlink (saps : Llcp.Saps) {link : Link} (hlink : h.link saps = .ok link) :
      some (link.endpoint, link.points) = some (place, points) ↔
        h.link saps = .ok ⟨place, points⟩ := by
    rw [hlink]
    cases link
    simp
  cases command with
  | send saps records =>
    obtain ⟨link, frame, rfl, hl, -⟩ := decide_send hd
    simpa [Effect.leaves?, saps?] using hlink saps hl
  | receive saps =>
    obtain ⟨link, frame, message, rfl, hl, -⟩ := decide_receive hd
    simpa [Effect.leaves?, saps?] using hlink saps hl
  | connect saps =>
    obtain ⟨link, rfl, hl, -⟩ := decide_connect hd
    simpa [Effect.leaves?, saps?] using hlink saps hl
  | notify n =>
    cases n with
    | discover other stage =>
      obtain ⟨packet, rfl, -⟩ := decide_discover hd
      simp [Effect.leaves?, saps?]
    | deactivate type reason =>
      obtain ⟨packet, rfl, -⟩ := decide_deactivate hd
      simp [Effect.leaves?, saps?]
    | activate named selection =>
      obtain ⟨other, interface, packet, rfl, hother, -⟩ := decide_activate hd
      constructor
      · intro hleaves
        cases hleaves
        exact .inr ⟨named, selection, rfl, hother, rfl⟩
      · rintro (⟨saps, hsaps, -⟩ | ⟨named', selection', hsame, hplace, rfl⟩)
        · cases hsaps
        · cases hsame
          rw [hother] at hplace
          cases hplace
          rfl
  | setTag other records =>
    obtain ⟨message, tag, rfl, -⟩ := decide_setTag hd
    simp [Effect.leaves?, saps?]
  | clearTag other =>
    obtain ⟨tag, rfl, -⟩ := decide_clearTag hd
    simp [Effect.leaves?, saps?]
  | formatTag other =>
    obtain ⟨tag, rfl, -⟩ := decide_formatTag hd
    simp [Effect.leaves?, saps?]

theorem used?_of_error {e : Error} (he : (h.execute line).result = .error e) (place : Nat) :
    (h.execute line).host.controller.used? place = h.controller.used? place := by
  cases hread : Command.ofLine h.controller line with
  | error e' => rw [execute_of_unread hread]
  | ok command =>
    cases hd : h.decide command with
    | ok effect =>
      rw [execute_of_done hread hd] at he
      cases he
    | error e' =>
      rw [execute_of_refused hread hd]
      rcases abandoned_cases hd with hnone | ⟨saps, link, frame, waiting, pieces, -, -, -, -,
        hsome, -⟩
      · rw [hnone]
      · rw [hsome]
        rfl

end Host

/-- What can happen to a host: a line is carried out, the surroundings change, or the queue is
exchanged for another. -/
inductive Move
  | line (line : Text)
  | incident (incident : Incident)
  | queue (frames : List Bytes)

namespace Host

def move (h : Host) : Move → Host
  | .line line => (h.execute line).host
  | .incident i => h.meet i
  | .queue frames => { h with controller := { h.controller with incoming := frames } }

def moves (h : Host) (ms : List Move) : Host := ms.foldl move h

/-- A move that concerns the points of an endpoint, and the points that it leaves there: a line that
succeeds, and either exchanges something with the endpoint or activates it. -/
def Leaves (h : Host) (place : Nat) : Move → Llcp.Points → Prop
  | .line line, points => (h.execute line).result = .ok () ∧
      (IsExchange line ∧ h.Resolves line place points ∨ h.Activates line place ∧ points = ⟨0, 0⟩)
  | .incident _, _ | .queue _, _ => False

def Quiet (h : Host) (place : Nat) : List Move → Prop
  | [] => True
  | m :: rest => (∀ points, ¬ h.Leaves place m points) ∧ (h.move m).Quiet place rest

variable {h : Host} {line : Text} {command : Command} {place : Nat} {points : Llcp.Points}

theorem used?_meet (h : Host) (i : Incident) (place : Nat) :
    (h.meet i).controller.used? place = h.controller.used? place := by
  cases i with
  | tagFails other fails =>
    refine (h.controller.used?_modifyEndpoint other _ place).trans ?_
    split <;> rfl
  | _ => rfl

theorem leaves_iff {effect : Effect}
    (hread : Command.ofLine h.controller line = .ok command) (hd : h.decide command = .ok effect) :
    h.Leaves place (.line line) points ↔ effect.leaves? = some (place, points) := by
  obtain ⟨ws, hws, htyped⟩ := ofLine_words hread
  have hdone : (h.execute line).result = .ok () := by rw [execute_of_done hread hd]
  have hresolves {saps : Llcp.Saps} (hsaps : command.saps? = some saps) :
      h.Resolves line place points ↔ h.link saps = .ok ⟨place, points⟩ :=
    resolves_iff hws (TypedIn.of_saps? htyped hsaps)
  rw [leaves?_eq_some_iff hd, Leaves, isExchange_iff hws, activates_iff hws htyped]
  constructor
  · rintro ⟨-, ⟨⟨saps, hsaps⟩, hasked⟩ | ⟨⟨named, selection, hcommand, hplace⟩, hpoints⟩⟩
    · exact .inl ⟨saps, hsaps, (hresolves hsaps).mp hasked⟩
    · exact .inr ⟨named, selection, hcommand, hplace, hpoints⟩
  · rintro (⟨saps, hsaps, hlink⟩ | ⟨named, selection, hcommand, hplace, hpoints⟩)
    · exact ⟨hdone, .inl ⟨⟨saps, hsaps⟩, (hresolves hsaps).mpr hlink⟩⟩
    · exact ⟨hdone, .inr ⟨⟨named, selection, hcommand, hplace⟩, hpoints⟩⟩

theorem used?_move (h : Host) (m : Move) (place : Nat) :
    (∀ points, h.Leaves place m points → (h.move m).controller.used? place = some points) ∧
      ((∀ points, ¬ h.Leaves place m points) →
        (h.move m).controller.used? place = h.controller.used? place) := by
  cases m with
  | incident i => exact ⟨fun _ hleaves => hleaves.elim, fun _ => h.used?_meet i place⟩
  | queue frames => exact ⟨fun _ hleaves => hleaves.elim, fun _ => rfl⟩
  | line line =>
    cases hresult : (h.execute line).result with
    | error e =>
      refine ⟨?_, fun _ => used?_of_error hresult place⟩
      rintro points ⟨hdone, -⟩
      rw [hresult] at hdone
      cases hdone
    | ok =>
      obtain ⟨command, effect, hread, hd, hx⟩ := exists_effect_of_execute hresult
      have happly := Effect.used?_apply (possible_of_decide hd) place
      rw [move, hx]
      constructor
      · intro points hleaves
        rw [(leaves_iff hread hd).mp hleaves] at happly
        simpa using happly
      · intro hnone
        cases hleaves : effect.leaves? with
        | none =>
          rw [hleaves] at happly
          exact happly
        | some left =>
          obtain ⟨other, points⟩ := left
          have hother : other ≠ place := by
            rintro rfl
            exact hnone points ((leaves_iff hread hd).mpr hleaves)
          rw [hleaves] at happly
          exact happly.trans (if_neg hother)

/-- The points of an endpoint are those that the latest move concerning it has left there, or the
first ones if there was no such move. -/
theorem used?_moves (h : Host) (ms : List Move) (place : Nat) :
    (∃ before m after points, ms = before ++ m :: after ∧ (h.moves before).Leaves place m points ∧
      ((h.moves before).move m).Quiet place after ∧
      (h.moves ms).controller.used? place = some points) ∨
    (h.Quiet place ms ∧ (h.moves ms).controller.used? place = h.controller.used? place) := by
  -- the latest move is looked for among the rest, and only then can it be the first
  induction ms generalizing h with
  | nil => exact .inr ⟨trivial, rfl⟩
  | cons m rest ih =>
    obtain ⟨hset, hkept⟩ := h.used?_move m place
    rcases ih (h.move m) with ⟨before, m', after, points, rfl, hleaves, hquiet, hused⟩ |
      ⟨hquiet, hused⟩
    · exact .inl ⟨m :: before, m', after, points, rfl, hleaves, hquiet, hused⟩
    · by_cases hleaves : ∃ points, h.Leaves place m points
      · obtain ⟨points, hleaves⟩ := hleaves
        exact .inl ⟨[], m, rest, points, rfl, hleaves, hquiet, hused.trans (hset points hleaves)⟩
      · have hnone := not_exists.mp hleaves
        exact .inr ⟨⟨hnone, hquiet⟩, hused.trans (hkept hnone)⟩

theorem execute_put (hok : (h.execute line).result = .ok ())
    (hput : ["snep".toList, "put".toList] <+: words line) :
    ∃ place points, h.Resolves line place points ∧
      (h.execute line).host.controller.used? place = some points ∧
      ((∃ frame, (h.execute line).host.controller.sent =
          h.controller.sent ++ [(⟨place, points⟩, frame)]) ∨
        ((h.execute line).host.controller.sent = h.controller.sent ∧
          ∃ size, (h.execute line).host.received = h.received ++ [size])) := by
  obtain ⟨command, effect, hread, hd, hx⟩ := exists_effect_of_execute hok
  obtain ⟨ws, hws, htyped⟩ := ofLine_words hread
  have hused (place : Nat) := Effect.used?_apply (possible_of_decide hd) place
  rw [hx]
  cases command with
  | send saps records =>
    obtain ⟨⟨place, points⟩, frame, rfl, hlink, -⟩ := decide_send hd
    refine ⟨place, points, (resolves_iff hws htyped).mpr hlink, ?_, .inl ⟨frame, rfl⟩⟩
    exact (hused place).trans (if_pos rfl)
  | receive saps =>
    obtain ⟨⟨place, points⟩, frame, message, rfl, hlink, -⟩ := decide_receive hd
    refine ⟨place, points, (resolves_iff hws htyped).mpr hlink, ?_, .inr ⟨rfl, _, rfl⟩⟩
    exact (hused place).trans (if_pos rfl)
  | _ =>
    rw [hws] at hput
    simp [opening] at hput

theorem execute_connect (hok : (h.execute line).result = .ok ())
    (hconnect : ["llcp".toList, "connect".toList] <+: words line) :
    ∃ place points, h.Resolves line place points ∧
      (h.execute line).host.controller.used? place = some points ∧
      (h.execute line).host.controller.connects = h.controller.connects ++ [⟨place, points⟩] := by
  obtain ⟨command, effect, hread, hd, hx⟩ := exists_effect_of_execute hok
  obtain ⟨ws, hws, htyped⟩ := ofLine_words hread
  have hused (place : Nat) := Effect.used?_apply (possible_of_decide hd) place
  rw [hx]
  cases command with
  | connect saps =>
    obtain ⟨⟨place, points⟩, rfl, hlink, -⟩ := decide_connect hd
    refine ⟨place, points, (resolves_iff hws htyped).mpr hlink, ?_, rfl⟩
    exact (hused place).trans (if_pos rfl)
  | _ =>
    rw [hws] at hconnect
    simp [opening] at hconnect

theorem execute_activation (hok : (h.execute line).result = .ok ())
    (hactivation : ["nci".toList, "rf_intf_activated_ntf".toList] <+: words line) :
    ∃ place, h.Activates line place ∧
      (h.execute line).host.controller.used? place = some ⟨0, 0⟩ ∧
      (h.execute line).host.controller.cleared = h.controller.cleared ++ [place] := by
  obtain ⟨command, effect, hread, hd, hx⟩ := exists_effect_of_execute hok
  obtain ⟨ws, hws, htyped⟩ := ofLine_words hread
  obtain ⟨ws', hline⟩ := hactivation
  rw [hws] at hline
  obtain ⟨hopening, -⟩ := List.append_inj hline (length_opening command).symm
  obtain ⟨named, selection, rfl⟩ := opening_eq_activate hopening.symm
  obtain ⟨place, interface, packet, rfl, hplace, -⟩ := decide_activate hd
  rw [hx]
  refine ⟨place, (activates_iff hws htyped).mpr ⟨named, selection, rfl, hplace⟩, ?_, rfl⟩
  exact (Effect.used?_apply (possible_of_decide hd) place).trans (if_pos rfl)

theorem link_error {saps : Llcp.Saps} {e : Error} (he : h.link saps = .error e) :
    e = .noActiveEndpoint := by
  rcases bind_eq_error_iff.mp he with hactive | ⟨found, -, hpure⟩
  · exact Controller.active_error hactive
  · cases hpure

theorem decide_connect_eq_zeroSap_iff {saps : Llcp.Saps} :
    (∃ role, h.decide (.connect saps) = .error (.zeroSap role)) ↔
      ∃ place points, h.link saps = .ok ⟨place, points⟩ ∧
        (points.destination = 0 ∨ points.source = 0) := by
  cases hlink : h.link saps with
  | error e =>
    obtain rfl := link_error hlink
    simp [decide, hlink]
  | ok link =>
    obtain ⟨place, points⟩ := link
    have hrefused : (∃ role, h.decide (.connect saps) = .error (.zeroSap role)) ↔
        ∃ role, points.checkConnectable = .error (.zeroSap role) := by
      simp only [decide, hlink, ok_bind]
      cases points.checkConnectable with
      | error e => simp
      | ok => cases h.controller.linkUp <;> simp
    rw [hrefused, Llcp.Points.checkConnectable_eq_zeroSap_iff]
    constructor
    · intro hzero
      exact ⟨place, points, rfl, hzero⟩
    · rintro ⟨place', points', hsame, hzero⟩
      cases hsame
      exact hzero

theorem execute_connect_zeroSap (hread : Command.ofLine h.controller line = .ok command)
    (hconnect : ["llcp".toList, "connect".toList] <+: words line) :
    (∃ role, (h.execute line).result = .error (.zeroSap role) ∧ (h.execute line).host = h) ↔
      ∃ place points, h.Resolves line place points ∧
        (points.destination = 0 ∨ points.source = 0) := by
  obtain ⟨ws, hws, htyped⟩ := ofLine_words hread
  cases command with
  | connect saps =>
    simp only [resolves_iff hws htyped, ← decide_connect_eq_zeroSap_iff]
    cases hd : h.decide (.connect saps) with
    | ok effect => simp [execute_of_done hread hd]
    | error e => simp [execute_of_refused hread hd, abandoned]
  | _ =>
    rw [hws] at hconnect
    simp [opening] at hconnect

/-- Whatever has happened to a host: the points of an endpoint are those that the latest activation
or exchange has left with it; a put and a connect use the points that are typed, or for `-1` those
of the endpoint; a connect is refused for a zero point just if there is one; and no other line
touches any points. -/
theorem points_negotiated (start : Host) (ms : List Move) :
    let h := start.moves ms
    (∀ place,
      (∃ before m after points, ms = before ++ m :: after ∧
        (start.moves before).Leaves place m points ∧
        ((start.moves before).move m).Quiet place after ∧
        h.controller.used? place = some points) ∨
      (start.Quiet place ms ∧ h.controller.used? place = start.controller.used? place)) ∧
    ∀ line, let x := h.execute line
      (x.result = .ok () → ["snep".toList, "put".toList] <+: words line →
        ∃ place points, h.Resolves line place points ∧
          x.host.controller.used? place = some points ∧
          ((∃ frame, x.host.controller.sent =
              h.controller.sent ++ [(⟨place, points⟩, frame)]) ∨
            (x.host.controller.sent = h.controller.sent ∧
              ∃ size, x.host.received = h.received ++ [size]))) ∧
      (x.result = .ok () → ["llcp".toList, "connect".toList] <+: words line →
        ∃ place points, h.Resolves line place points ∧
          x.host.controller.used? place = some points ∧
          x.host.controller.connects = h.controller.connects ++ [⟨place, points⟩]) ∧
      (x.result = .ok () → ["nci".toList, "rf_intf_activated_ntf".toList] <+: words line →
        ∃ place, h.Activates line place ∧ x.host.controller.used? place = some ⟨0, 0⟩ ∧
          x.host.controller.cleared = h.controller.cleared ++ [place]) ∧
      (∀ command, Command.ofLine h.controller line = .ok command →
        ["llcp".toList, "connect".toList] <+: words line →
        ((∃ role, x.result = .error (.zeroSap role) ∧ x.host = h) ↔
          ∃ place points, h.Resolves line place points ∧
            (points.destination = 0 ∨ points.source = 0))) ∧
      ((∃ e, x.result = .error e) ∨ (¬ IsExchange line ∧
          ¬ ["nci".toList, "rf_intf_activated_ntf".toList] <+: words line) →
        ∀ place, x.host.controller.used? place = h.controller.used? place) := by
  intro h
  refine ⟨used?_moves start ms, ?_⟩
  intro line x
  refine ⟨execute_put, execute_connect, execute_activation, fun _ => execute_connect_zeroSap, ?_⟩
  rintro (⟨e, he⟩ | ⟨hexchange, hactivation⟩) place
  · exact used?_of_error he place
  · refine (h.used?_move (.line line) place).2 ?_
    rintro points ⟨-, ⟨hline, -⟩ | ⟨⟨named, ws, hline, -⟩, -⟩⟩
    · exact hexchange hline
    · exact hactivation ⟨ws, hline.symm⟩

end Host
end Emulator
end NearField
