import NearField.Proofs.Emulator.Packets
import NearField.Proofs.Emulator.Negotiation

/-! # Activations

An activation chooses its endpoint and its interface, builds its packet, and changes the controller
only then. So one that is refused changes nothing, and one that was carried out can be repeated: its
endpoint is still there, and its interface is the active one.
-/
namespace NearField

namespace Emulator
open Nci

structure Interface.Fits (i : Interface) (e : Endpoint) : Prop where
  protocol : i.protocol = e.protocol
  mode : i.mode = e.mode

theorem Interface.fits_iff {i : Interface} {e : Endpoint} :
    (i.protocol == e.protocol && i.mode == e.mode) = true ↔ i.Fits e := by
  rw [Bool.and_eq_true, beq_iff_eq, beq_iff_eq]
  exact ⟨fun h => ⟨h.1, h.2⟩, fun h => ⟨h.protocol, h.mode⟩⟩

namespace Controller
variable {c : Controller} {named : Option Nat} {selection : Selection} {room place k : Nat}
  {endpoint : Endpoint}

/-- The interface of an activation: the active one if there is one, whatever is asked for, and else
the first one that fits the endpoint or the one that is asked for. It need not be in the table. -/
def Picks (c : Controller) (endpoint : Endpoint) (selection : Selection) (k : Nat) : Prop :=
  match c.activeInterface, selection with
  | some active, _ => k = active
  | none, .automatic => (∃ i, c.interfaces[k]? = some i ∧ i.Fits endpoint) ∧
      ∀ j < k, ∀ i, c.interfaces[j]? = some i → ¬ i.Fits endpoint
  | none, .index asked => k = asked

theorem findInterface_eq_some_iff :
    c.findInterface endpoint.protocol endpoint.mode = some k ↔
      (∃ i, c.interfaces[k]? = some i ∧ i.Fits endpoint) ∧
        ∀ j < k, ∀ i, c.interfaces[j]? = some i → ¬ i.Fits endpoint := by
  rw [findInterface, List.findIdx?_eq_some_iff_getElem]
  constructor
  · rintro ⟨hk, hfit, hbefore⟩
    refine ⟨⟨c.interfaces[k], List.getElem?_eq_getElem hk, Interface.fits_iff.mp hfit⟩, ?_⟩
    intro j hj i hi hfit'
    obtain ⟨hlt, rfl⟩ := List.getElem?_eq_some_iff.mp hi
    exact hbefore j hj (Interface.fits_iff.mpr hfit')
  · rintro ⟨⟨i, hi, hfit⟩, hbefore⟩
    obtain ⟨hk, rfl⟩ := List.getElem?_eq_some_iff.mp hi
    refine ⟨hk, Interface.fits_iff.mpr hfit, fun j hj hfit' => ?_⟩
    exact hbefore j hj _ (List.getElem?_eq_getElem (Nat.lt_trans hj hk))
      (Interface.fits_iff.mp hfit')

theorem findInterface_eq_none_iff :
    c.findInterface endpoint.protocol endpoint.mode = none ↔
      ∀ i ∈ c.interfaces, ¬ i.Fits endpoint := by
  simp only [findInterface, List.findIdx?_eq_none_iff, ← Interface.fits_iff, Bool.not_eq_true]

theorem chosenInterface_eq_ok_iff :
    c.chosenInterface endpoint selection = .ok k ↔
      c.Picks endpoint selection k ∧ (c.activeInterface = none → k < c.interfaces.length) := by
  unfold chosenInterface Picks
  cases hactive : c.activeInterface with
  | some active => simp [eq_comm]
  | none =>
    cases selection with
    | automatic =>
      simp only [← findInterface_eq_some_iff]
      cases hfound : c.findInterface endpoint.protocol endpoint.mode with
      | none => simp
      | some found =>
        obtain ⟨⟨i, hi, -⟩, -⟩ := findInterface_eq_some_iff.mp hfound
        have hlt := (List.getElem?_eq_some_iff.mp hi).1
        constructor
        · rintro ⟨⟩
          exact ⟨rfl, fun _ => hlt⟩
        · rintro ⟨hk, -⟩
          rw [Option.some.inj hk]
    | index asked =>
      by_cases hasked : asked < c.interfaces.length
      · simp only [if_pos hasked, Except.ok.injEq, eq_comm, forall_const]
        constructor
        · rintro rfl
          exact ⟨rfl, hasked⟩
        · exact And.left
      · simp only [if_neg hasked, reduceCtorEq, false_iff, forall_const]
        rintro ⟨rfl, hlt⟩
        exact hasked hlt

def activatedLayout (place : Nat) (endpoint : Endpoint) (interface : Interface) : Bytes :=
  [0x61, 0x05, 11, UInt8.ofNat (place + 1), Coded.code interface.kind,
    Coded.code endpoint.protocol, Coded.code endpoint.mode, 0xFF, 0x01, 0,
    Coded.code endpoint.mode, 0, 0, 0]

theorem activatedPacket_eq {interface : Interface} (hworks : c.activationFails = false)
    (hk : c.interfaces[k]? = some interface) (hplace : c.endpoints[place]? = some endpoint) :
    c.activatedPacket place k room =
      if room < 14 then .error (.bufferOverflow 14 room)
      else .ok (activatedLayout place endpoint interface) := by
  have hlength : (activatedPayload place endpoint interface).length ≤ 255 := by
    simp [activatedPayload]
  simp only [activatedPacket, hworks, hk, endpointAt_eq_ok_iff.mpr hplace, ok_bind,
    Bool.false_eq_true, if_false, writePacket_eq hlength]
  rfl

theorem plan_eq_ok_iff {packet : Bytes} :
    c.plan named selection room = .ok (place, k, packet) ↔
      ∃ endpoint interface, c.Chooses named place endpoint ∧ c.Picks endpoint selection k ∧
        c.interfaces[k]? = some interface ∧ c.activationFails = false ∧ 14 ≤ room ∧
        packet = activatedLayout place endpoint interface := by
  simp only [plan, bind_eq_ok_iff, Operation.scope_eq_ok_iff, pure_eq_ok, Except.ok.injEq,
    Prod.mk.injEq, Prod.exists]
  constructor
  · rintro ⟨place, endpoint, hchosen, k, hk, packet, hpacket, rfl, rfl, rfl⟩
    have hchooses := chosenEndpoint_eq_ok_iff.mp hchosen
    cases hworks : c.activationFails with
    | true => simp [activatedPacket, hworks] at hpacket
    | false =>
    cases hinterface : c.interfaces[k]? with
    | none => simp [activatedPacket, hworks, hinterface] at hpacket
    | some interface =>
    rw [activatedPacket_eq hworks hinterface hchooses.present] at hpacket
    split at hpacket
    · cases hpacket
    · next hroom =>
      exact ⟨endpoint, interface, hchooses, (chosenInterface_eq_ok_iff.mp hk).1, rfl, rfl,
        Nat.not_lt.mp hroom, (Except.ok.inj hpacket).symm⟩
  · rintro ⟨endpoint, interface, hchooses, hpicks, hinterface, hworks, hroom, rfl⟩
    have hlt := (List.getElem?_eq_some_iff.mp hinterface).1
    refine ⟨place, endpoint, chosenEndpoint_eq_ok_iff.mpr hchooses, k,
      chosenInterface_eq_ok_iff.mpr ⟨hpicks, fun _ => hlt⟩, _, ?_, rfl, rfl, rfl⟩
    rw [activatedPacket_eq hworks hinterface hchooses.present, if_neg (Nat.not_lt.mpr hroom)]

/-- Why an activation is refused. The endpoint is looked at first, then the interface unless one is
active; only a packet that cannot be built is blamed on the operation. -/
inductive RefusesActivation (c : Controller) (named : Option Nat) (selection : Selection)
    (room : Nat) : Error → Prop
  | unknownEndpoint {place : Nat} (hnamed : named = some place)
      (hbeyond : c.endpoints.length ≤ place) :
      RefusesActivation c named selection room (.unknownIndex .endpoints (signedWord place))
  | noActiveEndpoint (hnamed : named = none)
      (hnone : ∀ place ∈ c.activeEndpoint, c.endpoints.length ≤ place) :
      RefusesActivation c named selection room .noActiveEndpoint
  | noFit {place : Nat} {endpoint : Endpoint} (hchooses : c.Chooses named place endpoint)
      (hinactive : c.activeInterface = none) (hselection : selection = .automatic)
      (hnone : ∀ i ∈ c.interfaces, ¬ i.Fits endpoint) :
      RefusesActivation c named selection room .noInterface
  | unknownInterface {place k : Nat} {endpoint : Endpoint}
      (hchooses : c.Chooses named place endpoint) (hinactive : c.activeInterface = none)
      (hselection : selection = .index k) (hbeyond : c.interfaces.length ≤ k) :
      RefusesActivation c named selection room (.unknownIndex .interfaces (signedWord k))
  | rejected {place k : Nat} {endpoint : Endpoint} (hchooses : c.Chooses named place endpoint)
      (hpicks : c.Picks endpoint selection k)
      (hpresent : c.activeInterface = none → k < c.interfaces.length)
      (hfails : c.activationFails = true) :
      RefusesActivation c named selection room (.failed .activate (.host .activationRejected))
  | staleInterface {place k : Nat} {endpoint : Endpoint}
      (hchooses : c.Chooses named place endpoint) (hactive : c.activeInterface = some k)
      (hworks : c.activationFails = false) (hbeyond : c.interfaces.length ≤ k) :
      RefusesActivation c named selection room (.failed .activate .noInterface)
  | noRoom {place k : Nat} {endpoint : Endpoint} (hchooses : c.Chooses named place endpoint)
      (hpicks : c.Picks endpoint selection k) (hworks : c.activationFails = false)
      (hpresent : k < c.interfaces.length) (hroom : room < 14) :
      RefusesActivation c named selection room (.failed .activate (.bufferOverflow 14 room))

theorem chosenEndpoint_refuses {e : Error} (h : c.chosenEndpoint named = .error e) :
    c.RefusesActivation named selection room e := by
  cases named with
  | none =>
    rw [active_error h]
    refine .noActiveEndpoint rfl fun place hplace => Nat.not_lt.mp fun hlt => ?_
    have hchosen : c.chosenEndpoint none = .ok (place, c.endpoints[place]) :=
      chosenEndpoint_eq_ok_iff.mpr ⟨hplace, List.getElem?_eq_getElem hlt⟩
    rw [hchosen] at h
    cases h
  | some place =>
    simp only [chosenEndpoint, endpointAt] at h
    split at h
    · cases h
    · next hnone =>
      cases h
      exact .unknownEndpoint rfl (List.getElem?_eq_none_iff.mp hnone)

theorem chosenInterface_refuses {e : Error} (hchooses : c.Chooses named place endpoint)
    (h : c.chosenInterface endpoint selection = .error e) :
    c.RefusesActivation named selection room e := by
  unfold chosenInterface at h
  cases hactive : c.activeInterface with
  | some active => simp [hactive] at h
  | none =>
    cases selection with
    | automatic =>
      simp only [hactive] at h
      cases hfound : c.findInterface endpoint.protocol endpoint.mode with
      | some found => simp [hfound] at h
      | none =>
        simp only [hfound, Except.error.injEq] at h
        subst h
        exact .noFit hchooses hactive rfl (findInterface_eq_none_iff.mp hfound)
    | index asked =>
      simp only [hactive] at h
      split at h
      · cases h
      · next hbeyond =>
        cases h
        exact .unknownInterface hchooses hactive rfl (Nat.not_lt.mp hbeyond)

theorem activatedPacket_refuses {e : Error} (hchooses : c.Chooses named place endpoint)
    (hk : c.chosenInterface endpoint selection = .ok k)
    (h : c.activatedPacket place k room = .error e) :
    c.RefusesActivation named selection room (.failed .activate e) := by
  obtain ⟨hpicks, hpresent⟩ := chosenInterface_eq_ok_iff.mp hk
  cases hworks : c.activationFails with
  | true =>
    simp only [activatedPacket, hworks, if_true] at h
    cases h
    exact .rejected hchooses hpicks hpresent hworks
  | false =>
  cases hinterface : c.interfaces[k]? with
  | none =>
    simp only [activatedPacket, hworks, hinterface] at h
    cases h
    have hbeyond := List.getElem?_eq_none_iff.mp hinterface
    cases hactive : c.activeInterface with
    | none => exact absurd (hpresent hactive) (Nat.not_lt.mpr hbeyond)
    | some active =>
      have hsame : k = active := by simpa [Picks, hactive] using hpicks
      exact .staleInterface hchooses (hsame ▸ hactive) hworks hbeyond
  | some interface =>
    rw [activatedPacket_eq hworks hinterface hchooses.present] at h
    split at h
    · next hroom =>
      cases h
      exact .noRoom hchooses hpicks hworks (List.getElem?_eq_some_iff.mp hinterface).1 hroom
    · cases h

theorem plan_refuses {e : Error} (h : c.plan named selection room = .error e) :
    c.RefusesActivation named selection room e := by
  rcases bind_eq_error_iff.mp h with hchosen | ⟨⟨place, endpoint⟩, hchosen, h⟩
  · exact chosenEndpoint_refuses hchosen
  have hchooses := chosenEndpoint_eq_ok_iff.mp hchosen
  rcases bind_eq_error_iff.mp h with hk | ⟨k, hk, h⟩
  · exact chosenInterface_refuses hchooses hk
  rcases bind_eq_error_iff.mp h with hscope | ⟨packet, -, hpure⟩
  · obtain ⟨cause, hcause, rfl⟩ := Operation.scope_eq_error_iff.mp hscope
    exact activatedPacket_refuses hchooses hk hcause
  · cases hpure

theorem RefusesActivation.plan_eq {e : Error} (h : c.RefusesActivation named selection room e) :
    c.plan named selection room = .error e := by
  unfold plan
  cases h with
  | unknownEndpoint hnamed hbeyond =>
    simp [hnamed, chosenEndpoint, endpointAt, List.getElem?_eq_none hbeyond]
  | noActiveEndpoint hnamed hnone =>
    cases hactive : c.activeEndpoint with
    | none => simp [hnamed, chosenEndpoint, active, hactive]
    | some place =>
      have hbeyond := List.getElem?_eq_none (hnone place hactive)
      simp [hnamed, chosenEndpoint, active, hactive, hbeyond]
  | noFit hchooses hinactive hselection hnone =>
    simp [chosenEndpoint_eq_ok_iff.mpr hchooses, chosenInterface, hinactive, hselection,
      findInterface_eq_none_iff.mpr hnone]
  | unknownInterface hchooses hinactive hselection hbeyond =>
    simp [chosenEndpoint_eq_ok_iff.mpr hchooses, chosenInterface, hinactive, hselection,
      Nat.not_lt.mpr hbeyond]
  | rejected hchooses hpicks hpresent hfails =>
    simp [chosenEndpoint_eq_ok_iff.mpr hchooses, chosenInterface_eq_ok_iff.mpr ⟨hpicks, hpresent⟩,
      activatedPacket, hfails]
  | staleInterface hchooses hactive hworks hbeyond =>
    simp [chosenEndpoint_eq_ok_iff.mpr hchooses, chosenInterface, hactive, activatedPacket, hworks,
      List.getElem?_eq_none hbeyond]
  | noRoom hchooses hpicks hworks hpresent hroom =>
    simp [chosenEndpoint_eq_ok_iff.mpr hchooses,
      chosenInterface_eq_ok_iff.mpr ⟨hpicks, fun _ => hpresent⟩,
      activatedPacket_eq hworks (List.getElem?_eq_getElem hpresent) hchooses.present, hroom]

theorem plan_eq_error_iff {e : Error} :
    c.plan named selection room = .error e ↔ c.RefusesActivation named selection room e :=
  ⟨plan_refuses, RefusesActivation.plan_eq⟩

variable {packet : Bytes} {after : Controller}

theorem run_activate_eq_ok_iff :
    (activate clear named selection room).run c = .ok packet after ↔
      ∃ place k, c.plan named selection room = .ok (place, k, packet) ∧
        after = { c.clear place with activeInterface := some k } := by
  rw [run_activate]
  cases c.plan named selection room with
  | error e => simp
  | ok planned =>
    obtain ⟨place, k, built⟩ := planned
    constructor
    · rintro ⟨⟩
      exact ⟨place, k, rfl, rfl⟩
    · rintro ⟨place', k', ⟨⟩, rfl⟩
      rfl

theorem run_activate_eq_error_iff {e : Error} :
    (activate clear named selection room).run c = .error e after ↔
      after = c ∧ c.plan named selection room = .error e := by
  rw [run_activate]
  cases c.plan named selection room with
  | error cause => simp [and_comm, eq_comm]
  | ok planned => simp

/-- Nothing that an activation changes stands in the way of another one. -/
theorem plan_repeated (h : c.plan named selection room = .ok (place, k, packet)) :
    { c.clear place with activeInterface := some k }.plan named selection room =
      .ok (place, k, packet) := by
  obtain ⟨endpoint, interface, hchooses, -, hinterface, hworks, hroom, rfl⟩ := plan_eq_ok_iff.mp h
  have hpresent : (c.clear place).endpoints[place]? = some { endpoint with used := {} } := by
    refine (c.getElem?_modifyEndpoint place _ place).trans ?_
    rw [if_pos rfl, hchooses.present, Option.map_some]
  exact plan_eq_ok_iff.mpr ⟨{ endpoint with used := {} }, interface, ⟨hchooses.named, hpresent⟩,
    rfl, hinterface, hworks, hroom, rfl⟩

theorem clear_eq (hplace : c.endpoints[place]? = some endpoint) :
    c.clear place = { c with
      endpoints := c.endpoints.set place { endpoint with used := {} }
      cleared := c.cleared ++ [place] } := by
  have hlist : c.endpoints.modify place (fun e => { e with used := {} }) =
      c.endpoints.set place { endpoint with used := {} } := by
    have : Inhabited Endpoint := ⟨endpoint⟩
    rw [List.modify_eq_set, hplace]
    rfl
  rw [clear, forget, modifyEndpoint, hlist]

/-- An activation is carried out just if its endpoint is there, its interface is one of the table,
the controller does not reject it and the packet has room for 14 bytes. It then resets the points of
the endpoint and makes the interface the active one, and can be repeated to build the same packet.
One that is refused changes nothing, and tells what it is refused for. -/
theorem activate_exact (c : Controller) (named : Option Nat) (selection : Selection) (room : Nat) :
    let run := (activate clear named selection room).run
    (∀ packet after, run c = .ok packet after ↔
      ∃ place endpoint k interface, named.or c.activeEndpoint = some place ∧
        c.endpoints[place]? = some endpoint ∧ c.Picks endpoint selection k ∧
        c.interfaces[k]? = some interface ∧ c.activationFails = false ∧ 14 ≤ room ∧
        packet = [0x61, 0x05, 0x0B, UInt8.ofNat (place + 1), Coded.code interface.kind,
          Coded.code endpoint.protocol, Coded.code endpoint.mode, 0xFF, 0x01, 0,
          Coded.code endpoint.mode, 0, 0, 0] ∧
        after = { c with
          endpoints := c.endpoints.set place { endpoint with used := ⟨0, 0⟩ }
          cleared := c.cleared ++ [place]
          activeInterface := some k }) ∧
    (∀ packet after, run c = .ok packet after → ∃ again, run after = .ok packet again) ∧
    ∀ e after, run c = .error e after ↔
      after = c ∧ c.RefusesActivation named selection room e := by
  intro run
  refine ⟨fun packet after => ?_, fun packet after h => ?_, fun e after => ?_⟩
  · simp only [run, run_activate_eq_ok_iff, plan_eq_ok_iff]
    constructor
    · rintro ⟨place, k, ⟨endpoint, interface, hchooses, hpicks, hk, hworks, hroom, rfl⟩, rfl⟩
      exact ⟨place, endpoint, k, interface, hchooses.named, hchooses.present, hpicks, hk, hworks,
        hroom, rfl, by rw [clear_eq hchooses.present]⟩
    · rintro ⟨place, endpoint, k, interface, hnamed, hpresent, hpicks, hk, hworks, hroom, rfl, rfl⟩
      exact ⟨place, k, ⟨endpoint, interface, ⟨hnamed, hpresent⟩, hpicks, hk, hworks, hroom, rfl⟩,
        by rw [clear_eq hpresent]⟩
  · obtain ⟨place, k, hplan, rfl⟩ := run_activate_eq_ok_iff.mp h
    exact ⟨_, run_activate_eq_ok_iff.mpr ⟨place, k, plan_repeated hplan, rfl⟩⟩
  · exact run_activate_eq_error_iff.trans (and_congr_right fun _ => plan_eq_error_iff)

end Controller
end Emulator
end NearField
