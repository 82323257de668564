import NearField.Proofs.Emulator.Invariant
import NearField.Proofs.Emulator.Negotiation

/-! # The active interface

The first activation that succeeds decides which interface is active, and no line changes that any
more: a later activation, whatever it names, is one of the same interface, and a deactivation is
only told of. What is told of an activation is thus always true of the interface that is active.
-/
namespace NearField.Emulator
open Command

/-- A move that leaves it to lines to touch the interfaces. -/
def Move.SparesInterfaces : Move → Prop
  | .incident i => i.SparesInterfaces
  | .line _ | .queue _ => True

namespace Host
variable {h : Host} {m : Move} {ms : List Move}

theorem equipment_execute (h : Host) (line : Text) :
    (h.execute line).host.controller.equipment = h.controller.equipment := by
  rcases h.host_execute line with ⟨command, effect, -, -, hhost⟩ | ⟨waiting, hhost⟩
  · rw [hhost]
    exact Effect.equipment_apply h effect
  · rw [hhost]
    rfl

theorem equipment_move (hm : m.SparesInterfaces) :
    (h.move m).controller.equipment = h.controller.equipment := by
  cases m with
  | line line => exact h.equipment_execute line
  | incident i => exact h.equipment_meet hm
  | queue frames => rfl

theorem equipment_moves (hms : ∀ m ∈ ms, m.SparesInterfaces) :
    (h.moves ms).controller.equipment = h.controller.equipment := by
  induction ms generalizing h with
  | nil => rfl
  | cons m rest ih =>
    obtain ⟨hm, hrest⟩ := List.forall_mem_cons.mp hms
    exact (ih hrest).trans (equipment_move hm)

end Host

namespace Effect
variable {h : Host} {command : Command} {effect : Effect} {packet : Bytes}

def packet? : Effect → Option Bytes
  | notified packet | activated _ _ packet => some packet
  | _ => none

theorem notifications_apply (h : Host) (effect : Effect) :
    (effect.apply h).notifications = h.notifications ++ effect.packet?.toList := by
  cases effect <;> simp [apply, packet?]

/-- A command that succeeds either is an activation, or leaves the active interface alone and tells
of no activation: packets have their kind in the second byte. -/
theorem activated_or_spared (hd : h.decide command = .ok effect) :
    (∃ named selection place interface packet, command = .notify (.activate named selection) ∧
      effect = .activated place interface packet) ∨
    ((effect.apply h).controller.activeInterface = h.controller.activeInterface ∧
      ∀ packet, effect.packet? = some packet → ¬ [0x61, 0x05] <+: packet) := by
  have hof := Host.isOf_of_decide hd
  cases effect with
  | activated place interface packet =>
    obtain ⟨named, selection, rfl⟩ := hof
    exact .inl ⟨named, selection, place, interface, packet, rfl, rfl⟩
  | notified packet =>
    refine .inr ⟨rfl, ?_⟩
    rcases hof with ⟨place, stage, rfl⟩ | ⟨type, reason, rfl⟩
    · obtain ⟨packet, heq, hbuilt⟩ := Host.decide_discover hd
      obtain ⟨endpoint, -, rfl⟩ := Controller.discoverPacket_eq_ok hbuilt
      cases heq
      simp [packet?]
    · obtain ⟨packet, heq, hbuilt⟩ := Host.decide_deactivate hd
      obtain rfl := Nci.deactivatePacket_eq_ok hbuilt
      cases heq
      simp [packet?]
  | _ => exact .inr ⟨rfl, by simp [packet?]⟩

end Effect

namespace Host
variable {h : Host} {line : Text} {command : Command} {effect : Effect} {packet : Bytes}
  {m : Move} {ms : List Move} {k : Nat}

/-- An activation is decided on only for the interface that is active already, if there is one. -/
theorem interface_of_decide {named : Option Nat} {selection : Nci.Selection} {place interface : Nat}
    (hk : h.controller.activeInterface = some k)
    (hd : h.decide (.notify (.activate named selection)) =
      .ok (.activated place interface packet)) :
    interface = k := by
  simp only [decide, bind_eq_ok_iff, pure_eq_ok, Except.ok.injEq, Effect.activated.injEq] at hd
  obtain ⟨chosen, -, other, hother, packet', -, -, rfl, -⟩ := hd
  simp only [Controller.chosenInterface, hk, Except.ok.injEq] at hother
  exact hother.symm

theorem activeInterface_apply (hk : h.controller.activeInterface = some k)
    (hd : h.decide command = .ok effect) :
    (effect.apply h).controller.activeInterface = some k := by
  rcases Effect.activated_or_spared hd with
    ⟨named, selection, place, interface, packet, rfl, rfl⟩ | ⟨hspared, -⟩
  · exact congrArg some (interface_of_decide hk hd)
  · rw [hspared, hk]

theorem activeInterface_meet {i : Incident} (hi : i.SparesInterfaces) :
    (h.meet i).controller.activeInterface = h.controller.activeInterface := by
  cases i with
  | activeInterface place => exact hi.elim
  | interfacesLost kept => exact hi.elim
  | _ => rfl

theorem activeInterface_move (hm : m.SparesInterfaces)
    (hk : h.controller.activeInterface = some k) :
    (h.move m).controller.activeInterface = some k := by
  cases m with
  | line line =>
    rw [move]
    rcases h.host_execute line with ⟨command, effect, -, hd, hhost⟩ | ⟨waiting, hhost⟩
    · rw [hhost]
      exact activeInterface_apply hk hd
    · rw [hhost]
      exact hk
  | incident i => exact (activeInterface_meet hm).trans hk
  | queue frames => exact hk

theorem activeInterface_moves (hms : ∀ m ∈ ms, m.SparesInterfaces)
    (hk : h.controller.activeInterface = some k) :
    (h.moves ms).controller.activeInterface = some k := by
  induction ms generalizing h with
  | nil => exact hk
  | cons m rest ih =>
    obtain ⟨hm, hrest⟩ := List.forall_mem_cons.mp hms
    exact ih hrest (activeInterface_move hm hk)

/-- What a line delivers is added to the notifications, and what it tells of an activation is true
of the interface that is active from then on and of the endpoint that the line names. -/
theorem execute_told (h : Host) (line : Text) :
    ∃ packets, (h.execute line).host.notifications = h.notifications ++ packets ∧
      ∀ packet ∈ packets, [0x61, 0x05] <+: packet →
        ∃ k place interface endpoint, (h.execute line).host.controller.activeInterface = some k ∧
          h.controller.interfaces[k]? = some interface ∧ h.Activates line place ∧
          h.controller.endpoints[place]? = some endpoint ∧
          packet = [0x61, 0x05, 11, UInt8.ofNat (place + 1), Coded.code interface.kind,
            Coded.code endpoint.protocol, Coded.code endpoint.mode, 0xFF, 0x01, 0,
            Coded.code endpoint.mode, 0, 0, 0] := by
  rcases h.host_execute line with ⟨command, effect, hread, hd, hhost⟩ | ⟨waiting, hhost⟩
  · refine ⟨effect.packet?.toList, ?_, ?_⟩
    · rw [hhost]
      exact effect.notifications_apply h
    intro packet hpacket hkind
    rw [Option.mem_toList] at hpacket
    rcases Effect.activated_or_spared hd with
      ⟨named, selection, place, k, packet', rfl, rfl⟩ | ⟨-, hother⟩
    · cases hpacket
      obtain ⟨place', k', packet', heq, hplace, hbuilt⟩ := decide_activate hd
      cases heq
      obtain ⟨endpoint, interface, hendpoint, hinterface, hlayout⟩ :=
        Controller.activatedPacket_eq_ok hbuilt
      obtain ⟨ws, hws, htyped⟩ := ofLine_words hread
      refine ⟨k, place, interface, endpoint, ?_, hinterface, ?_, hendpoint, hlayout⟩
      · rw [hhost]
        rfl
      · exact (activates_iff hws htyped).mpr ⟨named, selection, rfl, hplace⟩
    · exact absurd hkind (hother packet hpacket)
  · refine ⟨[], ?_, by simp⟩
    rw [hhost]
    exact (List.append_nil h.notifications).symm

/-- However lines and changes of the surroundings follow each other: an interface that is active
stays so, and every activation that is told of carries the kind of the active interface and what is
known of the endpoint that its line names, or of the active endpoint if it names none. -/
theorem activeInterface_forever (start : Host) (hms : ∀ m ∈ ms, m.SparesInterfaces) :
    (∀ earlier later k, earlier <+: later → later <+: ms →
      (start.moves earlier).controller.activeInterface = some k →
      (start.moves later).controller.activeInterface = some k) ∧
    ∀ before line after, ms = before ++ .line line :: after →
      let h := start.moves before
      let told := h.move (.line line)
      ∃ packets, told.notifications = h.notifications ++ packets ∧
        ∀ packet ∈ packets, [0x61, 0x05] <+: packet →
          ∃ k place interface endpoint, start.controller.interfaces[k]? = some interface ∧
            h.Activates line place ∧ h.controller.endpoints[place]? = some endpoint ∧
            packet = [0x61, 0x05, 11, UInt8.ofNat (place + 1), Coded.code interface.kind,
              Coded.code endpoint.protocol, Coded.code endpoint.mode, 0xFF, 0x01, 0,
              Coded.code endpoint.mode, 0, 0, 0] ∧
            ∀ later, later <+: after → (told.moves later).controller.activeInterface = some k := by
  constructor
  · rintro earlier later k ⟨between, rfl⟩ ⟨after, rfl⟩ hk
    rw [moves, List.foldl_append]
    refine activeInterface_moves (fun m hm => hms m ?_) hk
    simp [hm]
  · rintro before line after rfl h told
    have hbefore : ∀ m ∈ before, m.SparesInterfaces := fun m hm => hms m (by simp [hm])
    have hsame : h.controller.interfaces = start.controller.interfaces :=
      congrArg Equipment.interfaces (equipment_moves hbefore)
    obtain ⟨packets, hadded, hpackets⟩ := h.execute_told line
    refine ⟨packets, hadded, ?_⟩
    intro packet hpacket hkind
    obtain ⟨k, place, interface, endpoint, hk, hinterface, hactivates, hendpoint, hlayout⟩ :=
      hpackets packet hpacket hkind
    rw [hsame] at hinterface
    refine ⟨k, place, interface, endpoint, hinterface, hactivates, hendpoint, hlayout, ?_⟩
    rintro later ⟨rest, rfl⟩
    exact activeInterface_moves (fun m hm => hms m (by simp [hm])) hk

/-- The interface of the first activation outlasts a deactivation, and is the one that a later
activation tells of although its line names another. One packet of an activation is delivered. -/
theorem activeInterface_forever_sample :
    let start : Host := { controller := sampleController }
    let first := "nci rf_intf_activated_ntf 1 0".toList
    let second := "nci rf_intf_activated_ntf 0 2".toList
    let before := [.line first, .line "nci rf_intf_deactivate_ntf".toList,
      .incident (.activeEndpoint none)]
    (start.moves (before ++ [.line second])).controller.activeInterface = some 0 ∧
      ∃ packets, (start.moves (before ++ [.line second])).notifications =
          (start.moves before).notifications ++ packets ∧
        (∃ packet ∈ packets, [0x61, 0x05] <+: packet) ∧
        ∀ packet ∈ packets, [0x61, 0x05] <+: packet →
          packet[4]? = some (Coded.code InterfaceKind.frame) := by
  intro start first second before
  have hspares : ∀ m ∈ before ++ [.line second], m.SparesInterfaces := by
    simp [before, Move.SparesInterfaces, Incident.SparesInterfaces]
  have hfirst : (start.moves [.line first]).controller.activeInterface = some 0 := by rfl
  obtain ⟨hstays, htold⟩ := activeInterface_forever start hspares
  have hlast : (start.moves (before ++ [.line second])).controller.activeInterface = some 0 :=
    hstays [.line first] _ 0 (by simp [before]) (List.prefix_refl _) hfirst
  have hmoves : start.moves (before ++ [.line second]) =
      (start.moves before).move (.line second) := List.foldl_append
  rw [hmoves] at hlast ⊢
  refine ⟨hlast, ?_⟩
  obtain ⟨packets, hadded, hpackets⟩ := htold before second [] rfl
  have hdelivered : packets = [[0x61, 0x05, 11, 1, 1, 5, 2, 0xFF, 0x01, 0, 2, 0, 0, 0]] :=
    List.append_cancel_left (hadded.symm.trans (by rfl))
  refine ⟨packets, hadded, by simp [hdelivered], ?_⟩
  intro packet hpacket hkind
  obtain ⟨k, place, interface, endpoint, hinterface, -, -, rfl, hk⟩ :=
    hpackets packet hpacket hkind
  have hsame : k = 0 := Option.some.inj ((hk [] (List.prefix_refl _)).symm.trans hlast)
  subst hsame
  cases hinterface
  rfl

end Host
end NearField.Emulator
