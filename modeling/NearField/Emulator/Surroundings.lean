import NearField.Emulator.Host

/-! # Surroundings of a host

What can happen to a host between two commands: frames arrive, logs are read, another endpoint
becomes the active one, and faults are switched on and off.
-/
namespace NearField.Emulator

inductive Incident
  | arrival (frame : Bytes)
  | linkDown (down : Bool)
  | activationFails (fails : Bool)
  | tagFails (place : Nat) (fails : Bool)
  | activeEndpoint (place : Option Nat)
  | activeInterface (place : Option Nat)
  | interfacesLost (kept : Nat)
  /-- The newest sent request is read off its log. -/
  | sentRead
  /-- The newest notification is read off its log. -/
  | notificationRead
  deriving DecidableEq, Repr

namespace Host

def meet (h : Host) : Incident → Host
  | .arrival frame =>
    { h with controller := { h.controller with incoming := h.controller.incoming ++ [frame] } }
  | .linkDown down => { h with controller := { h.controller with linkDown := down } }
  | .activationFails fails =>
    { h with controller := { h.controller with activationFails := fails } }
  | .tagFails place fails =>
    { h with controller := h.controller.modifyEndpoint place fun e =>
      { e with tag := e.tag.map fun t => { t with failing := fails } } }
  | .activeEndpoint place => { h with controller := { h.controller with activeEndpoint := place } }
  | .activeInterface place =>
    { h with controller := { h.controller with activeInterface := place } }
  | .interfacesLost kept =>
    { h with controller := { h.controller with interfaces := h.controller.interfaces.take kept } }
  | .sentRead =>
    { h with controller := { h.controller with sent := h.controller.sent.dropLast } }
  | .notificationRead => { h with notifications := h.notifications.dropLast }

def lastSent (h : Host) : Option (Link × Bytes) := h.controller.sent.getLast?

def lastNotification (h : Host) : Option Bytes := h.notifications.getLast?

/-- The frame sent last comes back as if a peer had sent it. -/
def echo (h : Host) : Option Host := h.lastSent.map fun entry => h.meet (.arrival entry.2)

end Host

end NearField.Emulator
