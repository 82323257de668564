import NearField.Emulator.Controller
import NearField.Nci

/-! # Notifications of the controller

Packets that tell of an endpoint discovered, an interface activated, or a link deactivated. Of
these only an activation changes the controller, and only once its packet is written.
-/
namespace NearField.Emulator.Controller
open Nci

/-- Endpoints are numbered from 1 on in one byte. -/
def endpointId (place : Nat) : UInt8 := UInt8.ofNat (place + 1)

def discoverPacket (c : Controller) (place : Nat) (stage : DiscoveryStage) (room : Nat) :
    Except Error Bytes := do
  let endpoint ← c.endpointAt place
  writePacket room radioGroup discoverOpcode
    [endpointId place, Coded.code endpoint.protocol, Coded.code endpoint.mode, 0,
      Coded.code stage]

/-- Full data packets, one credit, and no parameters of the technology or of the activation. -/
def activatedPayload (place : Nat) (endpoint : Endpoint) (interface : Interface) : Bytes :=
  [endpointId place, Coded.code interface.kind, Coded.code endpoint.protocol,
    Coded.code endpoint.mode, 0xFF, 0x01, 0, Coded.code endpoint.mode, 0, 0, 0]

def activatedPacket (c : Controller) (place interface : Nat) (room : Nat) :
    Except Error Bytes := do
  if c.activationFails then throw (.host .activationRejected)
  let some interface := c.interfaces[interface]? | throw .noInterface
  let endpoint ← c.endpointAt place
  writePacket room radioGroup activatedOpcode (activatedPayload place endpoint interface)

def chosenEndpoint (c : Controller) : Option Nat → Except Error (Nat × Endpoint)
  | some place => do return (place, ← c.endpointAt place)
  | none => c.active

/-- An active interface stays, whatever is asked for. -/
def chosenInterface (c : Controller) (endpoint : Endpoint) (selection : Selection) :
    Except Error Nat :=
  match c.activeInterface, selection with
  | some place, _ => .ok place
  | none, .automatic =>
    match c.findInterface endpoint.protocol endpoint.mode with
    | some place => .ok place
    | none => .error .noInterface
  | none, .index place =>
    if place < c.interfaces.length then .ok place
    else .error (.unknownIndex .interfaces (signedWord place))

/-- Activates an interface and resets the link of the endpoint by `reset`. -/
def activate (reset : Controller → Nat → Controller) (endpoint : Option Nat)
    (selection : Selection) (room : Nat) : Work Controller Bytes := do
  let c ← get
  let (place, endpoint) ← ofExcept (c.chosenEndpoint endpoint)
  let interface ← ofExcept (c.chosenInterface endpoint selection)
  let packet ← ofExcept (Operation.activate.scope (c.activatedPacket place interface room))
  modify fun c => reset c place
  modify fun c => { c with activeInterface := some interface }
  return packet

def notify (reset : Controller → Nat → Controller) (n : Notification) (room : Nat) :
    Work Controller Bytes :=
  match n with
  | .discover place stage => do
    ofExcept (n.operation.scope ((← get).discoverPacket place stage room))
  | .activate endpoint selection => activate reset endpoint selection room
  | .deactivate type reason => ofExcept (n.operation.scope (deactivatePacket room type reason))

end NearField.Emulator.Controller
