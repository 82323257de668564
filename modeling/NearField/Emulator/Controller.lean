import NearField.Emulator.Work
import NearField.Llcp
import NearField.Radio

/-! # Emulated controller

The endpoints in reach and the controller's interfaces, the requests that wait to be received, and
what went out over the link.
-/
namespace NearField.Emulator

structure Tag where
  content : Bytes := []
  writes : Nat := 0
  formats : Nat := 0
  failing : Bool := false
  deriving DecidableEq, Repr

namespace Tag

def requireWorking (fault : HostFault) : Work Tag Unit := do
  if (← get).failing then throw (.host fault)

def write (content : Bytes) : Work Tag Unit := do
  requireWorking .tagWriteFailed
  modify fun t => { t with content := content, writes := t.writes + 1 }

def format : Work Tag Unit := do
  requireWorking .tagFormatFailed
  modify fun t => { t with content := [], formats := t.formats + 1 }

end Tag

structure Endpoint where
  protocol : Protocol
  mode : TechMode
  used : Llcp.Points := {}
  tag : Option Tag := none
  deriving DecidableEq, Repr

structure Interface where
  kind : InterfaceKind
  protocol : Protocol
  mode : TechMode
  deriving DecidableEq, Repr

/-- An endpoint by its place and the points to talk to it over. -/
structure Link where
  endpoint : Nat
  points : Llcp.Points
  deriving DecidableEq, Repr

structure Controller where
  endpoints : List Endpoint := []
  activeEndpoint : Option Nat := none
  interfaces : List Interface := []
  activeInterface : Option Nat := none
  /-- Frames to be received, the oldest first. -/
  incoming : List Bytes := []
  sent : List (Link × Bytes) := []
  connects : List Link := []
  /-- The endpoints whose link was reset, in order. -/
  cleared : List Nat := []
  linkDown : Bool := false
  activationFails : Bool := false
  deriving DecidableEq, Repr

namespace Controller
variable (c : Controller)

def signedWord (n : Nat) : Int := Int.bmod n (0x1_0000_0000_0000_0000)

def endpointAt (place : Nat) : Except Error Endpoint :=
  match c.endpoints[place]? with
  | some endpoint => .ok endpoint
  | none => .error (.unknownIndex .endpoints (signedWord place))

/-- The active endpoint with its place. A place outside the table is as good as none. -/
def active : Except Error (Nat × Endpoint) :=
  match c.activeEndpoint with
  | none => .error .noActiveEndpoint
  | some place =>
    match c.endpoints[place]? with
    | none => .error .noActiveEndpoint
    | some endpoint => .ok (place, endpoint)

def findInterface (protocol : Protocol) (mode : TechMode) : Option Nat :=
  c.interfaces.findIdx? fun i => i.protocol == protocol && i.mode == mode

def modifyEndpoint (place : Nat) (f : Endpoint → Endpoint) : Controller :=
  { c with endpoints := c.endpoints.modify place f }

def setUsed (link : Link) : Controller :=
  c.modifyEndpoint link.endpoint fun e => { e with used := link.points }

def forget (place : Nat) : Controller := c.modifyEndpoint place fun e => { e with used := {} }

/-- Forgets the points used with an endpoint and notes that its link was reset. -/
def clear (place : Nat) : Controller :=
  { c.forget place with cleared := c.cleared ++ [place] }

def tagAt (place : Nat) : Except Error Tag :=
  match c.endpoints[place]?.bind Endpoint.tag with
  | some tag => .ok tag
  | none => .error .notATag

def setTag (place : Nat) (tag : Tag) : Controller :=
  c.modifyEndpoint place fun e => { e with tag := some tag }

def onTag {α : Type} (place : Nat) (work : Work Tag α) : Work Controller α := do
  let tag ← ofExcept ((← get).tagAt place)
  Work.on (fun _ => tag) (fun c tag => c.setTag place tag) work

end Controller
end NearField.Emulator
