import NearField.Emulator.Controller
import NearField.Snep

/-! # Exchanges with an endpoint

Sending and receiving put requests and connecting over LLCP. An exchange that succeeds leaves its
points with the endpoint; one that fails leaves the controller as it was, except that a frame taken
from the queue stays taken.
-/
namespace NearField.Emulator.Controller

/-- The most information that one frame of the link carries. -/
def linkRoom : Nat := 1024

/-- The two bytes of a connect without parameters. -/
def connectSize : Nat := 2

def requireLink : Work Controller Unit := do
  if (← get).linkDown then throw (.host .linkDown)

def useLink (link : Link) : Work Controller Unit := do
  let _ ← ofExcept ((← get).endpointAt link.endpoint)
  modify fun c => c.setUsed link

def sendRecords (link : Link) (records : List Ndef.Record) : Work Controller Nat := do
  requireLink
  let frame ← ofExcept (Snep.frameOf records linkRoom)
  useLink link
  modify fun c => { c with sent := c.sent ++ [(link, frame)] }
  return frame.length

def connect (link : Link) : Work Controller Nat := do
  requireLink
  useLink link
  modify fun c => { c with connects := c.connects ++ [link] }
  return connectSize

def messageOf (frame : Bytes) : Except Error Bytes := do
  let request ← Snep.Request.parse frame
  unless request.isPut do throw (.frameFormat (.unexpectedRequest request.request))
  return request.information

def takeFrame : Work Controller Bytes := do
  match (← get).incoming with
  | [] => throw (.host .noRequestPending)
  | frame :: waiting =>
    modify fun c => { c with incoming := waiting }
    return frame

/-- Takes the oldest frame and hands its message to `accept`, which keeps a state of its own. The
endpoint is looked up only afterwards. -/
def receiveMessage {σ : Type} (link : Link) (accept : Bytes → Work σ Unit) :
    Work (Controller × σ) Nat := do
  Work.onFst requireLink
  let frame ← Work.onFst takeFrame
  let message ← ofExcept (messageOf frame)
  Work.onSnd (accept message)
  Work.onFst (useLink link)
  return frame.length

end NearField.Emulator.Controller
