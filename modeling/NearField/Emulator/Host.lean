import NearField.Console
import NearField.Emulator.Activation
import NearField.Emulator.Exchange
import NearField.Ndef.Report

/-! # Host

A host owns a controller, keeps count of what went through it, and carries out the operations that
commands ask for. An operation that fails leaves the host as it was, with the exception of a
receive, which keeps the frame off the queue.
-/
namespace NearField.Emulator

structure Host where
  controller : Controller := {}
  /-- Bytes handed to the link by each exchange that went out. -/
  transferred : List Nat := []
  received : List Nat := []
  notifications : List Bytes := []
  deriving DecidableEq, Repr

/-- A host and what it has written to its console. -/
abbrev Session := Host × List Console.Event

/-- What came of an operation: the host after it, what it wrote, and its result. -/
structure Execution (α : Type) where
  host : Host
  events : List Console.Event
  result : Except Error α

namespace Execution
variable {α : Type}

def ofWork (h : Host) (work : Work Session α) : Execution α :=
  match work.run (h, []) with
  | .ok a s => ⟨s.1, s.2, .ok a⟩
  | .error e s => ⟨s.1, s.2, .error e⟩

/-- A failure is told to the console as the last event. -/
def reported (x : Execution α) : Execution α :=
  match x.result with
  | .ok _ => x
  | .error e => { x with events := x.events ++ [.failure (Console.failureLine e)] }

end Execution

namespace Host
variable {α : Type}

def onController (work : Work Controller α) : Work Host α :=
  Work.on Host.controller (fun h c => { h with controller := c }) work

def link (h : Host) (saps : Llcp.Saps) : Except Error Link := do
  let (place, endpoint) ← h.controller.active
  return ⟨place, saps.orUsed endpoint.used⟩

def sendRecords (saps : Llcp.Saps) (records : List Ndef.Record) : Work Host Nat := do
  let link ← ofExcept ((← get).link saps)
  let size ← Work.scope .snepPut (onController (Controller.sendRecords link records))
  modify fun h => { h with transferred := h.transferred ++ [size] }
  return size

/-- Writes the pieces of the report of a message, also those before a field that is too long. -/
def writeReport (message : Bytes) : Work (List Console.Event) Unit := do
  let report := Ndef.Report.ofMessage message
  modify fun events => events ++ report.pieces.map Console.Event.output
  ofExcept report.result

def receiveMessage (saps : Llcp.Saps) : Work Session Nat := do
  let link ← ofExcept ((← get).1.link saps)
  let size ← Work.scope .snepPut <|
    Work.on (fun s => (s.1.controller, s.2)) (fun s t => ({ s.1 with controller := t.1 }, t.2)) <|
      Controller.receiveMessage link writeReport
  modify fun s => ({ s.1 with received := s.1.received ++ [size] }, s.2)
  return size

def connect (saps : Llcp.Saps) : Work Host Nat := do
  let link ← ofExcept ((← get).link saps)
  ofExcept link.points.checkConnectable
  let size ← Work.scope .llcpConnect (onController (Controller.connect link))
  modify fun h => { h with transferred := h.transferred ++ [size] }
  return size

def notify (n : Nci.Notification) : Work Host Nat := do
  let packet ← onController (Controller.notify Controller.clear n Nci.maxPacketSize)
  modify fun h => { h with notifications := h.notifications ++ [packet] }
  return packet.length

/-- The most bytes that a tag stores. -/
def tagRoom : Nat := 512

def changeTag (operation : Operation) (place : Nat) (change : Work Tag Unit) : Work Host Unit :=
  onController (Controller.onTag place (Work.scope operation change))

/-- Stores the records as the content of a tag. Their message is built before the tag is looked
for. -/
def setTag (place : Nat) (records : List Ndef.Record) : Work Host Nat := do
  if records.isEmpty then throw .noRecord
  let message ← ofExcept (Ndef.Message.encode records tagRoom)
  changeTag .tagSet place (Tag.write message)
  return message.length

def clearTag (place : Nat) : Work Host Unit := changeTag .tagClear place (Tag.write [])

def formatTag (place : Nat) : Work Host Unit := changeTag .tagFormat place Tag.format

end Host
end NearField.Emulator
