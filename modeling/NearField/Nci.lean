import NearField.Bytes.Range
import NearField.Radio

/-! # NCI notifications

A control packet is message type and group, opcode, and the length of the payload in one byte,
followed by the payload.
-/
namespace NearField.Nci

def headerSize : Nat := 3
def maxPacketSize : Nat := headerSize + SizedField.nciPayload.limit

def notificationType : UInt8 := 0x60
def radioGroup : UInt8 := 0x01

def discoverOpcode : UInt8 := 0x03
def activatedOpcode : UInt8 := 0x05
def deactivateOpcode : UInt8 := 0x06

/-- Group and opcode keep the bits that their fields have. -/
def header (group opcode : UInt8) (length : Nat) : Bytes :=
  [notificationType ||| (group &&& 0x0F), opcode &&& 0x3F, UInt8.ofNat length]

def writeHeader (room : Nat) (group opcode : UInt8) (length : Nat) : Except Error Bytes := do
  SizedField.nciPayload.check length
  Bytes.requireRoom room headerSize
  return header group opcode length

/-- A whole notification. The room is checked before the length of the payload. -/
def writePacket (room : Nat) (group opcode : UInt8) (payload : Bytes) : Except Error Bytes := do
  Bytes.requireRoom room (headerSize + payload.length)
  let header ← writeHeader room group opcode payload.length
  return header ++ payload

def deactivatePacket (room : Nat) (type : DeactivationType) (reason : DeactivationReason) :
    Except Error Bytes :=
  writePacket room radioGroup deactivateOpcode [Coded.code type, Coded.code reason]

/-- The interface to activate: the one that fits the endpoint, or one by its place. -/
inductive Selection
  | automatic
  | index (place : Nat)
  deriving DecidableEq, Repr, Inhabited

/-- What to notify of. An activation without an endpoint is one of the active endpoint. -/
inductive Notification
  | discover (endpoint : Nat) (stage : DiscoveryStage)
  | activate (endpoint : Option Nat) (selection : Selection)
  | deactivate (type : DeactivationType) (reason : DeactivationReason)
  deriving DecidableEq, Repr

instance : Inhabited Notification := ⟨.deactivate .discovery .rfLinkLoss⟩

def Notification.operation : Notification → Operation
  | discover .. => .discover
  | activate .. => .activate
  | deactivate .. => .deactivate

end NearField.Nci
