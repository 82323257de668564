import NearField.Command.Argument
import NearField.Emulator.Host

/-! # Commands

Every command belongs to a family and names an operation of it. Reading one checks its arguments
against the tables of the controller, so that a command, once read, only remains to be carried out.
-/
namespace NearField

inductive Command
  | send (saps : Llcp.Saps) (records : List Ndef.Record)
  | receive (saps : Llcp.Saps)
  | connect (saps : Llcp.Saps)
  | notify (notification : Nci.Notification)
  | setTag (endpoint : Nat) (records : List Ndef.Record)
  | clearTag (endpoint : Nat)
  | formatTag (endpoint : Nat)
  deriving DecidableEq, Repr

namespace Command
open Emulator

inductive Family
  | snep | nci | llcp | tag
  deriving DecidableEq, Repr

def Family.keyword : Family → Text
  | snep => "snep".toList
  | nci => "nci".toList
  | llcp => "llcp".toList
  | tag => "tag".toList

def Family.all : List Family := [.snep, .nci, .llcp, .tag]

def Family.ofKeyword? (word : Text) : Option Family := Family.all.find? (·.keyword == word)

namespace Reader

def operation : Reader Text := fun s =>
  match s.token? space with
  | some (word, s) => .ok word s
  | none => .error .noOperation s

def hasRest : Reader Bool := do return (← get).hasRest

structure PutArguments where
  saps : Llcp.Saps := default
  records : Ndef.RecordList := default
  deriving Inhabited

def putArguments : Reader PutArguments := do
  let saps ← saps
  let records ← records
  return ⟨saps, records⟩

/-- The arguments of a notification. Those that a command leaves out have defaults. -/
def notification (c : Controller) (word : Text) : Reader Nci.Notification := do
  if word = Operation.discover.label then
    let place ← endpointPlace c.endpoints.length
    return .discover place (← discoveryStage)
  else if word = Operation.activate.label then
    unless ← hasRest do return .activate none .automatic
    let place ← endpointPlace c.endpoints.length
    unless ← hasRest do return .activate (some place) .automatic
    return .activate (some place) (← selection c.interfaces.length)
  else if word = Operation.deactivate.label then
    unless ← hasRest do return default
    let type ← deactivationType
    return .deactivate type (← deactivationReason)
  else throw (.invalidOperation word)

def snep : Reader Command := do
  let word ← operation
  unless word = "put".toList do throw (.invalidOperation word)
  let ⟨saps, records⟩ ← putArguments
  return if records.records.isEmpty then .receive saps else .send saps records.records

def nci (c : Controller) : Reader Command := do
  let word ← operation
  return .notify (← notification c word)

def llcp : Reader Command := do
  let word ← operation
  unless word = "connect".toList do throw (.invalidOperation word)
  return .connect (← saps)

def tag (c : Controller) : Reader Command := do
  let word ← operation
  if word = "set".toList then
    let place ← endpointPlace c.endpoints.length
    if let .error e := c.tagAt place then throw e
    return .setTag place (← records).records
  else if word = "clear".toList then return .clearTag (← endpointPlace c.endpoints.length)
  else if word = "format".toList then return .formatTag (← endpointPlace c.endpoints.length)
  else throw (.invalidOperation word)

end Reader

def Family.reader (c : Controller) : Family → Reader Command
  | snep => Reader.snep
  | nci => Reader.nci c
  | llcp => Reader.llcp
  | tag => Reader.tag c

end Command
end NearField
