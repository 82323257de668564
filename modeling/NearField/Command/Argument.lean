import NearField.Command.Input
import NearField.Llcp
import NearField.Ndef.Record
import NearField.Nci

/-! # Arguments of commands

Service access points, places in tables, coded values, and records in brackets.
-/
namespace NearField.Command.Reader
open Ndef

def space : List Char := [' ']

def separators : List Char := [' ', ',']

/-- A point, or `-1` for the last one where that is allowed. -/
def sap (field : Text) (allowLast : Bool) : Reader Llcp.Sap := do
  let value ← signed field space
  if value = -1 ∧ allowLast then return .last
  if 0 ≤ value ∧ value < Llcp.pointCount then return .value (UInt8.ofNat value.toNat)
  throw (.invalidSap field value)

def saps : Reader Llcp.Saps := do
  let destination ← sap SapRole.destination.label true
  let source ← sap SapRole.source.label true
  return ⟨destination, source⟩

/-- Places that no signed word holds are shown as the largest one. -/
def shownPlace (n : Nat) : Int := min n (0x8000_0000_0000_0000 - 1)

def endpointPlace (count : Nat) : Reader Nat := do
  let n ← unsigned Table.endpoints.label space
  if n < count then return n
  throw (.unknownIndex .endpoints (shownPlace n))

/-- A place in the interface table, or `-1` for the interface that fits. -/
def selection (count : Nat) : Reader Nci.Selection := do
  let value ← signed Table.interfaces.label space
  if value = -1 then return .automatic
  if 0 ≤ value ∧ value < count then return .index value.toNat
  throw (.unknownIndex .interfaces value)

def coded {α : Type} [Coded α] (table : Table) : Reader α := do
  let n ← unsigned table.label space
  match Coded.ofNat? n with
  | some a => return a
  | none => throw (.unknownIndex table (shownPlace n))

def discoveryStage : Reader DiscoveryStage := coded .discoveryStages

def deactivationType : Reader DeactivationType := coded .deactivationTypes

def deactivationReason : Reader DeactivationReason := coded .deactivationReasons

def openingBracket : Reader Unit := fun s =>
  let s := s.skipBlanks
  match s.after? '[' with
  | some s => .ok () s
  | none =>
    match s.rest with
    | none | some [] => .error .noRecord s
    | some t => .error (.invalidValue "NDEF record".toList t .noOpeningBracket) s

def flags : Reader UInt8 := do
  let n ← unsigned "NDEF flags".toList separators
  unless Flags.isTyped n do throw (.reservedFlags n)
  return UInt8.ofNat n

def typeName : Reader TypeName := do
  let n ← unsigned "NDEF TNF".toList separators
  match Coded.ofNat? n with
  | some a => return a
  | none => throw (.invalidTypeName n)

def payload : Reader Text := do
  let t ← text "NDEF payload".toList [']'] false
  if (← get).rest.isNone then
    throw (.invalidValue "NDEF payload".toList t .noClosingBracket)
  return t

/-- A record `[flags,type name,type,id,payload]`. -/
def record : Reader Record := do
  openingBracket
  let flags ← flags
  let typeName ← typeName
  let type ← text "NDEF type".toList separators false
  let id ← text "NDEF id".toList separators true
  let payload ← payload
  return ⟨flags, typeName, type, id, payload⟩

structure RecordsRead where
  result : Except Error Nat
  records : RecordList
  input : Input

/-- Up to `free` more records. Only blanks may be left after them. -/
def moreRecords (free : Nat) (l : RecordList) (s : Input) : RecordsRead :=
  match s.nonblank? with
  | none => ⟨.ok l.size, l, s⟩
  | some rest =>
    match free with
    | 0 => ⟨.error (.trailingCharacters rest), l, s⟩
    | free + 1 =>
      match record.run s with
      | .error e s => ⟨.error e, l, s⟩
      | .ok r s =>
        match l.push r with
        | .error e => ⟨.error e, l, s⟩
        | .ok l => moreRecords free l s

/-- Records after the ones of `l`, to at most `capacity` in all. -/
def recordsInto (capacity : Nat) (l : RecordList) (s : Input) : RecordsRead :=
  moreRecords (min capacity maxRecords - l.size) l s

def records : Reader RecordList := fun s =>
  match recordsInto maxRecords default s with
  | ⟨.ok _, l, s⟩ => .ok l s
  | ⟨.error e, _, s⟩ => .error e s

end NearField.Command.Reader
