import NearField.Base64
import NearField.Numeral

/-! # Causes of failure

One type for every way in which reading a command, building a frame or working on the controller
can fail, and one wording for each.
-/
namespace NearField

inductive SapRole
  | destination | source
  deriving DecidableEq, Repr

def SapRole.label : SapRole → Text
  | destination => "DSAP".toList
  | source => "SSAP".toList

/-- The tables and value lists that a typed number can point into. -/
inductive Table
  | endpoints | interfaces | discoveryStages | deactivationTypes | deactivationReasons
  deriving DecidableEq, Repr

def Table.label : Table → Text
  | endpoints => "remote endpoint".toList
  | interfaces => "rf index".toList
  | discoveryStages => "discover notification type".toList
  | deactivationTypes => "deactivate notification type".toList
  | deactivationReasons => "deactivate notification reason".toList

inductive SizedField
  | ndefType | ndefId | ndefPayload | snepInformation | nciPayload
  deriving DecidableEq, Repr

namespace SizedField

def label : SizedField → Text
  | ndefType => "NDEF type".toList
  | ndefId => "NDEF id".toList
  | ndefPayload => "NDEF payload".toList
  | snepInformation => "SNEP information".toList
  | nciPayload => "NCI payload".toList

def limit : SizedField → Nat
  | ndefType | ndefId | nciPayload => 255
  | ndefPayload | snepInformation => 4294967295

end SizedField

inductive ValueFault
  | numeral (fault : Numeral.Fault)
  | noOpeningBracket
  | noClosingBracket
  deriving DecidableEq, Repr

def ValueFault.message : ValueFault → Text
  | numeral fault => fault.message
  | noOpeningBracket => "expected '['".toList
  | noClosingBracket => "missing ']'".toList

inductive FrameFault
  | noIdLength
  | unsupportedVersion (version : UInt8)
  | unexpectedRequest (request : UInt8)
  deriving DecidableEq, Repr

def FrameFault.message : FrameFault → Text
  | noIdLength => "NDEF record has no id length".toList
  | unsupportedVersion version => "unsupported SNEP version ".toList ++ Text.hex version.toNat
  | unexpectedRequest request => "unexpected SNEP request ".toList ++ Text.hex request.toNat

inductive HostFault
  | linkDown | noRequestPending | activationRejected | tagWriteFailed | tagFormatFailed
  deriving DecidableEq, Repr

def HostFault.message : HostFault → Text
  | linkDown => "link down".toList
  | noRequestPending => "no SNEP request pending".toList
  | activationRejected => "activation rejected".toList
  | tagWriteFailed => "tag write failed".toList
  | tagFormatFailed => "tag format failed".toList

inductive Operation
  | snepPut | llcpConnect | discover | activate | deactivate | tagSet | tagClear | tagFormat
  deriving DecidableEq, Repr

def Operation.label : Operation → Text
  | snepPut => "snep put".toList
  | llcpConnect => "LLCP connect".toList
  | discover => "rf_discover_ntf".toList
  | activate => "rf_intf_activated_ntf".toList
  | deactivate => "rf_intf_deactivate_ntf".toList
  | tagSet => "tag set".toList
  | tagClear => "tag clear".toList
  | tagFormat => "tag format".toList

inductive Error
  | noArguments
  | noOperation
  | invalidOperation (word : Text)
  | unknownCommand (word : Text)
  | missingToken (field : Text)
  | emptyToken (field : Text)
  | invalidValue (field value : Text) (fault : ValueFault)
  | invalidSap (field : Text) (value : Int)
  | zeroSap (role : SapRole)
  | unknownIndex (table : Table) (value : Int)
  | noRecord
  | reservedFlags (flags : Nat)
  | invalidTypeName (value : Nat)
  | trailingCharacters (rest : Text)
  | tooManyRecords (least most actual : Nat)
  | shortRecordTooLong (length : Nat)
  | base64 (cause : Base64.Malformed)
  | bufferOverflow (needed available : Nat)
  | fieldTooLong (field : SizedField) (length : Nat)
  | reportRefused
  | messageTruncated (remaining needed : Nat)
  | invalidLength (expected actual : Nat)
  | frameFormat (fault : FrameFault)
  | noActiveEndpoint
  | notATag
  | noInterface
  | failed (operation : Operation) (cause : Error)
  | host (fault : HostFault)
  /-- The end of a range is no 64-bit word: there is nothing to report a length for. -/
  | addressOverflow
  deriving DecidableEq, Repr

namespace Error

def message : Error → Text
  | noArguments => "no arguments given".toList
  | noOperation => "no operation given".toList
  | invalidOperation word => "invalid operation '".toList ++ word ++ "'".toList
  | unknownCommand word => "unknown command '".toList ++ word ++ "'".toList
  | missingToken field => "no token ".toList ++ field ++ " given".toList
  | emptyToken field => "empty token ".toList ++ field
  | invalidValue field value fault =>
    "invalid value '".toList ++ value ++ "' for token ".toList ++ field ++ ": ".toList ++
      fault.message
  | invalidSap field value =>
    "invalid ".toList ++ field ++ " '".toList ++ Text.signedDecimal value ++ "'".toList
  | zeroSap role => role.label ++ " is 0".toList
  | unknownIndex table value =>
    "unknown ".toList ++ table.label ++ " ".toList ++ Text.signedDecimal value
  | noRecord => "no NDEF record given".toList
  | reservedFlags flags => "invalid NDEF flags '".toList ++ Text.hex flags ++ "'".toList
  | invalidTypeName value => "invalid NDEF TNF '".toList ++ Text.decimal value ++ "'".toList
  | trailingCharacters rest => "invalid characters near EOL: ".toList ++ rest
  | tooManyRecords least most actual =>
    "expected ".toList ++ Text.decimal least ++ " to ".toList ++ Text.decimal most ++
      " NDEF records, got ".toList ++ Text.decimal actual
  | shortRecordTooLong length =>
    "NDEF flag SR set for long payload of ".toList ++ Text.decimal length ++ " bytes".toList
  | base64 cause => "base64 error: ".toList ++ cause.message
  | bufferOverflow needed available =>
    "buffer overflow: need ".toList ++ Text.decimal needed ++ " bytes, ".toList ++
      Text.decimal available ++ " available".toList
  | fieldTooLong field length =>
    field.label ++ " of ".toList ++ Text.decimal length ++ " bytes exceeds ".toList ++
      Text.decimal field.limit
  | reportRefused => "report formatting failed".toList
  | messageTruncated remaining needed =>
    "message truncated: ".toList ++ Text.decimal remaining ++ " bytes left, ".toList ++
      Text.decimal needed ++ " needed".toList
  | invalidLength expected actual =>
    "invalid packet length: expected ".toList ++ Text.decimal expected ++ ", got ".toList ++
      Text.decimal actual
  | frameFormat fault => "frame format error: ".toList ++ fault.message
  | noActiveEndpoint => "no active remote endpoint".toList
  | notATag => "remote endpoint is not a tag".toList
  | noInterface => "no active rf interface".toList
  | failed operation cause => "'".toList ++ operation.label ++ "' failed: ".toList ++ cause.message
  | host fault => "host error: ".toList ++ fault.message
  | addressOverflow => []

end Error

section Outcomes
variable {α β : Type}

@[simp] theorem ok_bind (a : α) (f : α → Except Error β) : (Except.ok a >>= f) = f a := rfl

@[simp] theorem error_bind (e : Error) (f : α → Except Error β) :
    (Except.error e >>= f) = .error e := rfl

@[simp] theorem pure_eq_ok (a : α) : (pure a : Except Error α) = .ok a := rfl

@[simp] theorem throw_eq_error (e : Error) : (throw e : Except Error α) = .error e := rfl

@[simp] theorem map_ok (f : α → β) (a : α) : (Except.ok a : Except Error α).map f = .ok (f a) := rfl

@[simp] theorem map_error (f : α → β) (e : Error) :
    (Except.error e : Except Error α).map f = .error e := rfl

theorem bind_eq_ok_iff {x : Except Error α} {f : α → Except Error β} {b : β} :
    (x >>= f) = .ok b ↔ ∃ a, x = .ok a ∧ f a = .ok b := by
  cases x <;> simp

theorem bind_eq_error_iff {x : Except Error α} {f : α → Except Error β} {e : Error} :
    (x >>= f) = .error e ↔ x = .error e ∨ ∃ a, x = .ok a ∧ f a = .error e := by
  cases x <;> simp

end Outcomes

/-- A failure inside a named operation is reported under the operation's name. -/
def Operation.scope {α : Type} (operation : Operation) : Except Error α → Except Error α
  | .ok a => .ok a
  | .error cause => .error (.failed operation cause)

@[simp] theorem Operation.scope_ok {α : Type} (operation : Operation) (a : α) :
    operation.scope (.ok a) = .ok a := rfl

@[simp] theorem Operation.scope_error {α : Type} (operation : Operation) (cause : Error) :
    operation.scope (.error cause : Except Error α) = .error (.failed operation cause) := rfl

theorem Operation.scope_eq_ok_iff {α : Type} {operation : Operation} {x : Except Error α} {a : α} :
    operation.scope x = .ok a ↔ x = .ok a := by
  cases x <;> simp [scope]

theorem Operation.scope_eq_error_iff {α : Type} {operation : Operation} {x : Except Error α}
    {e : Error} :
    operation.scope x = .error e ↔ ∃ cause, x = .error cause ∧ e = .failed operation cause := by
  cases x with
  | ok a => simp [scope]
  | error cause => simp [scope, eq_comm]

def SizedField.check (field : SizedField) (length : Nat) : Except Error Unit :=
  if length ≤ field.limit then .ok () else .error (.fieldTooLong field length)

theorem SizedField.check_eq_ok_iff {field : SizedField} {length : Nat} :
    field.check length = .ok () ↔ length ≤ field.limit := by
  unfold check
  split <;> simp_all

end NearField
