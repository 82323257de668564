import NearField.Coded

/-! # Radio parameters

The protocols, technologies and interfaces by which a controller and an endpoint can talk, with
the codes that notifications carry for them.
-/
namespace NearField

inductive Protocol
  | undetermined | t1t | t2t | t3t | isoDep | nfcDep
  deriving DecidableEq, Repr

instance : Coded Protocol where
  all := [.undetermined, .t1t, .t2t, .t3t, .isoDep, .nfcDep]
  code
    | .undetermined => 0x00
    | .t1t => 0x01
    | .t2t => 0x02
    | .t3t => 0x03
    | .isoDep => 0x04
    | .nfcDep => 0x05
  name
    | .undetermined => "Undetermined"
    | .t1t => "T1t"
    | .t2t => "T2t"
    | .t3t => "T3t"
    | .isoDep => "IsoDep"
    | .nfcDep => "NfcDep"
  mem_all a := by cases a <;> decide
  code_inj a b := by cases a <;> cases b <;> simp

/-- Technology, bit-rate family and role; the listening modes have the top bit set. -/
inductive TechMode
  | aPassivePoll | bPassivePoll | fPassivePoll | aActivePoll | fActivePoll | iso15693Poll
  | aPassiveListen | bPassiveListen | fPassiveListen | aActiveListen | fActiveListen
  | iso15693Listen
  deriving DecidableEq, Repr

instance : Coded TechMode where
  all := [.aPassivePoll, .bPassivePoll, .fPassivePoll, .aActivePoll, .fActivePoll, .iso15693Poll,
    .aPassiveListen, .bPassiveListen, .fPassiveListen, .aActiveListen, .fActiveListen,
    .iso15693Listen]
  code
    | .aPassivePoll => 0x00
    | .bPassivePoll => 0x01
    | .fPassivePoll => 0x02
    | .aActivePoll => 0x03
    | .fActivePoll => 0x05
    | .iso15693Poll => 0x06
    | .aPassiveListen => 0x80
    | .bPassiveListen => 0x81
    | .fPassiveListen => 0x82
    | .aActiveListen => 0x83
    | .fActiveListen => 0x85
    | .iso15693Listen => 0x86
  name
    | .aPassivePoll => "NfcAPassivePoll"
    | .bPassivePoll => "NfcBPassivePoll"
    | .fPassivePoll => "NfcFPassivePoll"
    | .aActivePoll => "NfcAActivePoll"
    | .fActivePoll => "NfcFActivePoll"
    | .iso15693Poll => "Iso15693Poll"
    | .aPassiveListen => "NfcAPassiveListen"
    | .bPassiveListen => "NfcBPassiveListen"
    | .fPassiveListen => "NfcFPassiveListen"
    | .aActiveListen => "NfcAActiveListen"
    | .fActiveListen => "NfcFActiveListen"
    | .iso15693Listen => "Iso15693Listen"
  mem_all a := by cases a <;> decide
  code_inj a b := by cases a <;> cases b <;> simp

inductive InterfaceKind
  | nfceeDirect | frame | isoDep | nfcDep
  deriving DecidableEq, Repr

instance : Coded InterfaceKind where
  all := [.nfceeDirect, .frame, .isoDep, .nfcDep]
  code
    | .nfceeDirect => 0x00
    | .frame => 0x01
    | .isoDep => 0x02
    | .nfcDep => 0x03
  name
    | .nfceeDirect => "NfceeDirect"
    | .frame => "Frame"
    | .isoDep => "IsoDep"
    | .nfcDep => "NfcDep"
  mem_all a := by cases a <;> decide
  code_inj a b := by cases a <;> cases b <;> simp

inductive DiscoveryStage
  | last | lastLimit | more
  deriving DecidableEq, Repr

instance : Coded DiscoveryStage where
  all := [.last, .lastLimit, .more]
  code
    | .last => 0x00
    | .lastLimit => 0x01
    | .more => 0x02
  name
    | .last => "Last"
    | .lastLimit => "LastLimit"
    | .more => "More"
  mem_all a := by cases a <;> decide
  code_inj a b := by cases a <;> cases b <;> simp

inductive DeactivationType
  | idle | sleep | sleepAf | discovery
  deriving DecidableEq, Repr

instance : Coded DeactivationType where
  all := [.idle, .sleep, .sleepAf, .discovery]
  code
    | .idle => 0x00
    | .sleep => 0x01
    | .sleepAf => 0x02
    | .discovery => 0x03
  name
    | .idle => "Idle"
    | .sleep => "Sleep"
    | .sleepAf => "SleepAf"
    | .discovery => "Discovery"
  mem_all a := by cases a <;> decide
  code_inj a b := by cases a <;> cases b <;> simp

inductive DeactivationReason
  | dhRequest | endpointRequest | rfLinkLoss | badAfi
  deriving DecidableEq, Repr

instance : Coded DeactivationReason where
  all := [.dhRequest, .endpointRequest, .rfLinkLoss, .badAfi]
  code
    | .dhRequest => 0x00
    | .endpointRequest => 0x01
    | .rfLinkLoss => 0x02
    | .badAfi => 0x03
  name
    | .dhRequest => "DhRequest"
    | .endpointRequest => "EndpointRequest"
    | .rfLinkLoss => "RfLinkLoss"
    | .badAfi => "BadAfi"
  mem_all a := by cases a <;> decide
  code_inj a b := by cases a <;> cases b <;> simp

end NearField
