import NearField.Emulator.Controller

/-! # Sample controller

A controller to try commands on: one peer to talk to and one tag to write.
-/
namespace NearField.Emulator

/-- A peer over NFC-DEP, active and talked to before, beside an empty tag. -/
def sampleController : Controller where
  endpoints := [
    { protocol := .nfcDep, mode := .fPassivePoll, used := ⟨4, 32⟩ },
    { protocol := .t2t, mode := .aPassivePoll, tag := some {} }]
  activeEndpoint := some 0
  interfaces := [
    ⟨.frame, .t2t, .aPassivePoll⟩,
    ⟨.nfcDep, .nfcDep, .aPassivePoll⟩,
    ⟨.nfcDep, .nfcDep, .fPassivePoll⟩]

end NearField.Emulator
