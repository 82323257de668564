import NearField.Command.Execute
import NearField.Emulator.Sample
import NearField.Emulator.Surroundings
import NearField.Ndef.Printing
import NearField.Proofs.Base64.RoundTrip
import NearField.Proofs.Bytes.Accesses
import NearField.Proofs.Command.Conservation
import NearField.Proofs.Emulator.Activations
import NearField.Proofs.Emulator.ActiveInterface
import NearField.Proofs.Emulator.EndpointIds
import NearField.Proofs.Emulator.FailureLines
import NearField.Proofs.Emulator.Independence
import NearField.Proofs.Emulator.LoopBack
import NearField.Proofs.Emulator.Reception
import NearField.Proofs.Emulator.Sending
import NearField.Proofs.Emulator.TagContent
import NearField.Proofs.Ndef.Attribution
import NearField.Proofs.Ndef.Composition
import NearField.Proofs.Ndef.LimitedOutput
import NearField.Proofs.Ndef.ReportOutput
import NearField.Proofs.Ndef.ReportShape
import NearField.Proofs.Ndef.Spans
import NearField.Proofs.Notation.Exactness
import NearField.Proofs.Shortage
import NearField.Proofs.Snep.Framing
