import TapeMachine.Completion
import TapeMachine.Serial
import TapeMachine.Tape.Growable
import TapeMachine.Main
import TapeMachine.Proofs.Utf8.Chunking
import TapeMachine.Proofs.Utf8.Occurrences
import TapeMachine.Proofs.Tape.Placement
import TapeMachine.Proofs.Ingestion.Delivery
import TapeMachine.Proofs.Ingestion.Ending
import TapeMachine.Proofs.Pipeline.Interchange
import TapeMachine.Proofs.Tape.Extent
import TapeMachine.Proofs.Pipeline.FirstFailure
import TapeMachine.Proofs.EntryPoint
import TapeMachine.Proofs.Compiled.Simulation
import TapeMachine.Proofs.Compiled.Address
import TapeMachine.Proofs.Config.Validity
import TapeMachine.Proofs.Tape.Reservation
import TapeMachine.Proofs.Config.Layering
import TapeMachine.Proofs.Pipeline.Faults
import TapeMachine.Proofs.CommandLine
import TapeMachine.Proofs.Config.Override
import TapeMachine.Proofs.Emission.Prefix
import TapeMachine.Proofs.Emission.Bound
import TapeMachine.Proofs.Ingestion.Overrun
import TapeMachine.Proofs.Emission.Reading
import TapeMachine.Proofs.Diagnostic.Lines
import TapeMachine.Proofs.Diagnostic.Identity
import TapeMachine.Proofs.Ingestion.Tally
import TapeMachine.Proofs.Alphabet
import TapeMachine.Proofs.Serial.RoundTrip
import TapeMachine.Proofs.Emission.Rightward
import TapeMachine.Proofs.Utf8.Carry
import TapeMachine.Proofs.Serial.Settings
