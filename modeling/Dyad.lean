import Dyad.Main
import Dyad.Proofs.Cli.Run
import Dyad.Proofs.Code.Acceptance
import Dyad.Proofs.Code.Listing
import Dyad.Proofs.Code.Mark
import Dyad.Proofs.Code.Session
import Dyad.Proofs.Native.Arm64.Equivalence
import Dyad.Proofs.Native.Arm64.Stream
import Dyad.Proofs.Native.Coherence
import Dyad.Proofs.Native.Conformance
import Dyad.Proofs.Native.Guarantees
import Dyad.Proofs.Native.Workshop
import Dyad.Proofs.Native.X64.Equivalence
import Dyad.Proofs.Native.X64.Extent
import Dyad.Proofs.Native.X64.Refusals
import Dyad.Proofs.Native.X64.Repetition
import Dyad.Proofs.Output.Transcript
import Dyad.Proofs.Run.Arrival
import Dyad.Proofs.Run.Likeness
import Dyad.Proofs.Run.Outcomes
import Dyad.Proofs.Run.Report
import Dyad.Proofs.Run.Retry
import Dyad.Proofs.Run.Sequence
import Dyad.Proofs.Run.Series
import Dyad.Proofs.Run.Trace
import Dyad.Proofs.Sample.Fibonacci
import Dyad.Proofs.Settings.Grammar
import Dyad.Proofs.Text.Numeral
