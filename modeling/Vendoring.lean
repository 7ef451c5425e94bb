import Vendoring.Build.InstallDirectory
import Vendoring.Entropy.Binding
import Vendoring.Json.Reader
import Vendoring.Main
import Vendoring.Proofs.Build.Collecting
import Vendoring.Proofs.Build.Compiling
import Vendoring.Proofs.Build.Emission
import Vendoring.Proofs.Build.InstallNames
import Vendoring.Proofs.Build.Installing
import Vendoring.Proofs.Build.Isolation
import Vendoring.Proofs.Build.Keeping
import Vendoring.Proofs.Build.Matching
import Vendoring.Proofs.Build.Refusing
import Vendoring.Proofs.Build.Reinstalling
import Vendoring.Proofs.Build.Requesting
import Vendoring.Proofs.Build.Reuse
import Vendoring.Proofs.Build.SavedReports
import Vendoring.Proofs.CommandLine.Overriding
import Vendoring.Proofs.CommandLine.Replay
import Vendoring.Proofs.CommandLine.Verbatim
import Vendoring.Proofs.Entropy.Calls
import Vendoring.Proofs.Entropy.Equidistribution
import Vendoring.Proofs.Entropy.Installing
import Vendoring.Proofs.Entropy.Jumping
import Vendoring.Proofs.Entropy.Period
import Vendoring.Proofs.Entropy.Slots
import Vendoring.Proofs.Instrumentation.Canonical
import Vendoring.Proofs.Provenance.Rewriting
import Vendoring.Proofs.Settings.Processes
