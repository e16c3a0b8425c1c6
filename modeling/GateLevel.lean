import GateLevel.Main
import GateLevel.Proofs.Noninterference
import GateLevel.Proofs.Formula
import GateLevel.Proofs.Verdict
import GateLevel.Proofs.Runs
import GateLevel.Proofs.Graph.Unfolding
import GateLevel.Proofs.Graph.Ending
import GateLevel.Proofs.Failure
import GateLevel.Proofs.Approximation
import GateLevel.Proofs.Renumbering
import GateLevel.Proofs.Lookups
import GateLevel.Proofs.Source.Grammar
import GateLevel.Proofs.Source.Scope
import GateLevel.Proofs.InRange
import GateLevel.Proofs.Source.Writer
import GateLevel.Proofs.Source.RoundTrip
import GateLevel.Proofs.Stream
import GateLevel.Proofs.Placement
import GateLevel.Proofs.Graph.Grafting
import GateLevel.Proofs.Graph.Paths
import GateLevel.Proofs.Graph.Itinerary
import GateLevel.Proofs.Graph.Inlining
import GateLevel.Proofs.Graph.Interning
import GateLevel.Proofs.Graph.Reordering
import GateLevel.Proofs.Rescheduling
import GateLevel.Proofs.Definite
import GateLevel.Proofs.Source.Conservation
import GateLevel.Proofs.Source.Machine
import GateLevel.Proofs.Source.Numbering
import GateLevel.Proofs.Source.Spacing
import GateLevel.Proofs.Source.Loose
import GateLevel.Proofs.Truncation
import GateLevel.Proofs.Graph.Fixpoint
import GateLevel.Proofs.Command.Output
