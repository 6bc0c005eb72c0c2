import IncrementalSimplex.Scalar.Rational
import IncrementalSimplex.Solver.Report
import IncrementalSimplex.Workspace
import IncrementalSimplex.Interchange
import IncrementalSimplex.Proofs.Occurrence
import IncrementalSimplex.Proofs.Valuation
import IncrementalSimplex.Proofs.Solutions
import IncrementalSimplex.Proofs.Linearization
import IncrementalSimplex.Proofs.Choice
import IncrementalSimplex.Proofs.Basis
import IncrementalSimplex.Proofs.Passes
import IncrementalSimplex.Proofs.Presentation
import IncrementalSimplex.Proofs.Expulsion
import IncrementalSimplex.Proofs.Shift
import IncrementalSimplex.Proofs.PhaseOne
import IncrementalSimplex.Proofs.Reversal
import IncrementalSimplex.Proofs.Draining
import IncrementalSimplex.Proofs.Encoding
import IncrementalSimplex.Proofs.Frames
import IncrementalSimplex.Proofs.Meaning
import IncrementalSimplex.Proofs.Insertion
import IncrementalSimplex.Proofs.Removal
import IncrementalSimplex.Proofs.Editing
import IncrementalSimplex.Proofs.Demands
import IncrementalSimplex.Proofs.Calls
import IncrementalSimplex.Proofs.Externals
import IncrementalSimplex.Proofs.Optimum
import IncrementalSimplex.Proofs.Redundancy
import IncrementalSimplex.Proofs.Termination
import IncrementalSimplex.Proofs.Faults
import IncrementalSimplex.Proofs.Integrity
import IncrementalSimplex.Proofs.Traces
import IncrementalSimplex.Proofs.Rollback
import IncrementalSimplex.Proofs.Custody
import IncrementalSimplex.Proofs.Separation
import IncrementalSimplex.Proofs.Locality
import IncrementalSimplex.Proofs.Renumbering
import IncrementalSimplex.Proofs.Replay
import IncrementalSimplex.Proofs.Rejection
import IncrementalSimplex.Proofs.Outcomes
import IncrementalSimplex.Proofs.Acceptance
import IncrementalSimplex.Proofs.WriteBack
import IncrementalSimplex.Proofs.Flushing
import IncrementalSimplex.Proofs.Queueing
import IncrementalSimplex.Proofs.Tolerance
import IncrementalSimplex.Proofs.Ceiling
import IncrementalSimplex.Proofs.Repetition
import IncrementalSimplex.Proofs.Cleanup
import IncrementalSimplex.Proofs.Opposition
import IncrementalSimplex.Proofs.Costs
import IncrementalSimplex.Proofs.Pairing
