import Summand.Assignment
import Summand.Description.Diagnostics
import Summand.Description.Failure
import Summand.Description.Minimization
import Summand.Description.Settings
import Summand.Description.Transform
import Summand.Interval.Quantity
import Summand.Objective.Building
import Summand.Objective.Enclosure
import Summand.Objective.Minimize
import Summand.Package
import Summand.Proofs.Accumulation
import Summand.Proofs.Action
import Summand.Proofs.Allocation
import Summand.Proofs.Arrangement
import Summand.Proofs.Building
import Summand.Proofs.ChainRule
import Summand.Proofs.CompressedColumns
import Summand.Proofs.Crew
import Summand.Proofs.Dialogue
import Summand.Proofs.Direct
import Summand.Proofs.Enclosures
import Summand.Proofs.EntryPoints
import Summand.Proofs.Exact
import Summand.Proofs.FailedQueries
import Summand.Proofs.FirstFailure
import Summand.Proofs.Graph
import Summand.Proofs.History
import Summand.Proofs.HistoryIndependence
import Summand.Proofs.Installations
import Summand.Proofs.IntervalArithmetic
import Summand.Proofs.Lifetime
import Summand.Proofs.Memory
import Summand.Proofs.Orders
import Summand.Proofs.Outcome
import Summand.Proofs.Partition
import Summand.Proofs.Pattern
import Summand.Proofs.Placement
import Summand.Proofs.Query
import Summand.Proofs.Rebuilding
import Summand.Proofs.Registrations
import Summand.Proofs.Registry
import Summand.Proofs.Regrouping
import Summand.Proofs.Slices
import Summand.Proofs.Soundness
import Summand.Proofs.SparseDense
import Summand.Proofs.Storing
import Summand.Proofs.Values
import Summand.Proofs.WorkerInvariance
import Summand.Report.Objective
import Summand.Settings.Environment
import Summand.Slice
import Summand.Solution.Files
import Summand.Proofs.InfiniteOperands
import Summand.Proofs.IntervalBounds
import Summand.Proofs.Isotonicity
import Summand.Proofs.Powers
import Summand.Proofs.UnboundedIntervals
import Summand.Proofs.IntervalPowers
import Summand.Proofs.EvenPowers
import Summand.Proofs.Copying
import Summand.Proofs.RoundTrip
import Summand.Proofs.DenseHessian
import Summand.Proofs.ExactNumbers
import Summand.Proofs.Addition
import Summand.Proofs.CentralDifferences
import Summand.Proofs.NearestDecimals
import Summand.Proofs.ShortestDigits
import Summand.Proofs.NumberTexts
import Summand.Proofs.EscapedTexts
import Summand.Proofs.JsonTexts
import Summand.Proofs.Readings
import Summand.Proofs.Documents
import Summand.Proofs.Speedups
import Summand.Proofs.QuerySteps
import Summand.Proofs.Fitting
import Summand.Proofs.ChangesOfVariables
import Summand.Proofs.RoundedBounds
import Summand.Proofs.ElementaryRanges
import Summand.Proofs.TransformBounds
