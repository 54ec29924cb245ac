import Summand.Log
import Summand.Report.Numbers
import Summand.Scaling
import Summand.Statistics

/-!
# Diagnostics as JSON values

Loggers, the counts and times of evaluations, and timing series.
-/

namespace Summand.Report

/-- What there is to see of the logger asked for by a name. -/
def logger (loggers : Log.Loggers) (asked : Option String) : Json :=
  let name := Log.loggerName asked
  .object
    [("name", .text name), ("level", loggers.effectiveLevel),
      ("own_level", loggers.ownLevel name), ("propagate", .bool true)]

def statistics (s : Statistics) : Json :=
  .object
    [("evaluations_without_gradient", .int s.withoutGradient),
      ("evaluations_with_gradient", .int s.withGradient),
      ("evaluate_time", number s.evaluateTime),
      ("evaluate_with_hessian_time", number s.evaluateWithHessianTime),
      ("write_gradient_hessian_time", number s.writeTime), ("copy_time", number s.copyTime)]

/-- The times of growing problems, the series in the order of their numbers of workers. -/
def scaling (s : Scaling) : List (String × Json) :=
  let sorted := s.series.mergeSort fun a b ↦ a.1 ≤ b.1
  [("sizes", .list (s.sizes.map value)),
    ("times", .list (sorted.map fun (workers, times) ↦ .list [.int workers, exacts times])),
    ("baseline", exacts s.baseline)]

end Summand.Report
