import Summand.Description.Basic
import Summand.Scaling
import Summand.Statistics

/-!
# Described diagnostics

Evaluation statistics, repeated measurements and timing series. Their times have to be numbers;
counts and problem sizes are kept as they are given. In a timing series the numbers of workers are
written as texts.
-/

namespace Summand.Description

/-! ### Statistics -/

/-- The names of the counts and times of evaluations. -/
def statisticsNames : List String :=
  ["evaluations_without_gradient", "evaluations_with_gradient", "evaluate_time",
    "evaluate_with_hessian_time", "write_gradient_hessian_time", "copy_time"]

/-- The failure of giving a count or a time that there is not. -/
def unknownStatistic : Failure := .raised "TypeError" "there is no such statistic"

/-- The report on described statistics. -/
def statisticsReport (j : Json) : Except Failure (List String) := do
  let count (name : String) : Except Failure String := do
    return (← (j.field? name).elim (.ok (.int 0)) tagged).plain
  let time (name : String) : Except Failure Number := number j name (.real 0.0)
  let withoutGradient ← count "evaluations_without_gradient"
  let withGradient ← count "evaluations_with_gradient"
  let evaluateTime ← time "evaluate_time"
  let evaluateWithHessianTime ← time "evaluate_with_hessian_time"
  let writeTime ← time "write_gradient_hessian_time"
  let copyTime ← time "copy_time"
  if (entries j).any fun field ↦ !statisticsNames.contains field.1 then throw unknownStatistic
  let times : Statistics :=
    { evaluateTime := ← evaluateTime.double
      evaluateWithHessianTime := ← evaluateWithHessianTime.double
      writeTime := ← writeTime.double
      copyTime := ← copyTime.double }
  return Statistics.countLines withoutGradient withGradient ++ times.timeLines

/-! ### Measurements -/

/-- A described measurement. -/
def timingOf (j : Json) : Except Failure Timing := do
  return {
    mean := ← required j "mean" >>= numberOf
    deviation := ← required j "std" >>= numberOf
    least := ← required j "min" >>= numberOf
    greatest := ← required j "max" >>= numberOf
    runs := ← required j "n" >>= tagged }

/-! ### Timing series -/

/-- The times of one problem size by the number of workers. Of times for the same number the last
one counts, in the place of the first one. -/
def timesOf (times : List (String × Json)) : Except Failure (List (Int × Number)) :=
  times.foldlM (fun done (given, time) ↦ do
    let workers ← integerOfText given
    let time ← numberOf time
    return if done.any fun entry ↦ entry.1 == workers then
      done.map fun entry ↦ if entry.1 = workers then (workers, time) else entry
    else done ++ [(workers, time)]) []

/-- A described timing series: a list of sizes, each with its times and that of the baseline. -/
def scalingOf (points : List Json) : Except Failure Scaling :=
  points.foldlM (fun s point ↦ do
    match ← itemsOf point with
    | [size, times, baseline] =>
      return s.addPoint (← tagged size) (← timesOf (entries times)) (← numberOf baseline)
    | parts => throw (wrongCount 3 parts.length)) {}

/-- The failure of looking up a group of values. -/
def noKey : Failure := .raised "TypeError" "a group of values is no key"

/-- The number of workers that a value is equal to. -/
def workersLike (given : Json) : Except Failure Int :=
  match given, Number.ofJson? given with
  | .list _, _ | .object _, _ => .error noKey
  | _, some (.int n) => .ok n
  | _, some (.real x) => (Binary64.toInt? x).elim (.error (.missingKey given)) .ok
  | _, none => .error (.missingKey given)

/-- How many times faster a described number of workers is than a single one. -/
def speedupsOf (s : Scaling) (given : Json) : Except Failure (List Number) := do
  let _ ← s.times 1
  let workers ← workersLike given
  let _ ← (s.times workers).mapError fun _ ↦ .missingKey given
  s.speedups workers

end Summand.Description
