import Summand.Failure
import Summand.Number.Arithmetic

/-!
# Timing series

Evaluation times of growing problems, one series for each number of workers, and the summary of a
repeated measurement. A number of workers may be missing from some of the points; its series then
is shorter, and speedups pair up the times of two series from the front. Times are numbers of either
kind, kept as they were given.
-/

namespace Summand

/-! ### Repeated measurements -/

/-- The summary of a repeated measurement, in milliseconds. -/
structure Timing where
  mean : Number
  deviation : Number
  least : Number
  greatest : Number
  /-- The number of runs, as it was given. -/
  runs : Json

/-- The text of a summary. -/
def Timing.shown (t : Timing) : Except Failure String := do
  return Decimal.fixedText 3 (← t.mean.double) ++ " ± " ++
    Decimal.fixedText 3 (← t.deviation.double) ++ " ms (n=" ++ t.runs.plain ++ ")"

/-! ### Scaling series -/

/-- Times across problem sizes. -/
structure Scaling where
  /-- The problem sizes, as they were given. -/
  sizes : List Json := []
  /-- The times of each number of workers, in the order in which the numbers first occurred. -/
  series : List (Int × List Number) := []
  baseline : List Number := []

namespace Scaling

/-- Appends a time to the series of a number of workers. -/
def record (workers : Int) (time : Number) :
    List (Int × List Number) → List (Int × List Number)
  | [] => [(workers, [time])]
  | (w, times) :: rest =>
    if w = workers then (w, times ++ [time]) :: rest else (w, times) :: record workers time rest

/-- Adds the times of one problem size. -/
def addPoint (s : Scaling) (size : Json) (times : List (Int × Number)) (baseline : Number) :
    Scaling where
  sizes := s.sizes ++ [size]
  series := times.foldl (fun series entry ↦ record entry.1 entry.2 series) s.series
  baseline := s.baseline ++ [baseline]

/-- The times of a number of workers. -/
def times (s : Scaling) (workers : Int) : Except Failure (List Number) :=
  match s.series.find? fun entry ↦ entry.1 == workers with
  | some (_, times) => .ok times
  | none => .error (.missingKey (.int workers))

/-- The ratio of two times, infinite where the second one is not positive. -/
def ratio (single time : Number) : Except Failure Number :=
  if 0 < time then (single.div time).mapError .number
  else .ok (.real Binary64.positiveInfinity)

/-- How many times faster a number of workers is than a single one. -/
def speedups (s : Scaling) (workers : Int) : Except Failure (List Number) := do
  let single ← s.times 1
  (single.zip (← s.times workers)).mapM fun (single, time) ↦ ratio single time

end Scaling

end Summand
