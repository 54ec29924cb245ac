import Summand.Objective.Basic

/-!
# Enclosures of objectives

Over a box, the enclosure of an objective is the interval sum of the enclosures of its terms. It
starts from zero, so an objective without terms has the interval that holds zero alone.
-/

namespace Summand

variable {α : Type}

/-- A side of a box as callers give it: an interval, or its bounds. -/
inductive BoxSide where
  | interval (value : Interval)
  | bounds (values : List Number)

namespace BoxSide

/-- The failure of bounds that are too few or too many. -/
def wrongCount : Failure := .raised "TypeError" "an interval takes one or two bounds"

/-- The interval that a side denotes. The upper bound may be left out. -/
def toInterval : BoxSide → Except Failure Interval
  | .interval value => .ok value
  | .bounds [lower] => (Interval.ofNumber lower).mapError .interval
  | .bounds [lower, upper] => (Interval.ofNumbers lower (some upper)).mapError .interval
  | .bounds _ => .error wrongCount

end BoxSide

namespace Objective

open Summand.Action

/-- Adds the enclosure of a binding's term over a box to an enclosure. -/
def addEnclosure (registry : Registry α) (box : List Interval) (sum : Interval) (b : Binding α) :
    Except Failure Interval := do
  let arguments := (Graph.argumentVariables registry b).map (·.slice box)
  let enclosed ← b.term.enclosure arguments
  (sum.add (← enclosed.toInterval)).mapError .interval

/-- The enclosure of all terms over a box. -/
def evaluateEnclosure (sides : List BoxSide) : Action α Interval := do
  checkOpen "evaluate"
  let o ← objective
  let n := o.totalScalars
  if sides.length ≠ n then throw (.shapeMismatch "x" [n] [sides.length])
  if let some v := Registry.firstTransformed (o.graph.boundVariables o.registry) then
    throw (.unsupportedTransform "interval evaluation" v.index)
  let box ← sides.mapM fun side ↦ (side.toInterval : Except Failure Interval)
  modifyObjective fun o ↦
    { o with statistics :=
      { o.statistics with withoutGradient := o.statistics.withoutGradient + 1 } }
  let mut sum : Interval := ⟨0.0, 0.0⟩
  for (b, index) in o.graph.bindings.zipIdx do
    match addEnclosure o.registry box sum b with
    | .ok next => sum := next
    | .error failure =>
      log .warning .engine
        ("Interval evaluation of term " ++ toString index ++ " failed: " ++ failure.message)
      throw (.termFailed index b.term.name failure)
  return sum

end Objective

end Summand
