import Summand.Objective.Basic

/-!
# Building and closing objectives

Variables and terms are added to an open objective, and its number of workers may be changed.
Closing releases each distinct term once, if the objective owns its terms, and then the transforms
that are installed; after that only views of the objective are left.
-/

namespace Summand.Objective

open Summand.Action

variable {α : Type}

/-- Registers a block, or changes the transform of a known one. -/
def register [Zero α] (handle : Handle) (dimension : Json)
    (transform : Option (Transform α)) : Action α Unit := do
  checkOpen "register a variable"
  modifyObjective invalidate
  let (registry, _) ← ofTraced ((← objective).registry.register handle dimension transform)
  modifyObjective fun o ↦ { o with registry }

/-- Adds a term on the given blocks. -/
def addTerm [Zero α] (term : Term α) (handles : List Handle) : Action α Unit := do
  checkOpen "add a term"
  modifyObjective invalidate
  let o ← objective
  let graph ← o.graph.add o.registry term handles o.settings.allowsHessian
  modifyObjective fun o ↦ { o with graph }

/-- Changes the number of workers. The storage made for the former number is dropped and the pool
stopped. -/
def setWorkerCount (given : Json) : Action α Unit := do
  checkOpen "change the worker count"
  let workerCount ← validateWorkerCount given
  let before := (← objective).workerCount
  if workerCount ≠ before then
    log .debug .engine ("Worker count " ++ toString before ++ " -> " ++ toString workerCount)
    modifyObjective fun o ↦ { invalidate o with workerCount, pool := none }

/-- Releases the distinct terms. -/
def releaseTerms : Action α Unit := do
  let (graph, events, failure) := (← objective).graph.close
  emit events
  modifyObjective fun o ↦ { o with graph }
  if let some failure := failure then throw failure

/-- Releases and removes the installed transforms. -/
def releaseTransforms : Action α Unit := do
  let (registry, events, failure) := (← objective).registry.close
  emit events
  modifyObjective fun o ↦ { o with registry }
  if let some failure := failure then throw failure

/-- Closes an objective; a closed one stays as it is. -/
def close : Action α Unit := do
  if (← objective).closed then return
  modifyObjective fun o ↦ { invalidate o with closed := true, pool := none }
  if (← objective).settings.ownership = some .owned then releaseTerms
  releaseTransforms

/-- The report of the evaluations so far, which is also logged. -/
def timingReport : Action α String := do
  let report := (← objective).statistics.report
  log .debug .function ("Timing:\n" ++ report)
  return report

/-- Sets all statistics back to zero. -/
def resetStatistics : Action α Unit := modifyObjective fun o ↦ { o with statistics := {} }

end Summand.Objective
