import Summand.GradientCheck
import Summand.Report.Diagnostics
import Summand.Solution.Document

/-!
# Objectives as JSON values

What there is to see of an objective and its parts: the variables with the caller's values, the
bindings, the settings, and the messages and questions that an operation left behind.
-/

namespace Summand.Report

abbrev Fields := List (String × Json)

/-! ### Variables and bindings -/

/-- A variable with the value in the caller's block and the one of the last evaluation. -/
def variableFields (m : Memory Float) (v : Variable Float) : Fields :=
  [("index", count v.index), ("user", count v.userDimension), ("solver", .int v.solverDimension),
    ("offset", .int v.offset),
    ("slice", .list [.int v.offset, .int (v.offset + v.solverDimension)]),
    ("transform", v.transform.elim .null fun t ↦ .text t.shown),
    ("values", block m v.userBlock), ("scratch", vector v.scratch)]

def registered (m : Memory Float) (r : Registry Float) : Json :=
  .list (r.entries.map fun v ↦ .object (variableFields m v))

def registry (m : Memory Float) (r : Registry Float) : Fields :=
  [("records", registered m r), ("total", .int r.totalScalars), ("count", count r.count),
    ("len", count r.count), ("max_user", count r.maxUserDimension), ("repr", .text r.shown)]

/-- The Hessian blocks of a binding. -/
def hessianBlocks (blocks : Option (HessianBlocks Float)) : Json :=
  blocks.elim .null fun rowsOfBlocks ↦ .list (rowsOfBlocks.map fun row ↦ .list (row.map rows))

/-- A binding, with its Hessian blocks if they are asked for. -/
def binding (withBlocks : Bool) (b : Binding Float) : Json :=
  .object
    ([("term", .text b.term.shown), ("variables", .list (b.indices.map count)),
      ("arity", count b.arity)] ++
      (if withBlocks then [("hessian", hessianBlocks b.hessianBlocks)] else []))

def graph (withBlocks : Bool) (g : Graph Float) : Fields :=
  [("bindings", .list (g.bindings.map (binding withBlocks))), ("size", count g.size),
    ("distinct", .list (g.terms.map fun t ↦ .text t.shown)), ("max_arity", count g.maxArity),
    ("repr", .text g.shown)]

/-- The shapes of the Hessian blocks for arguments of the given sizes. -/
def blockShapes (sizes : List Nat) : Json :=
  .list (sizes.map fun m ↦ .list (sizes.map fun n ↦ .list [count m, count n]))

/-- A new binding, the last one of a graph. -/
def lastBinding (r : Registry Float) (g : Graph Float) : Fields :=
  match g.bindings.getLast? with
  | none => []
  | some b =>
    [("arity", count b.arity), ("size", count g.size),
      ("shapes", b.hessianBlocks.elim .null fun _ ↦ blockShapes b.term.sizes),
      ("arguments", rows ((Graph.argumentVariables r b).map Variable.scratch))]

/-! ### Settings -/

def settings (s : Settings) : Except Failure Fields := do
  return [("hessian_enabled", value s.hessianEnabled), ("worker_count", value s.workerCount),
    ("term_ownership", .text (← s.ownershipName))]

/-- What there is to see of an objective as a whole. -/
def objective (o : Objective Float) : Except Failure Fields := do
  return [("scalars", .int o.totalScalars), ("variables", count o.registry.count),
    ("terms", count o.graph.size), ("workers", count o.workerCount),
    ("hessian_enabled", value o.settings.hessianEnabled), ("closed", .bool o.closed),
    ("ownership", .text (← o.settings.ownershipName)), ("repr", .text o.shown),
    ("without_gradient", .int o.statistics.withoutGradient),
    ("with_gradient", .int o.statistics.withGradient)]

/-! ### Results -/

def gradientCheck (c : GradientCheck Float) : Fields :=
  [("analytic", vector c.analytic), ("numerical", vector c.numerical),
    ("max_abs_error", number c.maxAbsoluteError), ("max_rel_error", number c.maxRelativeError),
    ("passed", .bool c.passed), ("bool", .bool c.passed)]

/-- The document of a solution. -/
def solution (s : Solution) : Except Failure Json := s.toJson.map value

/-- The document of a solution with the duration replaced by whether there is one. -/
def untimedSolution (s : Solution) : Except Failure Json :=
  solution { s with solveTime := .bool !s.solveTime.isNull }

def hessian : Hessian Float → Json
  | .dense a => rows a
  | .sparse m => sparse m

/-! ### Events -/

/-- What a minimizer was asked. -/
def request (r : MinimizeRequest Float) : Json :=
  let options : Json :=
    match r.iterationLimit with
    | .null => .null
    | limit => .object [("maxiter", limit)]
  .object
    [("x0", value r.start.given), ("method", .text r.method), ("jac", .bool true),
      ("hess", .bool r.hessianForm.isSome), ("tol", value r.tolerance), ("options", options),
      ("kwargs", value (.object r.extra))]

/-- The Hessian that was answered before the next value, if there was one. -/
def nextHessian : List (Event Float) → Fields
  | [] => []
  | .hessianAnswered h :: _ => [("h", hessian h)]
  | .valueAnswered _ _ _ :: _ => []
  | _ :: rest => nextHessian rest

/-- The request that a minimizer got and the answers to its questions, one for each point. -/
def dialogue : List (Event Float) → List Json
  | [] => []
  | .minimizeStarted r :: rest => request r :: dialogue rest
  | .valueAnswered x y g :: rest =>
    let answers := [("x", nested exact x.toNested), ("value", number y), ("g", vector g)]
    .object (answers ++ nextHessian rest) :: dialogue rest
  | _ :: rest => dialogue rest

/-- The lines of a report that hold no times. -/
def untimedText (text : String) : String :=
  let lines := text.splitOn "\n"
  if lines.head? = some "Timing:" then "\n".intercalate (lines.take 3) else text

/-- The messages that are logged, each with its logger and its level. -/
def logged (loggers : Log.Loggers) (events : List (Event Float)) : List Json :=
  events.filterMap fun event ↦
    match event with
    | .logged level topic text =>
      if loggers.shows level then
        some (.list [.text topic.name, .text level.name, .text (untimedText text)])
      else none
    | _ => none

/-- The terms that were released. -/
def releasedTerms (events : List (Event Float)) : List Nat :=
  events.filterMap fun event ↦
    match event with
    | .termReleased id => some id
    | _ => none

/-- The transforms that were released. -/
def releasedTransforms (events : List (Event Float)) : List Nat :=
  events.filterMap fun event ↦
    match event with
    | .transformReleased id => some id
    | _ => none

end Summand.Report
