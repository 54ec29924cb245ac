import Summand.Choice
import Summand.Grid
import Summand.Number.Vector

/-!
# Solutions

A solution says how a minimization ended and where. Its point is an array of numbers; the value,
the number of iterations, the message and the duration are whatever the minimizer or a document
gave, and are kept in that form.
-/

namespace Summand

/-- How a minimization ended. -/
inductive Status where
  | optimal
  | maxIterations
  | failed
  | notSolved
  deriving Repr, DecidableEq

namespace Status

/-- The name of a status in documents. -/
def name : Status → String
  | .optimal => "optimal"
  | .maxIterations => "max_iterations"
  | .failed => "failed"
  | .notSolved => "not_solved"

/-- All statuses. -/
def all : List Status := [.optimal, .maxIterations, .failed, .notSolved]

/-- The status that a value names. -/
def ofJson (given : Json) : Except Failure Status := Choice.ofJson "SolverStatus" name all given

end Status

/-- The result of a minimization. -/
structure Solution where
  status : Status
  /-- The value at the point, null if there is none. -/
  objectiveValue : Json := .null
  /-- The point in optimization space. -/
  x : Grid Number := .vector []
  /-- The number of iterations, null if it is not known. -/
  iterations : Json := .null
  message : Json := .text ""
  /-- The duration in seconds, null if nothing was run. -/
  solveTime : Json := .null

namespace Solution

/-- Whether the minimizer reported convergence. -/
def isOptimal (s : Solution) : Bool := s.status == .optimal

/-! ### Texts -/

/-- The failure of writing a value that is no number with six significant digits. -/
def notNumeric : Json → Failure
  | .text _ => .raised "ValueError" "Unknown format code 'g' for object of type 'str'"
  | _ => .raised "TypeError" "unsupported format"

/-- A number with six significant digits. -/
def briefNumber : Json → Except Failure String
  | .real x => .ok (Decimal.briefText x)
  | .bool b => .ok (Decimal.briefText (if b then 1.0 else 0.0))
  | .int n => return Decimal.briefText (← (Number.int n).double)
  | other => .error (notNumeric other)

/-- The text of a solution in messages. -/
def shown (s : Solution) : Except Failure String := do
  if s.isOptimal then
    return "Solution(status=" ++ s.status.name ++ ", objective=" ++
      (← briefNumber s.objectiveValue) ++ ", x=" ++ Number.vectorText s.x.entries ++ ")"
  else
    return "Solution(status=" ++ s.status.name ++ ", message='" ++ s.message.plain ++ "')"

end Solution

end Summand
