import Summand.Json.Parser
import Summand.Solution.Basic

/-!
# Solutions as documents

A solution is written as a JSON object, one item per line, and read back from one. Only the status
and the point are checked on reading: the status has to be there and to be known, and the point has
to be an array of numbers. All else is kept as it was read, and fields that are not known are
skipped.
-/

namespace Summand

namespace Solution

/-! ### Writing -/

/-- The failure of writing a point that is no list of numbers. -/
def notVector : Failure := .raised "TypeError" "only vectors can be written"

/-- The numbers of a point along its only axis. Along the first of several axes there are none,
which is fine if that axis is empty. -/
def pointEntries (x : Grid Number) : Except Failure (List Number) :=
  match x.shape with
  | [_] => .ok x.entries
  | 0 :: _ => .ok []
  | _ => .error notVector

/-- The document of a solution. -/
def toJson (s : Solution) : Except Failure Json := do
  let entries ← (← pointEntries s.x).mapM Number.double
  return .object
    [("status", .text s.status.name),
      ("objective_value", s.objectiveValue),
      ("x", .list (entries.map .real)),
      ("iterations", s.iterations),
      ("message", s.message),
      ("solve_time", s.solveTime)]

/-- The failure of writing an integer of too many digits. -/
def unwritable : Failure := .raised "ValueError" Text.unwritableMessage

/-- The text of a solution's document. -/
def toText (s : Solution) : Except Failure String := do
  let document ← s.toJson
  if document.withinLimit then return document.indented else throw unwritable

/-! ### Reading -/

mutual

/-- A JSON value as a nested list; whatever is no list is a leaf. -/
def nestedOf : Json → Nested Json
  | .list items => .node (nestedItems items)
  | leaf => .leaf leaf

def nestedItems : List Json → List (Nested Json)
  | [] => []
  | item :: rest => nestedOf item :: nestedItems rest

end

/-- The failure of reading a text as a number. -/
def notNumber (given : String) : Failure :=
  .raised "ValueError" ("could not convert string to float: " ++ Text.quoted given)

/-- The double that a value in the place of a number denotes. -/
def numberOf : Json → Except Failure Float
  | .real x => .ok x
  | .null => .ok Binary64.notANumber
  | .bool b => .ok (if b then 1.0 else 0.0)
  | .int n => (Number.int n).double
  | .text word =>
    match Decimal.real? word with
    | some x => .ok x
    | none => .error (notNumber word)
  | .list _ | .object _ => .error (.raised "TypeError" "a number is expected")

/-- The array of doubles that a value denotes. -/
def gridOf (value : Json) : Except Failure (Grid Float) := do
  let leaves ← (nestedOf value).toGrid Grid.maxRank
  return ⟨leaves.shape, ← leaves.entries.mapM numberOf⟩

/-- The failure of looking a field up in something that has none. -/
def noFields : Failure := .raised "TypeError" "an object is expected"

/-- The solution that a document describes. -/
def ofJson (document : Json) : Except Failure Solution :=
  match document with
  | .object _ => do
    match document.field? "status" with
    | none => throw (.missingKey (.text "status"))
    | some given =>
      let status ← Status.ofJson given
      let field (name : String) (absent : Json) : Json := (document.field? name).getD absent
      return {
        status
        objectiveValue := field "objective_value" .null
        x := (← gridOf (field "x" (.list []))).map .real
        iterations := field "iterations" .null
        message := field "message" (.text "")
        solveTime := field "solve_time" .null }
  | _ => .error noFields

/-- The depth to which the lists and objects of a document may be nested. -/
def nestingLimit : Nat := 990

/-- The message about something nested too deep. -/
def tooDeepMessage (nested : String) : String :=
  "maximum recursion depth exceeded while decoding a JSON " ++ nested ++ " from a unicode string"

/-- The failure of reading a text that is no document. -/
def unreadable : Json.Fault → Failure
  | .malformed => .raised "JSONDecodeError" "malformed"
  | .listTooDeep => .raised "RecursionError" (tooDeepMessage "array")
  | .objectTooDeep => .raised "RecursionError" (tooDeepMessage "object")
  | .integerTooLong digits =>
    .raised "ValueError" (Text.tooLongMessage digits)

/-- The solution that a document's text describes. -/
def ofText (source : String) : Except Failure Solution := do
  let document ← (Json.parse nestingLimit source).mapError unreadable
  ofJson document

end Solution

end Summand
