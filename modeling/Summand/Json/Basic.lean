/-!
# JSON values

Integers and doubles are told apart, because a value that was read is written back in its own
form. The fields of an object keep the order in which they were first given.
-/

namespace Summand

/-- A JSON value, which is also what an unchecked setting may hold. -/
inductive Json where
  | null
  | bool (value : Bool)
  | int (value : Int)
  | real (value : Float)
  | text (value : String)
  | list (items : List Json)
  | object (fields : List (String × Json))
  deriving Inhabited, BEq

namespace Json

/-- Whether a value is null. -/
def isNull : Json → Bool
  | .null => true
  | _ => false

/-- Whether a value counts as a yes: all do but null, false, zero, and what is empty. -/
def isTruthy : Json → Bool
  | .null => false
  | .bool b => b
  | .int n => n != 0
  | .real x => x != 0.0
  | .text s => !s.isEmpty
  | .list items => !items.isEmpty
  | .object fields => !fields.isEmpty

/-- Sets a field: a name already present keeps its place and takes the new value. -/
def setField (name : String) (value : Json) : List (String × Json) → List (String × Json)
  | [] => [(name, value)]
  | (key, old) :: rest =>
    if key = name then (key, value) :: rest else (key, old) :: setField name value rest

/-- The fields that a sequence of settings leaves: of a repeated name the last value counts. -/
def ofFields (fields : List (String × Json)) : List (String × Json) :=
  fields.foldl (fun done field ↦ setField field.1 field.2 done) []

/-- The value of a field. -/
def field? (name : String) : Json → Option Json
  | .object fields => (fields.find? fun field ↦ field.1 == name).map Prod.snd
  | _ => none

end Json

end Summand
