import Summand.Solution.Document

/-!
# Descriptions

Objects that users supply can be described by JSON values. In a description the numbers that are
not finite stand as their names, a bare number in the place of a double is one even if it is written
as an integer, and an object with the one field `int` or `float` tells which of the two a number is.
-/

namespace Summand.Description

/-! ### Fields -/

/-- The field of a name, null if it is absent. -/
def get (j : Json) (name : String) : Json := (j.field? name).getD .null

/-- The value of a field that has to be there. -/
def required (j : Json) (name : String) : Except Failure Json :=
  (j.field? name).elim (.error (.missingKey (.text name))) .ok

/-- The items of a list; anything else has none. -/
def items : Json → List Json
  | .list items => items
  | _ => []

/-- The fields of an object; anything else has none. -/
def entries : Json → List (String × Json)
  | .object fields => fields
  | _ => []

/-- The text in a field, or another one if there is none. -/
def text (j : Json) (name fallback : String) : String :=
  match j.field? name with
  | some (.text s) => s
  | _ => fallback

/-- A list of names; all of them unless it is given. -/
def namesOf (j : Json) (name : String) (all : List String) : List String :=
  match j.field? name with
  | some (.list names) => names.map Json.plain
  | _ => all

/-! ### Numbers -/

/-- The failure of reading an integer from a text that denotes none. -/
def unreadableInteger (given : String) : Text.IntegerFault → Failure
  | .malformed =>
    .raised "ValueError" ("invalid literal for int() with base 10: " ++ Text.quotedFront 200 given)
  | .tooLong digits => .raised "ValueError" (Text.tooLongMessage digits)

/-- The integer that a text denotes. -/
def integerOfText (given : String) : Except Failure Int :=
  (Text.readInteger given.toList).mapError (unreadableInteger given)

/-- The failure of taking something for a number that is none. -/
def notNumeric : Failure := .raised "TypeError" "a number is expected"

/-- An integer; null is none, and anything else that is none counts as zero. -/
def integerOf : Json → Except Failure Int
  | .null => .error notNumeric
  | .int n => .ok n
  | .bool b => .ok b.toNat
  | .object [("int", .text digits)] => integerOfText digits
  | _ => .ok 0

/-- The integer in a field, or another one if there is none. -/
def integer (j : Json) (name : String) (fallback : Int) : Except Failure Int :=
  (j.field? name).elim (.ok fallback) integerOf

/-- A bare number in the place of a double. Null is none. -/
def bareNumber : Json → Except Failure Float
  | .null => .error notNumeric
  | given => Solution.numberOf given

/-- A number in the place of a double. Tagged integers stay exact, bare ones are rounded. -/
def numberOf : Json → Except Failure Number
  | .object [("int", .text digits)] => .int <$> integerOfText digits
  | .object [("float", x)] => .real <$> bareNumber x
  | given => .real <$> bareNumber given

/-- The number in a field, or another one if there is none. -/
def number (j : Json) (name : String) (fallback : Number) : Except Failure Number :=
  (j.field? name).elim (.ok fallback) numberOf

/-- The failure of taking something apart that has no items. -/
def notList : Failure := .raised "TypeError" "a list is expected"

/-- The items of what has to be a list. -/
def itemsOf : Json → Except Failure (List Json)
  | .list items => .ok items
  | _ => .error notList

/-- The failure of taking apart a list that has more or fewer items than expected. -/
def wrongCount (expected found : Nat) : Failure :=
  .raised "ValueError"
    (if found < expected then
      "not enough values to unpack (expected " ++ toString expected ++ ", got " ++
        toString found ++ ")"
    else "too many values to unpack (expected " ++ toString expected ++ ")")

/-- The numbers of a list. -/
def numberList (j : Json) : Except Failure (List Number) := do
  (← itemsOf j).mapM numberOf

/-- The rows of a matrix. -/
def matrixOf (j : Json) : Except Failure (List (List Number)) := do
  (← itemsOf j).mapM numberList

/-- The rows of a matrix in a field that has to be there. -/
def matrix (j : Json) (name : String) : Except Failure (List (List Number)) := do
  matrixOf (← required j name)

/-! ### Values of either kind -/

mutual

/-- A value in which integers and doubles are told apart by tags. -/
def tagged : Json → Except Failure Json
  | .object [("int", .text digits)] => .int <$> integerOfText digits
  | .object [("float", x)] => .real <$> bareNumber x
  | .list items => .list <$> taggedItems items
  | other => .ok other

def taggedItems : List Json → Except Failure (List Json)
  | [] => .ok []
  | item :: rest => do return (← tagged item) :: (← taggedItems rest)

end

/-- The value in a field, null if it is absent. -/
def taggedField (j : Json) (name : String) : Except Failure Json := tagged (get j name)

/-- A number or null, kept as a value. -/
def optionalNumber : Json → Except Failure Json
  | .null => .ok .null
  | given => Number.toJson <$> numberOf given

/-! ### Arrays -/

mutual

/-- A nested list of numbers. -/
def nestedNumbers : Json → Except Failure (Nested Number)
  | .list items => .node <$> nestedNumberItems items
  | leaf => .leaf <$> numberOf leaf

def nestedNumberItems : List Json → Except Failure (List (Nested Number))
  | [] => return []
  | item :: rest => return (← nestedNumbers item) :: (← nestedNumberItems rest)

end

/-- An array of numbers. -/
def numbersOf (j : Json) : Except Failure (Grid Number) := do
  (← nestedNumbers j).toGrid Grid.maxRank

/-- The array of doubles that a nested list of numbers denotes. -/
def doublesOf (numbers : Nested Number) : Except Failure (Grid Float) := do
  (← numbers.toGrid Grid.maxRank).doubles

/-- An array of doubles. -/
def gridOf (j : Json) : Except Failure (Grid Float) := do
  doublesOf (← nestedNumbers j)

/-! ### Failures of release -/

/-- The failure of releasing a described object, if its description asks for one. -/
def closeFailureOf (spec : Json) : Option Failure :=
  match get spec "close_error" with
  | .null => none
  | message => some (.raised "RuntimeError" message.plain)

end Summand.Description
