import Summand.Description.Term
import Summand.Report.Numbers

/-!
# Data of described failures

A failure can be described with data of any kind: plain values, groups of data, terms, and other
failures.
-/

namespace Summand.Description

/-- Something that a failure is described with. -/
inductive Datum where
  /-- A value that is no list. -/
  | plain (value : Json)
  | group (members : List Datum)
  | term (name shown : String)
  /-- Another failure, by its kind and what it was described with. -/
  | failure (kind : String) (cause : Json)
  deriving Inhabited

namespace Datum

def isNull : Datum → Bool
  | .plain .null => true
  | _ => false

/-- Whether a datum counts as a yes. -/
def isTruthy : Datum → Bool
  | .plain value => value.isTruthy
  | .group members => !members.isEmpty
  | .term _ _ | .failure _ _ => true

/-- The name of a datum's type in messages. -/
def typeName : Datum → String
  | .plain value => value.typeName
  | .group _ => "tuple"
  | .term name _ => name
  | .failure kind _ => kind

/-! ### Texts -/

mutual

/-- A datum as a member of a group in messages. -/
def shown : Datum → String
  | .plain value => value.shown
  | .group members => Text.group (shownMembers members)
  | .term _ shown => shown
  | .failure kind cause => kind ++ "(" ++ cause.shown ++ ")"

def shownMembers : List Datum → List String
  | [] => []
  | member :: rest => shown member :: shownMembers rest

end

/-- A datum as the text of a message: texts without quotes, and other failures by their messages. -/
def text : Datum → String
  | .plain value => value.plain
  | .failure kind cause => if kind = "KeyError" then cause.shown else cause.plain
  | other => other.shown

mutual

/-- A datum as a value in reports. Terms and failures are told by their types. -/
def reported : Datum → Json
  | .plain value => Report.value value
  | .group members => .list (reportedMembers members)
  | other => .text other.typeName

def reportedMembers : List Datum → List Json
  | [] => []
  | member :: rest => reported member :: reportedMembers rest

end

/-! ### Parts -/

/-- The failure of taking a datum apart that has no parts. -/
def noParts : Failure := .raised "TypeError" "a group is expected"

/-- The parts of a datum: the members of a group, the characters of a text, or the names of an
object's fields. -/
def parts : Datum → Except Failure (List Datum)
  | .group members => .ok members
  | .plain (.text s) =>
    .ok ((Text.symbols s.toList).map fun symbol ↦ .plain (.text (String.ofList symbol.kept)))
  | .plain (.object fields) => .ok (fields.map fun field ↦ .plain (.text field.1))
  | _ => .error noParts

/-- The two parts of a datum that has to have two. -/
def pair (datum : Datum) : Except Failure (Datum × Datum) := do
  match ← datum.parts with
  | [first, second] => return (first, second)
  | parts => throw (wrongCount 2 parts.length)

/-- The part of a datum at a position. -/
def part (datum : Datum) (k : Nat) : Except Failure Datum := do
  let missing : Failure :=
    match datum with
    | .plain (.object _) => .missingKey (.int k)
    | other =>
      let kind := if other.typeName = "str" then "string" else other.typeName
      .raised "IndexError" (kind ++ " index out of range")
  match datum, (← datum.parts)[k]? with
  | .plain (.object _), _ | _, none => throw missing
  | _, some part => return part

/-! ### Reading -/

mutual

/-- The datum that a JSON value describes: lists are groups, and objects with the one field `term`
or `exc` are terms and failures. -/
def ofJson : Json → Except Failure Datum
  | .list items => .group <$> ofItems items
  | .object [("term", spec)] => do
    let term ← termOf 0 spec
    return .term term.name term.shown
  | .object [("exc", .list [.text kind, cause])] => return .failure kind cause
  | other => .plain <$> tagged other

def ofItems : List Json → Except Failure (List Datum)
  | [] => return []
  | item :: rest => return (← ofJson item) :: (← ofItems rest)

end

/-- The data that the parts of a JSON value describe. -/
def listOf : Json → Except Failure (List Datum)
  | .list items => ofItems items
  | other => (plain other).parts

end Datum

end Summand.Description
