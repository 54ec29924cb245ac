import Summand.Assignment
import Summand.Settings
import Summand.Text.Bytes
import Summand.Text.Case
import Summand.Text.Integer

/-!
# Settings from environment variables

The number of workers and whether Hessians are computed can be read from two variables, which are
checked at once; absent and empty variables leave the defaults in place. The variables are looked
up in a table of any values, or in a process, to which only texts can be given and which keeps them
as bytes.
-/

namespace Summand.Settings

/-! ### Values of variables -/

/-- The variable that holds the number of workers. -/
def workersVariable : String := "TERMOPT_NUM_WORKERS"

/-- The variable that says whether Hessians are computed. -/
def hessianVariable : String := "TERMOPT_HESSIAN"

/-- The words for yes. -/
def trueWords : List String := ["1", "true", "yes", "on"]

/-- The words for no. -/
def falseWords : List String := ["0", "false", "no", "off"]

/-- The failure of finding no integer in the workers' variable. -/
def notInteger (value : Json) : Failure :=
  .invalidSetting workersVariable value "not an integer"

/-- The failure of taking a group of values for an integer. -/
def noInteger : Failure := .raised "TypeError" "a number is expected"

/-- The integer that a variable's value denotes. -/
def readInteger : Json → Except Failure Int
  | .int n => .ok n
  | .bool b => .ok (if b then 1 else 0)
  | .real x => if x.isNaN then .error (notInteger (.real x)) else Assignment.wholePart x
  | .text word => (Text.readInteger word.toList).mapError fun _ ↦ notInteger (.text word)
  | _ => .error noInteger

/-- Reads the number of workers from its variable's value. -/
def readWorkers (value : Json) : Except Failure Nat := do
  validateWorkerCount (.int (← readInteger value))

/-- Reads a yes or no, in any case of letters, from the Hessian variable's value. -/
def readFlag : Json → Except Failure Bool
  | .text value =>
    let word := String.ofList (Text.lower (Text.trim Text.isBlank value.toList))
    if trueWords.contains word then .ok true
    else if falseWords.contains word then .ok false
    else .error (.invalidSetting hessianVariable (.text value) "expected a boolean")
  | other => .error (.missingAttribute other "strip")

/-- The settings that a table of variables asks for. -/
def ofEnvironment (lookup : String → Option Json) : Except Failure Settings := do
  let given (name : String) : Option Json := (lookup name).filter Json.isTruthy
  let workers ← (given workersVariable).mapM readWorkers
  let hessian ← (given hessianVariable).mapM readFlag
  return {
    hessianEnabled := .bool (hessian.getD true)
    workerCount := (workers.map (.int ·)).getD .null }

/-! ### Variables of a process -/

/-- The failure of giving a process something that is no text. -/
def notText : Failure := .raised "TypeError" "a text is expected"

/-- The failure of giving a process a text that holds the character which ends one. -/
def endsEarly : Failure := .raised "ValueError" "embedded null byte"

/-- The failure of naming a variable with the sign between names and values. -/
def illegalName : Failure := .raised "ValueError" "illegal environment variable name"

/-- The failure of leaving a variable without a name. -/
def noName : Failure := .raised "OSError" "[Errno 22] Invalid argument"

/-- Fails if a text cannot be written as bytes. -/
def checkBytes (text : String) : Except Failure Unit :=
  match Text.bytesFault? text.toList with
  | some fault => .error (.raised "UnicodeEncodeError" fault)
  | none => .ok ()

/-- Fails if a process cannot be given a variable. -/
def checkVariable (name : String) (value : Json) : Except Failure Unit := do
  checkBytes name
  let .text word := value | throw notText
  checkBytes word
  let isCut (text : String) : Bool := text.toList.contains '\x00'
  if isCut name || isCut word then throw endsEarly
  if name.toList.contains '=' then throw illegalName
  if name.isEmpty then throw noName

/-- The value of a variable as a process gives it back. -/
def reread : Json → Json
  | .text word => .text (String.ofList (Text.reread word.toList))
  | other => other

/-- The settings that the variables of a process ask for, by name and value. -/
def ofProcess (given : List (String × Json)) : Except Failure Settings := do
  given.forM fun (name, value) ↦ checkVariable name value
  ofEnvironment fun name ↦ (given.lookup name).map reread

end Summand.Settings
