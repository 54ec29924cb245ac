import Summand.Failure
import Summand.Text.Case

/-!
# Log levels and loggers

Every message belongs to a topic and has a level. The loggers form a tree under the package logger:
a logger without a level of its own takes that of the package logger, and when the package logger
has none either, the level of the root, which is that of warnings.
-/

namespace Summand.Log

/-! ### Levels -/

/-- The levels at which the library itself logs. -/
inductive Level where
  | debug
  | warning
  deriving Repr, DecidableEq

namespace Level

def name : Level → String
  | .debug => "DEBUG"
  | .warning => "WARNING"

/-- The rank of a level. -/
def rank : Level → Int
  | .debug => 10
  | .warning => 30

end Level

/-- The ranks of all named levels. -/
def namedRanks : List (String × Int) :=
  [("CRITICAL", 50), ("FATAL", 50), ("ERROR", 40), ("WARNING", 30), ("WARN", 30), ("INFO", 20),
    ("DEBUG", 10), ("NOTSET", 0)]

/-- The rank of messages that are logged unless a level has been set. -/
def defaultRank : Int := 30

/-- The rank that a level's name denotes, in any case of letters; an unknown name denotes the
default. -/
def rankOfName (name : String) : Int :=
  let capitals := String.ofList (Text.upper name.toList)
  ((namedRanks.find? fun entry ↦ entry.1 == capitals).map Prod.snd).getD defaultRank

/-! ### Loggers -/

/-- The name of the package logger. -/
def packageName : String := "termopt"

/-- The parts of the library that log. -/
inductive Topic where
  | engine
  | registry
  | function
  | solver
  deriving Repr, DecidableEq

/-- The full name of a topic's logger. -/
def Topic.name : Topic → String
  | .engine => packageName ++ ".core.engine"
  | .registry => packageName ++ ".core.registry"
  | .function => packageName ++ ".function"
  | .solver => packageName ++ ".solvers.scipy_solver"

/-- The full name of the logger asked for by a name: names outside of the package are put under
it. -/
def loggerName : Option String → String
  | none => packageName
  | some name =>
    if name = packageName || (packageName ++ ".").toList.isPrefixOf name.toList then name
    else packageName ++ "." ++ name

/-- The rank that a value stands for, if it can be a level. -/
def rankOfJson? : Json → Option Int
  | .int rank => some rank
  | .bool b => some (if b then 1 else 0)
  | _ => none

/-- The state of the loggers, which is the package logger's own level as it was set; zero means that
none has been set. -/
structure Loggers where
  packageLevel : Json := .int defaultRank

namespace Loggers

/-- The level that counts for the package logger and for all loggers below it. -/
def effectiveLevel (loggers : Loggers) : Json :=
  if loggers.packageLevel.isTruthy then loggers.packageLevel else .int defaultRank

/-- The level set for the logger of the given full name itself. -/
def ownLevel (loggers : Loggers) (name : String) : Json :=
  if name = packageName then loggers.packageLevel else .int 0

/-- The failure of taking the format of messages for a level. -/
def formatAsLevel : Failure :=
  .raised "ValueError" "Unknown level: '%(levelname)s:%(name)s:%(message)s'"

/-- The failure of setting a level by something that is neither a rank nor a name. -/
def notLevel : Failure := .raised "TypeError" "a rank or a name is expected"

/-- The names that belong to something else than a level, with the failures of using them. -/
def takenNames : List (String × Failure) :=
  [("BASIC_FORMAT", formatAsLevel), ("_STYLES", notLevel)]

/-- The loggers after the package logger's level has been set by a rank or by a name. -/
def withLevel (loggers : Loggers) (given : Json) : Except Failure Loggers :=
  match given with
  | .text name =>
    match takenNames.lookup (String.ofList (Text.upper name.toList)) with
    | some failure => .error failure
    | none => .ok { loggers with packageLevel := .int (rankOfName name) }
  | other =>
    if (rankOfJson? other).isSome then .ok { loggers with packageLevel := other }
    else .error notLevel

/-- Whether messages of the level are logged. -/
def shows (loggers : Loggers) (level : Level) : Bool :=
  ((rankOfJson? loggers.effectiveLevel).getD defaultRank) ≤ level.rank

end Loggers

end Summand.Log
