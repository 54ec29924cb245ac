import Summand.Failure.Wording
import Summand.Interval.Basic
import Summand.Text.Group

/-!
# Failures

The causes for which an operation of the library fails, each with the data that its message
mentions. Some messages end in a hint at what to do instead. Terms, transforms and solvers are
supplied by the user and fail with causes of their own: `raised` keeps such a cause by its kind
and text, and `isOwn` tells the library's own failures from those.
-/

namespace Summand

/-- The groups of failures that can be reported without a more precise cause. -/
inductive FailureGroup where
  | library
  | registration
  | graph
  | evaluation
  deriving Repr, DecidableEq

/-- Why an operation failed. -/
inductive Failure where
  /-- A cause known by its group alone. -/
  | general (group : FailureGroup) (text : String)
  /-- A block that is registered already was given another dimension. -/
  | dimensionMismatch (recorded : Int) (requested : Json)
  /-- A transform's dimensions do not fit its variable. -/
  | transformMismatch (user : Json) (solver : Option Int) (output input : Int)
  /-- Something cannot serve as a parameter block. -/
  | invalidBlock (reason : String)
  /-- A term was given another number of blocks than it has arguments. -/
  | arityMismatch (arity received : Int)
  /-- An argument's block is not registered. -/
  | unknownVariable (position : Int)
  /-- An argument's dimension differs from that of its variable. -/
  | argumentMismatch (position termDimension variableDimension : Int)
  /-- A Hessian was asked of an objective built without Hessians. -/
  | hessianDisabled
  /-- A sparse Hessian was asked for without a target to hold it. -/
  | missingTarget
  /-- A bound variable has a transform that the operation cannot handle. -/
  | unsupportedTransform (operation : String) (variableIndex : Int)
  /-- A term failed. -/
  | termFailed (binding : Int) (termName : String) (cause : Failure)
  /-- An array has the wrong shape. -/
  | shapeMismatch (name : String) (expected got : List Int)
  /-- An output array cannot hold the result. -/
  | unusableOutput (name reason : String)
  /-- The objective has been closed. -/
  | closed (operation : String)
  /-- A setting has an unusable value. -/
  | invalidSetting (setting : String) (given : Json) (reason : String)
  /-- Working storage could not be allocated. -/
  | storage (what : String) (shape : List Int)
  /-- An array could not be allocated. -/
  | outOfMemory (text : String)
  /-- An operation on numbers has no result. -/
  | number (fault : Number.Fault)
  /-- An interval operation has no result. -/
  | interval (fault : Interval.Fault)
  /-- A value was looked up under an absent key. -/
  | missingKey (key : Json)
  /-- A user-supplied part failed. -/
  | raised (kind text : String)

namespace Failure

/-! ### Kinds -/

/-- The name of a failure's kind. -/
def kind : Failure → String
  | .general .library _ => "TermoptError"
  | .general .registration _ => "RegistrationError"
  | .general .graph _ => "GraphError"
  | .general .evaluation _ => "EvaluationError"
  | .dimensionMismatch _ _ => "DimensionMismatchError"
  | .transformMismatch _ _ _ _ => "TransformDimensionMismatchError"
  | .invalidBlock _ => "InvalidBlockError"
  | .arityMismatch _ _ => "ArityMismatchError"
  | .unknownVariable _ => "UnknownVariableError"
  | .argumentMismatch _ _ _ => "VariableDimensionMismatchError"
  | .hessianDisabled => "HessianDisabledError"
  | .missingTarget => "NullHessianTargetError"
  | .unsupportedTransform _ _ => "UnsupportedTransformError"
  | .termFailed _ _ _ => "TermEvaluationError"
  | .shapeMismatch _ _ _ => "OutputShapeError"
  | .unusableOutput _ _ => "OutputTypeError"
  | .closed _ => "FunctionClosedError"
  | .invalidSetting _ _ _ => "ConfigError"
  | .storage _ _ => "StorageAllocationError"
  | .outOfMemory _ => "MemoryError"
  | .number fault => fault.kind
  | .interval fault => fault.kind
  | .missingKey _ => "KeyError"
  | .raised kind _ => kind

/-! ### Messages -/

/-- The message of a failure without its hint, unless it tells of another failure. -/
def body : Failure → String
  | .general _ text => text
  | .dimensionMismatch recorded requested =>
    Wording.dimensionMismatch (toString recorded) requested.plain
  | .transformMismatch user solver output input =>
    Wording.transformMismatch user.plain (solver.map toString) (toString output) (toString input)
  | .invalidBlock reason => Wording.invalidBlock reason
  | .arityMismatch arity received => Wording.arityMismatch (toString arity) (toString received)
  | .unknownVariable position => Wording.unknownVariable (toString position)
  | .argumentMismatch position termDimension variableDimension =>
    Wording.argumentMismatch (toString position) (toString termDimension)
      (toString variableDimension)
  | .hessianDisabled => Wording.hessianDisabled
  | .missingTarget => Wording.missingTarget
  | .unsupportedTransform operation variableIndex =>
    Wording.unsupportedTransform operation (toString variableIndex)
  | .termFailed _ _ _ => ""
  | .shapeMismatch name expected got =>
    Wording.shapeMismatch name (Text.shape expected) (Text.shape got)
  | .unusableOutput name reason => Wording.unusableOutput name reason
  | .closed operation => Wording.closed operation
  | .invalidSetting setting given reason => Wording.invalidSetting setting given.shown reason
  | .storage what shape => Wording.storage what (Text.shape shape)
  | .outOfMemory text => text
  | .number fault => fault.message
  | .interval fault => fault.message
  | .missingKey key => key.shown
  | .raised _ text => text

/-- The whole message. A failed term's message ends in the kind and the message of its cause. -/
def message : Failure → String
  | .termFailed binding termName cause =>
    Wording.termFailed (toString binding) termName cause.kind cause.message
  | failure => Wording.withHint failure.body (Wording.hint? failure.kind)

/-! ### Failures of user code -/

/-- A failure of user code given by its kind and what it tells; a missing key's text is quoted. -/
def ofKind (kind : String) (told : Json) : Failure :=
  if kind = "KeyError" then .missingKey told
  else if kind = "TermoptError" then .general .library told.plain
  else if kind = "RegistrationError" then .general .registration told.plain
  else if kind = "GraphError" then .general .graph told.plain
  else if kind = "EvaluationError" then .general .evaluation told.plain
  else .raised kind told.plain

/-- The failure of using a position outside of an axis of an array. -/
def outOfBounds (position axis size : Nat) : Failure :=
  .raised "IndexError"
    ("index " ++ toString position ++ " is out of bounds for axis " ++ toString axis ++
      " with size " ++ toString size)

/-- The failure of using a position outside of a list. -/
def outOfRange : Failure := .raised "IndexError" "list index out of range"

/-- The failure of asking a value for something that values of its type do not have. -/
def missingAttribute (value : Json) (name : String) : Failure :=
  .raised "AttributeError"
    ("'" ++ value.typeName ++ "' object has no attribute '" ++ name ++ "'")

/-- Whether the failure is one of the library's own. -/
def isOwn : Failure → Bool
  | .outOfMemory _ | .number _ | .interval _ | .missingKey _ | .raised _ _ => false
  | _ => true

end Failure

/-- The double nearest to a number, where there has to be one. -/
def Number.double (n : Number) : Except Failure Float := n.toFloat.mapError .number

end Summand
