/-!
# The wording of failures

The sentences in which the library's own failures are told, with places for the data that they
mention. The kinds of failures are known by their names: some kinds come with a hint at what to do
instead, and each can also be handled under the names of more general kinds.
-/

namespace Summand.Wording

/-! ### Sentences -/

def dimensionMismatch (recorded requested : String) : String :=
  "Dimension mismatch: variable was registered with dimension " ++ recorded ++ ", got " ++ requested

/-- The dimension in optimization space is left out if there is none. -/
def transformMismatch (user : String) (solver : Option String) (output input : String) : String :=
  let solverPart := solver.elim "" fun dimension ↦ " and solver dimension " ++ dimension
  "Transform dimension mismatch: variable has user dimension " ++ user ++ solverPart ++
    ", transform maps " ++ input ++ " -> " ++ output

def invalidBlock (reason : String) : String := "Invalid parameter block: " ++ reason

def arityMismatch (arity received : String) : String :=
  "Incorrect number of arguments: term expects " ++ arity ++ ", got " ++ received

def unknownVariable (position : String) : String := "Unknown variable at argument " ++ position

def argumentMismatch (position termDimension variableDimension : String) : String :=
  "Variable dimension does not match term at argument " ++ position ++ ": term expects " ++
    termDimension ++ ", variable has " ++ variableDimension

def hessianDisabled : String := "Hessian computation is not enabled"

def missingTarget : String := "Sparse Hessian destination can not be None"

def unsupportedTransform (operation variableIndex : String) : String :=
  "Change of variables not supported for " ++ operation ++ " (variable " ++ variableIndex ++
    " has a transform)"

def termFailed (binding termName causeKind cause : String) : String :=
  "Term " ++ binding ++ " (" ++ termName ++ ") failed: " ++ causeKind ++ ": " ++ cause

def shapeMismatch (name expected got : String) : String :=
  "Shape mismatch for " ++ name ++ ": expected " ++ expected ++ ", got " ++ got

def unusableOutput (name reason : String) : String :=
  "Invalid output array " ++ name ++ ": " ++ reason

def closed (operation : String) : String :=
  "Can not " ++ operation ++ ": the Function has been closed"

def invalidSetting (setting given reason : String) : String :=
  "Invalid " ++ setting ++ "=" ++ given ++ ": " ++ reason

def storage (what shape : String) : String :=
  "Could not allocate " ++ what ++ " of shape " ++ shape

/-! ### Hints -/

/-- What to do instead, for the kinds that know. -/
def hint? (kind : String) : Option String :=
  match kind with
  | "InvalidBlockError" => some "pass a 1-D numpy array of floats, e.g. np.zeros(n)"
  | "UnknownVariableError" =>
    some "register the block with register_variable() before adding terms"
  | "HessianDisabledError" => some "construct the Function with hessian_enabled=True"
  | "NullHessianTargetError" => some "pass a SparseHessian() instance"
  | "OutputTypeError" => some "pass a writeable float64 array such as np.zeros(n)"
  | "FunctionClosedError" => some "build a new Function"
  | _ => none

/-- A sentence followed by a hint, if there is one that is not empty. -/
def withHint (text : String) : Option String → String
  | none => text
  | some hint => if hint.isEmpty then text else text ++ ". Try: " ++ hint

/-! ### Kinds -/

/-- The kind that all of the library's own failures belong to. -/
def common : String := "TermoptError"

/-- The names common to all failures. -/
def outermost : List String := ["Exception", "BaseException"]

/-- The names under which the library's own failures can be handled besides the common ones: the
kind's group, if it belongs to one, and the kinds of failures that are not the library's own. -/
def groupAndBuiltins (kind : String) : List String × List String :=
  match kind with
  | "RegistrationError" | "GraphError" | "ConfigError" => ([], ["ValueError"])
  | "DimensionMismatchError" | "TransformDimensionMismatchError" =>
    (["RegistrationError"], ["ValueError"])
  | "InvalidBlockError" => (["RegistrationError"], ["ValueError", "TypeError"])
  | "ArityMismatchError" | "UnknownVariableError" | "VariableDimensionMismatchError" =>
    (["GraphError"], ["ValueError"])
  | "HessianDisabledError" | "TermEvaluationError" => (["EvaluationError"], ["RuntimeError"])
  | "NullHessianTargetError" | "OutputShapeError" => (["EvaluationError"], ["ValueError"])
  | "UnsupportedTransformError" =>
    (["EvaluationError"], ["NotImplementedError", "RuntimeError"])
  | "OutputTypeError" => (["EvaluationError"], ["TypeError"])
  | "FunctionClosedError" => ([], ["RuntimeError"])
  | "StorageAllocationError" => ([], ["MemoryError"])
  | _ => ([], [])

/-- The names under which one of the library's own failures can be handled, its kind first. -/
def lineage (kind : String) : List String :=
  let (groups, builtins) := groupAndBuiltins kind
  if kind = common then common :: outermost
  else kind :: groups ++ common :: builtins ++ outermost

end Summand.Wording
