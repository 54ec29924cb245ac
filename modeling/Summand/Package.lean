/-!
# The package

The version of the package and the names that it offers, in the order of their characters.
-/

namespace Summand.Package

def version : String := "1.0.0"

/-- The public names. -/
def publicNames : List String :=
  ["ArityMismatchError", "Box", "ConfigError", "DimensionMismatchError", "EvaluationError",
    "EvaluationStats", "Function", "FunctionClosedError", "FunctionConfig", "GraphError",
    "GreaterThan", "HessianDisabledError", "Interval", "InvalidBlockError", "LessThan",
    "NullHessianTargetError", "OutputShapeError", "OutputTypeError", "RegistrationError", "Scaled",
    "Solution", "SolverStatus", "SparseHessian", "StorageAllocationError", "Term",
    "TermEvaluationError", "TermOwnership", "TermoptError", "Transform",
    "TransformDimensionMismatchError", "UnknownVariableError", "UnsupportedTransformError",
    "VariableDimensionMismatchError", "solve_scipy"]

end Summand.Package
