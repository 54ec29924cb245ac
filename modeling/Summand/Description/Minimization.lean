import Summand.Description.Basic
import Summand.Objective.Minimize
import Summand.Report.Numbers

/-!
# Described minimizations

What a minimization is asked for is described by fields of their own and by the further settings in
the field `kwargs`, which win where both give the same setting. Among the former the start is an
array and the tolerance a double even if it is written as an integer; the latter are kept as they
are given.
-/

namespace Summand.Description

/-- The names of the settings that are no further ones. -/
def minimizationNames : List String := ["method", "x0", "tol", "maxiter", "sparse", "write_back"]

/-- The array of a description, in the form that its numbers have in common. -/
def formedArray (j : Json) : Except Failure (Grid Number) := Grid.formed <$> numbersOf j

/-- The start of a description, if it has one. -/
def startOf (spec : Json) (further : List (String × Json)) :
    Except Failure (Option (Start Float)) := do
  match further.lookup "x0", get spec "x0" with
  | some .null, _ | none, .null => return none
  | some given, _ =>
    let given ← tagged given
    return some ⟨given, Solution.gridOf given⟩
  | none, given =>
    let array ← formedArray given
    return some ⟨Report.nested Number.toJson array.toNested, array.doubles⟩

/-- The options of a description. -/
def minimizeOptionsOf (spec : Json) : Except Failure MinimizeOptions := do
  let further := entries (get spec "kwargs")
  let start ← startOf spec further
  let tolerance ← optionalNumber (get spec "tol")
  let setting (name : String) (fallback : Json) : Except Failure Json :=
    ((further.lookup name).orElse fun _ ↦ spec.field? name).elim (.ok fallback) tagged
  let extra ← (further.filter fun field ↦ !minimizationNames.contains field.1).mapM
    fun (name, given) ↦ do return (name, ← tagged given)
  return {
    method := ← setting "method" (.text "L-BFGS-B")
    start
    tolerance := ← (further.lookup "tol").elim (.ok tolerance) tagged
    iterationLimit := ← setting "maxiter" .null
    sparse := (← setting "sparse" (.bool false)).isTruthy
    writeBack := (← setting "write_back" (.bool true)).isTruthy
    extra }

end Summand.Description
