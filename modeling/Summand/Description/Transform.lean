import Summand.Description.Basic
import Summand.Transform.Linear

/-!
# Described transforms

The field `type` of a description names the family of a transform, and the other fields its
parameters.
-/

namespace Summand.Description

/-- The transform by scalar maps, unless these cannot be built. -/
def transformByMaps (id : Nat) (built : Except (Elementwise.Fault Number) (Elementwise Float)) :
    Except Failure (Transform Float) :=
  (built.map (·.toTransform id)).mapError Elementwise.Fault.failure

/-- The linear transform of a description, which has at least one row. -/
def linearTransform (id : Nat) (spec : Json) : Except Failure (Transform Float) := do
  let rows ← matrix spec "M"
  let inverse ← (spec.field? "inv").elim (.ok []) matrixOf
  let first ← Term.listEntry rows 0
  let inputs : Except Failure Int :=
    match get spec "inputs" with
    | .null => .ok first.length
    | given => integerOf given
  return Transform.linear id rows inverse (← inputs)

/-- The transform of a description, but for the failure of its release. -/
def bareTransform (id : Nat) (spec : Json) : Except Failure (Transform Float) := do
  let family ← required spec "type"
  let dimension : Except Failure Int := required spec "dim" >>= integerOf
  let parameter (name : String) : Except Failure Number := required spec name >>= numberOf
  let bound : Except Failure Number := number spec "bound" (.real 0.0)
  let built := transformByMaps id
  match family.plain with
  | "scaled" => built (Elementwise.scaled Number.toFloat (← dimension) (← parameter "factor"))
  | "greater" => built (Elementwise.greaterThan Number.toFloat (← dimension) (← bound))
  | "less" => built (Elementwise.lessThan Number.toFloat (← dimension) (← bound))
  | "box" =>
    let n ← dimension
    let lower ← parameter "lower"
    built (Elementwise.box Number.toFloat n lower (← parameter "upper"))
  | "circle" => return Transform.circle id
  | "linear" => linearTransform id spec
  | "failing" =>
    let names := namesOf spec "modes" (Transform.Direction.all.map (·.name))
    let failure := Failure.raised "ValueError" ((spec.field? "message").elim "boom" Json.plain)
    return Transform.failing id (← dimension) failure (Transform.Direction.named names)
  | _ => throw (.missingKey family)

/-- The transform of a description, under an identity. -/
def transformOf (id : Nat) (spec : Json) : Except Failure (Transform Float) :=
  (bareTransform id spec).map fun t ↦ { t with closeFailure := closeFailureOf spec }

end Summand.Description
