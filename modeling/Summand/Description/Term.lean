import Summand.Description.Basic
import Summand.Term.Faulty
import Summand.Term.Form
import Summand.Term.Partial

/-!
# Described terms

The field `type` of a description names the family of a term, and the other fields its parameters.
-/

namespace Summand.Description

/-- A number that a term returns; null stands for none. -/
def outcomeOf : Json → Except Failure (Outcome Float)
  | .null => .ok .nothing
  | given => do
    match ← numberOf given with
    | .real x => return .real x
    | .int n => return .integer n

/-- A sum of squares that fails, everywhere or above a limit. -/
def failingTerm (id : Nat) (dimension : Int) (spec : Json) : Except Failure (Term Float) := do
  let requests := Term.Request.named (namesOf spec "modes" (Term.Request.all.map (·.name)))
  let limit ←
    match get spec "above" with
    | .null => pure none
    | given => some <$> numberOf given
  let failure :=
    Failure.ofKind (text spec "exc" "ValueError") ((spec.field? "message").getD (.text "boom"))
  return Term.failing id dimension failure requests limit

/-- The term of a description, but for the failure of its release. -/
def bareTerm (id : Nat) (spec : Json) : Except Failure (Term Float) := do
  let family ← required spec "type"
  let dimension : Except Failure Int := integer spec "dim" 1
  match family.plain with
  | "square" => return Term.square id (← dimension)
  | "wrong" =>
    return Term.wrongGradient id (← dimension) (← required spec "factor" >>= numberOf)
  | "failing" => failingTerm id (← dimension) spec
  | "coupled" => return Term.coupled id
  | "rosenbrock" => return Term.rosenbrock id
  | "bilinear" => return Term.bilinear id (← matrix spec "A")
  | "quadratic" => return Term.quadratic id (← matrix spec "A")
  | "affine" => return Term.affine id (← matrix spec "coef") (← number spec "const" (.real 0.0))
  | "product" => return Term.product id
  | "reciprocal" => return Term.reciprocal id
  | "gradient_only" => return Term.gradientOnly id
  | "returns" => return Term.returning id (← required spec "value" >>= outcomeOf)
  | "log" => return Term.logarithm id
  | _ => throw (.missingKey family)

/-- The term of a description, under an identity. -/
def termOf (id : Nat) (spec : Json) : Except Failure (Term Float) :=
  (bareTerm id spec).map fun t ↦ { t with closeFailure := closeFailureOf spec }

end Summand.Description
