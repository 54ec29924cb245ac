import Summand.Term.Polynomial

/-!
# Terms that are not defined everywhere

The reciprocal and the logarithm fail outside of their domains. A derivative that can be computed is
written before the value fails.
-/

namespace Summand.Term

/-- A quotient, which fails where the divisor is zero. -/
def quotient (a b : Float) : Except Failure Float :=
  (Number.quotient a b).mapError .number

/-- The reciprocal of a number. -/
def reciprocal (id : Nat) : Term Float :=
  let value (arguments : List (List Float)) : Except Failure (Outcome Float) :=
    (quotient 1.0 (first arguments 0)).map .real
  let slope (arguments : List (List Float)) : Except Failure Float :=
    quotient (-1.0) (first arguments 0 * first arguments 0)
  let curvature (arguments : List (List Float)) : Except Failure Float :=
    quotient 2.0 (first arguments 0 * first arguments 0 * first arguments 0)
  { id
    name := "ReciprocalTerm"
    dimensions := [1]
    value
    firstOrder := fun arguments gradient ↦
      match slope arguments with
      | .error failure => ⟨gradient, .error failure⟩
      | .ok g => ⟨[[g]], value arguments⟩
    secondOrder := fun arguments gradient blocks ↦
      match curvature arguments, slope arguments with
      | .error failure, _ => ⟨gradient, blocks, .error failure⟩
      | .ok h, .error failure => ⟨gradient, [[[[h]]]], .error failure⟩
      | .ok h, .ok g => ⟨[[g]], [[[[h]]]], value arguments⟩
    enclosure := fun box ↦ do enclosedBy (Interval.numberDiv (.real 1.0) (← side box 0 0)) }

/-- The natural logarithm of a number, without second derivatives. -/
def logarithm (id : Nat) : Term Float :=
  let name := "LogTerm"
  let value (arguments : List (List Float)) : Except Failure (Outcome Float) :=
    (Interval.logBound (first arguments 0)).mapError Failure.interval |>.map .real
  { id
    name
    dimensions := [1]
    value
    firstOrder := fun arguments gradient ↦
      match quotient 1.0 (first arguments 0) with
      | .error failure => ⟨gradient, .error failure⟩
      | .ok g => ⟨[[g]], value arguments⟩
    secondOrder := fun _ gradient blocks ↦ noSecondOrder name gradient blocks
    enclosure := fun box ↦ do enclosedBy (← side box 0 0).log }

end Summand.Term
