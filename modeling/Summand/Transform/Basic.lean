import Summand.Grid
import Summand.Progress

/-!
# Changes of variables

A transform lets the terms see a variable in one space, the user space, while the solver works in
another, the optimization space. It maps a point of the second to the first and back, and pulls a
gradient back along the first map. Each map fills an array that it is given; when a map fails, the
array shows how far it came.

Points and gradients are vectors. Callers may also hand other arrays to a map: what it makes of them
is up to the transform.
-/

namespace Summand

variable {α : Type}

/-- A change of variables. -/
structure Transform (α : Type) where
  /-- The identity, by which installed transforms are told apart. -/
  id : Nat
  name : String
  /-- The size of a point in optimization space, as the transform tells it. -/
  inputDimension : Int
  /-- The size of a point in user space, as the transform tells it. -/
  outputDimension : Int
  /-- Fills an array with the user-space value of a point. -/
  toUser : (out point : Grid α) → Progress (Grid α)
  /-- Fills an array with the optimization-space point of a user-space value. -/
  toOptimization : (out value : Grid α) → Progress (Grid α)
  /-- Adds to an array the transposed Jacobian at a point, applied to a user-space gradient. -/
  projectGradient : (accumulator point gradient : Grid α) → Progress (Grid α)
  /-- The failure of releasing the transform, if that fails. -/
  closeFailure : Option Failure := none

namespace Transform

/-- The text of a transform in messages. -/
def shown (t : Transform α) : String :=
  t.name ++ "(" ++ toString t.inputDimension ++ " -> " ++ toString t.outputDimension ++ ")"

/-! ### Vectors -/

/-- A vector filled with the user-space value of a point. -/
def userVector (t : Transform α) (out point : List α) : Progress (List α) :=
  (t.toUser (.vector out) (.vector point)).map Grid.entries

/-- A vector filled with the optimization-space point of a user-space value. -/
def optimizationVector (t : Transform α) (out value : List α) : Progress (List α) :=
  (t.toOptimization (.vector out) (.vector value)).map Grid.entries

/-- A vector with a gradient added that has been pulled back at a point. -/
def projectedVector (t : Transform α) (accumulator point gradient : List α) : Progress (List α) :=
  (t.projectGradient (.vector accumulator) (.vector point) (.vector gradient)).map Grid.entries

/-! ### Directions -/

/-- The maps of a transform. -/
inductive Direction where
  | toUser
  | toOptimization
  | projectGradient
  deriving Repr, DecidableEq

namespace Direction

def name : Direction → String
  | .toUser => "to_user"
  | .toOptimization => "to_optimization"
  | .projectGradient => "project_gradient"

def all : List Direction := [.toUser, .toOptimization, .projectGradient]

/-- The maps with the given names. -/
def named (names : List String) : List Direction := all.filter fun d ↦ names.contains d.name

end Direction

/-- Applies one of the maps to an array to fill, and to a point and a gradient to read; the gradient
counts for the pullback only. -/
def apply (t : Transform α) (direction : Direction) (out point gradient : Grid α) :
    Progress (Grid α) :=
  match direction with
  | .toUser => t.toUser out point
  | .toOptimization => t.toOptimization out point
  | .projectGradient => t.projectGradient out point gradient

end Transform

end Summand
