import Summand.Number.Arithmetic
import Summand.Objective.Evaluation

/-!
# Checking gradients

The gradient that an objective computes is compared with central differences of its value. Every
component is estimated on its own from two evaluations, with one entry of the point moved a step
ahead and a step back. The error of a component is taken relative to the estimate where that is
greater than one.

Steps and tolerances are given exactly. A step is brought to the kind of the point's numbers only
when an entry is moved, and twice the step only when a difference is divided by it, so either may
fail then; a tolerance is never rounded.
-/

namespace Summand

variable {α : Type}

/-- Sizes of numbers. -/
class Magnitude (α : Type) where
  abs : α → α
  /-- The greater one of two numbers; where one of them is undefined, the result is so too. -/
  greater : α → α → α

instance : Magnitude Float where
  abs := Float.abs
  greater a b := if a.isNaN then a else if b.isNaN then b else if a < b then b else a

/-- The length of a step and twice that length, each of which may exceed all numbers. -/
structure Step (α : Type) where
  once : Except Failure α
  twice : Except Failure α

/-- The step of a length given exactly. -/
def Step.ofNumber (n : Number) : Step Float := ⟨n.double, n.twice.double⟩

/-- What a comparison of gradients found. -/
structure GradientCheck (α : Type) where
  /-- The gradient that the objective computes. -/
  analytic : List α
  /-- The gradient estimated from differences. -/
  numerical : List α
  maxAbsoluteError : α
  maxRelativeError : α
  /-- Whether the relative error is tolerated. -/
  passed : Bool

namespace Objective

/-! ### Central differences -/

/-- The failure of dividing by a step of zero. -/
def zeroStep : Failure := .number .zeroDivisor

section

variable [Zero α] [Add α] [Sub α] [Div α] [BEq α] [Storable α]

/-- The difference of the values a step ahead and a step back along one entry of a point, over twice
the step. -/
def centralDifference (x : Grid α) (step : Step α) (i : Nat) : Action α α := do
  let length ← step.once
  let ahead ← evaluate (.ok { x with entries := x.entries.modify i (· + length) }) none none
  let back ← evaluate (.ok { x with entries := x.entries.modify i (· - length) }) none none
  let distance ← step.twice
  if distance == 0 then throw zeroStep
  return (ahead - back) / distance

/-- The gradient at a point estimated from differences. A point without entries needs none. -/
def numericalGradient (x : Grid α) (step : Step α) : Action α (Grid α) := do
  if x.shape.isEmpty then throw Grid.noAxis
  let entries ← (List.range x.entries.length).mapM (centralDifference x step)
  return { x with entries }

end

/-! ### The comparison -/

/-- The greatest of several numbers, zero if there are none. -/
def largest [Zero α] [Magnitude α] : List α → α
  | [] => 0
  | e :: rest => rest.foldl Magnitude.greater e

/-- The distances between the components of two gradients. -/
def absoluteErrors [Sub α] [Magnitude α] (analytic numerical : List α) : List α :=
  List.zipWith (fun a n ↦ Magnitude.abs (a - n)) analytic numerical

/-- Distances relative to the numbers they are measured from, or to one where these are small. -/
def relativeErrors [Div α] [OfNat α 1] [Magnitude α] (errors numerical : List α) : List α :=
  List.zipWith (fun e n ↦ e / Magnitude.greater 1 (Magnitude.abs n)) errors numerical

/-- Compares the gradient at a point with central differences. -/
def checkGradient [Zero α] [Add α] [Sub α] [Div α] [OfNat α 1] [BEq α] [Storable α] [Magnitude α]
    (x : Grid α) (tolerates : α → Bool) (step : Step α) : Action α (GradientCheck α) := do
  let (_, analytic) ← valueAndGradient (.ok x)
  let numerical := (← numericalGradient x step).entries
  let absolute := absoluteErrors analytic numerical
  let relative := largest (relativeErrors absolute numerical)
  return ⟨analytic, numerical, largest absolute, relative, tolerates relative⟩

/-- The tolerance of a check that is not given one. -/
def defaultTolerance : Number := .real 1e-5

/-- The step of a check that is not given one. -/
def defaultStep : Number := .real 1e-6

/-- Whether the gradient at a point passes the comparison with the default step. -/
def verifyGradient (x : Grid Float) (tolerance : Number) : Action Float Bool :=
  return (← checkGradient x tolerance.bounds (.ofNumber defaultStep)).passed

end Objective

end Summand
