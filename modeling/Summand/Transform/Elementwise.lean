import Summand.Elementary.Angle
import Summand.Transform.Basic

/-!
# Transforms by scalar maps

The transforms here apply one scalar map to every entry. They scale a variable, keep it above or
below a bound by an exponential, or keep it between two bounds by a sine.

Since nothing depends on the place of an entry, the maps apply to arrays of any shape. Arrays of
different shapes combine as far as they can be stretched to each other. The parameters of a
transform are checked as they are given, before they become numbers of the kind that the transform
computes with.
-/

namespace Summand

variable {α β : Type}

/-- The elementary functions of a number type. -/
class Transcendental (α : Type) where
  exp : α → α
  log : α → α
  sin : α → α
  cos : α → α
  arcsin : α → α
  /-- The nearest number between minus one and one. -/
  clampUnit : α → α

instance : Transcendental Float where
  exp := Elementary.exp
  log := Elementary.log
  sin := Elementary.sin
  cos := Elementary.cos
  arcsin := Elementary.asin
  clampUnit x := if x < -1.0 then -1.0 else if 1.0 < x then 1.0 else x

/-- A transform by a scalar map, with the map's inverse and its derivative. -/
structure Elementwise (α : Type) where
  name : String
  dimension : Nat
  forward : α → α
  inverse : α → α
  derivative : α → α

namespace Elementwise

/-! ### Arrays -/

/-- An array overwritten by values. -/
def overwritten (out values : Grid α) : Except Failure (Grid α) :=
  if out.shape.isEmpty then .error Grid.noAxis
  else do return { out with entries := ← values.stretchTo out.shape }

/-- Adds to an array a gradient times the derivative at a point. The array keeps its shape. -/
def addGradient [Add α] [Mul α] (e : Elementwise α) (point gradient accumulator : Grid α) :
    Except Failure (Grid α) := do
  accumulator.combine (· + ·) (← Grid.zipWith (· * ·) gradient (point.map e.derivative))

/-- The transform of arrays, under an identity. -/
def toTransform [Add α] [Mul α] (id : Nat) (e : Elementwise α) : Transform α where
  id
  name := e.name
  inputDimension := e.dimension
  outputDimension := e.dimension
  toUser out point := .attempt (overwritten · (point.map e.forward)) out
  toOptimization out value := .attempt (overwritten · (value.map e.inverse)) out
  projectGradient accumulator point gradient := .once (e.addGradient point gradient) accumulator

/-! ### Maps -/

section Maps

variable [Add α] [Sub α] [Mul α] [Div α] [Neg α] [OfNat α 1] [OfNat α 2]

/-- `x = factor · t`. -/
def scaling (n : Nat) (factor : α) : Elementwise α :=
  ⟨"Scaled", n, fun t ↦ factor * t, fun x ↦ x / factor, fun _ ↦ factor⟩

variable [Transcendental α]

/-- `x = bound + exp t`, so that `x` exceeds the bound. -/
def above (n : Nat) (bound : α) : Elementwise α :=
  ⟨"GreaterThan", n, fun t ↦ bound + Transcendental.exp t,
    fun x ↦ Transcendental.log (x - bound), Transcendental.exp⟩

/-- `x = bound - exp t`, so that `x` is below the bound. -/
def below (n : Nat) (bound : α) : Elementwise α :=
  ⟨"LessThan", n, fun t ↦ bound - Transcendental.exp t,
    fun x ↦ Transcendental.log (bound - x), fun t ↦ -(Transcendental.exp t)⟩

/-- `x = lower + (upper - lower) (sin t + 1) / 2`, so that `x` stays between the bounds. Values
outside of the bounds are taken back to the nearer one. -/
def between (n : Nat) (lower upper : α) : Elementwise α :=
  ⟨"Box", n, fun t ↦ lower + (upper - lower) * (Transcendental.sin t + 1) / 2,
    fun x ↦
      Transcendental.arcsin (Transcendental.clampUnit (2 * (x - lower) / (upper - lower) - 1)),
    fun t ↦ (upper - lower) * Transcendental.cos t / 2⟩

end Maps

/-! ### Building

The builders take parameters of one type and a function that says which number of another type each
of them denotes, if any.
-/

/-- Why a transform cannot be built from parameters. -/
inductive Fault (β : Type) where
  | dimension (given : Int)
  | zeroFactor
  | emptyRange (lower upper : β)
  /-- A parameter denotes no number that the transform can compute with. -/
  | parameter (fault : Number.Fault)

/-- The failure that a fault is reported as. -/
def Fault.failure : Fault Number → Failure
  | .dimension given =>
    .raised "ValueError" ("Dimension must be positive, got " ++ toString given)
  | .zeroFactor => .raised "ValueError" "Scale factor must be non-zero"
  | .emptyRange lower upper =>
    .raised "ValueError"
      ("Box requires lower < upper, got [" ++ lower.shown ++ ", " ++ upper.shown ++ "]")
  | .parameter fault => .number fault

/-- The dimension as a natural number, which has to be positive. -/
def checkDimension (dimension : Int) : Except (Fault β) Nat :=
  if dimension ≤ 0 then .error (.dimension dimension) else .ok dimension.toNat

/-- The number that a parameter denotes. -/
def denoted (denote : β → Except Number.Fault α) (given : β) : Except (Fault β) α :=
  (denote given).mapError .parameter

variable [Add α] [Sub α] [Mul α] [Div α] [Neg α] [OfNat α 1] [OfNat α 2]

/-- The transform that multiplies by a factor. -/
def scaled [BEq β] [OfNat β 0] (denote : β → Except Number.Fault α) (dimension : Int)
    (factor : β) : Except (Fault β) (Elementwise α) := do
  let n ← checkDimension dimension
  if factor == 0 then throw .zeroFactor
  return scaling n (← denoted denote factor)

variable [Transcendental α]

/-- The transform that keeps a variable above a bound. -/
def greaterThan (denote : β → Except Number.Fault α) (dimension : Int) (bound : β) :
    Except (Fault β) (Elementwise α) := do
  let n ← checkDimension dimension
  return above n (← denoted denote bound)

/-- The transform that keeps a variable below a bound. -/
def lessThan (denote : β → Except Number.Fault α) (dimension : Int) (bound : β) :
    Except (Fault β) (Elementwise α) := do
  let n ← checkDimension dimension
  return below n (← denoted denote bound)

/-- The transform that keeps a variable between two bounds. -/
def box [LT β] [DecidableLT β] (denote : β → Except Number.Fault α) (dimension : Int)
    (lower upper : β) : Except (Fault β) (Elementwise α) := do
  let n ← checkDimension dimension
  if ¬ lower < upper then throw (.emptyRange lower upper)
  let low ← denoted denote lower
  return between n low (← denoted denote upper)

end Elementwise

end Summand
