import Summand.Json.Printer
import Summand.Number.Basic

/-!
# Closed intervals of reals

An interval is a pair of doubles with the lower bound not above the upper one, which is what
`Interval.make` enforces; a NaN bound passes, since it is not above anything. A bound is widened
outward by one double after every operation that may have rounded, and a bound that is infinite
already stays. Minimum and maximum keep the first of equal candidates, so that the sign of a zero
and the place of a NaN follow the order of the operands.
-/

namespace Summand

/-- A closed interval. -/
structure Interval where
  lower : Float
  upper : Float
  deriving Inhabited, BEq

namespace Interval

/-- The text of an interval in messages. -/
def shown (i : Interval) : String :=
  "Interval(" ++ Decimal.plainText i.lower ++ ", " ++ Decimal.plainText i.upper ++ ")"

/-- Why an interval operation has no result. -/
inductive Fault where
  /-- The lower bound would exceed the upper one. -/
  | reversed (lower upper : Float)
  /-- The hull of no numbers was asked for. -/
  | emptyHull
  /-- The divisor contains zero. -/
  | zeroInDivisor (divisor : Interval)
  /-- The exponent is no natural number. -/
  | exponent (given : Json)
  /-- The logarithm needs a positive interval. -/
  | notPositive (given : Interval)
  /-- The square root needs an interval without negative numbers. -/
  | negative (given : Interval)
  /-- A bound or an operand has no result. -/
  | number (fault : Number.Fault)

/-- The text of a fault. -/
def Fault.message : Fault → String
  | .reversed lower upper =>
    "Invalid interval: lower=" ++ Decimal.plainText lower ++ " exceeds upper=" ++
      Decimal.plainText upper
  | .emptyHull => "Cannot build the hull of no values"
  | .zeroInDivisor divisor => "Interval division by " ++ divisor.shown ++ ", which contains zero"
  | .exponent given =>
    "Interval power requires a non-negative integer, got " ++ given.shown
  | .notPositive given => "Interval log requires a positive interval, got " ++ given.shown
  | .negative given => "Interval sqrt requires a non-negative interval, got " ++ given.shown
  | .number fault => fault.message

/-- The kind of error under which a fault is reported. -/
def Fault.kind : Fault → String
  | .zeroInDivisor _ => "ZeroDivisionError"
  | .number fault => fault.kind
  | _ => "ValueError"

/-! ### Construction -/

/-- The interval between two bounds. -/
def make (lower upper : Float) : Except Fault Interval :=
  if upper < lower then .error (.reversed lower upper) else .ok ⟨lower, upper⟩

/-- The bound that is nearest to a number. -/
def boundOf (n : Number) : Except Fault Float := n.toFloat.mapError .number

/-- The interval between two numbers, or the one number alone. -/
def ofNumbers (lower : Number) (upper : Option Number) : Except Fault Interval := do
  let low ← boundOf lower
  let high ← (upper.map boundOf).getD (.ok low)
  make low high

/-- The interval that holds a number's nearest double alone. -/
def ofNumber (n : Number) : Except Fault Interval := ofNumbers n none

/-- The first candidate unless the second is strictly less. -/
def minOf (a b : Float) : Float := if b < a then b else a

/-- The first candidate unless the second is strictly greater. -/
def maxOf (a b : Float) : Float := if a < b then b else a

/-- The least interval that holds the nearest doubles of all the numbers. -/
def hull (values : List Number) : Except Fault Interval := do
  match ← values.mapM boundOf with
  | [] => .error .emptyHull
  | x :: rest => make (rest.foldl minOf x) (rest.foldl maxOf x)

/-! ### Outward rounding -/

/-- One double further down, if the bound is finite. -/
def down (x : Float) : Float := if x.isFinite then Binary64.nextDown x else x

/-- One double further up, if the bound is finite. -/
def up (x : Float) : Float := if x.isFinite then Binary64.nextUp x else x

/-- The interval around two computed bounds. -/
def outward (lower upper : Float) : Except Fault Interval := make (down lower) (up upper)

/-! ### Views -/

def width (i : Interval) : Float := i.upper - i.lower

def midpoint (i : Interval) : Float := 0.5 * (i.lower + i.upper)

/-- Whether another interval lies inside. -/
def containsInterval (i j : Interval) : Bool := i.lower ≤ j.lower && j.upper ≤ i.upper

/-- Whether a number lies inside; an integer is compared without rounding it. -/
def containsNumber (i : Interval) : Number → Bool
  | .real x => i.lower ≤ x && x ≤ i.upper
  | .int n =>
    (Binary64.compareInt? i.lower n).any Ordering.isLE &&
      (Binary64.compareInt? i.upper n).any Ordering.isGE

end Interval

end Summand
