import Summand.Elementary.Power
import Summand.Number.Basic

/-!
# Arithmetic on numbers of either kind

Sums, differences, products and natural powers of integers are integers. All other results are
doubles, for which integers are rounded first; only a quotient of integers is rounded as a whole.
-/

namespace Summand.Number

/-- A result that is exact on integers. -/
def combine (onIntegers : Int → Int → Int) (onDoubles : Float → Float → Float) :
    Number → Number → Except Fault Number
  | .int m, .int n => .ok (.int (onIntegers m n))
  | a, b => do return .real (onDoubles (← a.toFloat) (← b.toFloat))

def add : Number → Number → Except Fault Number := combine (· + ·) (· + ·)

def sub : Number → Number → Except Fault Number := combine (· - ·) (· - ·)

def mul : Number → Number → Except Fault Number := combine (· * ·) (· * ·)

/-- Twice a number, for which nothing is rounded. -/
def twice : Number → Number
  | .real x => .real (2 * x)
  | .int n => .int (2 * n)

def neg : Number → Number
  | .real x => .real (-x)
  | .int n => .int (-n)

def abs : Number → Number
  | .real x => .real x.abs
  | .int n => .int n.natAbs

/-- The quotient of two doubles, which fails where the divisor is zero. -/
def quotient (x y : Float) : Except Fault Float :=
  if y == 0.0 then .error .zeroDivisor else .ok (x / y)

/-- The double nearest to the quotient of two integers. -/
def quotientOfIntegers (m n : Int) : Except Fault Float :=
  if n = 0 then .error .zeroIntegerDivisor
  else
    let x := Binary64.roundQuotient (decide (m < 0) != decide (n < 0)) m.natAbs n.natAbs
    if x.isInf then .error .quotientTooLarge else .ok x

def div : Number → Number → Except Fault Number
  | .int m, .int n => .real <$> quotientOfIntegers m n
  | a, b => do return .real (← quotient (← a.toFloat) (← b.toFloat))

/-- The power of a double to a double, if it is real: fractional powers of negative numbers are
not. -/
def powerOfDoubles (x y : Float) : Except Fault (Option Float) :=
  let isFinite := x.isFinite && y.isFinite
  let isReal := !(isFinite && x < 0.0 && (Binary64.toInt? y).isNone)
  let z := Elementary.power (if isReal then x else -x) y
  if x == 0.0 && y < 0.0 && y.isFinite then .error .zeroBase
  else if isFinite && z.isInf then .error (if isReal then .powerOverflow else .complexOverflow)
  else .ok (if isReal then some z else none)

/-- The power of a number to a number, if it is real. -/
def power : Number → Number → Except Fault (Option Number)
  | .int m, .int (.ofNat n) => .ok (some (.int (m.pow n)))
  | a, b => do return (← powerOfDoubles (← a.toFloat) (← b.toFloat)).map .real

end Summand.Number
