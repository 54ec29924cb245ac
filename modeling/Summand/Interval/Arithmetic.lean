import Summand.Interval.Basic
import Summand.Number.Arithmetic

/-!
# Interval arithmetic

Each operation computes candidate bounds in double arithmetic, takes the extreme ones and widens
them outward. A power is monotone where its argument is not negative or its exponent odd; an even
power falls on the negative numbers and is bounded by zero on an interval around zero.
-/

namespace Summand.Interval

/-! ### Field operations -/

def neg (i : Interval) : Except Fault Interval := make (-i.upper) (-i.lower)

def add (i j : Interval) : Except Fault Interval :=
  outward (i.lower + j.lower) (i.upper + j.upper)

def sub (i j : Interval) : Except Fault Interval :=
  outward (i.lower - j.upper) (i.upper - j.lower)

/-- The interval around the extreme ones of four candidates. -/
def around (a b c d : Float) : Except Fault Interval :=
  outward (minOf (minOf (minOf a b) c) d) (maxOf (maxOf (maxOf a b) c) d)

def mul (i j : Interval) : Except Fault Interval :=
  around (i.lower * j.lower) (i.lower * j.upper) (i.upper * j.lower) (i.upper * j.upper)

/-- The quotient of two bounds. -/
def divideBounds (a b : Float) : Except Fault Float :=
  (Number.quotient a b).mapError .number

/-- A quotient needs a divisor without zero. -/
def div (i j : Interval) : Except Fault Interval := do
  if j.lower ≤ 0.0 && 0.0 ≤ j.upper then throw (.zeroInDivisor j)
  let a ← divideBounds i.lower j.lower
  let b ← divideBounds i.lower j.upper
  let c ← divideBounds i.upper j.lower
  let d ← divideBounds i.upper j.upper
  around a b c d

/-! ### Powers -/

/-- The nearest double to a bound's power. The exponent is taken as its nearest double first. -/
def powerBound (x : Float) (n : Nat) : Except Fault Float :=
  match Binary64.toExponent? n with
  | none => .error (.number .integerTooLarge)
  | some k =>
    let y := Binary64.power x k
    if y.isInf && x.isFinite then .error (.number .powerOverflow) else .ok y

/-- The power of an interval to a natural exponent. -/
def powerNat (i : Interval) (n : Nat) : Except Fault Interval := do
  if n = 0 then make 1.0 1.0
  else if n % 2 = 1 || 0.0 ≤ i.lower then
    outward (← powerBound i.lower n) (← powerBound i.upper n)
  else if i.upper ≤ 0.0 then
    outward (← powerBound i.upper n) (← powerBound i.lower n)
  else
    make 0.0 (up (maxOf (← powerBound i.lower n) (← powerBound i.upper n)))

/-- The exponent that a given value stands for: truth values count as zero and one. -/
def exponentOf? : Json → Option Nat
  | .int n => if 0 ≤ n then some n.toNat else none
  | .bool b => some b.toNat
  | _ => none

/-- The power of an interval to a given exponent, which has to be a natural number. -/
def power (i : Interval) (exponent : Json) : Except Fault Interval :=
  match exponentOf? exponent with
  | some n => i.powerNat n
  | none => .error (.exponent exponent)

/-! ### Functions -/

def abs (i : Interval) : Except Fault Interval :=
  if 0.0 ≤ i.lower then make i.lower i.upper
  else if i.upper ≤ 0.0 then i.neg
  else make 0.0 (maxOf (-i.lower) i.upper)

/-- The exponential of a bound. -/
def expBound (x : Float) : Except Fault Float :=
  let y := Elementary.exp x
  if y.isInf && x.isFinite then .error (.number .expOverflow) else .ok y

/-- The natural logarithm of a bound. -/
def logBound (x : Float) : Except Fault Float :=
  if x ≤ 0.0 then .error (.number .outOfDomain) else .ok (Elementary.log x)

/-- The square root of a bound. -/
def sqrtBound (x : Float) : Except Fault Float :=
  if x < 0.0 then .error (.number .outOfDomain) else .ok x.sqrt

/-- The exponential is never negative, so its lower bound is not widened below zero. -/
def exp (i : Interval) : Except Fault Interval := do
  make (maxOf 0.0 (down (← expBound i.lower))) (up (← expBound i.upper))

def log (i : Interval) : Except Fault Interval := do
  if i.lower ≤ 0.0 then throw (.notPositive i)
  outward (← logBound i.lower) (← logBound i.upper)

/-- The square root is never negative, so its lower bound is not widened below zero. -/
def sqrt (i : Interval) : Except Fault Interval := do
  if i.lower < 0.0 then throw (.negative i)
  make (maxOf 0.0 (down (← sqrtBound i.lower))) (up (← sqrtBound i.upper))

/-! ### Numbers as operands -/

def addNumber (i : Interval) (n : Number) : Except Fault Interval := do i.add (← ofNumber n)

def subNumber (i : Interval) (n : Number) : Except Fault Interval := do i.sub (← ofNumber n)

/-- A number less an interval. -/
def numberSub (n : Number) (i : Interval) : Except Fault Interval := do (← ofNumber n).sub i

def mulNumber (i : Interval) (n : Number) : Except Fault Interval := do i.mul (← ofNumber n)

def divNumber (i : Interval) (n : Number) : Except Fault Interval := do i.div (← ofNumber n)

/-- A number over an interval. -/
def numberDiv (n : Number) (i : Interval) : Except Fault Interval := do (← ofNumber n).div i

end Summand.Interval
