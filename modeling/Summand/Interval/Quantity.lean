import Summand.Failure
import Summand.Interval.Arithmetic

/-!
# Quantities

A quantity is an interval or a number. An operation with an interval among its operands is one on
intervals, for which a number stands for the interval that holds it alone; an operation on numbers
stays one on numbers. What only intervals know cannot be asked of numbers.
-/

namespace Summand

/-- An interval or a number. -/
inductive Quantity where
  | interval (value : Interval)
  | number (value : Number)

namespace Quantity

/-! ### Results -/

/-- A result on intervals. -/
def ofInterval (result : Except Interval.Fault Interval) : Except Failure Quantity :=
  (result.map .interval).mapError .interval

/-- A result on numbers. -/
def ofNumber (result : Except Number.Fault Number) : Except Failure Quantity :=
  (result.map .number).mapError .number

/-- The failure of asking a number for what only intervals know. -/
def notOfNumbers (n : Number) (name : String) : Failure := .missingAttribute n.toJson name

/-- What an interval knows under a name. -/
def ask {β : Type} (q : Quantity) (name : String) (f : Interval → β) : Except Failure β :=
  match q with
  | .interval i => .ok (f i)
  | .number n => .error (notOfNumbers n name)

/-! ### Arithmetic -/

def add : Quantity → Quantity → Except Failure Quantity
  | .interval i, .interval j => ofInterval (i.add j)
  | .interval i, .number n | .number n, .interval i => ofInterval (i.addNumber n)
  | .number m, .number n => ofNumber (m.add n)

def sub : Quantity → Quantity → Except Failure Quantity
  | .interval i, .interval j => ofInterval (i.sub j)
  | .interval i, .number n => ofInterval (i.subNumber n)
  | .number n, .interval i => ofInterval (Interval.numberSub n i)
  | .number m, .number n => ofNumber (m.sub n)

def mul : Quantity → Quantity → Except Failure Quantity
  | .interval i, .interval j => ofInterval (i.mul j)
  | .interval i, .number n | .number n, .interval i => ofInterval (i.mulNumber n)
  | .number m, .number n => ofNumber (m.mul n)

def div : Quantity → Quantity → Except Failure Quantity
  | .interval i, .interval j => ofInterval (i.div j)
  | .interval i, .number n => ofInterval (i.divNumber n)
  | .number n, .interval i => ofInterval (Interval.numberDiv n i)
  | .number m, .number n => ofNumber (m.div n)

def neg : Quantity → Except Failure Quantity
  | .interval i => ofInterval i.neg
  | .number n => .ok (.number n.neg)

def abs : Quantity → Except Failure Quantity
  | .interval i => ofInterval i.abs
  | .number n => .ok (.number n.abs)

/-- The failure of a number's power to something that is no number. -/
def notExponent : Failure := .raised "TypeError" "an exponent is a number"

/-- The power to a given exponent, if it is real. -/
def power (q : Quantity) (exponent : Json) : Except Failure (Option Quantity) :=
  match q, Number.ofJson? exponent with
  | .interval i, _ => some <$> ofInterval (i.power exponent)
  | .number n, some k => ((n.power k).map (·.map .number)).mapError .number
  | .number _, none => .error notExponent

/-- A function that only intervals have, under its name. -/
def apply (name : String) (f : Interval → Except Interval.Fault Interval) (q : Quantity) :
    Except Failure Quantity := do
  ofInterval (← q.ask name f)

/-! ### Comparisons and views -/

/-- Whether two quantities are equal. An interval never equals a number. -/
def equals : Quantity → Quantity → Bool
  | .interval i, .interval j => i == j
  | .number m, .number n => m == n
  | _, _ => false

/-- Whether a quantity lies inside of another one, which has to be an interval. -/
def contains (q inner : Quantity) : Except Failure Bool :=
  q.ask "contains" fun i ↦
    match inner with
    | .interval j => i.containsInterval j
    | .number n => i.containsNumber n

/-- The failure of taking a number apart. -/
def noBounds : Failure := .raised "TypeError" "a number has no bounds"

/-- Both bounds of an interval. -/
def bounds : Quantity → Except Failure (List Float)
  | .interval i => .ok [i.lower, i.upper]
  | .number _ => .error noBounds

/-- The text of a quantity in messages. -/
def shown : Quantity → String
  | .interval i => i.shown
  | .number n => n.shown

end Quantity

end Summand
