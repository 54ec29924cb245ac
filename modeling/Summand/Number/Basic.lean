import Summand.Decimal.Layout
import Summand.Json.Basic

/-!
# Numbers of either kind

A number is an integer of any size or a double. Integers stay exact until a double is asked for;
they are rounded to the nearest one then, if there is one. Numbers are compared by what they denote,
whatever their kinds, so that an integer that is no double differs from the nearest one.
-/

namespace Summand

/-- A number given exactly. -/
inductive Number where
  | real (value : Float)
  | int (value : Int)
  deriving Inhabited

namespace Number

instance {n : Nat} : OfNat Number n := ⟨.int n⟩

/-- Why an operation on numbers has no result. -/
inductive Fault where
  /-- A double was divided by zero. -/
  | zeroDivisor
  /-- An integer was divided by zero. -/
  | zeroIntegerDivisor
  /-- Zero was raised to a negative power. -/
  | zeroBase
  /-- A power of a finite number overflows. -/
  | powerOverflow
  /-- A fractional power of a negative number, which is complex, overflows. -/
  | complexOverflow
  /-- An exponential of a finite number overflows. -/
  | expOverflow
  /-- A function was applied to a number outside of its domain. -/
  | outOfDomain
  /-- An integer exceeds every finite double. -/
  | integerTooLarge
  /-- A quotient of integers exceeds every finite double. -/
  | quotientTooLarge

/-- The text of a fault. -/
def Fault.message : Fault → String
  | .zeroDivisor => "float division by zero"
  | .zeroIntegerDivisor => "division by zero"
  | .zeroBase => "0.0 cannot be raised to a negative power"
  | .powerOverflow => "(34, 'Numerical result out of range')"
  | .complexOverflow => "complex exponentiation"
  | .expOverflow => "math range error"
  | .outOfDomain => "math domain error"
  | .integerTooLarge => "int too large to convert to float"
  | .quotientTooLarge => "integer division result too large for a float"

/-- The kind of error under which a fault is reported. -/
def Fault.kind : Fault → String
  | .zeroDivisor | .zeroIntegerDivisor | .zeroBase => "ZeroDivisionError"
  | .outOfDomain => "ValueError"
  | .powerOverflow | .complexOverflow | .expOverflow | .integerTooLarge | .quotientTooLarge =>
    "OverflowError"

/-! ### Conversion -/

/-- The double nearest to an integer. -/
def floatOfInt (n : Int) : Except Fault Float :=
  (Binary64.ofInt? n).elim (.error .integerTooLarge) .ok

/-- The double nearest to a number, infinite when an integer exceeds every finite double. -/
def nearest : Number → Float
  | .real x => x
  | .int n => Binary64.ofInt n

/-- The finite double nearest to an integer, or a double as it is. -/
def toFloat : Number → Except Fault Float
  | .real x => .ok x
  | .int n => floatOfInt n

/-- The number that a value stands for: truth values count as zero and one. -/
def ofJson? : Json → Option Number
  | .int n => some (.int n)
  | .bool b => some (.int b.toNat)
  | .real x => some (.real x)
  | _ => none

/-- A number as a value. -/
def toJson : Number → Json
  | .real x => .real x
  | .int n => .int n

/-- The text of a number in messages. -/
def shown : Number → String
  | .real x => Decimal.plainText x
  | .int n => toString n

/-! ### Order -/

/-- The order of two numbers, which is exact; a NaN has none. -/
def compare? : Number → Number → Option Ordering
  | .int m, .int n => some (compare m n)
  | .real x, .int n => Binary64.compareInt? x n
  | .int m, .real y => (Binary64.compareInt? y m).map Ordering.swap
  | .real x, .real y =>
    if x < y then some .lt else if x == y then some .eq else if y < x then some .gt else none

instance : BEq Number := ⟨fun a b ↦ compare? a b == some .eq⟩

instance : LT Number := ⟨fun a b ↦ compare? a b = some .lt⟩

instance : DecidableLT Number := fun a b ↦ inferInstanceAs (Decidable (compare? a b = some .lt))

/-- Whether a double is at most a number. -/
def bounds (n : Number) (x : Float) : Bool := (compare? (.real x) n).any (· != .gt)

end Number

end Summand
