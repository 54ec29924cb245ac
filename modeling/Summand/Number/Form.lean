import Summand.Number.Basic

/-!
# The common form of numbers

The numbers of an array that is given no element type take a form that fits all of them. Integers
that fit into machine words stay integers, unless doubles are among them, or words with a sign and
words without one. Integers beyond that leave all numbers as they are.
-/

namespace Summand.Number

/-- A form that several numbers have in common. -/
inductive Form where
  | integers
  | doubles
  /-- Each number is kept as it is. -/
  | mixed
  deriving Repr, DecidableEq

/-- Whether an integer fits into a machine word. -/
def fitsWord (n : Int) : Bool := -Int.pow 2 63 ≤ n && n < Int.pow 2 63

/-- Whether an integer fits into a machine word without a sign only. -/
def fitsUnsigned (n : Int) : Bool := Int.pow 2 63 ≤ n && n < Int.pow 2 64

/-- Whether a number is an integer with a property. -/
def isInteger (p : Int → Bool) : Number → Bool
  | .int n => p n
  | .real _ => false

/-- Whether a number is a double. -/
def isDouble : Number → Bool
  | .int _ => false
  | .real _ => true

/-- The form of the numbers of a new array. -/
def formOf (numbers : List Number) : Form :=
  if numbers.any (isInteger fun n ↦ !fitsWord n && !fitsUnsigned n) then .mixed
  else if numbers.any isDouble ||
      (numbers.any (isInteger fitsWord) && numbers.any (isInteger fitsUnsigned)) then .doubles
  else .integers

/-- The numbers of a new array in their common form. -/
def formed (numbers : List Number) : List Number :=
  match formOf numbers with
  | .doubles => numbers.map fun n ↦ .real n.nearest
  | .integers | .mixed => numbers

end Summand.Number
