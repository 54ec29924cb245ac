import Summand.Interval.Arithmetic
import Summand.Memory

/-!
# Terms

A term is one summand of an objective. It has a number of arguments, each a vector of its own
dimension, and computes a value, derivatives, and an interval enclosure of its value. Derivatives
are written into buffers that are zero when the term gets them, so that a term may assign to them
or add to them. What a term returns as its value may be an integer or nothing at all; it becomes a
number of the objective afterwards.
-/

namespace Summand

variable {α : Type}

/-- What a term returns as its value. -/
inductive Outcome (α : Type) where
  | real (value : α)
  | integer (value : Int)
  | nothing

namespace Outcome

/-- The failure of using an absent value as a number. -/
def absent : Failure :=
  .raised "TypeError" "float() argument must be a string or a real number, not 'NoneType'"

/-- The number that an outcome denotes. -/
def toScalar [Storable α] : Outcome α → Except Failure α
  | .real value => .ok value
  | .integer value =>
    match Storable.ofInt? value with
    | some x => .ok x
    | none => .error (.number .integerTooLarge)
  | .nothing => .error absent

end Outcome

/-- What a term returns as the enclosure of its value. -/
inductive Enclosed where
  | interval (value : Interval)
  | number (value : Number)
  | nothing

namespace Enclosed

/-- The interval that an enclosure denotes. -/
def toInterval : Enclosed → Except Failure Interval
  | .interval value => .ok value
  | .number value => (Interval.ofNumber value).mapError .interval
  | .nothing => .error Outcome.absent

end Enclosed

/-- A square of second-derivative blocks: the block at `(i, j)` is a matrix with a row for each
entry of argument `i` and a column for each entry of argument `j`. -/
abbrev HessianBlocks (α : Type) := List (List (List (List α)))

/-- The gradient buffers as a term leaves them, and its value. -/
structure FirstOrder (α : Type) where
  gradient : List (List α)
  value : Except Failure (Outcome α)

/-- The gradient and Hessian buffers as a term leaves them, and its value. -/
structure SecondOrder (α : Type) where
  gradient : List (List α)
  hessian : HessianBlocks α
  value : Except Failure (Outcome α)

/-- A summand of an objective. -/
structure Term (α : Type) where
  /-- The identity, by which terms are told apart. -/
  id : Nat
  name : String
  /-- The dimension of each argument. Nothing can be bound to a negative one, nor to zero. -/
  dimensions : List Int
  /-- The failure of telling the dimensions in messages, if one of them is not defined. Such a term
  has an argument of dimension zero before that one. -/
  tellFailure : Option Failure := none
  /-- The value at given arguments. -/
  value : (arguments : List (List α)) → Except Failure (Outcome α)
  /-- Writes the derivative by each argument and returns the value. -/
  firstOrder : (arguments gradient : List (List α)) → FirstOrder α
  /-- Writes first and second derivatives and returns the value. -/
  secondOrder : (arguments gradient : List (List α)) → HessianBlocks α → SecondOrder α
  /-- An enclosure of the value over a box. -/
  enclosure : (box : List (List Interval)) → Except Failure Enclosed
  /-- The failure of releasing the term, if that fails. -/
  closeFailure : Option Failure := none

namespace Term

def arity (t : Term α) : Nat := t.dimensions.length

/-- The size of each argument that the term can be bound to. -/
def sizes (t : Term α) : List Nat := t.dimensions.map Int.toNat

/-- The text of a term in messages. -/
def shown (t : Term α) : String :=
  t.name ++ "(dimensions=[" ++ ", ".intercalate (t.dimensions.map toString) ++ "])"

/-- The text of a term, unless its dimensions cannot be told. -/
def told (t : Term α) : Except Failure String :=
  match t.tellFailure with
  | none => .ok t.shown
  | some failure => .error failure

/-- The second-order part of a term without second derivatives. -/
def noSecondOrder (name : String) (gradient : List (List α)) (hessian : HessianBlocks α) :
    SecondOrder α :=
  ⟨gradient, hessian,
    .error (.raised "NotImplementedError" (name ++ " does not provide a Hessian"))⟩

/-- A term of which no part fails, but for its enclosure: the gradient and the Hessian replace what
the buffers hold. -/
def total (id : Nat) (name : String) (dimensions : List Int) (value : List (List α) → α)
    (gradient : List (List α) → List (List α)) (hessian : List (List α) → HessianBlocks α)
    (enclosure : List (List Interval) → Except Failure Enclosed) : Term α where
  id
  name
  dimensions
  value arguments := .ok (.real (value arguments))
  firstOrder arguments _ := ⟨gradient arguments, .ok (.real (value arguments))⟩
  secondOrder arguments _ _ :=
    ⟨gradient arguments, hessian arguments, .ok (.real (value arguments))⟩
  enclosure

/-- The first entry of an argument. -/
def first [Inhabited α] (arguments : List (List α)) (k : Nat) : α :=
  (arguments.getD k []).headD default

/-- The entry of a list at a position. -/
def listEntry {β : Type} (entries : List β) (k : Nat) : Except Failure β :=
  match entries[k]? with
  | some entry => .ok entry
  | none => .error .outOfRange

/-- The side of a box for an entry of an argument. A box may have fewer sides than the argument has
entries. -/
def side (box : List (List Interval)) (argument entry : Nat) : Except Failure Interval :=
  listEntry (box.getD argument []) entry

/-- The enclosure that an interval operation results in. -/
def enclosedBy (result : Except Interval.Fault Interval) : Except Failure Enclosed :=
  (result.map Enclosed.interval).mapError .interval

/-- The enclosure of a term without an interval form. -/
def noEnclosure (name : String) : Except Failure Enclosed :=
  .error (.raised "NotImplementedError" (name ++ " does not support interval evaluation"))

end Term

end Summand
