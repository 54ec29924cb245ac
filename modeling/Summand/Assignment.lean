import Summand.Allocation
import Summand.Memory
import Summand.Number.Form

/-!
# Assigning numbers

Numbers are stored in an array as its element type asks for. Floating cells keep the nearest number
of their format. Integral cells keep integers exactly: a double is taken toward zero, and what does
not fit into a machine word is refused. Truth values tell the numbers other than zero.

The numbers of a new array are brought to a form that fits all of them before they are brought to
the element type; there words wrap around, and doubles beyond a word are cut to its least integer.
An array that is overwritten takes numbers of its own shape one by one, so that those before one
that is refused are stored. Numbers of any other shape are brought to the element type first and
then stretched.
-/

namespace Summand

/-! ### Single numbers -/

namespace Assignment

/-- The failure of taking an undefined double for an integer. -/
def undefinedInteger : Failure := .raised "ValueError" "cannot convert float NaN to integer"

/-- The failure of taking an infinite double for an integer. -/
def infiniteInteger : Failure :=
  .raised "OverflowError" "cannot convert float infinity to integer"

/-- The failure of storing an integer among shorter ones. -/
def outOfBounds (n : Int) (element : ElementType) : Failure :=
  .raised "OverflowError"
    ("Python integer " ++ toString n ++ " out of bounds for " ++ element.name)

/-- The integer that a double denotes once its fraction is dropped. -/
def wholePart (x : Float) : Except Failure Int :=
  match Binary64.unpack x with
  | .notANumber => .error undefinedInteger
  | .infinity _ => .error infiniteInteger
  | .zero _ => .ok 0
  | .finite s m e _ => .ok (s.apply (Binary64.wholePart m e))

/-- An integer that has to fit into a machine word. -/
def word (n : Int) : Except Failure Int :=
  if Number.fitsWord n then .ok n else .error Allocation.noWord

/-- An integer that has to fit into half a machine word. -/
def halfWord (n : Int) : Except Failure Int := do
  let n ← word n
  if -Int.pow 2 31 ≤ n && n < Int.pow 2 31 then return n else throw (outOfBounds n .int32)

/-- The number that a cell of an element type keeps. -/
def convert (element : ElementType) (n : Number) : Except Failure Number :=
  match element, n with
  | .int64, .int n => .int <$> word n
  | .int64, .real x => .int <$> (wholePart x >>= word)
  | .int32, .int n => .int <$> halfWord n
  | .int32, .real x => .int <$> (wholePart x >>= halfWord)
  | .bool, .int n => .ok (.int (if n = 0 then 0 else 1))
  | .bool, .real x => .ok (.int (if x == 0.0 then 0 else 1))
  | _, n => (fun x ↦ .real (Storable.narrow element x)) <$> n.double

/-! ### Numbers of a new array -/

/-- The integer in a word of one more than the given number of bits that a double is cut to. Doubles
beyond that word are cut to its least integer. -/
def cutToWord (bits : Nat) (x : Float) : Int :=
  match wholePart x with
  | .ok n => if -Int.pow 2 bits ≤ n && n < Int.pow 2 bits then n else -Int.pow 2 bits
  | .error _ => -Int.pow 2 bits

/-- A double brought to an element type. -/
def castDouble (element : ElementType) (x : Float) : Number :=
  match element with
  | .int64 => .int (cutToWord 63 x)
  | .int32 => .int (cutToWord 31 x)
  | .bool => .int (if x == 0.0 then 0 else 1)
  | element => .real (Storable.narrow element x)

/-- An integer brought to an element type: it wraps around among the words, and is rounded among the
floating types, to single precision before it is rounded to half. -/
def castInteger (element : ElementType) (n : Int) : Number :=
  match element with
  | .int64 => .int (Int.bmod n (Nat.pow 2 64))
  | .int32 => .int (Int.bmod n (Nat.pow 2 32))
  | .bool => .int (if n = 0 then 0 else 1)
  | .float32 => .real (Binary64.singleOfInt n)
  | .float16 => .real (Binary64.toHalf (Binary64.singleOfInt n))
  | .float64 | .complex128 => .real (Binary64.ofInt n)

/-- The numbers of a new array brought to an element type. -/
def convertAll (element : ElementType) (numbers : List Number) : Except Failure (List Number) :=
  match Number.formOf numbers with
  | .mixed => numbers.mapM (convert element)
  | .doubles => .ok (numbers.map fun n ↦ castDouble element n.nearest)
  | .integers => numbers.mapM fun n ↦
    match n with
    | .int n => .ok (castInteger element n)
    | .real x => .ok (castDouble element x)

end Assignment

/-! ### Arrays -/

namespace Memory

/-- The elements of a block as numbers. -/
def numbers (m : Memory Float) (b : Block) : List Number :=
  if b.element.isIntegral then b.cells.map fun a ↦ .int (m.integers.getD a 0)
  else (m.read b).map .real

/-- Puts a number at an address, among the integers or among the doubles. -/
def put (m : Memory Float) (address : Nat) : Number → Memory Float
  | .real x => { m with cells := m.cells.setIfInBounds address x }
  | .int n => { m with integers := m.integers.setIfInBounds address n }

/-- Puts numbers at addresses. -/
def putAll : List Nat → List Number → Memory Float → Memory Float
  | a :: addresses, n :: numbers, m => putAll addresses numbers (m.put a n)
  | _, _, m => m

/-- Appends a cell, among the integers or among the doubles. -/
def extend (m : Memory Float) : Number → Memory Float
  | .real x => { m with cells := m.cells.push x }
  | .int n => { m with integers := m.integers.push n }

/-- A new block with its own cells, and the memory that has it. -/
def allocate (m : Memory Float) (id : Nat) (element : ElementType) (writeable : Bool)
    (values : Grid Number) : Except Failure (Block × Memory Float) := do
  let numbers ← Assignment.convertAll element values.entries
  let first := if element.isIntegral then m.integers.size else m.cells.size
  let block : Block :=
    ⟨id, values.shape, (List.range numbers.length).map (first + ·), element, writeable⟩
  return (block, numbers.foldl extend m)

/-- Stores numbers at addresses one by one, up to the first that is refused. -/
def assignEach (element : ElementType) :
    List Nat → List Number → Memory Float → Memory Float × Option Failure
  | a :: addresses, n :: numbers, m =>
    match Assignment.convert element n with
    | .error failure => (m, some failure)
    | .ok n => assignEach element addresses numbers (m.put a n)
  | _, _, m => (m, none)

/-- The elements of a block for an array of another shape. -/
def stretched (b : Block) (values : Grid Number) : Except Failure (List Number) := do
  let numbers ← values.entries.mapM (Assignment.convert b.element)
  Grid.stretchTo b.shape ⟨values.shape, numbers⟩

/-- Stores a nested list of numbers in a block: the memory after that, and the failure that ended it
early if there was one. -/
def overwrite (m : Memory Float) (b : Block) (values : Nested Number) :
    Memory Float × Option Failure :=
  if !b.writeable then (m, some readOnly)
  else if b.shape.isEmpty then (m, some Grid.noAxis)
  else
    match values.toGrid b.shape.length with
    | .error failure => (m, some failure)
    | .ok grid =>
      if grid.shape = b.shape then assignEach b.element b.cells grid.entries m
      else
        match stretched b grid with
        | .error failure => (m, some failure)
        | .ok numbers => (putAll b.cells numbers m, none)

end Memory

end Summand
