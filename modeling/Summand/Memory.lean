import Summand.Binary64.Narrow
import Summand.Buffer
import Summand.Failure
import Summand.Grid
import Summand.Sparse

/-!
# Caller storage

Parameter blocks and output arrays belong to the caller. The memory is a row of cells, and a block
is an identity with the cells it covers, so that two blocks may share cells and still be told apart.
Storing rounds to the element type of the block. Arrays of integers and truth values have cells of
their own, since they hold integers exactly; objectives never read those.

Besides the cells the caller owns the targets of sparse Hessians, which are addressed by position.
-/

namespace Summand

variable {α : Type}

/-! ### Blocks -/

/-- The types of array elements. -/
inductive ElementType where
  | float64
  | float32
  | float16
  | int64
  | int32
  | bool
  | complex128
  deriving Repr, DecidableEq

namespace ElementType

def name : ElementType → String
  | .float64 => "float64"
  | .float32 => "float32"
  | .float16 => "float16"
  | .int64 => "int64"
  | .int32 => "int32"
  | .bool => "bool"
  | .complex128 => "complex128"

def all : List ElementType :=
  [.float64, .float32, .float16, .int64, .int32, .bool, .complex128]

/-- The type with a name. -/
def ofName? (name : String) : Option ElementType := all.find? fun t ↦ t.name == name

def isFloating : ElementType → Bool
  | .float64 | .float32 | .float16 => true
  | _ => false

/-- Whether the elements are integers or truth values. -/
def isIntegral : ElementType → Bool
  | .int64 | .int32 | .bool => true
  | _ => false

end ElementType

/-- An array of the caller: its identity, its shape, and the addresses of its elements in row-major
order, which are addresses of integers if the element type is integral. -/
structure Block where
  id : Nat
  shape : List Nat
  cells : List Nat
  element : ElementType := .float64
  writeable : Bool := true

namespace Block

/-- The number of elements. -/
def size (b : Block) : Nat := b.cells.length

/-- The shape as messages show it. -/
def sizes (b : Block) : List Int := b.shape.map Int.ofNat

/-- The block's first elements. -/
def front (b : Block) (count : Nat) : Block :=
  { b with shape := [min count b.cells.length], cells := b.cells.take count }

end Block

/-- What a caller passes as a block or an output array: an array, or some other object, of which
the name of its type is known. -/
inductive Handle where
  | array (block : Block)
  | object (typeName : String)

/-! ### Numbers that can be stored -/

/-- What the numbers of an objective need besides addition: how they are rounded to an element type
on storing, and the integers among them. -/
class Storable (α : Type) where
  /-- The number that a cell of the element type keeps. -/
  narrow : ElementType → α → α
  /-- Cells of double precision keep every number as it is. -/
  narrow_float64 : ∀ x, narrow .float64 x = x
  /-- The number an integer denotes, unless it is out of range. -/
  ofInt? : Int → Option α

instance : Storable Float where
  narrow
    | .float32, x => Binary64.toSingle x
    | .float16, x => Binary64.toHalf x
    | _, x => x
  narrow_float64 _ := rfl
  ofInt? := Binary64.ofInt?

/-! ### The memory -/

/-- The caller's cells and targets. -/
structure Memory (α : Type) where
  cells : Array α := #[]
  integers : Array Int := #[]
  targets : Array (HessianTarget α) := #[]

namespace Memory

/-- The elements of a block. -/
def read [Zero α] (m : Memory α) (b : Block) : List α :=
  b.cells.map fun a ↦ m.cells.getD a 0

/-- Stores one value after another in the cells of a block. -/
def writeCells [Storable α] (element : ElementType) :
    List Nat → List α → Array α → Array α
  | a :: addresses, v :: values, cells =>
    writeCells element addresses values (cells.setIfInBounds a (Storable.narrow element v))
  | _, _, cells => cells

/-- Stores values in a block, which need not be writeable. -/
def store [Storable α] (m : Memory α) (b : Block) (values : List α) : Memory α :=
  { m with cells := writeCells b.element b.cells values m.cells }

/-- The failure of storing in a block that is not writeable. -/
def readOnly : Failure := .raised "ValueError" "assignment destination is read-only"

/-- The target at a position, empty if there is none. -/
def target (m : Memory α) (position : Nat) : HessianTarget α :=
  m.targets.getD position {}

/-- Puts a target at a position. -/
def setTarget (m : Memory α) (position : Nat) (target : HessianTarget α) : Memory α :=
  { m with targets := m.targets.setIfInBounds position target }

end Memory

end Summand
