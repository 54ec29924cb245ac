import Summand.Failure
import Summand.Number.Form

/-!
# Arrays of any rank

A grid is an array with a shape, its entries in row-major order. It is what a nested list of
numbers denotes, provided that all lists of one depth are equally long and end at one depth, and
that there are no more depths than an array has room for.

Arrays of different shapes combine by stretching: sizes are compared from the innermost outward,
and a size of one, or a missing one, stands for any size.
-/

namespace Summand

variable {α : Type}

/-- A number or a list of such, nested to any depth. -/
inductive Nested (α : Type) where
  | leaf (value : α)
  | node (items : List (Nested α))

/-- An array of the given shape. -/
structure Grid (α : Type) where
  shape : List Nat
  entries : List α

namespace Grid

/-- The array of rank one with the given entries. -/
def vector (entries : List α) : Grid α := ⟨[entries.length], entries⟩

/-- The shape as messages show it. -/
def sizes (g : Grid α) : List Int := g.shape.map Int.ofNat

/-- The text of a shape. -/
def shapeText (shape : List Nat) : String := Text.shape (shape.map Int.ofNat)

/-- The greatest rank of an array. -/
def maxRank : Nat := 64

/-- The number of entries that a shape has room for. -/
def volume (shape : List Nat) : Nat := shape.foldl (· * ·) 1

mutual

/-- The entries as a nested list of the grid's shape. -/
def nestedEntries : List Nat → List α → Nested α
  | [], entries => (entries.head?.map .leaf).getD (.node [])
  | n :: rest, entries => .node (nestedRows n rest entries)

/-- `n` equal parts of the entries, each nested by the rest of the shape. -/
def nestedRows : Nat → List Nat → List α → List (Nested α)
  | 0, _, _ => []
  | n + 1, rest, entries =>
    nestedEntries rest (entries.take (volume rest)) ::
      nestedRows n rest (entries.drop (volume rest))

end

def toNested (g : Grid α) : Nested α := nestedEntries g.shape g.entries

/-- The failure of selecting along an axis of an array that has none. -/
def noAxis : Failure :=
  .raised "IndexError" "too many indices for array: array is 0-dimensional, but 1 were indexed"

/-! ### Rows -/

/-- The shape of a row along the first axis. -/
def rowShape (g : Grid α) (k : Nat) : Except Failure (List Nat) :=
  match g.shape with
  | [] => .error noAxis
  | n :: rest => if k < n then .ok rest else .error (.outOfBounds k 0 n)

/-- The failure of taking a row of several numbers for a number. -/
def notScalar : Failure := .raised "TypeError" "a row is no number"

/-- The number at a position of a vector. -/
def scalarAt (g : Grid α) (k : Nat) : Except Failure α := do
  match ← g.rowShape k, g.entries[k]? with
  | [], some x => return x
  | _, _ => throw notScalar

/-- An array with all entries of a row changed. -/
def modifyRow (g : Grid α) (k : Nat) (f : α → α) : Except Failure (Grid α) := do
  let width := volume (← g.rowShape k)
  let within (i : Nat) : Bool := k * width ≤ i && i < (k + 1) * width
  return { g with entries := g.entries.mapIdx fun i x ↦ if within i then f x else x }

/-- An array with a number in all places of a row. -/
def setRow (g : Grid α) (k : Nat) (x : α) : Except Failure (Grid α) := g.modifyRow k fun _ ↦ x

/-! ### Stretching -/

/-- The entries of an array of one shape for an array of another. -/
def stretchEntries? (target shape : List Nat) (entries : List α) : Option (List α) :=
  match target, shape with
  | [], [] => some entries
  | [], m :: more => if m = 1 then stretchEntries? [] more entries else none
  | n :: rest, [] => (stretchEntries? rest [] entries).map fun row ↦ (List.replicate n row).flatten
  | n :: rest, m :: more =>
    if more.length < rest.length then
      (stretchEntries? rest (m :: more) entries).map fun row ↦ (List.replicate n row).flatten
    else if rest.length < more.length then
      if m = 1 then stretchEntries? (n :: rest) more entries else none
    else if m = n then do
      let size := volume more
      let rows ← (List.range n).mapM fun k ↦
        stretchEntries? rest more ((entries.drop (k * size)).take size)
      return rows.flatten
    else if m = 1 then
      (stretchEntries? rest more entries).map fun row ↦ (List.replicate n row).flatten
    else none
termination_by target.length + shape.length

/-- The entries of an array for an array of another shape. -/
def stretch? (g : Grid α) (target : List Nat) : Option (List α) :=
  if g.shape = target then some g.entries else stretchEntries? target g.shape g.entries

/-- Why arrays of different shapes do not fit together. -/
inductive Mismatch where
  /-- There is no shape that all operands can be stretched to. -/
  | operands (shapes : List (List Nat))
  /-- Values cannot be stretched to the array that is overwritten with them. -/
  | values (shape target : List Nat)
  /-- The operands are stretched to another shape than that of the array changed in place. -/
  | outcome (target joined : List Nat)

/-- What is told about arrays that do not fit together. -/
def Mismatch.message : Mismatch → String
  | .operands shapes =>
    "operands could not be broadcast together with shapes " ++
      String.join (shapes.map fun shape ↦ shapeText shape ++ " ")
  | .values shape target =>
    "could not broadcast input array from shape " ++ shapeText shape ++ " into shape " ++
      shapeText target
  | .outcome target joined =>
    "non-broadcastable output operand with shape " ++ shapeText target ++
      " doesn't match the broadcast shape " ++ shapeText joined

/-- The failure of fitting arrays together. -/
def Mismatch.failure (m : Mismatch) : Failure := .raised "ValueError" m.message

/-- The entries of an array for an array of another shape, which is overwritten with them. -/
def stretchTo (target : List Nat) (g : Grid α) : Except Failure (List α) :=
  (g.stretch? target).elim (.error (Mismatch.values g.shape target).failure) .ok

/-- The shape that arrays of two shapes are both stretched to when they are combined, with the sizes
of both shapes from the innermost outward. -/
def reversedJoin? : List Nat → List Nat → Option (List Nat)
  | [], shape | shape, [] => some shape
  | m :: shape, n :: other =>
    if m = n || n = 1 then (reversedJoin? shape other).map (m :: ·)
    else if m = 1 then (reversedJoin? shape other).map (n :: ·)
    else none

/-- The shape that arrays of two shapes are both stretched to when they are combined. -/
def join? (shape other : List Nat) : Option (List Nat) :=
  (reversedJoin? shape.reverse other.reverse).map List.reverse

/-- The array of the results of a function on the entries. -/
def map {β : Type} (f : α → β) (g : Grid α) : Grid β := ⟨g.shape, g.entries.map f⟩

/-- The array of the nearest doubles. -/
def doubles (g : Grid Number) : Except Failure (Grid Float) := do
  return ⟨g.shape, ← g.entries.mapM Number.double⟩

/-- The array of numbers in their common form. -/
def formed (g : Grid Number) : Grid Number := { g with entries := Number.formed g.entries }

/-- Two arrays combined entry by entry. -/
def zipWith (f : α → α → α) (g h : Grid α) : Except Failure (Grid α) :=
  let combined? : Option (Grid α) := do
    let shape ← if g.shape = h.shape then some g.shape else join? g.shape h.shape
    return ⟨shape, List.zipWith f (← g.stretch? shape) (← h.stretch? shape)⟩
  combined?.elim (.error (Mismatch.operands [g.shape, h.shape]).failure) .ok

/-- An array combined in place with another one, which keeps the shape of the first. -/
def combine (f : α → α → α) (target g : Grid α) : Except Failure (Grid α) :=
  match join? target.shape g.shape with
  | none => .error (Mismatch.operands [target.shape, g.shape, target.shape]).failure
  | some joined =>
    if joined ≠ target.shape then .error (Mismatch.outcome target.shape joined).failure
    else do return ⟨joined, List.zipWith f target.entries (← g.stretchTo joined)⟩

end Grid

namespace Nested

/-- The sizes on which two shapes agree from the outside. -/
def commonShape : List Nat → List Nat → List Nat
  | m :: shape, n :: other => if m = n then m :: commonShape shape other else []
  | _, _ => []

mutual

/-- The sizes that all parts of a nested list agree on, from the outside. -/
def outerShape : Nested α → List Nat
  | .leaf _ => []
  | .node items => items.length :: outerShapes items

/-- The sizes that all items agree on. -/
def outerShapes : List (Nested α) → List Nat
  | [] => []
  | [item] => outerShape item
  | item :: rest => commonShape (outerShape item) (outerShapes rest)

end

mutual

/-- Whether a nested list has exactly the given shape. -/
def hasShape : List Nat → Nested α → Bool
  | [], .leaf _ => true
  | n :: shape, .node items => items.length == n && haveShape shape items
  | _, _ => false

def haveShape (shape : List Nat) : List (Nested α) → Bool
  | [] => true
  | item :: rest => hasShape shape item && haveShape shape rest

end

mutual

/-- The leaves from left to right. -/
def leaves : Nested α → List α
  | .leaf value => [value]
  | .node items => leavesAll items

def leavesAll : List (Nested α) → List α
  | [] => []
  | item :: rest => leaves item ++ leavesAll rest

end

/-- The beginning of every message about a list in the place of a number. -/
def unfit : String := "setting an array element with a sequence. The requested array "

/-- The failure of a nested list whose parts disagree. -/
def ragged (shape : List Nat) : Failure :=
  .raised "ValueError"
    (unfit ++ "has an inhomogeneous shape after " ++ toString shape.length ++
      " dimensions. The detected shape was " ++ Grid.shapeText shape ++
      " + inhomogeneous part.")

/-- The failure of a nested list that goes on below the deepest axis. -/
def tooDeep (rank : Nat) : Failure :=
  .raised "ValueError"
    (unfit ++ "would exceed the maximum number of dimension of " ++ toString rank ++ ".")

/-- The array that a nested list denotes, of a rank up to a limit. -/
def toGrid (limit : Nat) (nested : Nested α) : Except Failure (Grid α) :=
  let shape := nested.outerShape.take limit
  if nested.hasShape shape then .ok ⟨shape, nested.leaves⟩
  else .error (if shape.length = limit then tooDeep limit else ragged shape)

end Nested

end Summand
