/-!
# The order within long columns

When the columns of a matrix are sorted by rows, the entries of one row keep their order in columns
of up to sixteen entries. Longer columns are split first: a pivot is chosen among three entries, and
entries on the wrong side of it change places, until the parts are short. A part that is still long
after it has been split often enough is sorted as a heap. That can exchange entries of one row, so
it decides in which order they are added up.
-/

namespace Summand.Arrangement

variable {α : Type}

/-- The greatest length of a part that is not split. -/
def shortLength : Nat := 16

/-- The row of the entry at a position. -/
def rowAt (a : Array (Nat × α)) (i : Nat) : Nat := (a[i]?).elim 0 Prod.fst

/-! ### Pivots -/

/-- The position of the median of three entries by their rows. -/
def medianOf (a : Array (Nat × α)) (i j k : Nat) : Nat :=
  if rowAt a i < rowAt a j then
    if rowAt a j < rowAt a k then j else if rowAt a i < rowAt a k then k else i
  else if rowAt a i < rowAt a k then i
  else if rowAt a j < rowAt a k then k
  else j

/-- The entries of a part with its pivot exchanged to the front. -/
def pivotToFront (first last : Nat) (a : Array (Nat × α)) : Array (Nat × α) :=
  a.swapIfInBounds first (medianOf a (first + 1) (first + (last - first) / 2) (last - 1))

/-! ### Splitting -/

/-- The first position from `i` on whose row is not below a pivot. -/
def skipBelow (pivot : Nat) (a : Array (Nat × α)) (i : Nat) : Nat :=
  if i < a.size && rowAt a i < pivot then skipBelow pivot a (i + 1) else i
termination_by a.size - i
decreasing_by simp_all; omega

/-- The last position up to `i` whose row is not above a pivot. -/
def skipAbove (pivot : Nat) (a : Array (Nat × α)) : Nat → Nat
  | 0 => 0
  | i + 1 => if pivot < rowAt a (i + 1) then skipAbove pivot a i else i + 1

/-- Exchanges entries until all that are below a pivot stand before a position and all that are
above it do not, and returns that position. Every exchange takes a step forward, so there are fewer
of them than entries. -/
def exchange (pivot : Nat) : (steps first last : Nat) → Array (Nat × α) → Array (Nat × α) × Nat
  | 0, first, _, a => (a, first)
  | steps + 1, first, last, a =>
    let first := skipBelow pivot a first
    let last := skipAbove pivot a (last - 1)
    if first < last then exchange pivot steps (first + 1) last (a.swapIfInBounds first last)
    else (a, first)

/-! ### Heaps

A part of `count` entries from position `first` on is a tree: the children of the node `n` are the
nodes `2 * n + 1` and `2 * n + 2`. In a heap no child's row is above that of its parent.
-/

/-- The child of a node with the greater row, the second one if both have the same. -/
def greaterChild (first count node : Nat) (a : Array (Nat × α)) : Nat :=
  let second := first + (2 * node + 2)
  if 2 * node + 2 < count && rowAt a (second - 1) ≤ rowAt a second then 2 * node + 2
  else 2 * node + 1

theorem lt_greaterChild (first count node : Nat) (a : Array (Nat × α)) :
    node < greaterChild first count node a := by
  unfold greaterChild
  dsimp only
  split <;> omega

/-- Moves the entry of a node down to a leaf along the greater children, and returns that leaf. -/
def sink (first count node : Nat) (a : Array (Nat × α)) : Array (Nat × α) × Nat :=
  if 2 * node + 1 < count then
    let child := greaterChild first count node a
    sink first count child (a.swapIfInBounds (first + node) (first + child))
  else (a, node)
termination_by count - node
decreasing_by
  have := lt_greaterChild first count node a
  omega

/-- Moves the entry of a node up past the parents with lower rows, no further than to a node. -/
def rise (first top node : Nat) (a : Array (Nat × α)) : Array (Nat × α) :=
  let parent := (node - 1) / 2
  if top < node && rowAt a (first + parent) < rowAt a (first + node) then
    rise first top parent (a.swapIfInBounds (first + parent) (first + node))
  else a
termination_by node
decreasing_by simp_all; omega

/-- Puts the entry of a node in its place among the nodes under it, which are heaps. -/
def settle (first count node : Nat) (a : Array (Nat × α)) : Array (Nat × α) :=
  let (a, leaf) := sink first count node a
  rise first node leaf a

/-- Orders a part as a heap, from the last parent to the root. -/
def heapify (first count : Nat) (a : Array (Nat × α)) : Array (Nat × α) :=
  (List.range (count / 2)).foldr (settle first count) a

/-- Sorts a part by rows: the greatest entry of a heap changes places with the last one, and what is
before it becomes a heap again. -/
def heapSort (first count : Nat) (a : Array (Nat × α)) : Array (Nat × α) :=
  (List.range (count - 1)).foldr
    (fun k a ↦ settle first (k + 1) 0 (a.swapIfInBounds first (first + (k + 1))))
    (heapify first count a)

/-! ### Columns -/

/-- Splits a part of a column, and then the parts of it, down to a depth at which the parts that are
still long are sorted. -/
def split : (depth first last : Nat) → Array (Nat × α) → Array (Nat × α)
  | 0, first, last, a =>
    if last - first ≤ shortLength then a else heapSort first (last - first) a
  | depth + 1, first, last, a =>
    if last - first ≤ shortLength then a
    else
      let a := pivotToFront first last a
      let (a, cut) := exchange (rowAt a first) a.size (first + 1) last a
      split depth first cut (split depth cut last a)

/-- A column after it has been split. -/
def arrange (column : List (Nat × α)) : List (Nat × α) :=
  (split (2 * Nat.log2 column.length) 0 column.length column.toArray).toList

/-- Whether the rows of a column never descend. -/
def isAscending : List (Nat × α) → Bool
  | [] | [_] => true
  | e :: f :: rest => e.1 ≤ f.1 && isAscending (f :: rest)

/-- The columns as they are added up: as they are if none of them has to be sorted. -/
def arrangeAll (columns : List (List (Nat × α))) : List (List (Nat × α)) :=
  if columns.all isAscending then columns else columns.map arrange

end Summand.Arrangement
