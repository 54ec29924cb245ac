import Summand.Assignment

/-!
# Numbers and arrays as JSON values

In reports the doubles that are not finite stand as their names. Arrays are nested lists of their
elements, which are written as their element type asks for. A sparse matrix is written by its
columns.
-/

namespace Summand.Report

def count (n : Nat) : Json := .int n

/-- A double; one that is not finite is written by name. -/
def number (x : Float) : Json := if x.isFinite then .real x else .text (Decimal.plainText x)

def vector (v : List Float) : Json := .list (v.map number)

def rows (a : List (List Float)) : Json := .list (a.map vector)

mutual

/-- A value whose doubles are written as in reports. -/
def value : Json → Json
  | .real x => number x
  | .list items => .list (values items)
  | .object fields => .object (fieldValues fields)
  | other => other

def values : List Json → List Json
  | [] => []
  | item :: rest => value item :: values rest

def fieldValues : List (String × Json) → List (String × Json)
  | [] => []
  | (name, item) :: rest => (name, value item) :: fieldValues rest

end

mutual

/-- A nested list of leaves that are written by a function. -/
def nested {β : Type} (leaf : β → Json) : Nested β → Json
  | .leaf x => leaf x
  | .node items => .list (nestedItems leaf items)

def nestedItems {β : Type} (leaf : β → Json) : List (Nested β) → List Json
  | [] => []
  | item :: rest => nested leaf item :: nestedItems leaf rest

end

def grid (g : Grid Float) : Json := nested number g.toNested

/-- A number of either kind. -/
def exact : Number → Json
  | .int n => .int n
  | .real x => number x

def exacts (v : List Number) : Json := .list (v.map exact)

/-- A complex number, of which only its kind is told. -/
def complex : Json := .text "complex"

/-- An element of an array. -/
def element : ElementType → Number → Json
  | .bool, .int n => .bool (n != 0)
  | .complex128, _ => complex
  | _, n => exact n

/-- The contents of a block. -/
def block (m : Memory Float) (b : Block) : Json :=
  nested (element b.element) (Grid.mk b.shape (m.numbers b)).toNested

def interval (i : Interval) : Json :=
  .object [("lower", number i.lower), ("upper", number i.upper)]

def square (n : Nat) : Json := .list [count n, count n]

def sparse (m : SparseMatrix Float) : Json :=
  .object
    [("shape", square m.size), ("indptr", .list (m.columnStarts.map count)),
      ("indices", .list (m.rows.map count)), ("data", vector m.values)]

/-- The state of a target. -/
def target (t : HessianTarget Float) : List (String × Json) :=
  [("shape", t.matrix.elim .null fun m ↦ square m.size), ("nnz_hint", count t.coordinateCount),
    ("repr", .text t.shown)] ++ (t.matrix.map fun m ↦ ("matrix", sparse m)).toList

end Summand.Report
