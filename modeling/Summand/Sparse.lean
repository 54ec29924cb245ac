import Summand.Failure
import Summand.Sparse.Arrangement

/-!
# Sparse matrices in compressed columns

A sparse matrix is assembled from coordinates and values. Each column keeps its stored entries by
ascending row. The values of one coordinate are added from left to right, in the order in which they
were given unless sorting a long column exchanged them; entries that add up to zero stay stored.
-/

namespace Summand

variable {α : Type}

/-- A square matrix in compressed columns: column `c` has the entries from `columnStarts[c]` up to
`columnStarts[c + 1]`. -/
structure SparseMatrix (α : Type) where
  size : Nat
  columnStarts : List Nat
  rows : List Nat
  values : List α

namespace SparseMatrix

/-- The matrix without rows and columns. -/
def empty : SparseMatrix α := ⟨0, [0], [], []⟩

/-! ### Assembly -/

/-- The entries of each column in the order in which they were given. -/
def columnsOf (size : Nat) (entries : List ((Nat × Nat) × α)) : List (List (Nat × α)) :=
  (entries.foldr (fun entry columns ↦
    columns.modify entry.1.2 ((entry.1.1, entry.2) :: ·)) (Array.replicate size [])).toList

/-- A column whose entries of one row stand side by side, with those added up: from a row and the
sum of its entries so far. -/
def addRuns [Add α] (row : Nat) (sum : α) : List (Nat × α) → List (Nat × α)
  | [] => [(row, sum)]
  | (r, v) :: rest =>
    if r = row then addRuns row (sum + v) rest else (row, sum) :: addRuns r v rest

/-- A column by ascending row, with the values of each row added up. -/
def addUp [Add α] (column : List (Nat × α)) : List (Nat × α) :=
  match column.mergeSort fun e f ↦ e.1 ≤ f.1 with
  | [] => []
  | (row, value) :: rest => addRuns row value rest

/-- The running sums of column lengths, from zero. -/
def starts : Nat → List (List (Nat × α)) → List Nat
  | total, [] => [total]
  | total, column :: rest => total :: starts (total + column.length) rest

/-- The matrix of given columns. -/
def ofColumns (columns : List (List (Nat × α))) : SparseMatrix α :=
  let entries := columns.flatten
  ⟨columns.length, starts 0 columns, entries.map Prod.fst, entries.map Prod.snd⟩

/-- Fails unless all indices along an axis lie within a size. -/
def checkIndices (axis size : Nat) (indices : List Int) : Except Failure Unit :=
  match indices.max?, indices.min? with
  | some greatest, some least =>
    if size ≤ greatest then
      .error (.raised "ValueError" ("axis " ++ toString axis ++ " index " ++ toString greatest ++
        " exceeds matrix dimension " ++ toString size))
    else if least < 0 then
      .error (.raised "ValueError" ("negative axis " ++ toString axis ++ " index: " ++
        toString least))
    else .ok ()
  | _, _ => .ok ()

/-- Coordinates as pairs of row and column, which have to lie within a square matrix. -/
def placed (size : Nat) (coordinates : List (Int × Int)) : Except Failure (List (Nat × Nat)) := do
  checkIndices 0 size (coordinates.map Prod.fst)
  checkIndices 1 size (coordinates.map Prod.snd)
  return coordinates.map fun (row, column) ↦ (row.toNat, column.toNat)

/-- The matrix with the given coordinates, as pairs of row and column, and their values. The columns
are arranged in a given way before they are added up. -/
def assemble [Add α] (arrangement : List (List (Nat × α)) → List (List (Nat × α))) (size : Nat)
    (coordinates : List (Nat × Nat)) (values : List α) : SparseMatrix α :=
  ofColumns ((arrangement (columnsOf size (coordinates.zip values))).map addUp)

/-! ### Views -/

/-- The number of stored entries. -/
def storedCount (m : SparseMatrix α) : Nat := m.values.length

/-- Entries split into columns that begin and end at given positions. -/
def splitColumns : List Nat → List (Nat × α) → List (List (Nat × α))
  | first :: last :: more, entries =>
    entries.take (last - first) :: splitColumns (last :: more) (entries.drop (last - first))
  | _, _ => []

/-- The stored entries of each column. -/
def columns (m : SparseMatrix α) : List (List (Nat × α)) :=
  splitColumns m.columnStarts (m.rows.zip m.values)

/-- So many numbers of a full column from a row on, to which some are added by ascending row. -/
def spread [Zero α] [Add α] : (count row : Nat) → List (Nat × α) → List α
  | 0, _, _ => []
  | count + 1, row, [] => 0 :: spread count (row + 1) []
  | count + 1, row, (r, v) :: rest =>
    if r = row then (0 + v) :: spread count (row + 1) rest
    else 0 :: spread count (row + 1) ((r, v) :: rest)

/-- The rows of the full matrix: zeros with the stored entries added to them. -/
def toRows [Zero α] [Add α] (m : SparseMatrix α) : List (List α) :=
  (m.columns.map (spread m.size 0)).foldr (List.zipWith List.cons) (List.replicate m.size [])

end SparseMatrix

/-- A place for sparse Hessians: the matrix of the last assembly, if there was one, and the number
of coordinates that went into it before those of one place were added up. -/
structure HessianTarget (α : Type) where
  matrix : Option (SparseMatrix α) := none
  coordinateCount : Nat := 0

namespace HessianTarget

/-- The text of a target in messages. -/
def shown (target : HessianTarget α) : String :=
  match target.matrix with
  | none => "SparseHessian(empty)"
  | some m =>
    "SparseHessian(shape=(" ++ toString m.size ++ ", " ++ toString m.size ++ "), nnz=" ++
      toString m.storedCount ++ ")"

/-- The failure of reading a target that holds no matrix. -/
def notEvaluated : Failure := .raised "ValueError" "SparseHessian has not been evaluated yet"

/-- The rows of the matrix that a target holds. -/
def toRows [Zero α] [Add α] (target : HessianTarget α) : Except Failure (List (List α)) :=
  match target.matrix with
  | none => .error notEvaluated
  | some m => .ok m.toRows

end HessianTarget

end Summand
