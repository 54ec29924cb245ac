/-!
# Buffers

Vectors are lists of their entries and matrices lists of their rows. A buffer that is handed to
user code keeps its size whatever comes back, which `conform` sees to; parts of a vector are
replaced or added to in place, and everything outside of the part stays as it is.
-/

namespace Summand.Buffer

variable {α : Type} {β : Type}

/-! ### Keeping sizes -/

/-- Takes the entries of a result into a buffer. Entries beyond the buffer are dropped, and
positions that the result leaves out keep what they held. -/
def conformWith (keep : β → β → β) : List β → List β → List β
  | [], _ => []
  | held, [] => held
  | h :: held, r :: result => keep h r :: conformWith keep held result

/-- A vector buffer after user code has filled it. -/
def conform (held result : List α) : List α := conformWith (fun _ r ↦ r) held result

/-- A row of vector buffers after user code has filled them. -/
def conformAll (held result : List (List α)) : List (List α) := conformWith conform held result

/-- A square of matrix buffers after user code has filled them. -/
def conformBlocks (held result : List (List (List (List α)))) : List (List (List (List α))) :=
  conformWith (conformWith conformAll) held result

/-! ### Parts of vectors -/

/-- The place of the entries between two bounds in a vector of a length, and their number. Bounds
below zero count from the end, and those outside of the vector are taken back to its ends. -/
def span (length : Nat) (first last : Int) : Nat × Nat :=
  let place (bound : Int) : Nat := min length (if bound < 0 then bound + length else bound).toNat
  (place first, place last - place first)

/-- The entries from `offset` on, `count` of them. -/
def part (offset count : Nat) (v : List α) : List α := (v.drop offset).take count

/-- Replaces the entries from `offset` on by those of `w`. -/
def setPart (offset : Nat) (w v : List α) : List α :=
  v.take offset ++ conform (v.drop offset) w

/-- Combines the entries from `offset` on with those of `w`. -/
def combinePart (f : β → α → β) (offset : Nat) (w : List α) (v : List β) : List β :=
  match offset, v, w with
  | _, [], _ => []
  | _, v, [] => v
  | 0, x :: v, y :: w => f x y :: combinePart f 0 w v
  | offset + 1, x :: v, w => x :: combinePart f offset w v

/-- A vector of zeros. -/
def zeros [Zero α] (n : Nat) : List α := List.replicate n 0

/-- A matrix of zeros. -/
def zeroMatrix [Zero α] (rows columns : Nat) : List (List α) :=
  List.replicate rows (zeros columns)

end Summand.Buffer
