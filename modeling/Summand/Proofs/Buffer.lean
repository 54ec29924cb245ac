import Mathlib.Data.List.Basic
import Summand.Buffer
import Summand.Grid

/-!
# Sizes of buffers

Whatever user code returns, a buffer that takes it in keeps its size: `conform` has the length of
what was held, and taking in a result of that very length yields the result. The same holds of rows
of buffers, and changing a part of a vector keeps the length of the vector.
-/

namespace Summand.Buffer

variable {α β : Type}

/-! ### Taking results in -/

@[simp] theorem length_conformWith (keep : β → β → β) (held result : List β) :
    (conformWith keep held result).length = held.length := by
  fun_induction conformWith keep held result <;> simp_all

@[simp] theorem length_conform (held result : List α) :
    (conform held result).length = held.length :=
  length_conformWith _ held result

/-- What keeping an entry leaves alone is left alone in all of them. -/
theorem map_conformWith {γ : Type} {keep : β → β → β} {f : β → γ} (h : ∀ a b, f (keep a b) = f a)
    (held result : List β) : (conformWith keep held result).map f = held.map f := by
  fun_induction conformWith keep held result <;> simp_all

/-- A result of the right length is taken in as it is. -/
theorem conform_of_length_eq {held result : List α} (h : result.length = held.length) :
    conform held result = result := by
  induction held generalizing result with
  | nil => rw [List.length_eq_zero_iff.1 h]; rfl
  | cons a held ih =>
    obtain - | ⟨b, result⟩ := result
    · simp at h
    · exact congrArg (b :: ·) (ih (by simpa using h))

/-- A result that is too short leaves the end as it was. -/
theorem conform_eq_append {held result : List α} (h : result.length ≤ held.length) :
    conform held result = result ++ held.drop result.length := by
  induction held generalizing result with
  | nil => rw [List.length_eq_zero_iff.1 (Nat.le_zero.1 h)]; rfl
  | cons a held ih =>
    obtain - | ⟨b, result⟩ := result
    · rfl
    · exact congrArg (b :: ·) (ih (by simpa using h))

/-- Taking rows in keeps the length of every row. -/
theorem map_length_conformAll (held result : List (List α)) :
    (conformAll held result).map List.length = held.map List.length :=
  map_conformWith length_conform held result

/-! ### Parts -/

theorem length_part (offset count : Nat) (v : List α) :
    (part offset count v).length = min count (v.length - offset) := by
  rw [part, List.length_take, List.length_drop]

@[simp] theorem length_setPart (offset : Nat) (w v : List α) :
    (setPart offset w v).length = v.length := by
  rw [setPart, List.length_append, length_conform, List.length_take, List.length_drop]
  omega

@[simp] theorem length_combinePart (f : β → α → β) (offset : Nat) (w : List α) (v : List β) :
    (combinePart f offset w v).length = v.length := by
  fun_induction combinePart f offset w v <;> simp_all

/-- Combining from the front on with a vector of the same length reaches every entry. -/
theorem combinePart_zero {f : β → α → β} {w : List α} {v : List β} (h : w.length = v.length) :
    combinePart f 0 w v = List.zipWith f v w := by
  induction v generalizing w with
  | nil => rw [List.length_eq_zero_iff.1 h]; rfl
  | cons x v ih =>
    obtain - | ⟨y, w⟩ := w
    · simp at h
    · exact congrArg (f x y :: ·) (ih (by simpa using h))

@[simp] theorem length_zeros [Zero α] (n : Nat) : (zeros n : List α).length = n :=
  List.length_replicate

theorem take_zeros [Zero α] {m n : Nat} (h : m ≤ n) : (zeros n : List α).take m = zeros m := by
  rw [zeros, List.take_replicate, Nat.min_eq_left h, zeros]

theorem drop_zeros [Zero α] (m n : Nat) : (zeros n : List α).drop m = zeros (n - m) :=
  List.drop_replicate

/-! ### Shapes of matrices -/

/-- A matrix has the given numbers of rows and columns. -/
structure Shaped (rows columns : Nat) (m : List (List α)) : Prop where
  rows : m.length = rows
  columns : ∀ row ∈ m, row.length = columns

/-- The shape of a matrix is told by the lengths of its rows. -/
theorem shaped_iff {rows columns : Nat} {m : List (List α)} :
    Shaped rows columns m ↔ m.map List.length = List.replicate rows columns := by
  rw [List.eq_replicate_iff, List.length_map]
  constructor
  · rintro ⟨hr, hc⟩
    exact ⟨hr, by simpa using hc⟩
  · rintro ⟨hr, hc⟩
    exact ⟨hr, by simpa using hc⟩

theorem Shaped.length_flatten {rows columns : Nat} {m : List (List α)} (h : Shaped rows columns m) :
    m.flatten.length = rows * columns := by
  rw [List.length_flatten, shaped_iff.1 h, List.sum_replicate_nat]

theorem shaped_zeroMatrix [Zero α] (rows columns : Nat) :
    Shaped rows columns (zeroMatrix rows columns : List (List α)) :=
  shaped_iff.2 (by simp [zeroMatrix])

theorem Shaped.conformAll {rows columns : Nat} {m : List (List α)} (h : Shaped rows columns m)
    (result : List (List α)) : Shaped rows columns (conformAll m result) :=
  shaped_iff.2 (by rw [map_length_conformAll]; exact shaped_iff.1 h)

end Summand.Buffer
