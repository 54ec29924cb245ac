import Mathlib.Algebra.Group.Nat.Defs
import Mathlib.Algebra.Ring.Int.Defs
import Mathlib.Tactic.ByContra
import Summand.Allocation

/-!
# What can be allocated

An array can be allocated if its sizes and the number of its bytes are integers of a machine word
and it does not take more bytes than there may be. A row of numbers can be allocated exactly if it
is short enough (`Allocation.check_row`, `Allocation.le_of_check_row`). Where the bytes of a square
matrix can be counted, there is room for a row of it, and for one number more
(`Allocation.lt_of_spannedBytes`).
-/

namespace Summand

/-- An integer fits into a machine word if it lies between the least and the greatest of these. -/
theorem Number.fitsWord_iff {n : Int} : fitsWord n = true ↔ -2 ^ 63 ≤ n ∧ n < 2 ^ 63 := by
  have hpow : Int.pow 2 63 = 2 ^ 63 := rfl
  rw [fitsWord, hpow, Bool.and_eq_true, decide_eq_true_iff, decide_eq_true_iff]

namespace Allocation

theorem byteLimit_eq : byteLimit = 2 ^ 47 := rfl

theorem wordLimit_eq : wordLimit = 2 ^ 63 - 1 := rfl

theorem checkOr_eq_ok_iff {noRoom : Failure} {shape : List Int} :
    checkOr noRoom shape = .ok () ↔ fault? .real shape = none := by
  unfold checkOr
  split <;> simp_all

/-- The bytes of a square matrix can be counted by a machine word only if there is room for so many
numbers as it has rows, and one more. -/
theorem lt_of_spannedBytes {n : Nat} (h : spannedBytes [n, n] ≤ wordLimit) : n < 2 ^ 30 := by
  by_contra hn
  have hpos : 0 < n := by omega
  have hsquare : 2 ^ 30 * 2 ^ 30 ≤ n * n := Nat.mul_le_mul (by omega) (by omega)
  have hbytes : spannedBytes [n, n] = 8 * n * n := by simp [spannedBytes, hpos]
  rw [hbytes, wordLimit_eq, Nat.mul_assoc] at h
  omega

/-- A row of numbers that is not too long can be allocated. -/
theorem check_row {kind : Kind} {n : Nat} (h : 8 * n ≤ byteLimit) :
    check kind [(n : Int)] = .ok () := by
  have hbytes := byteLimit_eq ▸ h
  have hspanned : spannedBytes [n] ≤ wordLimit := by
    rw [spannedBytes, wordLimit_eq]
    by_cases hn : 0 < n
    · simp [hn]
      omega
    · simp [hn]
  have hfits : Number.fitsWord (n : Int) = true := Number.fitsWord_iff.2 (by omega)
  have hfault : fault? kind [(n : Int)] = none := by
    simp [fault?, hfits, Nat.not_lt.2 hspanned, Nat.not_lt.2 h]
  rw [check, hfault]

/-- A row of numbers that can be allocated does not take more bytes than there may be. -/
theorem le_of_check_row {kind : Kind} {n : Int} (h : check kind [n] = .ok ()) :
    0 ≤ n ∧ 8 * n ≤ byteLimit := by
  have hfault : fault? kind [n] = none := by
    unfold check at h
    split at h
    · assumption
    · cases h
  unfold fault? at hfault
  dsimp only at hfault
  split at hfault
  · cases hfault
  split at hfault
  · cases hfault
  split at hfault
  · cases hfault
  split at hfault
  · cases hfault
  -- The size is not negative, and so many numbers do not take too many bytes.
  rename_i hnonneg _ hbytes
  simp only [List.any_cons, List.any_nil, Bool.or_false, decide_eq_true_eq, List.map_cons,
    List.map_nil, List.foldl_cons, List.foldl_nil, Nat.one_mul] at hnonneg hbytes
  omega

end Allocation

end Summand
