import Summand.Binary64.Power
import Summand.Proofs.InfiniteOperands

/-!
# Scaled numbers

An exact number that is given by a mantissa and an exponent becomes the double that is nearest to
it, also if that is decided from the exponents alone (`extended?_roundScaled`).

The exponent of a power is made a double first, and the integer that this double denotes is used
(`cast_of_toExponent?`). Up to `2 ^ 53` that is the exponent itself, and beyond it is even, whether
or not the exponent was (`eq_of_toExponent?`, `even_of_toExponent?`).
-/

namespace Summand.Binary64

open Float.Model (UnpackedFloat)

/-! ### Numbers that round to zero or infinity -/

theorem nearest_eq_top {r : ℝ} (h : 2 ^ (1024 : ℤ) ≤ r) : nearest r = ⊤ := by
  have hfits : Fits (2 ^ (1024 : ℤ)) := ⟨1, 1024, by norm_num, by norm_num, by simp⟩
  rw [nearest_coe, overflowed_of_le]
  rw [← rounded_of_fits hfits]
  exact rounded_mono h

theorem two_mul_half_least : 2 * (2 : ℝ) ^ (-1075 : ℤ) = 2 ^ (-1074 : ℤ) := by
  rw [show (-1074 : ℤ) = 1 + -1075 by norm_num, two_zpow_add, zpow_one]

/-- A number that fits is a multiple of the least one. -/
theorem Fits.eq_zero {v : ℝ} (h : Fits v) (hv : |v| < 2 ^ (-1074 : ℤ)) : v = 0 := by
  obtain ⟨k, e, -, he, rfl⟩ := h
  by_contra hne
  have hk : k ≠ 0 := by
    rintro rfl
    exact hne (by simp)
  have hone : (1 : ℝ) ≤ |(k : ℝ)| := by exact_mod_cast Int.one_le_abs hk
  have hleast : (2 : ℝ) ^ (-1074 : ℤ) ≤ |(k : ℝ) * weight e| := by
    rw [abs_mul, abs_of_pos (two_zpow_pos e)]
    exact (zpow_le_zpow_right₀ one_le_two he).trans
      (le_mul_of_one_le_left (two_zpow_pos e).le hone)
  exact hv.not_ge hleast

theorem fits_zero : Fits 0 := ⟨0, 0, by norm_num, by norm_num, by simp⟩

theorem fits_least : Fits (2 ^ (-1074 : ℤ)) := ⟨1, -1074, by norm_num, by norm_num, by simp⟩

namespace IsNearest

variable {v r : ℝ}

/-- Nearest to what is less than half the least positive number is zero. -/
theorem eq_zero (h : IsNearest v r) (hr : |r| < 2 ^ (-1075 : ℤ)) : v = 0 := by
  have hnear := h.le fits_zero
  rw [zero_sub, abs_neg] at hnear
  have htriangle := abs_sub_abs_le_abs_sub v r
  refine h.fits.eq_zero ?_
  rw [← two_mul_half_least]
  linarith

theorem nonneg (h : IsNearest v r) (hr : 0 ≤ r) : 0 ≤ v := by
  by_contra hneg
  obtain rfl : r = 0 := le_antisymm (h.le_of_gt fits_zero (not_le.1 hneg)) hr
  exact hneg (h.eq_of_fits fits_zero).ge

/-- Nearest to what is more than half the least positive number is no zero. -/
theorem pos (h : IsNearest v r) (hr : 2 ^ (-1075 : ℤ) < r) : 0 < v := by
  have hpos := (two_zpow_pos (-1075)).trans hr
  refine lt_of_le_of_ne (h.nonneg hpos.le) ?_
  rintro rfl
  have hnear := h.le fits_least
  rw [zero_sub, abs_neg, abs_of_pos hpos, ← two_mul_half_least] at hnear
  rcases le_abs.1 hnear with h | h <;> linarith [two_zpow_pos (-1075)]

end IsNearest

/-! ### Scaled numbers -/

theorem log2_le_mul_zpow {m : ℕ} (hm : m ≠ 0) (e : ℤ) :
    (2 : ℝ) ^ ((m.log2 : ℤ) + e) ≤ m * 2 ^ e := by
  rw [two_zpow_add, zpow_natCast]
  exact mul_le_mul_of_nonneg_right (by exact_mod_cast Nat.log2_self_le hm) (two_zpow_pos e).le

theorem mul_zpow_lt_log2 (m : ℕ) (e : ℤ) : (m : ℝ) * 2 ^ e < 2 ^ ((m.log2 : ℤ) + 1 + e) := by
  rw [two_zpow_add, ← Nat.cast_succ, zpow_natCast]
  exact mul_lt_mul_of_pos_right (by exact_mod_cast Nat.lt_log2_self) (two_zpow_pos e)

theorem extended?_pack {u : UnpackedFloat} (hu : Canonical u) {X : EReal}
    (hX : denoted u = some X) : extended? (pack u) = some (overflowed X) := by
  rw [pack, extended?_ofBits]
  show (magnitude? ((UnpackedFloat.pack .binary64 u).toNat % 2 ^ 63)).map
    (signed (decide (2 ^ 63 ≤ (UnpackedFloat.pack .binary64 u).toNat))) = _
  rw [← denoted_unpack, denoted_unpack_pack hu, hX, Option.map_some]

@[simp] theorem overflowed_zero : overflowed 0 = 0 := by
  rw [← EReal.coe_zero, overflowed_of_abs_lt (by rw [abs_zero]; exact two_zpow_pos _)]

theorem signed_zero (negative : Bool) : signed negative 0 = 0 := by cases negative <;> simp [signed]

theorem extended?_pack_zero (negative : Bool) :
    extended? (pack (.zero (signOf negative))) = some 0 := by
  rw [extended?_pack (u := .zero _) trivial (denoted_zero _), overflowed_zero]

/-- A scaled number becomes the double nearest to it. -/
theorem extended?_roundScaled (negative : Bool) (m : ℕ) (e : ℤ) :
    extended? (roundScaled negative m e) = some (signed negative (nearest ((m * 2 ^ e : ℝ)))) := by
  have hnonneg : (0 : ℝ) ≤ m * 2 ^ e := mul_nonneg m.cast_nonneg (two_zpow_pos e).le
  rw [roundScaled]
  split_ifs with hzero hlarge hsmall
  · rw [extended?_pack_zero, hzero, Nat.cast_zero, zero_mul, nearest_zero, EReal.coe_zero,
      signed_zero]
  · have hle : (2 : ℝ) ^ (1024 : ℤ) ≤ m * 2 ^ e :=
      (zpow_le_zpow_right₀ one_le_two hlarge).trans (log2_le_mul_zpow hzero e)
    rw [extended?_pack (u := .infinity _) trivial (denoted_infinity negative), overflowed_signed,
      overflowed_top, nearest_eq_top hle]
  · have hlt : |(m : ℝ) * 2 ^ e| < 2 ^ (-1075 : ℤ) := by
      rw [abs_of_nonneg hnonneg]
      exact (mul_zpow_lt_log2 m e).trans_le (zpow_le_zpow_right₀ one_le_two (by omega))
    rw [extended?_pack_zero, nearest_coe, (isNearest_rounded _).eq_zero hlt, EReal.coe_zero,
      overflowed_zero, signed_zero]
  · have hround := denotes_round (signOf negative) (Nat.pos_of_ne_zero hzero) e
    rw [extended?_pack hround.canonical hround.denoted, nearest_coe, ← overflowed_signed]
    cases negative <;> simp [signOf, signed, Float.Model.UnpackedFloat.Sign.apply]

/-! ### Exponents -/

/-- A number of at most 53 bits fits. -/
theorem fits_natCast {n : ℕ} (h : n ≤ 2 ^ 53) : Fits n :=
  ⟨n, 0, by rw [Nat.abs_cast]; exact_mod_cast h, by norm_num, by simp⟩

/-- A natural number that does not fit is rounded to an even one. -/
theorem exists_rounded_natCast {n : ℕ} (h : 2 ^ 53 < n) : ∃ j : ℕ, rounded n = (2 * j : ℕ) := by
  have hpos : (0 : ℝ) < n := Nat.cast_pos.2 (by omega)
  have hlog : 53 ≤ Int.log 2 |(n : ℝ)| := by
    rw [← Int.zpow_le_iff_le_log one_lt_two (abs_pos.2 hpos.ne'), Nat.abs_cast]
    exact_mod_cast h.le
  obtain ⟨p, hp⟩ : ∃ p : ℕ, lastPlace n = p + 1 :=
    ⟨(lastPlace n - 1).toNat, by rw [lastPlace]; omega⟩
  have hnonneg : 0 ≤ nearestInt ((n : ℝ) / 2 ^ lastPlace n) :=
    (by norm_num : (0 : ℤ) ≤ 2 ^ 52).trans (le_nearestInt_div hpos (by omega))
  obtain ⟨j, hj⟩ := Int.eq_ofNat_of_zero_le hnonneg
  refine ⟨j * 2 ^ p, ?_⟩
  rw [rounded, hj, weight, hp, two_zpow_add, zpow_natCast]
  push_cast
  ring

theorem exists_rounded_eq_natCast (n : ℕ) : ∃ j : ℕ, rounded n = j := by
  rcases le_or_gt n (2 ^ 53) with h | h
  · exact ⟨n, rounded_of_fits (fits_natCast h)⟩
  · obtain ⟨j, hj⟩ := exists_rounded_natCast h
    exact ⟨2 * j, hj⟩

/-- The whole part of a whole number is that number. -/
theorem wholePart_eq {m j : ℕ} {e : ℤ} (h : (m : ℝ) * 2 ^ e = j) : wholePart m e = j := by
  rw [wholePart, Nat.pow_eq, Nat.pow_eq]
  split_ifs with he
  · obtain ⟨k, rfl⟩ := Int.eq_ofNat_of_zero_le he
    rw [Int.toNat_natCast]
    rw [zpow_natCast] at h
    exact_mod_cast h
  · obtain ⟨k, rfl⟩ : ∃ k : ℕ, e = -k := ⟨(-e).toNat, by omega⟩
    rw [neg_neg, Int.toNat_natCast]
    rw [zpow_neg, zpow_natCast, ← div_eq_mul_inv, div_eq_iff (by positivity)] at h
    have hm : m = j * 2 ^ k := by exact_mod_cast h
    rw [hm, Nat.mul_div_cancel _ (by positivity)]

theorem extended?_ofInt (n : ℕ) : extended? (ofInt n) = some (nearest (n : ℝ)) := by
  have hneg : decide ((n : ℤ) < 0) = false := decide_eq_false (by omega)
  rw [ofInt, hneg, extended?_roundScaled, Int.natAbs_natCast, zpow_zero, mul_one]
  rfl

/-- The exponent that is used is the given one, rounded. -/
theorem cast_of_toExponent? {n k : ℕ} (h : toExponent? n = some k) : (k : ℝ) = rounded n := by
  rw [toExponent?, ofInt?, Option.map_eq_some_iff] at h
  obtain ⟨x, hx, hk⟩ := h
  obtain ⟨hinf, rfl⟩ : ¬(ofInt n).isInf ∧ ofInt n = x := by simpa using hx
  rw [isInf_iff (extended?_ofInt n)] at hinf
  obtain ⟨r, hr⟩ := (isInfinite_or_eq_coe (nearest (n : ℝ))).resolve_left hinf
  obtain ⟨j, hj⟩ := exists_rounded_eq_natCast n
  obtain rfl : (j : ℝ) = r := eq_of_overflowed (hj ▸ hr)
  rw [hj]
  obtain ⟨s, hs, hzero⟩ | ⟨s, m, e, hm, hs, hvalue⟩ :=
    (denotes_unpack ((extended?_ofInt n).trans (congrArg some hr))).zero_or_finite
  · rw [hs] at hk
    rw [hzero, ← hk, Nat.cast_zero]
  · rw [hs] at hk
    have hpos : (0 : ℝ) < m * 2 ^ e := mul_pos (Nat.cast_pos.2 hm) (two_zpow_pos e)
    cases s with
    | positive =>
      have hwhole : wholePart m e = j :=
        wholePart_eq (by simpa [Float.Model.UnpackedFloat.Sign.apply] using hvalue.symm)
      rw [← hk, ← hwhole]
    | negative =>
      have hneg : (j : ℝ) = -(m * 2 ^ e) := by
        simpa [Float.Model.UnpackedFloat.Sign.apply] using hvalue
      linarith [j.cast_nonneg (α := ℝ)]

/-- An exponent that fits is used itself. -/
theorem eq_of_toExponent? {n k : ℕ} (h : toExponent? n = some k) (hn : n ≤ 2 ^ 53) : k = n := by
  have hk := cast_of_toExponent? h
  rw [rounded_of_fits (fits_natCast hn)] at hk
  exact_mod_cast hk

/-- An exponent that is not used itself is rounded to an even one. -/
theorem even_of_toExponent? {n k : ℕ} (h : toExponent? n = some k) (hne : k ≠ n ∨ n % 2 = 0) :
    k % 2 = 0 := by
  rcases le_or_gt n (2 ^ 53) with hn | hn
  · have heq := eq_of_toExponent? h hn
    omega
  · obtain ⟨j, hj⟩ := exists_rounded_natCast hn
    have hk := cast_of_toExponent? h
    rw [hj] at hk
    have heq : k = 2 * j := by exact_mod_cast hk
    omega

theorem toExponent?_pos {n k : ℕ} (h : toExponent? n = some k) (hn : n ≠ 0) : 0 < k := by
  have hone : rounded ((1 : ℕ) : ℝ) ≤ rounded n :=
    rounded_mono (Nat.cast_le.2 (Nat.one_le_iff_ne_zero.2 hn))
  rw [rounded_of_fits (fits_natCast (by norm_num)), ← cast_of_toExponent? h, Nat.cast_le] at hone
  omega

/-- Every exponent that fits is used. -/
theorem toExponent?_of_le {n : ℕ} (hn : n ≤ 2 ^ 53) : toExponent? n = some n := by
  have hinf : (ofInt n).isInf = false := by
    have hsmall : |(n : ℝ)| < 2 ^ (1024 : ℤ) := by
      rw [Nat.abs_cast]
      calc (n : ℝ) ≤ 2 ^ (53 : ℤ) := by exact_mod_cast hn
        _ < 2 ^ (1024 : ℤ) := zpow_lt_zpow_right₀ one_lt_two (by norm_num)
    rw [Bool.eq_false_iff, Ne, isInf_iff (extended?_ofInt n), nearest_coe,
      rounded_of_fits (fits_natCast hn), overflowed_of_abs_lt hsmall]
    exact not_isInfinite_coe n
  obtain ⟨k, hk⟩ : ∃ k, toExponent? n = some k := by
    rw [toExponent?, ofInt?, hinf]
    exact ⟨_, rfl⟩
  rw [hk, eq_of_toExponent? hk hn]

end Summand.Binary64
