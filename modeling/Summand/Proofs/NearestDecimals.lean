import Summand.Decimal.Reader
import Summand.Proofs.AdjacentDoubles
import Summand.Proofs.ScaledNumbers

/-!
# Reading decimals

The double that a decimal coefficient and a power of ten denote is the nearest one to the exact
number (`Decimal.extended?_nearest`), on each of the ways by which it is computed: one operation on
two exact doubles, one rounding of an exact product or quotient, or no computation at all where the
number of digits alone shows that the result is infinite or zero.

A double other than a zero or a NaN is determined by the number that it denotes
(`Binary64.eq_of_extended?`), and any double by what it is decoded to (`Binary64.unpack_injective`).
-/

namespace Summand

namespace Binary64

open Float.Model (Format totalExponent UnpackedFloat)

/-! ### Equality of doubles -/

theorem eq_of_toBits {x y : Float} (h : x.toBits = y.toBits) : x = y := by
  obtain ⟨⟨b, hb⟩⟩ := x
  obtain ⟨⟨c, hc⟩⟩ := y
  obtain rfl : b = c := h
  rfl

/-- Doubles that are decoded to the same are equal. -/
theorem unpack_injective : Function.Injective unpack := by
  intro x y h
  refine eq_of_toBits (UInt64.toBitVec_inj.1 ?_)
  exact (UnpackedFloat.unpack_inj_of_valid x.toModel.valid y.toModel.valid).1 h

/-- A finite double other than a zero is determined by the number it denotes. -/
theorem eq_of_extended? {x y : Float} {r : ℝ} (hx : extended? x = some (r : EReal))
    (hy : extended? y = some (r : EReal)) (hr : r ≠ 0) : x = y := by
  have hrank {z : Float} (hz : extended? z = some (r : EReal)) : ranked (place z.toBits) = r :=
    eq_of_overflowed (extended?_eq_ranked hz).symm
  have hplace : place x.toBits = place y.toBits :=
    ranked_strictMono.injective ((hrank hx).trans (hrank hy).symm)
  have hne : place x.toBits ≠ 0 := fun h ↦ hr (by
    rw [← hrank hx, h, ← Nat.cast_zero, ranked_natCast, magnitude_zero])
  have hxlt := x.toBits.toNat_lt
  have hylt := y.toBits.toNat_lt
  refine eq_of_toBits (UInt64.toNat_inj.1 ?_)
  rw [place] at hplace hne
  rw [place] at hplace
  split_ifs at hplace hne <;> omega

/-- What a finite double is decoded to: its exponent is not too large. -/
theorem of_unpack_eq_finite {x : Float} {negative : Bool} {m : ℕ} {e : ℤ} {hm : 0 < m}
    (hx : unpack x = .finite (signOf negative) m e hm) :
    Canonical (.finite .positive m e hm) ∧ e < 972 ∧
      extended? x = some (signed negative ((m * 2 ^ e : ℝ) : EReal)) := by
  have hcanonical : Canonical (.finite .positive m e hm) := by
    have h := canonical_unpack x.toBits.toBitVec
    rw [show UnpackedFloat.unpack .binary64 x.toBits.toBitVec = unpack x from rfl, hx] at h
    exact h
  have hextended : extended? x = some (signed negative ((m * 2 ^ e : ℝ) : EReal)) := by
    rw [extended?, hx, denoted_finite, coe_value_finite]
  refine ⟨hcanonical, ?_, hextended⟩
  have hkept := overflowed_extended hextended
  rw [overflowed_finite negative m e hcanonical.1 hcanonical.2.1 hcanonical.2.2] at hkept
  by_contra hlarge
  rw [if_neg hlarge] at hkept
  cases negative with
  | false => exact EReal.coe_ne_top _ hkept.symm
  | true => exact EReal.coe_ne_top _ (neg_injective hkept).symm

/-! ### Exact doubles -/

/-- The bits of the powers of ten that are doubles. -/
theorem toBits_powerOfTen : ∀ k : Fin 23,
    let n := (Float.exactlyRepresentablePowersOfTen[k]).toBits.toNat
    n < 2047 * 2 ^ 52 ∧ 1000 ≤ n / 2 ^ 52 ∧
      (2 ^ 52 + n % 2 ^ 52) * 2 ^ (n / 2 ^ 52 - 1000) = 10 ^ k.1 * 2 ^ 75 := by
  decide +kernel

theorem extended?_powerOfTen {k : ℕ} (h : k < 23) :
    extended? Float.exactlyRepresentablePowersOfTen[k] = some ((10 ^ k : ℝ) : EReal) := by
  obtain ⟨hlt, hle, hvalue⟩ := toBits_powerOfTen ⟨k, h⟩
  dsimp only [Fin.getElem_fin] at hle hlt hvalue
  generalize Float.exactlyRepresentablePowersOfTen[k] = x at hle hlt hvalue ⊢
  generalize hn : x.toBits.toNat = n at hle hlt hvalue
  have hcast : (((2 ^ 52 + n % 2 ^ 52 : ℕ)) : ℝ) * 2 ^ (n / 2 ^ 52 - 1000) = 10 ^ k * 2 ^ 75 := by
    exact_mod_cast hvalue
  have hmagnitude : magnitude n = 10 ^ k := by
    rw [magnitude_of_le (by omega),
      show (n / 2 ^ 52 : ℕ) - 1075 = ((n / 2 ^ 52 - 1000 : ℕ) : ℤ) - 75 by omega,
      zpow_sub₀ two_ne_zero, zpow_natCast, ← mul_div_assoc, hcast]
    exact mul_div_cancel_right₀ _ (by positivity)
  rw [extended?_eq, hn, Nat.mod_eq_of_lt (by omega), decide_eq_false (by omega),
    magnitude?_of_lt hlt, hmagnitude, Option.map_some, signed, if_neg Bool.false_ne_true]

/-- Natural numbers of at most 53 bits are doubles. -/
theorem extended?_toFloat {m : ℕ} (hm : m < 2 ^ 53) :
    extended? m.toUInt64.toFloat = some ((m : ℝ) : EReal) := by
  have hfits : Fits m := fits_natCast hm.le
  have hdenotes := denotes_normalize m.toUInt64.toNat 0 .positive
  have htoNat : m.toUInt64.toNat = m := Nat.mod_eq_of_lt (by omega)
  rw [htoNat, zpow_zero, mul_one, Int.cast_natCast] at hdenotes
  have hencoded : extended? m.toUInt64.toFloat = some (nearest (m : ℝ)) :=
    extended?_of_denotes (congrArg (fun n : ℕ ↦ UnpackedFloat.unpack .binary64
      (UnpackedFloat.pack .binary64 (UnpackedFloat.normalize .binary64 n 0 .positive))) htoNat)
      hdenotes
  rw [hencoded, nearest_coe, rounded_of_fits hfits, overflowed_of_abs_lt]
  rw [Nat.abs_cast]
  calc (m : ℝ) < 2 ^ 53 := by exact_mod_cast hm
    _ = 2 ^ (53 : ℤ) := by norm_cast
    _ < 2 ^ (1024 : ℤ) := zpow_lt_zpow_right₀ one_lt_two (by norm_num)

/-! ### Scientific notation -/

theorem ten_zpow_pos (k : ℤ) : (0 : ℝ) < 10 ^ k := zpow_pos (by norm_num) k

theorem ten_zpow_add (j k : ℤ) : (10 : ℝ) ^ (j + k) = 10 ^ j * 10 ^ k :=
  zpow_add₀ (by norm_num) j k

theorem two_pow_le_ten_pow {a b : ℕ} (h : 2 ^ a ≤ 10 ^ b) : (2 : ℝ) ^ (a : ℤ) ≤ 10 ^ (b : ℤ) := by
  rw [zpow_natCast, zpow_natCast]
  exact_mod_cast h

/-- From three hundred and ten digits on, a number is too large. -/
theorem nearest_mul_ten_eq_top {m j : ℕ} {e : ℤ} (hm : 10 ^ j ≤ m) (he : 309 ≤ j + e) :
    nearest ((m * 10 ^ e : ℝ)) = ⊤ := by
  refine nearest_eq_top ?_
  have hcast : (10 : ℝ) ^ j ≤ m := by exact_mod_cast hm
  calc (2 : ℝ) ^ (1024 : ℤ) ≤ 10 ^ (309 : ℤ) := two_pow_le_ten_pow (by decide +kernel)
    _ ≤ 10 ^ (j + e) := zpow_le_zpow_right₀ (by norm_num) he
    _ = 10 ^ j * 10 ^ e := by rw [ten_zpow_add, zpow_natCast]
    _ ≤ m * 10 ^ e := mul_le_mul_of_nonneg_right hcast (ten_zpow_pos e).le

/-- A number that begins three hundred and twenty-four places after the point is too small. -/
theorem nearest_mul_ten_eq_zero {m j : ℕ} {e : ℤ} (hm : m < 10 ^ j) (he : j + e ≤ -324) :
    nearest ((m * 10 ^ e : ℝ)) = ((0 : ℝ) : EReal) := by
  have hcast : (m : ℝ) < 10 ^ j := by exact_mod_cast hm
  have hlt : |(m : ℝ) * 10 ^ e| < 2 ^ (-1075 : ℤ) := by
    rw [abs_of_nonneg (mul_nonneg m.cast_nonneg (ten_zpow_pos e).le)]
    calc (m : ℝ) * 10 ^ e < 10 ^ j * 10 ^ e := mul_lt_mul_of_pos_right hcast (ten_zpow_pos e)
      _ = 10 ^ (j + e) := by rw [ten_zpow_add, zpow_natCast]
      _ ≤ 10 ^ (-324 : ℤ) := zpow_le_zpow_right₀ (by norm_num) he
      _ ≤ 2 ^ (-1075 : ℤ) := by
        rw [zpow_neg, zpow_neg]
        exact inv_anti₀ (two_zpow_pos _) (two_pow_le_ten_pow (by decide +kernel))
  rw [nearest_coe, (isNearest_rounded _).eq_zero hlt, EReal.coe_zero, overflowed_zero]

/-- A number in scientific notation is rounded once, unless its exponent alone shows that it is
infinite or zero. -/
theorem extended?_ofModel_ofScientific (m : ℕ) (e : ℤ) :
    extended? (.ofModel (.ofScientific m e)) = some (nearest ((m * 10 ^ e : ℝ))) := by
  have hencoded (u : UnpackedFloat) (hu : Canonical u) :
      extended? (.ofModel (.pack u)) = (denoted u).map overflowed := denoted_unpack_pack hu
  have hpositive : ((UnpackedFloat.Sign.positive.apply 1 : ℤ) : ℝ) = 1 := by
    simp [UnpackedFloat.Sign.apply]
  rw [Float.Model.ofScientific, UnpackedFloat.ofScientific]
  split_ifs with hzero hlarge hsmall hsign
  · rw [hencoded (.zero _) trivial, denoted_zero, hzero, Nat.cast_zero, zero_mul, nearest_zero,
      Option.map_some, overflowed_zero, EReal.coe_zero]
  · have hlarge : 2048 < e := hlarge
    change extended? (.ofModel (.pack (.infinity (signOf false)))) = _
    rw [hencoded (.infinity (signOf false)) trivial, denoted_infinity,
      nearest_mul_ten_eq_top (j := 0) (Nat.one_le_iff_ne_zero.2 hzero) (by push_cast; omega)]
    exact congrArg some overflowed_top
  · have hsmall : e < -(2048 + (m.log2 : ℤ)) := hsmall
    have hlt : m < 10 ^ (m.log2 + 1) :=
      Nat.lt_log2_self.trans_le (Nat.pow_le_pow_left (by norm_num) _)
    rw [hencoded (.zero _) trivial, denoted_zero, Option.map_some, overflowed_zero,
      nearest_mul_ten_eq_zero hlt (by push_cast; omega), EReal.coe_zero]
  · -- The mantissa gets all its places first, so that the product is rounded once.
    obtain ⟨k, rfl⟩ := Int.eq_ofNat_of_zero_le hsign
    have hpos : 0 < (m <<< 53) * 10 ^ k :=
      Nat.mul_pos (shiftLeft_pos (Nat.pos_of_ne_zero hzero) 53) (by positivity)
    have hplaces : 53 ≤ ((m <<< 53) * 10 ^ k).log2 := by
      rw [Nat.le_log2 hpos.ne', Nat.shiftLeft_eq, mul_right_comm]
      exact Nat.le_mul_of_pos_left _ (Nat.mul_pos (Nat.pos_of_ne_zero hzero) (by positivity))
    have hproduct := denotes_roundWithAccuracy .positive hpos (e := -53 + 0) (tells_exact _) (by
      rw [targetExponent_eq]
      omega)
    have hvalue : (((m <<< 53) * 10 ^ k : ℕ) : ℝ) * 2 ^ (-53 + 0 : ℤ) = m * 10 ^ (k : ℤ) := by
      rw [Nat.cast_mul, cast_shiftLeft, Nat.cast_pow, Nat.cast_ofNat, add_zero, mul_right_comm,
        mul_assoc (m : ℝ), ← two_zpow_add, zpow_natCast]
      norm_num
    rw [hvalue, hpositive, one_mul] at hproduct
    exact extended?_of_denotes rfl hproduct
  · obtain ⟨k, rfl⟩ : ∃ k : ℕ, e = -k := ⟨(-e).toNat, by omega⟩
    have hquotient := denotes_quotient .positive (Nat.pos_of_ne_zero hzero)
      (show 0 < 10 ^ (-(-k : ℤ)).toNat by positivity) 0 0
    have hvalue : (m : ℝ) * 2 ^ (0 : ℤ) / ((10 ^ (-(-k : ℤ)).toNat : ℕ) * 2 ^ (0 : ℤ)) =
        m * 10 ^ (-k : ℤ) := by
      rw [neg_neg, Int.toNat_natCast, zpow_zero, mul_one, mul_one, zpow_neg, zpow_natCast,
        div_eq_mul_inv]
      push_cast
      rfl
    rw [hvalue, hpositive, one_mul] at hquotient
    exact extended?_of_denotes rfl hquotient

/-- A product or quotient of two exact doubles is rounded once as well. -/
theorem extended?_ofScientific (m k : ℕ) (negative : Bool) :
    extended? (Float.ofScientific m negative k) =
      some (nearest ((m * 10 ^ (if negative then -k else k : ℤ) : ℝ))) := by
  rw [Float.ofScientific]
  split_ifs with hexact hnegative
  · have hquotient := extended?_div (extended?_toFloat hexact.1)
      (extended?_powerOfTen (Nat.lt_succ_of_le hexact.2)) (by positivity)
    rw [zpow_neg, zpow_natCast, ← div_eq_mul_inv]
    exact hquotient
  · have hproduct := extended?_mul (extended?_toFloat hexact.1)
      (extended?_powerOfTen (Nat.lt_succ_of_le hexact.2))
    rw [zpow_natCast]
    exact hproduct
  · rw [← Int.ofNat_eq_natCast, ← Int.negOfNat_eq]
    exact extended?_ofModel_ofScientific m (.negOfNat k)
  · exact extended?_ofModel_ofScientific m k

end Binary64

namespace Decimal

theorem length_toString (n : ℕ) : (toString n).length = (Nat.toDigits 10 n).length := by
  rw [Nat.toString_eq_ofList_toDigits, String.length_ofList]

theorem lt_pow_length (n : ℕ) : n < 10 ^ (toString n).length := by
  have hpos : 0 < (toString n).length := by
    rw [length_toString]
    exact List.length_pos_iff.2 Nat.toDigits_ne_nil
  rw [← Nat.length_toDigits_le_iff (by norm_num) hpos, length_toString]

theorem pow_length_le {n : ℕ} (hn : n ≠ 0) : 10 ^ ((toString n).length - 1) ≤ n := by
  rcases Nat.eq_zero_or_pos ((toString n).length - 1) with h | h
  · rw [h, pow_zero]
    exact Nat.one_le_iff_ne_zero.2 hn
  · rw [← not_lt, ← Nat.length_toDigits_le_iff (by norm_num) h, length_toString] at *
    omega

/-- The nearest double to a decimal number. -/
theorem extended?_nearest (coefficient : ℕ) (exponent : ℤ) :
    Binary64.extended? (nearest coefficient exponent) =
      some (Binary64.nearest ((coefficient * 10 ^ exponent : ℝ))) := by
  have hlow := @pow_length_le coefficient
  have hhigh := lt_pow_length coefficient
  rw [nearest]
  generalize (toString coefficient).length = digits at hlow hhigh
  split_ifs with hzero hlarge hsmall hsign
  · rw [hzero, Nat.cast_zero, zero_mul, Binary64.nearest_zero, Binary64.extended?_zero]
  · rw [Binary64.nearest_mul_ten_eq_top (hlow hzero) (by omega)]
    exact Binary64.extended?_positiveInfinity
  · rw [Binary64.nearest_mul_ten_eq_zero hhigh (by omega), Binary64.extended?_zero]
  · rw [Binary64.extended?_ofScientific, if_pos rfl, Int.ofNat_natAbs_of_nonpos hsign.le, neg_neg]
  · rw [Binary64.extended?_ofScientific, if_neg Bool.false_ne_true, Int.toNat_of_nonneg (by omega)]

end Decimal

end Summand
