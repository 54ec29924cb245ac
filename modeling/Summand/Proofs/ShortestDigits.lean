import Summand.Decimal.Digits
import Summand.Proofs.NearestDecimals

/-!
# Shortest digits

The digits with which a double is written round to that double (`Decimal.rounded_shortest`). The
numbers that do are those in the basin of the double (`Basin.Contains`, `rounded_of_contains`), and
every grid point that is taken lies in it. With seventeen digits the nearest point of the grid does,
because half a step of that grid is less than half the distance of adjacent doubles
(`contains_of_near`).

The decimal point is found from the number of bits: a guess by the logarithm of two, in hundred
thousandths, is too small by at most two places (`pow_guess_le`, `lt_pow_guess`), and each step
climbs one place until the number is below the power of ten.
-/

namespace Summand

namespace Binary64

/-! ### Numbers that round to a given one -/

/-- Ties go to the even neighbour. -/
theorem nearestInt_of_even {y : ℝ} {k : ℤ} (hk : k % 2 = 0) (h : |k - y| = 1 / 2) :
    nearestInt y = k := by
  have htie {j : ℤ} (hj : y = j + 1 / 2) : nearestInt y = j + j % 2 := by
    have hfloor : ⌊y⌋ = j := Int.floor_eq_iff.2 ⟨by linarith, by linarith⟩
    have hfract : Int.fract y = 1 / 2 := by
      rw [Int.fract, hfloor, hj]
      ring
    rw [nearestInt, hfract, if_neg (lt_irrefl _), if_neg (lt_irrefl _), hfloor]
  rcases eq_or_eq_neg_of_abs_eq h with h | h
  · rw [htie (j := k - 1) (by push_cast; linarith)]
    omega
  · rw [htie (j := k) (by linarith)]
    omega

/-- A number is rounded to the last place of a binade in which it lies. -/
theorem lastPlace_of_bounds {r : ℝ} {e : ℤ} (he : -1074 ≤ e) (hlow : 2 ^ (52 + e) ≤ r)
    (hhigh : r < 2 ^ (53 + e)) : lastPlace r = e := by
  have hpos : 0 < r := (two_zpow_pos _).trans_le hlow
  have hless : Int.log 2 r < 53 + e :=
    (Int.lt_zpow_iff_log_lt one_lt_two hpos).1 (by exact_mod_cast hhigh)
  have hmore : 52 + e ≤ Int.log 2 r :=
    (Int.zpow_le_iff_le_log one_lt_two hpos).1 (by exact_mod_cast hlow)
  rw [lastPlace, abs_of_pos hpos]
  omega

end Binary64

namespace Decimal

open Binary64 (rounded two_zpow_pos two_zpow_add ten_zpow_pos ten_zpow_add)

/-! ### Ratios -/

namespace Ratio

variable {r : Ratio}

/-- The number that a ratio is. -/
noncomputable def value (r : Ratio) : ℝ := r.numerator / r.denominator

theorem denominator_ofScaled_pos (m : ℕ) (e : ℤ) : 0 < (ofScaled m e).denominator := by
  rw [ofScaled]
  split_ifs
  · exact Nat.one_pos
  · exact Nat.pow_pos two_pos

theorem numerator_ofScaled_pos {m : ℕ} (hm : 0 < m) (e : ℤ) : 0 < (ofScaled m e).numerator := by
  rw [ofScaled]
  split_ifs
  · exact Nat.mul_pos hm (Nat.pow_pos two_pos)
  · exact hm

theorem value_ofScaled (m : ℕ) (e : ℤ) : (ofScaled m e).value = m * 2 ^ e := by
  rw [ofScaled, value]
  split_ifs with h
  · obtain ⟨k, rfl⟩ := Int.eq_ofNat_of_zero_le h
    simp
  · obtain ⟨k, rfl⟩ : ∃ k : ℕ, e = -k := ⟨(-e).toNat, by omega⟩
    simp [div_eq_mul_inv]

theorem denominator_timesTenTo_pos (hr : 0 < r.denominator) (k : ℤ) :
    0 < (r.timesTenTo k).denominator := by
  rw [timesTenTo]
  split_ifs
  · exact hr
  · exact Nat.mul_pos hr (Nat.pow_pos (by norm_num))

theorem value_timesTenTo (r : Ratio) (k : ℤ) : (r.timesTenTo k).value = r.value * 10 ^ k := by
  rw [timesTenTo, value, value]
  split_ifs with h
  · obtain ⟨k, rfl⟩ := Int.eq_ofNat_of_zero_le h
    simp [mul_div_right_comm]
  · obtain ⟨k, rfl⟩ : ∃ n : ℕ, k = -n := ⟨(-k).toNat, by omega⟩
    simp [div_eq_mul_inv, mul_assoc, mul_comm]

theorem floor_eq (r : Ratio) : r.floor = ⌊r.value⌋₊ := (Nat.floor_div_eq_div _ _).symm

theorem floor_le (r : Ratio) : r.floor ≤ r.value := by
  rw [floor_eq]
  exact Nat.floor_le (div_nonneg (Nat.cast_nonneg _) (Nat.cast_nonneg _))

theorem belowOne_iff (hr : 0 < r.denominator) : r.belowOne = true ↔ r.value < 1 := by
  rw [belowOne, decide_eq_true_iff, value, div_lt_one (Nat.cast_pos.2 hr), Nat.cast_lt]

theorem round_eq (r : Ratio) : r.round = r.floor ∨ r.round = r.floor + 1 := by
  rw [round]
  split_ifs
  · exact .inl rfl
  · exact .inr rfl

theorem abs_round_sub_le (hr : 0 < r.denominator) : |(r.round : ℝ) - r.value| ≤ 1 / 2 := by
  have hpos : (0 : ℝ) < r.denominator := Nat.cast_pos.2 hr
  have hvalue : r.value = r.floor + (r.numerator % r.denominator : ℕ) / r.denominator := by
    rw [value, floor, eq_comm, add_div' _ _ _ hpos.ne', div_left_inj' hpos.ne']
    exact_mod_cast Nat.div_add_mod' r.numerator r.denominator
  have hrest : ((r.numerator % r.denominator : ℕ) : ℝ) / r.denominator < 1 := by
    rw [div_lt_one hpos, Nat.cast_lt]
    exact Nat.mod_lt _ hr
  have hnonneg : (0 : ℝ) ≤ (r.numerator % r.denominator : ℕ) / r.denominator := by positivity
  rw [hvalue, round]
  split_ifs with h
  · have hle : 2 * (r.numerator % r.denominator) ≤ r.denominator := by
      simp at h
      omega
    have hhalf : ((r.numerator % r.denominator : ℕ) : ℝ) / r.denominator ≤ 1 / 2 := by
      rw [div_le_div_iff₀ hpos two_pos, one_mul, mul_comm]
      exact_mod_cast hle
    rw [abs_le]
    constructor <;> linarith
  · have hle : r.denominator ≤ 2 * (r.numerator % r.denominator) := by
      simp at h
      omega
    have hhalf : 1 / 2 ≤ ((r.numerator % r.denominator : ℕ) : ℝ) / r.denominator := by
      rw [div_le_div_iff₀ two_pos hpos, one_mul, mul_comm]
      exact_mod_cast hle
    rw [Nat.cast_succ, abs_le]
    constructor <;> linarith

/-! ### The decimal point -/

/-- The guess of the decimal point. -/
def guess (bits : ℤ) : ℤ := Int.fdiv (bits * 30103) 100000

theorem guess_bounds (bits : ℤ) :
    guess bits * 100000 ≤ bits * 30103 ∧ bits * 30103 < (guess bits + 1) * 100000 := by
  rw [guess, Int.fdiv_eq_ediv_of_nonneg _ (by norm_num)]
  omega

/-- The powers of ten and of two that the guess compares differ by a factor of two at most. -/
theorem pow_natCast_bounds (n : ℕ) :
    (2 : ℝ) ^ (100000 * n - n : ℤ) ≤ 10 ^ (30103 * n : ℤ) ∧
      (10 : ℝ) ^ (30103 * n : ℤ) ≤ 2 ^ (100000 * n + n : ℤ) := by
  have hlow : (2 : ℝ) ^ (100000 : ℤ) ≤ 10 ^ (30103 : ℤ) :=
    Binary64.two_pow_le_ten_pow (by decide +kernel)
  have hhigh : (10 : ℝ) ^ (30103 : ℤ) ≤ 2 ^ (100001 : ℤ) := by
    have h : 10 ^ 30103 ≤ 2 ^ 100001 := by decide +kernel
    exact_mod_cast (Nat.cast_le (α := ℝ)).2 h
  constructor
  · calc (2 : ℝ) ^ (100000 * n - n : ℤ) ≤ 2 ^ (100000 * n : ℤ) :=
          zpow_le_zpow_right₀ one_le_two (by omega)
      _ = (2 ^ (100000 : ℤ)) ^ n := by rw [zpow_mul, zpow_natCast]
      _ ≤ (10 ^ (30103 : ℤ)) ^ n := pow_le_pow_left₀ (two_zpow_pos _).le hlow n
      _ = 10 ^ (30103 * n : ℤ) := by rw [zpow_mul, zpow_natCast]
  · calc (10 : ℝ) ^ (30103 * n : ℤ) = (10 ^ (30103 : ℤ)) ^ n := by rw [zpow_mul, zpow_natCast]
      _ ≤ (2 ^ (100001 : ℤ)) ^ n := pow_le_pow_left₀ (ten_zpow_pos _).le hhigh n
      _ = 2 ^ (100001 * n : ℤ) := by rw [zpow_mul, zpow_natCast]
      _ = 2 ^ (100000 * n + n : ℤ) := by rw [show (100001 * n : ℤ) = 100000 * n + n by ring]

theorem pow_bounds (bits : ℤ) :
    (2 : ℝ) ^ (100000 * bits - |bits|) ≤ 10 ^ (30103 * bits) ∧
      (10 : ℝ) ^ (30103 * bits) ≤ 2 ^ (100000 * bits + |bits|) := by
  obtain ⟨n, rfl | rfl⟩ := bits.eq_nat_or_neg
  · rw [Nat.abs_cast]
    exact pow_natCast_bounds n
  · obtain ⟨hlow, hhigh⟩ := pow_natCast_bounds n
    rw [abs_neg, Nat.abs_cast, show (100000 * -n - n : ℤ) = -(100000 * n + n) by ring,
      show (100000 * -n + n : ℤ) = -(100000 * n - n) by ring, mul_neg, zpow_neg, zpow_neg, zpow_neg]
    exact ⟨inv_anti₀ (ten_zpow_pos _) hhigh, inv_anti₀ (two_zpow_pos _) hlow⟩

/-- The guess is not too large by more than one place. -/
theorem pow_guess_le {bits : ℤ} (h : |bits| ≤ 100000) :
    (10 : ℝ) ^ (guess bits - 2) ≤ 2 ^ (bits - 1) := by
  obtain ⟨hguess, -⟩ := guess_bounds bits
  have hten : (10 : ℝ) ^ (-200000 : ℤ) ≤ 2 ^ (-200000 : ℤ) := by
    rw [zpow_neg, zpow_neg]
    exact inv_anti₀ (two_zpow_pos _) (zpow_le_zpow_left₀ (by norm_num) two_pos.le (by norm_num))
  refine (pow_le_pow_iff_left₀ (ten_zpow_pos _).le (two_zpow_pos _).le
    (show 100000 ≠ 0 by norm_num)).1 ?_
  calc ((10 : ℝ) ^ (guess bits - 2)) ^ 100000 = 10 ^ ((guess bits - 2) * 100000) := by
        rw [zpow_mul]
        norm_cast
    _ ≤ 10 ^ (30103 * bits + -200000) := zpow_le_zpow_right₀ (by norm_num) (by omega)
    _ = 10 ^ (30103 * bits) * 10 ^ (-200000 : ℤ) := ten_zpow_add _ _
    _ ≤ 2 ^ (100000 * bits + |bits|) * 2 ^ (-200000 : ℤ) :=
      mul_le_mul (pow_bounds bits).2 hten (ten_zpow_pos _).le (two_zpow_pos _).le
    _ = 2 ^ (100000 * bits + |bits| + -200000) := (two_zpow_add _ _).symm
    _ ≤ 2 ^ ((bits - 1) * 100000) := zpow_le_zpow_right₀ one_le_two (by omega)
    _ = (2 ^ (bits - 1)) ^ 100000 := by
        rw [zpow_mul]
        norm_cast

/-- The guess is not too small by more than two places. -/
theorem pow_le_guess {bits : ℤ} (h : |bits| ≤ 100000) :
    (2 : ℝ) ^ (bits + 1) ≤ 10 ^ (guess bits + 2) := by
  obtain ⟨-, hguess⟩ := guess_bounds bits
  have hfour : (2 : ℝ) ^ (200000 : ℤ) ≤ 10 ^ (100000 : ℤ) := by
    rw [show (200000 : ℤ) = 2 * 100000 by norm_num, zpow_mul]
    exact zpow_le_zpow_left₀ (by norm_num) (by positivity) (by norm_num)
  refine (pow_le_pow_iff_left₀ (two_zpow_pos _).le (ten_zpow_pos _).le
    (show 100000 ≠ 0 by norm_num)).1 ?_
  calc ((2 : ℝ) ^ (bits + 1)) ^ 100000 = 2 ^ ((bits + 1) * 100000) := by
        rw [zpow_mul]
        norm_cast
    _ ≤ 2 ^ (100000 * bits - |bits| + 200000) := zpow_le_zpow_right₀ one_le_two (by omega)
    _ = 2 ^ (100000 * bits - |bits|) * 2 ^ (200000 : ℤ) := two_zpow_add _ _
    _ ≤ 10 ^ (30103 * bits) * 10 ^ (100000 : ℤ) :=
      mul_le_mul (pow_bounds bits).1 hfour (two_zpow_pos _).le (ten_zpow_pos _).le
    _ = 10 ^ (30103 * bits + 100000) := (ten_zpow_add _ _).symm
    _ ≤ 10 ^ ((guess bits + 2) * 100000) := zpow_le_zpow_right₀ (by norm_num) (by omega)
    _ = (10 ^ (guess bits + 2)) ^ 100000 := by
        rw [zpow_mul]
        norm_cast

/-- One place further, unless the number is below the power of ten. -/
def climb (r : Ratio) (k : ℤ) : ℤ := if (r.timesTenTo (-k)).belowOne then k else k + 1

theorem climb_eq (hr : 0 < r.denominator) (hpos : 0 < r.value) (k : ℤ) :
    r.climb k = if Int.log 10 r.value < k then k else k + 1 := by
  have hbelow : (r.timesTenTo (-k)).belowOne = true ↔ Int.log 10 r.value < k := by
    rw [belowOne_iff (denominator_timesTenTo_pos hr _), value_timesTenTo,
      ← Int.lt_zpow_iff_log_lt (by norm_num) hpos, zpow_neg, ← div_eq_mul_inv,
      div_lt_one (ten_zpow_pos k)]
    rfl
  simp only [climb, hbelow]

/-- The digits of a number begin at its decimal point. -/
theorem decimalPoint_bounds (hr : 0 < r.denominator) (hn : 0 < r.numerator)
    (hbits : |(r.numerator.log2 - r.denominator.log2 : ℤ)| ≤ 100000) :
    10 ^ (r.decimalPoint - 1) ≤ r.value ∧ r.value < 10 ^ r.decimalPoint := by
  have hpos : 0 < r.value := div_pos (Nat.cast_pos.2 hn) (Nat.cast_pos.2 hr)
  have hpoint : r.decimalPoint = r.climb (r.climb (r.climb
      (guess (r.numerator.log2 - r.denominator.log2) - 1))) := rfl
  generalize hb : (r.numerator.log2 - r.denominator.log2 : ℤ) = bits at hbits hpoint
  have hmore : (2 : ℝ) ^ (bits - 1) ≤ r.value := by
    rw [value, le_div_iff₀ (Nat.cast_pos.2 hr), mul_comm]
    calc (r.denominator : ℝ) * 2 ^ (bits - 1) ≤ 2 ^ ((r.denominator.log2 : ℤ) + 1 + (bits - 1)) :=
          (Binary64.mul_zpow_lt_log2 _ _).le
      _ = 2 ^ ((r.numerator.log2 : ℤ) + 0) := by rw [← hb]; ring_nf
      _ ≤ r.numerator * 2 ^ (0 : ℤ) := Binary64.log2_le_mul_zpow hn.ne' 0
      _ = r.numerator := by rw [zpow_zero, mul_one]
  have hless : r.value < 2 ^ (bits + 1) := by
    rw [value, div_lt_iff₀ (Nat.cast_pos.2 hr), mul_comm]
    calc (r.numerator : ℝ) = r.numerator * 2 ^ (0 : ℤ) := by rw [zpow_zero, mul_one]
      _ < 2 ^ ((r.numerator.log2 : ℤ) + 1 + 0) := Binary64.mul_zpow_lt_log2 _ 0
      _ = 2 ^ ((r.denominator.log2 : ℤ) + (bits + 1)) := by rw [← hb]; ring_nf
      _ ≤ r.denominator * 2 ^ (bits + 1) := Binary64.log2_le_mul_zpow hr.ne' _
  have hlow : guess bits - 2 ≤ Int.log 10 r.value :=
    (Int.zpow_le_iff_le_log (by norm_num) hpos).1
      (by exact_mod_cast (pow_guess_le hbits).trans hmore)
  have hhigh : Int.log 10 r.value < guess bits + 2 :=
    (Int.lt_zpow_iff_log_lt (by norm_num) hpos).1
      (by exact_mod_cast hless.trans_le (pow_le_guess hbits))
  have hlog : r.decimalPoint = Int.log 10 r.value + 1 := by
    rw [hpoint, climb_eq hr hpos, climb_eq hr hpos, climb_eq hr hpos]
    split_ifs <;> omega
  rw [hlog, add_sub_cancel_right]
  exact ⟨by exact_mod_cast Int.zpow_log_le_self (by norm_num) hpos,
    by exact_mod_cast Int.lt_zpow_succ_log_self (by norm_num) r.value⟩

end Ratio

/-! ### The numbers that round to a double -/

/-- The number lies in the basin. -/
def Basin.Contains (b : Basin) (y : ℝ) : Prop :=
  let unit := Binary64.weight b.exponent
  if b.closed then b.lower * unit ≤ y ∧ y ≤ b.upper * unit
  else b.lower * unit < y ∧ y < b.upper * unit

theorem Basin.contains_iff (b : Basin) {r : Ratio} (hr : 0 < r.denominator) :
    b.contains r = true ↔ b.Contains r.value := by
  have hpos : (0 : ℝ) < r.denominator := Nat.cast_pos.2 hr
  have hscaled (m : ℕ) : (m : ℝ) * 2 ^ b.exponent = (Ratio.ofScaled m b.exponent).value :=
    (Ratio.value_ofScaled _ _).symm
  have hlow (m : ℕ) : (0 : ℝ) < (Ratio.ofScaled m b.exponent).denominator :=
    Nat.cast_pos.2 (Ratio.denominator_ofScaled_pos _ _)
  rw [contains, Contains, Binary64.weight, hscaled, hscaled, Ratio.value, Ratio.value, Ratio.value]
  split_ifs
  · rw [div_le_div_iff₀ (hlow _) hpos, div_le_div_iff₀ hpos (hlow _)]
    simp only [Bool.and_eq_true, decide_eq_true_eq]
    norm_cast
  · rw [div_lt_div_iff₀ (hlow _) hpos, div_lt_div_iff₀ hpos (hlow _)]
    simp only [Bool.and_eq_true, decide_eq_true_eq]
    norm_cast

variable {m : ℕ} {e : ℤ} {hm : 0 < m}

/-- How far the basin reaches below a mantissa. -/
noncomputable def reach (m : ℕ) (e : ℤ) : ℝ :=
  Binary64.weight (if m = 2 ^ 52 ∧ -1074 < e then -2 else -1)

theorem reach_eq (m : ℕ) (e : ℤ) :
    reach m e = if m = 2 ^ 52 ∧ -1074 < e then 1 / 4 else 1 / 2 := by
  rw [reach]
  split_ifs <;> norm_num [Binary64.weight]

/-- A basin reaches halfway to the adjacent doubles, and its ends round to an even mantissa. -/
theorem contains_basin_iff (hm : 0 < m) (e : ℤ) (z : ℝ) : (basin m e).Contains (z * 2 ^ e) ↔
    if m % 2 = 0 then m - reach m e ≤ z ∧ z ≤ m + 1 / 2
    else m - reach m e < z ∧ z < m + 1 / 2 := by
  have hquarter : (2 : ℝ) ^ (e - 2) = 2 ^ e / 4 := by
    rw [zpow_sub₀ two_ne_zero]
    norm_num
  have hpos := two_zpow_pos e
  have hlower : ((basin m e).lower : ℝ) * 2 ^ (basin m e).exponent = (m - reach m e) * 2 ^ e := by
    show ((4 * m - if m = Nat.pow 2 52 && e > -1074 then 1 else 2 : ℕ) : ℝ) * 2 ^ (e - 2) = _
    simp only [Bool.and_eq_true, decide_eq_true_eq, Nat.pow_eq, gt_iff_lt]
    rw [hquarter, reach_eq]
    split_ifs
    · rw [Nat.cast_sub (by omega)]
      push_cast
      ring
    · rw [Nat.cast_sub (by omega)]
      push_cast
      ring
  have hupper : ((basin m e).upper : ℝ) * 2 ^ (basin m e).exponent = (m + 1 / 2) * 2 ^ e := by
    show ((4 * m + 2 : ℕ) : ℝ) * 2 ^ (e - 2) = _
    rw [hquarter]
    push_cast
    ring
  have hclosed : (basin m e).closed = true ↔ m % 2 = 0 := beq_iff_eq
  simp only [Basin.Contains, Binary64.weight, hlower, hupper, hclosed, mul_le_mul_iff_left₀ hpos,
    mul_lt_mul_iff_left₀ hpos]

theorem reach_le_half (m : ℕ) (e : ℤ) : reach m e ≤ 1 / 2 := by
  rw [reach_eq]
  split_ifs <;> norm_num

/-- A number within half a unit of an integer is rounded to it, if ties are only at even ones. -/
theorem nearestInt_of_tie {z : ℝ} {k : ℤ} (h : |k - z| ≤ 1 / 2)
    (htie : |k - z| = 1 / 2 → k % 2 = 0) : Binary64.nearestInt z = k := by
  rcases h.lt_or_eq with hlt | heq
  · exact Binary64.nearestInt_eq hlt
  · exact Binary64.nearestInt_of_even (htie heq) heq

/-- A number is rounded as its last place says. -/
theorem rounded_of_lastPlace {y z : ℝ} {p : ℤ} {k : ℤ} (hlast : Binary64.lastPlace y = p)
    (hy : y = z * 2 ^ p) (hz : Binary64.nearestInt z = k) : rounded y = k * 2 ^ p := by
  rw [rounded, hlast, hy, Binary64.weight, mul_div_cancel_right₀ _ (two_zpow_pos p).ne', hz]

/-- Just below the least mantissa, a number is in the binade below, where the doubles are twice as
dense. -/
theorem rounded_of_below {z : ℝ} (he : -1074 < e) (hlow : 2 ^ 52 - 1 / 4 ≤ z) (hless : z < 2 ^ 52) :
    rounded (z * 2 ^ e) = 2 ^ 52 * 2 ^ e := by
  have hpos := two_zpow_pos e
  have hpower (k : ℤ) : (2 : ℝ) ^ (k + e) = 2 ^ k * 2 ^ e := two_zpow_add k e
  have hscaled : z * 2 ^ e = 2 * z * 2 ^ (e - 1) := by
    rw [zpow_sub₀ two_ne_zero, zpow_one]
    ring
  have hlast : Binary64.lastPlace (z * 2 ^ e) = e - 1 := by
    refine Binary64.lastPlace_of_bounds (by omega) ?_ ?_
    · rw [show 52 + (e - 1) = 51 + e by ring, hpower]
      exact mul_le_mul_of_nonneg_right (by norm_num at hlow ⊢; linarith) hpos.le
    · rw [show 53 + (e - 1) = 52 + e by ring, hpower]
      exact mul_lt_mul_of_pos_right (by norm_num at hless ⊢; linarith) hpos
  have hnearest : Binary64.nearestInt (2 * z) = 2 ^ 53 := by
    refine nearestInt_of_tie ?_ fun _ ↦ by norm_num
    push_cast
    rw [abs_le]
    constructor <;> norm_num at hlow hless ⊢ <;> linarith
  rw [rounded_of_lastPlace hlast hscaled hnearest, zpow_sub₀ two_ne_zero]
  push_cast
  ring

/-- A number within half a unit of a mantissa is in the binade of it, unless that is the least one
and the number is below. -/
theorem lastPlace_of_near (h : Binary64.Canonical (.finite .positive m e hm)) {z : ℝ}
    (hlow : m - 1 / 2 ≤ z) (hhigh : z ≤ m + 1 / 2)
    (hbelow : ¬(m = 2 ^ 52 ∧ -1074 < e ∧ z < m)) : Binary64.lastPlace (z * 2 ^ e) = e := by
  obtain ⟨hbits, hleast, hplaces⟩ := h
  have hpos := two_zpow_pos e
  have hpower (k : ℤ) : (2 : ℝ) ^ (k + e) = 2 ^ k * 2 ^ e := two_zpow_add k e
  have hone : (1 : ℝ) ≤ m := by exact_mod_cast hm
  have hmost : (m : ℝ) + 1 ≤ 2 ^ 53 := by exact_mod_cast hbits
  rcases hleast.eq_or_lt with rfl | hlt
  · have hz : 0 < z * 2 ^ (-1074 : ℤ) := mul_pos (by linarith) hpos
    refine Binary64.lastPlace_of_lt hz.ne' ?_
    rw [abs_of_pos hz, show (-1021 : ℤ) = 53 + -1074 by norm_num, hpower]
    exact mul_lt_mul_of_pos_right (by norm_num at hmost ⊢; linarith) hpos
  · have hplaces : 2 ^ 52 ≤ m := hplaces.resolve_right hlt.ne'
    have hmore : (2 : ℝ) ^ 52 ≤ z := by
      rcases hplaces.eq_or_lt with heq | hgt
      · have hz : (m : ℝ) ≤ z := not_lt.1 fun h ↦ hbelow ⟨heq.symm, hlt, h⟩
        rw [← heq] at hz
        exact_mod_cast hz
      · have hcast : (2 : ℝ) ^ 52 + 1 ≤ m := by exact_mod_cast hgt
        linarith
    refine Binary64.lastPlace_of_bounds hleast ?_ ?_
    · rw [hpower]
      exact mul_le_mul_of_nonneg_right (by exact_mod_cast hmore) hpos.le
    · rw [hpower]
      exact mul_lt_mul_of_pos_right (by norm_num at hmost ⊢; linarith) hpos

/-- Every number in the basin of a double rounds to it. -/
theorem rounded_of_contains (h : Binary64.Canonical (.finite .positive m e hm)) {y : ℝ}
    (hy : (basin m e).Contains y) : rounded y = m * 2 ^ e := by
  obtain ⟨z, rfl⟩ : ∃ z, y = z * 2 ^ e :=
    ⟨y / 2 ^ e, (div_mul_cancel₀ y (two_zpow_pos e).ne').symm⟩
  rw [contains_basin_iff hm] at hy
  have hreach := reach_le_half m e
  have hlow : m - reach m e ≤ z := by split_ifs at hy <;> linarith [hy.1]
  have hhigh : z ≤ m + 1 / 2 := by split_ifs at hy <;> linarith [hy.2]
  by_cases hbelow : m = 2 ^ 52 ∧ -1074 < e ∧ z < m
  · obtain ⟨rfl, he, hless⟩ := hbelow
    rw [reach_eq, if_pos ⟨rfl, he⟩] at hlow
    rw [Nat.cast_pow, Nat.cast_ofNat] at hlow hless ⊢
    exact rounded_of_below he hlow hless
  · have hnearest : Binary64.nearestInt z = m := by
      refine nearestInt_of_tie ?_ fun htie ↦ ?_
      · rw [Int.cast_natCast, abs_le]
        constructor <;> linarith
      · by_contra hodd
        rw [if_neg (by omega)] at hy
        rw [Int.cast_natCast] at htie
        rcases eq_or_eq_neg_of_abs_eq htie with h | h <;> linarith [hy.1, hy.2]
    have hlast := lastPlace_of_near h (by linarith) hhigh hbelow
    rw [rounded_of_lastPlace hlast rfl hnearest, Int.cast_natCast]

/-- A number nearer to a double than half a unit of its seventeenth digit is in the basin. -/
theorem contains_of_near (h : Binary64.Canonical (.finite .positive m e hm)) {y : ℝ}
    (hy : |y - m * 2 ^ e| ≤ m * 2 ^ e / (2 * 10 ^ 16)) : (basin m e).Contains y := by
  have hpos := two_zpow_pos e
  obtain ⟨z, rfl⟩ : ∃ z, y = z * 2 ^ e := ⟨y / 2 ^ e, (div_mul_cancel₀ y hpos.ne').symm⟩
  have hnear : |z - m| ≤ m / (2 * 10 ^ 16) := by
    rw [← sub_mul, abs_mul, abs_of_pos hpos, mul_div_right_comm] at hy
    exact le_of_mul_le_mul_right hy hpos
  obtain ⟨hlow, hhigh⟩ := abs_le.1 hnear
  have hmost : (m : ℝ) < 2 ^ 53 := by exact_mod_cast h.1
  have hless : z < m + 1 / 2 := by linarith
  have hmore : m - reach m e < z := by
    rw [reach_eq]
    split_ifs with hpower
    · have hm : (m : ℝ) = 2 ^ 52 := by exact_mod_cast hpower.1
      rw [hm] at hlow ⊢
      linarith
    · linarith
  rw [contains_basin_iff hm]
  split_ifs
  · exact ⟨hmore.le, hless.le⟩
  · exact ⟨hmore, hless⟩

/-! ### Grids -/

namespace Digits

/-- The number that digits denote. -/
noncomputable def value (d : Digits) : ℝ := d.coefficient * 10 ^ (d.point - d.count)

/-- The digits of a number of that many digits. -/
structure Proper (d : Digits) : Prop where
  count_pos : 0 < d.count
  le : 10 ^ (d.count - 1) ≤ d.coefficient
  lt : d.coefficient < 10 ^ d.count

/-- The digits are those of a neighbour of a number on the grid of as many digits. -/
structure Near (d : Digits) (value : Ratio) (point : ℤ) : Prop where
  point_eq : d.point = point
  coefficient_eq : d.coefficient = (value.timesTenTo (d.count - point)).floor ∨
    d.coefficient = (value.timesTenTo (d.count - point)).floor + 1

end Digits

variable {value : Ratio} {b : Basin} {point : ℤ} {count : ℕ} {d : Digits}

/-- What is found on a grid is a neighbour of the number and lies in the basin. -/
theorem onGrid?_eq_some (h : onGrid? value b point count = some d) :
    d.count = count ∧ d.Near value point ∧ b.Contains d.value := by
  rw [onGrid?, Option.map_eq_some_iff] at h
  obtain ⟨c, hc, rfl⟩ := h
  have hhit (c : ℕ) : b.contains ((Ratio.mk c 1).timesTenTo (point - count)) = true ↔
      b.Contains (Digits.value ⟨c, count, point⟩) := by
    rw [Basin.contains_iff b (Ratio.denominator_timesTenTo_pos Nat.one_pos _),
      Ratio.value_timesTenTo, Ratio.value, Nat.cast_one, div_one, Digits.value]
  refine ⟨rfl, ⟨rfl, ?_⟩, (hhit c).1 ?_⟩
  all_goals
    dsimp only at hc
    split at hc
  · cases hc
    exact Ratio.round_eq _
  · cases hc
    exact .inl rfl
  · cases hc
    exact .inr rfl
  · cases hc
  · cases hc
    rcases Ratio.round_eq (value.timesTenTo (count - point)) with hround | hround <;>
      rw [hround] <;> assumption
  · cases hc
    assumption
  · cases hc
    assumption
  · cases hc

/-- The nearest number of seventeen digits is in the basin. -/
theorem contains_seventeen (h : Binary64.Canonical (.finite .positive m e hm))
    (hvalue : value.value = m * 2 ^ e) (hdenominator : 0 < value.denominator)
    (hpoint : 10 ^ (point - 1) ≤ value.value) :
    (basin m e).Contains
      (Digits.value ⟨(value.timesTenTo ((17 : ℕ) - point)).round, 17, point⟩) := by
  have hround := Ratio.abs_round_sub_le
    (Ratio.denominator_timesTenTo_pos hdenominator ((17 : ℕ) - point))
  rw [Ratio.value_timesTenTo] at hround
  have hscale : value.value = value.value * 10 ^ ((17 : ℕ) - point) * 10 ^ (point - (17 : ℕ)) := by
    rw [mul_assoc, ← ten_zpow_add, sub_add_sub_cancel', sub_self, zpow_zero, mul_one]
  have hstep : (10 : ℝ) ^ (point - (17 : ℕ)) ≤ value.value / 10 ^ 16 := by
    rw [le_div_iff₀ (by positivity), ← zpow_natCast, ← ten_zpow_add]
    refine le_of_eq_of_le ?_ hpoint
    congr 1
    push_cast
    ring
  generalize (value.timesTenTo ((17 : ℕ) - point)).round = k at hround ⊢
  refine contains_of_near h ?_
  rw [← hvalue, Digits.value]
  calc |(k : ℝ) * 10 ^ (point - (17 : ℕ)) - value.value| =
      |(k : ℝ) - value.value * 10 ^ ((17 : ℕ) - point)| * 10 ^ (point - (17 : ℕ)) := by
        nth_rewrite 1 [hscale]
        rw [← sub_mul, abs_mul, abs_of_pos (ten_zpow_pos _)]
    _ ≤ 1 / 2 * (value.value / 10 ^ 16) :=
      mul_le_mul hround hstep (ten_zpow_pos _).le (by norm_num)
    _ = value.value / (2 * 10 ^ 16) := by ring

/-- The first grid with a point in the basin is found, or that of seventeen digits is taken, whose
nearest point is in it. -/
theorem firstGrid_spec (h : Binary64.Canonical (.finite .positive m e hm))
    (hvalue : value.value = m * 2 ^ e) (hdenominator : 0 < value.denominator)
    (hpoint : 10 ^ (point - 1) ≤ value.value) (fuel : ℕ) :
    ∀ count, count + fuel = 17 → 0 < count →
      let d := firstGrid value (basin m e) point count fuel
      0 < d.count ∧ d.Near value point ∧ (basin m e).Contains d.value := by
  induction fuel with
  | zero =>
    rintro count rfl hcount
    exact ⟨hcount, ⟨rfl, Ratio.round_eq _⟩, contains_seventeen h hvalue hdenominator hpoint⟩
  | succ fuel ih =>
    intro count hfuel hcount
    rw [firstGrid]
    rcases hgrid : onGrid? value (basin m e) point count with - | d
    · exact ih (count + 1) (by omega) (Nat.succ_pos _)
    · obtain ⟨rfl, hnear, hcontains⟩ := onGrid?_eq_some hgrid
      exact ⟨hcount, hnear, hcontains⟩

/-- A neighbour of a number has as many digits as its grid, unless it is the next power of ten. -/
theorem Digits.Near.bounds (h : d.Near value point) (hcount : 0 < d.count)
    (hlow : 10 ^ (point - 1) ≤ value.value) (hhigh : value.value < 10 ^ point) :
    10 ^ (d.count - 1) ≤ d.coefficient ∧ d.coefficient ≤ 10 ^ d.count := by
  have hscaled := Ratio.value_timesTenTo value (d.count - point)
  have hpos := ten_zpow_pos (d.count - point)
  have hmore : ((10 ^ (d.count - 1) : ℕ) : ℝ) ≤ (value.timesTenTo (d.count - point)).value := by
    rw [hscaled, Nat.cast_pow, Nat.cast_ofNat, ← zpow_natCast,
      show ((d.count - 1 : ℕ) : ℤ) = point - 1 + (d.count - point) by omega, ten_zpow_add]
    exact mul_le_mul_of_nonneg_right hlow hpos.le
  have hless : (value.timesTenTo (d.count - point)).value < ((10 ^ d.count : ℕ) : ℝ) := by
    have hpower : (10 : ℝ) ^ point * 10 ^ (d.count - point) = ((10 ^ d.count : ℕ) : ℝ) := by
      rw [← ten_zpow_add, add_sub_cancel, zpow_natCast, Nat.cast_pow, Nat.cast_ofNat]
    rw [hscaled, ← hpower]
    exact mul_lt_mul_of_pos_right hhigh hpos
  have hfloor : 10 ^ (d.count - 1) ≤ (value.timesTenTo (d.count - point)).floor := by
    rw [Ratio.floor_eq]
    exact Nat.le_floor hmore
  have hbelow : (value.timesTenTo (d.count - point)).floor < 10 ^ d.count := by
    exact_mod_cast (Ratio.floor_le _).trans_lt hless
  rcases h.coefficient_eq with heq | heq <;> omega

/-- A carry to one digit more changes how a number is written, and not the number. -/
theorem Digits.value_carried (hcount : 0 < d.count) : d.carried.value = d.value := by
  rw [carried]
  split_ifs with h
  · rw [value, value, h, Nat.pow_eq, Nat.pow_eq]
    dsimp only
    push_cast
    rw [← zpow_natCast, ← zpow_natCast, ← ten_zpow_add, ← ten_zpow_add]
    congr 1
    omega
  · rfl

theorem Digits.proper_carried (hcount : 0 < d.count) (hlow : 10 ^ (d.count - 1) ≤ d.coefficient)
    (hhigh : d.coefficient ≤ 10 ^ d.count) : d.carried.Proper := by
  rw [carried]
  split_ifs with h
  · exact ⟨hcount, le_rfl, Nat.pow_lt_pow_right (by norm_num) (Nat.sub_lt hcount Nat.one_pos)⟩
  · exact ⟨hcount, hlow, hhigh.lt_of_ne h⟩

/-- The number of bits before the point of a double is not too large for the guess. -/
theorem abs_log2_ofScaled_le (hm : 0 < m) (hbits : m < 2 ^ 53) (hleast : -1074 ≤ e)
    (he : e ≤ 1024) : |((Ratio.ofScaled m e).numerator.log2 -
      (Ratio.ofScaled m e).denominator.log2 : ℤ)| ≤ 100000 := by
  rw [Ratio.ofScaled, Nat.pow_eq, Nat.pow_eq]
  split_ifs with h
  · have hlog : (m * 2 ^ e.toNat).log2 < 53 + e.toNat := by
      rw [Nat.log2_lt (Nat.mul_pos hm (by positivity)).ne', pow_add]
      exact Nat.mul_lt_mul_of_pos_right hbits (by positivity)
    have hone : Nat.log2 1 = 0 := rfl
    dsimp only
    rw [hone, abs_le]
    omega
  · have hlog : m.log2 < 53 := (Nat.log2_lt hm.ne').2 hbits
    dsimp only
    rw [Nat.log2_two_pow, abs_le]
    omega

/-- The shortest digits of a double round to it. -/
theorem shortest_spec (h : Binary64.Canonical (.finite .positive m e hm)) (he : e ≤ 1024) :
    (shortest m e).Proper ∧ rounded (shortest m e).value = m * 2 ^ e := by
  have hvalue := Ratio.value_ofScaled m e
  have hdenominator := Ratio.denominator_ofScaled_pos m e
  have hnumerator := Ratio.numerator_ofScaled_pos hm e
  obtain ⟨hlow, hhigh⟩ := Ratio.decimalPoint_bounds hdenominator hnumerator
    (abs_log2_ofScaled_le hm h.1 h.2.1 he)
  obtain ⟨hcount, hnear, hcontains⟩ :=
    firstGrid_spec h hvalue hdenominator hlow 16 1 rfl Nat.one_pos
  obtain ⟨hleast, hmost⟩ := hnear.bounds hcount hlow hhigh
  refine ⟨Digits.proper_carried hcount hleast hmost, ?_⟩
  rw [shortest, Digits.value_carried hcount]
  exact rounded_of_contains h hcontains

end Decimal

end Summand
