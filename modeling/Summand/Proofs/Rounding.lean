import Mathlib.Algebra.Order.Archimedean.Real.Basic
import Mathlib.Algebra.Order.Round
import Mathlib.Data.Int.Log
import Mathlib.Tactic.Linarith
import Mathlib.Tactic.Ring

/-!
# Rounding of real numbers

A number fits if it is an integer of at most 53 bits times a power of two that is no less than
`2 ^ -1074` (`Fits`); a finite double is such a number below `2 ^ 1024`. The number rounded is the
nearest integer multiple of two to the power of its last place, ties to even (`rounded`). No number
that fits is nearer (`abs_rounded_sub_le`), which makes rounding monotone (`rounded_mono`) and the
identity on the numbers that fit (`rounded_of_fits`).

Nothing is said of doubles here, and no exponent is too large: what overflows is decided from the
rounded number.
-/

namespace Summand.Binary64

/-! ### The nearest integer -/

/-- The nearest integer, and the even one of two that are equally near. -/
noncomputable def nearestInt (y : ℝ) : ℤ :=
  if Int.fract y < 1 / 2 then ⌊y⌋ else if 1 / 2 < Int.fract y then ⌊y⌋ + 1 else ⌊y⌋ + ⌊y⌋ % 2

theorem abs_nearestInt_sub_le_half (y : ℝ) : |(nearestInt y : ℝ) - y| ≤ 1 / 2 := by
  have hfloor : (⌊y⌋ : ℝ) = y - Int.fract y := (Int.self_sub_fract y).symm
  have hlow := Int.fract_nonneg y
  have hhigh := Int.fract_lt_one y
  have hparity : ((⌊y⌋ % 2 : ℤ) : ℝ) = 0 ∨ ((⌊y⌋ % 2 : ℤ) : ℝ) = 1 := by
    rcases Int.emod_two_eq_zero_or_one ⌊y⌋ with h | h <;> simp [h]
  rw [nearestInt, abs_le]
  split_ifs with hless hmore
  · constructor <;> linarith
  · push_cast
    constructor <;> linarith
  · push_cast [hfloor]
    rcases hparity with h | h <;> rw [h] <;> constructor <;> linarith

/-- An integer that is nearer than a half is the nearest one. -/
theorem nearestInt_eq {y : ℝ} {k : ℤ} (h : |(k : ℝ) - y| < 1 / 2) : nearestInt y = k := by
  have hhalf := abs_nearestInt_sub_le_half y
  have htriangle : |(nearestInt y : ℝ) - k| ≤ |(nearestInt y : ℝ) - y| + |y - k| :=
    abs_sub_le _ _ _
  rw [abs_sub_comm y] at htriangle
  have hlt : |(nearestInt y : ℝ) - k| < 1 := by linarith
  have hcast : |nearestInt y - k| < 1 := by exact_mod_cast hlt
  exact sub_eq_zero.1 (Int.abs_lt_one_iff.1 hcast)

/-- No integer is nearer than the nearest one. -/
theorem abs_nearestInt_sub_le (y : ℝ) (k : ℤ) : |(nearestInt y : ℝ) - y| ≤ |(k : ℝ) - y| := by
  rcases lt_or_ge |(k : ℝ) - y| (1 / 2) with h | h
  · rw [nearestInt_eq h]
  · exact (abs_nearestInt_sub_le_half y).trans h

@[simp] theorem nearestInt_intCast (k : ℤ) : nearestInt (k : ℝ) = k := by simp [nearestInt]

/-- Ties go to the same side of zero. -/
theorem nearestInt_neg (y : ℝ) : nearestInt (-y) = -nearestInt y := by
  rcases eq_or_ne (Int.fract y) 0 with hzero | hzero
  · obtain ⟨k, rfl⟩ := Int.fract_eq_zero_iff.1 hzero
    rw [← Int.cast_neg, nearestInt_intCast, nearestInt_intCast]
  have hfract : Int.fract (-y) = 1 - Int.fract y := Int.fract_neg hzero
  have hfloor : ⌊-y⌋ = -⌊y⌋ - 1 := by
    have hcast : (⌊-y⌋ : ℝ) = ((-⌊y⌋ - 1 : ℤ) : ℝ) := by
      push_cast
      rw [← Int.self_sub_fract (-y), ← Int.self_sub_fract y, hfract]
      ring
    exact_mod_cast hcast
  have hmod : ⌊-y⌋ % 2 = 1 - ⌊y⌋ % 2 := by omega
  rw [nearestInt, nearestInt, hmod, hfract, hfloor]
  split_ifs <;> first | omega | linarith

/-! ### Numbers that fit -/

/-- What a one in a place counts for. -/
noncomputable abbrev weight (place : ℤ) : ℝ := 2 ^ place

theorem two_zpow_pos (e : ℤ) : (0 : ℝ) < 2 ^ e := zpow_pos two_pos e

theorem two_zpow_add (a b : ℤ) : (2 : ℝ) ^ (a + b) = 2 ^ a * 2 ^ b := zpow_add₀ two_ne_zero a b

/-- The number is an integer of at most 53 bits times a power of two that is not too small. -/
def Fits (v : ℝ) : Prop := ∃ k e : ℤ, |k| ≤ 2 ^ 53 ∧ -1074 ≤ e ∧ v = k * weight e

theorem Fits.neg {v : ℝ} (h : Fits v) : Fits (-v) := by
  obtain ⟨k, e, hk, he, rfl⟩ := h
  exact ⟨-k, e, by rwa [abs_neg], he, by push_cast; ring⟩

/-- The exponent of the last place that numbers near to `r` have. -/
noncomputable def lastPlace (r : ℝ) : ℤ := max (Int.log 2 |r| - 52) (-1074)

theorem lastPlace_neg (r : ℝ) : lastPlace (-r) = lastPlace r := by
  rw [lastPlace, abs_neg, lastPlace]

/-- The nearest multiple of the last place. -/
noncomputable def rounded (r : ℝ) : ℝ :=
  nearestInt (r / weight (lastPlace r)) * weight (lastPlace r)

theorem rounded_neg (r : ℝ) : rounded (-r) = -rounded r := by
  rw [rounded, lastPlace_neg, neg_div, nearestInt_neg, rounded]
  push_cast
  ring

@[simp] theorem rounded_zero : rounded 0 = 0 := by simp [rounded, nearestInt]

/-- A number has at most 53 places above its last one. -/
theorem abs_div_lt (r : ℝ) : |r / 2 ^ lastPlace r| < 2 ^ (53 : ℤ) := by
  have hpos := two_zpow_pos (lastPlace r)
  rw [abs_div, abs_of_pos hpos, div_lt_iff₀ hpos, ← two_zpow_add]
  calc |r| < (2 : ℕ) ^ (Int.log 2 |r| + 1) := Int.lt_zpow_succ_log_self one_lt_two _
    _ ≤ 2 ^ (53 + lastPlace r) := by
      rw [Nat.cast_two]
      refine zpow_le_zpow_right₀ one_le_two ?_
      have := le_max_left (Int.log 2 |r| - 52) (-1074)
      rw [lastPlace]
      omega

/-- A number whose last place is not the least one has 53 places. -/
theorem pow_le_abs_of_lastPlace {r : ℝ} (hr : r ≠ 0) (h : -1074 < lastPlace r) :
    (2 : ℝ) ^ (52 + lastPlace r) ≤ |r| := by
  have hlog : lastPlace r = Int.log 2 |r| - 52 := by
    rw [lastPlace] at h ⊢
    omega
  rw [hlog, show 52 + (Int.log 2 |r| - 52) = Int.log 2 |r| by ring]
  simpa using Int.zpow_log_le_self one_lt_two (abs_pos.2 hr)

/-- The nearest integer to a number of at most 53 places has no more, up to a carry. -/
theorem abs_nearestInt_div_le (r : ℝ) : |nearestInt (r / 2 ^ lastPlace r)| ≤ 2 ^ 53 := by
  have hbound := abs_div_lt r
  have herror := abs_nearestInt_sub_le_half (r / 2 ^ lastPlace r)
  have htriangle := abs_sub_abs_le_abs_sub (nearestInt (r / 2 ^ lastPlace r) : ℝ)
    (r / 2 ^ lastPlace r)
  have hcast : ((|nearestInt (r / 2 ^ lastPlace r)| : ℤ) : ℝ) < ((2 ^ 53 + 1 : ℤ) : ℝ) := by
    push_cast
    norm_num at hbound ⊢
    linarith
  exact Int.lt_add_one_iff.1 (by exact_mod_cast hcast)

/-- The nearest integer to a positive number of 53 places has no less. -/
theorem le_nearestInt_div {r : ℝ} (hr : 0 < r) (h : -1074 < lastPlace r) :
    2 ^ 52 ≤ nearestInt (r / 2 ^ lastPlace r) := by
  have hplaces := pow_le_abs_of_lastPlace hr.ne' h
  rw [abs_of_pos hr, two_zpow_add, ← le_div_iff₀ (two_zpow_pos _)] at hplaces
  have herror := (abs_le.1 (abs_nearestInt_sub_le_half (r / 2 ^ lastPlace r))).1
  have hcast : ((2 ^ 52 - 1 : ℤ) : ℝ) < nearestInt (r / 2 ^ lastPlace r) := by
    push_cast
    norm_num at hplaces ⊢
    linarith
  exact Int.sub_one_lt_iff.1 (by exact_mod_cast hcast)

theorem fits_rounded (r : ℝ) : Fits (rounded r) :=
  ⟨_, lastPlace r, abs_nearestInt_div_le r, le_max_right _ _, rfl⟩

/-! ### Nearest and monotone -/

/-- No multiple of the last place is nearer than the rounded number. -/
theorem abs_rounded_sub_le_mul (r : ℝ) (k : ℤ) :
    |rounded r - r| ≤ |k * 2 ^ lastPlace r - r| := by
  have hpos := two_zpow_pos (lastPlace r)
  have hscale (z : ℝ) :
      |z * 2 ^ lastPlace r - r| = |z - r / 2 ^ lastPlace r| * 2 ^ lastPlace r := by
    rw [← abs_of_pos hpos, ← abs_mul, abs_of_pos hpos, sub_mul, div_mul_cancel₀ _ hpos.ne']
  rw [rounded, hscale, hscale]
  exact mul_le_mul_of_nonneg_right (abs_nearestInt_sub_le _ k) hpos.le

/-- No number that fits is nearer than the rounded number. -/
theorem abs_rounded_sub_le (r : ℝ) {v : ℝ} (h : Fits v) : |rounded r - r| ≤ |v - r| := by
  obtain ⟨k, e, hk, he, rfl⟩ := h
  rcases le_or_gt (lastPlace r) e with hle | hlt
  · -- The number is itself a multiple of the last place.
    obtain ⟨n, rfl⟩ : ∃ n : ℕ, e = lastPlace r + n := ⟨(e - lastPlace r).toNat, by omega⟩
    have hmultiple := abs_rounded_sub_le_mul r (k * 2 ^ n)
    push_cast at hmultiple
    rwa [weight, two_zpow_add, zpow_natCast, mul_comm ((2 : ℝ) ^ lastPlace r), ← mul_assoc]
  rcases eq_or_ne r 0 with rfl | hr
  · rw [rounded_zero, sub_zero, abs_zero]
    exact abs_nonneg _
  -- All numbers with a smaller last place are nearer to zero than the multiple `2 ^ 52`, or
  -- `-2 ^ 52`, of the last place, and `r` is beyond it.
  have hfar : (2 : ℝ) ^ (52 + lastPlace r) ≤ |r| := pow_le_abs_of_lastPlace hr (he.trans_lt hlt)
  have hsmall : |(k : ℝ) * 2 ^ e| ≤ 2 ^ (52 + lastPlace r) := by
    have hcast : |(k : ℝ)| ≤ 2 ^ (53 : ℤ) := by exact_mod_cast hk
    calc |(k : ℝ) * 2 ^ e| = |(k : ℝ)| * 2 ^ e := by rw [abs_mul, abs_of_pos (two_zpow_pos e)]
      _ ≤ 2 ^ (53 : ℤ) * 2 ^ e := mul_le_mul_of_nonneg_right hcast (two_zpow_pos e).le
      _ = 2 ^ (53 + e) := (two_zpow_add _ _).symm
      _ ≤ 2 ^ (52 + lastPlace r) := zpow_le_zpow_right₀ one_le_two (by omega)
  have hpower : ((2 ^ 52 : ℤ) : ℝ) * 2 ^ lastPlace r = 2 ^ (52 + lastPlace r) := by
    rw [two_zpow_add]
    norm_num
  obtain ⟨hlow, hhigh⟩ := abs_le.1 hsmall
  rcases le_abs.1 hfar with hpos | hneg
  · refine (abs_rounded_sub_le_mul r (2 ^ 52)).trans ?_
    rw [hpower, abs_sub_comm, abs_sub_comm _ r, abs_of_nonneg (by linarith),
      abs_of_nonneg (by linarith)]
    linarith
  · refine (abs_rounded_sub_le_mul r (-2 ^ 52)).trans ?_
    rw [show ((-2 ^ 52 : ℤ) : ℝ) * 2 ^ lastPlace r = -2 ^ (52 + lastPlace r) by
      rw [← hpower]; push_cast; ring]
    rw [abs_of_nonneg (by linarith), abs_of_nonneg (by linarith)]
    linarith

/-- The number fits, and no other one that fits is nearer to `r`. There are two such numbers if `r`
lies halfway between them. -/
structure IsNearest (v r : ℝ) : Prop where
  fits : Fits v
  le : ∀ {w : ℝ}, Fits w → |v - r| ≤ |w - r|

theorem isNearest_rounded (r : ℝ) : IsNearest (rounded r) r :=
  ⟨fits_rounded r, abs_rounded_sub_le r⟩

namespace IsNearest

variable {v v' w r r' : ℝ}

theorem neg (h : IsNearest v r) : IsNearest (-v) (-r) := by
  refine ⟨h.fits.neg, fun {w} hw ↦ ?_⟩
  rw [neg_sub_neg, abs_sub_comm, sub_neg_eq_add, ← abs_neg (w + r), neg_add']
  exact h.le hw.neg

/-- A number that fits and is greater than the nearest one is not below the exact one. -/
theorem le_of_gt (h : IsNearest v r) (hw : Fits w) (hlt : v < w) : r ≤ w := by
  by_contra hbelow
  push Not at hbelow
  have hnear := h.le hw
  rw [abs_of_neg (by linarith), abs_of_neg (by linarith)] at hnear
  linarith

/-- Whichever of two equally near numbers is taken, greater numbers have no smaller nearest ones. -/
theorem mono (h : IsNearest v r) (h' : IsNearest v' r') (hlt : r < r') : v ≤ v' := by
  by_contra hcross
  push Not at hcross
  -- The midpoint of the two results is not above the first number and not below the second.
  have hfirst := h.le h'.fits
  have hsecond := h'.le h.fits
  have hbelow : v + v' ≤ 2 * r := by
    by_contra hmore
    push Not at hmore
    rw [abs_of_pos (by linarith : 0 < v - r)] at hfirst
    rcases le_abs.1 hfirst with h | h <;> linarith
  have habove : 2 * r' ≤ v + v' := by
    by_contra hless
    push Not at hless
    rw [abs_sub_comm, abs_of_pos (by linarith : 0 < r' - v')] at hsecond
    rcases le_abs.1 hsecond with h | h <;> linarith
  linarith

/-- A number that fits is the only one nearest to itself. -/
theorem eq_of_fits (h : IsNearest v r) (hr : Fits r) : v = r := by
  have hnear := h.le hr
  rw [sub_self, abs_zero] at hnear
  exact sub_eq_zero.1 (abs_nonpos_iff.1 hnear)

end IsNearest

/-- Numbers that fit stay as they are. -/
theorem rounded_of_fits {v : ℝ} (h : Fits v) : rounded v = v := (isNearest_rounded v).eq_of_fits h

theorem rounded_mono : Monotone rounded := by
  intro r r' hle
  rcases hle.eq_or_lt with rfl | hlt
  · exact le_rfl
  · exact (isNearest_rounded r).mono (isNearest_rounded r') hlt

end Summand.Binary64
