import Summand.Proofs.AdjacentDoubles
import Summand.Proofs.Powers

/-!
# Bounds that rounding keeps

Rounding keeps every bound that is a double itself (`exists_nearest_le`), and it brings what exceeds
one by very little back to one (`exists_nearest_unit`). What is added to a double decides by half of
the way to the next double whether the sum is a greater double (`lt_nearest_add`) or the same one
(`nearest_add_eq`), while a difference of two doubles is never lost (`nearest_sub_pos`).
-/

namespace Summand.Binary64

open Float.Model (UnpackedFloat)

/-! ### Bounds -/

variable {r c : ℝ}

theorem nearest_of_fits (h : Fits r) (hr : |r| < 2 ^ (1024 : ℤ)) : nearest r = r := by
  rw [nearest_coe, rounded_of_fits h, overflowed_of_abs_lt hr]

theorem nearest_nonneg {X : EReal} (h : 0 ≤ X) : 0 ≤ nearest X := by
  have hmono := nearest_mono h
  rwa [← EReal.coe_zero, nearest_zero] at hmono

/-- A number that fits bounds what is rounded if it bounds what is exact. -/
theorem exists_nearest_le (hc : Fits c) (hlt : c < 2 ^ (1024 : ℤ)) (h : |r| ≤ c) :
    ∃ s : ℝ, nearest r = s ∧ |s| ≤ c := by
  have hnonneg : 0 ≤ c := (abs_nonneg r).trans h
  obtain ⟨hlow, hhigh⟩ := abs_le.1 h
  have hlow' := nearest_mono (EReal.coe_le_coe_iff.2 hlow)
  have hhigh' := nearest_mono (EReal.coe_le_coe_iff.2 hhigh)
  rw [nearest_of_fits hc.neg (by rwa [abs_neg, abs_of_nonneg hnonneg])] at hlow'
  rw [nearest_of_fits hc (by rwa [abs_of_nonneg hnonneg])] at hhigh'
  induction hs : nearest r with
  | bot => exact absurd (hs ▸ hlow') (EReal.bot_lt_coe _).not_ge
  | top => exact absurd (hs ▸ hhigh') (EReal.coe_lt_top _).not_ge
  | coe s =>
    rw [hs, EReal.coe_le_coe_iff] at hlow' hhigh'
    exact ⟨s, rfl, abs_le.2 ⟨hlow', hhigh'⟩⟩

theorem fits_one : Fits 1 := ⟨1, 0, by norm_num, by norm_num, by simp⟩

theorem one_lt_two_pow_1024 : (1 : ℝ) < 2 ^ (1024 : ℤ) := one_lt_zpow₀ one_lt_two (by norm_num)

/-- What exceeds one by little is rounded to one. -/
theorem rounded_le_one (h : r ≤ 1 + 2 ^ (-60 : ℤ)) : rounded r ≤ 1 := by
  have hscaled : (1 : ℝ) + 2 ^ (-60 : ℤ) = (2 ^ 60 + 1 : ℕ) * 2 ^ (-60 : ℤ) := by norm_num
  have hplace : lastPlace ((2 ^ 60 + 1 : ℕ) * 2 ^ (-60 : ℤ)) = -52 := by
    rw [lastPlace_scaled (by norm_num), show (2 ^ 60 + 1 : ℕ).log2 = 60 by decide +kernel]
    norm_num
  refine (rounded_mono h).trans ?_
  rw [hscaled, rounded, hplace, nearestInt_eq (k := 2 ^ 52)]
  · norm_num
  · norm_num [abs_lt]

/-- What is hardly below minus one, and not above one, is rounded to a number between them. -/
theorem exists_nearest_unit (hlow : -(1 + 2 ^ (-60 : ℤ)) ≤ r) (hhigh : r ≤ 1) :
    ∃ s : ℝ, nearest r = s ∧ |s| ≤ 1 := by
  have hneg : -1 ≤ rounded r := by
    have := rounded_le_one (neg_le.1 hlow)
    rw [rounded_neg] at this
    linarith
  have hone := (rounded_mono hhigh).trans_eq (rounded_of_fits fits_one)
  have habs : |rounded r| ≤ 1 := abs_le.2 ⟨hneg, hone⟩
  exact ⟨rounded r, by rw [nearest_coe, overflowed_of_abs_lt (habs.trans_lt one_lt_two_pow_1024)],
    habs⟩

/-! ### Sums near a double -/

variable {v w e : ℝ} {E : EReal}

theorem abs_lt_of_mem_doubles (h : (v : EReal) ∈ doubles) : |v| < 2 ^ (1024 : ℤ) := by
  obtain ⟨x, hx⟩ := h
  have hsame := overflowed_extended hx
  by_contra hlarge
  rcases le_abs.1 (not_lt.1 hlarge) with hpos | hneg
  · rw [overflowed_of_le hpos] at hsame
    exact EReal.top_ne_coe v hsame
  · have hflip := overflowed_neg (v : EReal)
    rw [← EReal.coe_neg, overflowed_of_le hneg, hsame, ← EReal.coe_neg] at hflip
    exact EReal.top_ne_coe _ hflip

theorem mem_doubles_of_fits (h : Fits v) (hv : |v| < 2 ^ (1024 : ℤ)) : (v : EReal) ∈ doubles := by
  obtain ⟨k, e, -, -, rfl⟩ := id h
  exact ⟨Enclosure.nearest k e, by rw [extended?_enclosure_nearest, nearest_of_fits h hv]⟩

theorem raised_mem_doubles (h : (v : EReal) ∈ doubles) : raised v ∈ doubles := by
  obtain ⟨x, hx⟩ := h
  exact ⟨nextUp x, extended?_nextUp hx⟩

theorem nearest_of_mem_doubles {X : EReal} (h : X ∈ doubles) : nearest X = X := by
  induction X with
  | bot => exact nearest_bot
  | top => exact nearest_top
  | coe v => exact nearest_of_fits (fits_of_mem_doubles h) (abs_lt_of_mem_doubles h)

/-- The difference of two numbers that fit is no less than the least positive one. -/
theorem least_le_sub (hv : Fits v) (hw : Fits w) (h : v < w) : 2 ^ (-1074 : ℤ) ≤ w - v := by
  have hmultiple {u : ℝ} (hu : Fits u) : ∃ j : ℤ, u = j * 2 ^ (-1074 : ℤ) := by
    obtain ⟨k, e, -, he, rfl⟩ := hu
    obtain ⟨n, rfl⟩ : ∃ n : ℕ, e = n + -1074 := ⟨(e + 1074).toNat, by omega⟩
    exact ⟨k * 2 ^ n, by rw [weight, two_zpow_add, zpow_natCast]; push_cast; ring⟩
  obtain ⟨i, rfl⟩ := hmultiple hv
  obtain ⟨j, rfl⟩ := hmultiple hw
  have hpos := two_zpow_pos (-1074)
  have hlt : i < j := by exact_mod_cast lt_of_mul_lt_mul_right h hpos.le
  have hone : (1 : ℝ) ≤ j - i := by exact_mod_cast Int.sub_pos_of_lt hlt
  rw [← sub_mul]
  exact le_mul_of_one_le_left hpos.le hone

theorem Fits.mul_two (h : Fits v) : Fits (v * 2) := by
  obtain ⟨k, e, hk, he, rfl⟩ := h
  exact ⟨k, e + 1, hk, by omega, by rw [weight, weight, two_zpow_add, zpow_one, mul_assoc]⟩

/-- A difference of two doubles that is not zero is not rounded to zero. -/
theorem nearest_sub_pos {X : EReal} (hv : (v : EReal) ∈ doubles) (hX : X ∈ doubles) (h : v < X) :
    0 < nearest (X - v) := by
  induction X with
  | bot => exact absurd h not_lt_bot
  | top =>
    rw [EReal.top_sub_coe, nearest_top]
    exact EReal.zero_lt_top
  | coe w =>
    have hleast := least_le_sub (fits_of_mem_doubles hv) (fits_of_mem_doubles hX)
      (EReal.coe_lt_coe_iff.1 h)
    have hround := nearest_mono (EReal.coe_le_coe_iff.2 hleast)
    rw [EReal.coe_sub] at hround
    refine lt_of_lt_of_le ?_ hround
    rw [nearest_of_fits fits_least]
    · exact EReal.coe_pos.2 (two_zpow_pos _)
    · rw [abs_of_pos (two_zpow_pos _)]
      exact zpow_lt_zpow_right₀ one_lt_two (by norm_num)

theorem lt_raised_of_mem (h : (v : EReal) ∈ doubles) : v < raised v := by
  obtain ⟨x, hx⟩ := h
  exact lt_raised hx

theorem le_nearest_add (hv : (v : EReal) ∈ doubles) (hE : 0 ≤ E) : v ≤ nearest (v + E) := by
  have hmono := nearest_mono (le_add_of_nonneg_right hE : (v : EReal) ≤ v + E)
  rwa [nearest_of_mem_doubles hv] at hmono

theorem raised_ne_bot (hv : (v : EReal) ∈ doubles) : raised v ≠ ⊥ :=
  ((EReal.bot_lt_coe v).trans (lt_raised_of_mem hv)).ne'

/-- If the sum with a real number is rounded to the double itself, no other double is nearer. -/
theorem two_mul_le_gap (hv : (v : EReal) ∈ doubles) (hw : raised v = w) (he : 0 ≤ e)
    (h : rounded (v + e) = v) : 2 * e ≤ w - v := by
  have hlt : v < w := EReal.coe_lt_coe_iff.1 (hw ▸ lt_raised_of_mem hv)
  have hnear := abs_rounded_sub_le (v + e) (fits_of_mem_doubles (hw ▸ raised_mem_doubles hv))
  rw [h, sub_add_cancel_left, abs_neg, abs_of_nonneg he] at hnear
  rcases le_abs.1 hnear with h | h <;> linarith

/-- A sum that is less than half of the way to the next double is rounded to the double itself,
since there is no double in between. -/
theorem rounded_add_eq (hv : (v : EReal) ∈ doubles) (hw : raised v = w) (he : 0 ≤ e)
    (h : 2 * e < w - v) : rounded (v + e) = v := by
  have hnear := abs_rounded_sub_le (v + e) (fits_of_mem_doubles hv)
  rw [sub_add_cancel_left, abs_neg, abs_of_nonneg he] at hnear
  have hbelow : rounded (v + e) < w := by linarith [le_abs_self (rounded (v + e) - (v + e))]
  have habove : v ≤ rounded (v + e) := by
    have hmono := rounded_mono (le_add_of_nonneg_right he : v ≤ v + e)
    rwa [rounded_of_fits (fits_of_mem_doubles hv)] at hmono
  have hsize : |rounded (v + e)| < 2 ^ (1024 : ℤ) :=
    abs_lt.2 ⟨(abs_lt.1 (abs_lt_of_mem_doubles hv)).1.trans_le habove,
      hbelow.trans (abs_lt.1 (abs_lt_of_mem_doubles (hw ▸ raised_mem_doubles hv))).2⟩
  by_contra hne
  have hnext := raised_le (mem_doubles_of_fits (fits_rounded _) hsize)
    (EReal.coe_lt_coe_iff.2 (lt_of_le_of_ne habove (Ne.symm hne)))
  rw [hw, EReal.coe_le_coe_iff] at hnext
  exact hnext.not_gt hbelow

/-- What is added to a double makes it greater if it is more than half of the way to the next
double. -/
theorem lt_nearest_add (hv : (v : EReal) ∈ doubles) (hE : 0 ≤ E)
    (h : raised v - v < (2 : ℝ) * E) : v < nearest (v + E) := by
  refine lt_of_le_of_ne (le_nearest_add hv hE) fun heq ↦ ?_
  induction E with
  | bot => exact absurd hE EReal.bot_lt_zero.not_ge
  | top => simp at heq
  | coe e =>
    induction hw : raised v with
    | bot => exact raised_ne_bot hv hw
    | top => simp [hw] at h
    | coe w =>
      rw [hw] at h
      have hgap := two_mul_le_gap hv hw (EReal.coe_nonneg.1 hE) (eq_of_overflowed heq.symm)
      exact hgap.not_gt (by exact_mod_cast h)

/-- What is added to a double is lost if it is less than half of the way to the next double. -/
theorem nearest_add_eq (hv : (v : EReal) ∈ doubles) (hE : 0 ≤ E) (hfinite : raised v ≠ ⊤)
    (h : (2 : ℝ) * E < raised v - v) : nearest (v + E) = v := by
  induction hw : raised v with
  | bot => exact absurd hw (raised_ne_bot hv)
  | top => exact absurd hw hfinite
  | coe w =>
    rw [hw] at h
    induction E with
    | bot => exact absurd hE EReal.bot_lt_zero.not_ge
    | top => simp [EReal.coe_mul_top_of_pos] at h
    | coe e =>
      have hsame := rounded_add_eq hv hw (EReal.coe_nonneg.1 hE) (by exact_mod_cast h)
      rw [← EReal.coe_add, nearest_coe, hsame, overflowed_of_abs_lt (abs_lt_of_mem_doubles hv)]

/-! ### Finite operands -/

section FiniteOperand

variable {x y : Float} {X : EReal}

/-- A sum with a finite double denotes a number. -/
theorem extended?_coe_add (hx : extended? x = some (r : EReal)) (hy : extended? y = some X) :
    extended? (x + y) = some (nearest (r + X)) :=
  extended?_add hx hy (fun h ↦ EReal.coe_ne_top r h.1) fun h ↦ EReal.coe_ne_bot r h.1

/-- A difference from a finite double denotes a number. -/
theorem extended?_coe_sub (hx : extended? x = some (r : EReal)) (hy : extended? y = some X) :
    extended? (x - y) = some (nearest (r - X)) :=
  extended?_sub_of_determinate hx hy (fun h ↦ EReal.coe_ne_top r h.1)
    fun h ↦ EReal.coe_ne_bot r h.1

/-- A number less a finite double denotes a number. -/
theorem extended?_sub_coe (hx : extended? x = some X) (hy : extended? y = some (r : EReal)) :
    extended? (x - y) = some (nearest (X - r)) :=
  extended?_sub_of_determinate hx hy (fun h ↦ EReal.coe_ne_top r h.2)
    fun h ↦ EReal.coe_ne_bot r h.2

/-- A number divided by a finite double other than zero denotes a number. -/
theorem extended?_div_coe (hx : extended? x = some X) (hy : extended? y = some (r : EReal))
    (hr : r ≠ 0) : extended? (x / y) = some (nearest (X / r)) :=
  extended?_div_of_determinate hx hy (by exact_mod_cast hr) fun h ↦ not_isInfinite_coe r h.2

end FiniteOperand

theorem extended?_two : extended? 2 = some ((2 : ℝ) : EReal) := by
  have hunpack : unpack 2 = .finite .positive (2 ^ 52) (-51) (by norm_num) := rfl
  rw [extended?, hunpack, denoted_finite, value]
  norm_num [UnpackedFloat.Sign.apply]

/-- Twice a double denotes twice what the double denotes, unless that overflows. -/
theorem extended?_two_mul {x : Float} {X : EReal} (hx : extended? x = some X) :
    extended? (2 * x) = some (nearest ((2 : ℝ) * X)) := by
  refine extended?_mul_of_determinate extended?_two hx ?_
  rintro (⟨h, -⟩ | ⟨h, -⟩)
  · exact two_ne_zero (EReal.coe_eq_zero.1 h)
  · exact not_isInfinite_coe 2 h

/-! ### What is no number -/

section Operands

variable {x y : Float}

theorem extended?_sub_none (hx : extended? x = none) (y : Float) : extended? (x - y) = none :=
  extended?_of_notANumber (u := UnpackedFloat.sub .binary64 (unpack x) (unpack y)) rfl <| by
    rw [eq_notANumber_of_denoted hx]
    rfl

theorem extended?_mul_none (x : Float) (hy : extended? y = none) : extended? (x * y) = none :=
  extended?_of_notANumber (unpack_mul x y) <| by
    rw [eq_notANumber_of_denoted hy]
    cases unpack x <;> rfl

theorem extended?_div_none (hx : extended? x = none) (y : Float) : extended? (x / y) = none :=
  extended?_of_notANumber (unpack_div x y) <| by
    rw [eq_notANumber_of_denoted hx]
    rfl

theorem extended?_add_none (x : Float) (hy : extended? y = none) : extended? (x + y) = none :=
  extended?_of_notANumber (unpack_add x y) <| by
    rw [eq_notANumber_of_denoted hy]
    cases unpack x <;> rfl

/-- The quotient of two zeros is no number. -/
theorem extended?_div_zero (hx : extended? x = some 0) (hy : extended? y = some 0) :
    extended? (x / y) = none :=
  extended?_of_notANumber (unpack_div x y) <| by
    obtain ⟨s, hs⟩ := exists_unpacked_zero hx
    obtain ⟨s', hs'⟩ := exists_unpacked_zero hy
    rw [hs, hs']
    rfl

end Operands

end Summand.Binary64
