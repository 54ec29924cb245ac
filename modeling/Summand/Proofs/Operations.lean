import Mathlib.Analysis.Real.Sqrt
import Summand.Proofs.Doubles

/-!
# Operations on doubles

Differences, products, quotients and square roots of finite doubles are the exact ones rounded to
the nearest double, where what is too large becomes infinite (`extended?_sub`, `extended?_mul`,
`extended?_div`, `extended?_sqrt`).

A product of mantissas is exact and has too many places. A quotient or a root of mantissas is cut
after enough places, and the residual bits tell what was cut off (`tells_quotient`, `tells_root`).
A quotient may be so small that no place of it is left, and is rounded by the residual bits alone.
-/

namespace Summand.Binary64

open Float.Model (Format totalExponent)
open Float.Model.UnpackedFloat hiding add pack unpack round
open Float.Model (UnpackedFloat)

/-! ### Signs -/

theorem apply_eq (s : Sign) (m : ℕ) : ((s.apply m : ℤ) : ℝ) = (s.apply 1 : ℤ) * m := by
  cases s <;> simp [Sign.apply]

theorem rounded_apply (s : Sign) (r : ℝ) :
    rounded ((s.apply 1 : ℤ) * r) = (s.apply 1 : ℤ) * rounded r := by
  cases s <;> simp [Sign.apply, rounded_neg]

theorem apply_mul (s s' : Sign) :
    (((s * s').apply 1 : ℤ) : ℝ) = (s.apply 1 : ℤ) * (s'.apply 1 : ℤ) := by
  have hproduct : (s * s').apply 1 = s.apply 1 * s'.apply 1 := by cases s <;> cases s' <;> rfl
  rw [hproduct, Int.cast_mul]

theorem inv_apply (s : Sign) : (((s.apply 1 : ℤ) : ℝ))⁻¹ = (s.apply 1 : ℤ) := by
  cases s <;> simp [Sign.apply]

theorem apply_div (s s' : Sign) :
    (((s / s').apply 1 : ℤ) : ℝ) = (s.apply 1 : ℤ) / (s'.apply 1 : ℤ) := by
  have hquotient : (s / s').apply 1 = s.apply 1 * s'.apply 1 := by cases s <;> cases s' <;> rfl
  rw [hquotient, Int.cast_mul, div_eq_mul_inv, inv_apply]

/-! ### Differences -/

theorem Denotes.neg {u : UnpackedFloat} {r : ℝ} (h : Denotes u r) : Denotes u.neg (-r) :=
  ⟨canonical_neg h.canonical, by rw [denoted_neg, h.denoted, Option.map_some, EReal.coe_neg]⟩

/-- A difference is a sum with the negative. -/
theorem sub_eq_add (u v : UnpackedFloat) :
    UnpackedFloat.sub .binary64 u v = UnpackedFloat.add .binary64 u v.neg := by
  have happly (s : Sign) (m : ℕ) : (-s).apply m = -s.apply m := by
    cases s
    · exact (neg_neg (m : ℤ)).symm
    · rfl
  rcases u with s | - | s | ⟨s, m, e, hm⟩ <;> rcases v with s' | - | s' | ⟨s', m', e', hm'⟩ <;>
    try rfl
  show normalize _ _ _ _ = normalize _ _ _ _
  rw [happly, sub_eq_add_neg]

theorem Denotes.sub {u v : UnpackedFloat} {r r' : ℝ} (hu : Denotes u r) (hv : Denotes v r') :
    Denotes (UnpackedFloat.sub .binary64 u v) (rounded (r - r')) := by
  rw [sub_eq_add, sub_eq_add_neg]
  exact hu.add hv.neg

/-! ### Products -/

/-- The exponent of a product of mantissas is not above its last place. -/
theorem add_exponents_le {m m' : ℕ} {e e' : ℤ} (hm : 0 < m) (hm' : 0 < m')
    (h : 2 ^ 52 ≤ m ∨ e = -1074) (h' : 2 ^ 52 ≤ m' ∨ e' = -1074) :
    e + e' ≤ Format.binary64.targetExponent (totalExponent (m * m') (e + e')) := by
  rw [targetExponent_eq]
  by_cases hplaces : 2 ^ 52 ≤ m * m'
  · have hlog : 52 ≤ (m * m').log2 := (Nat.le_log2 (by omega)).2 hplaces
    omega
  · -- Neither mantissa has all its places, so both exponents are the least ones.
    have hle : m ≤ m * m' := Nat.le_mul_of_pos_right m hm'
    have hle' : m' ≤ m * m' := Nat.le_mul_of_pos_left m' hm
    omega

theorem Denotes.mul {u v : UnpackedFloat} {r r' : ℝ} (hu : Denotes u r) (hv : Denotes v r') :
    Denotes (UnpackedFloat.mul .binary64 u v) (rounded (r * r')) := by
  obtain ⟨s, rfl, rfl⟩ | ⟨s, m, e, hm, rfl, rfl⟩ := hu.zero_or_finite <;>
    obtain ⟨s', rfl, rfl⟩ | ⟨s', m', e', hm', rfl, rfl⟩ := hv.zero_or_finite
  · exact ⟨trivial, by simp [UnpackedFloat.mul]⟩
  · exact ⟨trivial, by simp [UnpackedFloat.mul]⟩
  · exact ⟨trivial, by simp [UnpackedFloat.mul]⟩
  have hproduct : ((s.apply m : ℤ) : ℝ) * 2 ^ e * ((s'.apply m' : ℤ) * 2 ^ e') =
      ((s * s').apply 1 : ℤ) * ((m * m' : ℕ) * 2 ^ (e + e')) := by
    rw [apply_eq, apply_eq, apply_mul, two_zpow_add]
    push_cast
    ring
  rw [hproduct, rounded_apply]
  exact denotes_roundWithAccuracy _ (Nat.mul_pos hm hm') (tells_exact _)
    (add_exponents_le hm hm' hu.canonical.2.2 hv.canonical.2.2)

/-! ### Quotients -/

/-- An order with one half tells of the part that is cut off. -/
theorem tells_inexact {m : ℕ} {y : ℝ} (hfloor : ⌊y⌋ = m) (hrest : Int.fract y ≠ 0) {o : Ordering}
    (hless : o = .lt ↔ Int.fract y < 1 / 2) (hhalf : o = .eq ↔ Int.fract y = 1 / 2) :
    Tells (.ofMantissaAndAccuracy m (.inexact o)) y := by
  rw [← not_le] at hless
  cases o <;> simp only [reduceCtorEq, true_iff, false_iff, not_not] at hless hhalf
  · exact ⟨hfloor, iff_of_false Bool.false_ne_true hless, iff_of_true rfl ⟨hrest, hhalf⟩⟩
  · exact ⟨hfloor, iff_of_true rfl hless, iff_of_false Bool.false_ne_true fun h ↦ h.2 hhalf⟩
  · exact ⟨hfloor, iff_of_true rfl hless, iff_of_true rfl ⟨hrest, hhalf⟩⟩

/-- The rest of a division tells how far the quotient is from its whole part. -/
theorem tells_quotient (n : ℕ) {d : ℕ} (hd : 0 < d) :
    Tells (.ofMantissaAndAccuracy (n / d) (accuracyOfFraction (n % d) d)) ((n : ℝ) / d) := by
  have hpos : (0 : ℝ) < d := Nat.cast_pos.2 hd
  rw [accuracyOfFraction]
  split_ifs with hrest
  · rw [← Nat.cast_div (Nat.dvd_of_mod_eq_zero hrest) hpos.ne']
    exact tells_exact _
  have hfract : Int.fract ((n : ℝ) / d) = (n % d : ℕ) / d :=
    Int.fract_div_natCast_eq_div_natCast_mod
  refine tells_inexact ?_ ?_ ?_ ?_
  · rw [← Int.natCast_floor_eq_floor (div_nonneg n.cast_nonneg hpos.le), Nat.floor_div_eq_div]
  · rw [hfract]
    exact div_ne_zero (Nat.cast_ne_zero.2 hrest) hpos.ne'
  · rw [Nat.compare_eq_lt, hfract, div_lt_div_iff₀ hpos two_pos, one_mul, mul_comm]
    exact_mod_cast Iff.rfl
  · rw [Nat.compare_eq_eq, hfract, div_eq_div_iff hpos.ne' two_ne_zero, one_mul, mul_comm]
    exact_mod_cast Iff.rfl

/-- A quotient has as many places as its numerator has more than its divisor, up to one. -/
theorem log2_le_log2_div {n d : ℕ} (hn : n ≠ 0) (hd : 0 < d) :
    n.log2 ≤ (n / d).log2 + d.log2 + 1 := by
  have hquotient : n / d + 1 ≤ 2 ^ ((n / d).log2 + 1) := Nat.lt_log2_self
  have hdivisor : d ≤ 2 ^ (d.log2 + 1) := Nat.lt_log2_self.le
  have hlt : n < 2 ^ ((n / d).log2 + d.log2 + 2) := by
    calc n < (n / d + 1) * d := by
          rw [mul_comm]
          exact Nat.lt_mul_div_succ n hd
      _ ≤ 2 ^ ((n / d).log2 + 1) * 2 ^ (d.log2 + 1) := Nat.mul_le_mul hquotient hdivisor
      _ = 2 ^ ((n / d).log2 + d.log2 + 2) := by ring
  exact Nat.lt_succ_iff.1 ((Nat.log2_lt hn).2 hlt)

/-- A number below the second binade has the least place for its last. -/
theorem lastPlace_of_lt {r : ℝ} (hr : r ≠ 0) (h : |r| < 2 ^ (-1021 : ℤ)) :
    lastPlace r = -1074 := by
  have hlog : Int.log 2 |r| < -1021 :=
    (Int.lt_zpow_iff_log_lt one_lt_two (abs_pos.2 hr)).1 (by exact_mod_cast h)
  rw [lastPlace]
  omega

theorem shiftLeft_pos {m : ℕ} (hm : 0 < m) (k : ℕ) : 0 < m <<< k := by
  rw [Nat.shiftLeft_eq]
  positivity

theorem cast_shiftLeft (m k : ℕ) : ((m <<< k : ℕ) : ℝ) = m * 2 ^ (k : ℤ) := by
  rw [Nat.shiftLeft_eq, zpow_natCast]
  push_cast
  rfl

/-- A number of which no place is left is rounded by its residual bits alone. -/
theorem denotes_roundWithAccuracy_zero (s : Sign) {e : ℤ} {accuracy : Accuracy} {y : ℝ}
    (hy : Tells (.ofMantissaAndAccuracy 0 accuracy) y) (hpos : 0 < y) (he : e ≤ -1074) :
    Denotes (roundWithAccuracy .binary64 s 0 e accuracy)
      ((s.apply 1 : ℤ) * rounded (y * 2 ^ e)) := by
  have hmantissa : (ExtendedMantissa.ofMantissaAndAccuracy 0 accuracy).mantissa = 0 := by
    rcases accuracy with - | - | - | - <;> rfl
  have hbelow : y < 1 := by simpa [hmantissa] using hy.lt
  have htarget : Format.binary64.targetExponent (totalExponent 0 e) = -1074 := by
    rw [targetExponent_eq, Nat.log2_zero]
    omega
  have hproduct : 0 < y * 2 ^ e := mul_pos hpos (two_zpow_pos e)
  have hsmall : y * 2 ^ e < 2 ^ (-1021 : ℤ) := by
    calc y * 2 ^ e < 1 * 2 ^ e := mul_lt_mul_of_pos_right hbelow (two_zpow_pos e)
      _ ≤ 2 ^ (-1021 : ℤ) := by
          rw [one_mul]
          exact zpow_le_zpow_right₀ one_le_two (by omega)
  refine denotes_roundWithAccuracy_of_lastPlace s hy hproduct ?_ (htarget ▸ he)
  rw [htarget]
  exact lastPlace_of_lt hproduct.ne' (by rwa [abs_of_pos hproduct])

/-- The dividend is given so many places that the quotient has enough, or the least exponent. -/
theorem exists_divCore_eq (m m' : ℕ) (e e' : ℤ) :
    ∃ k : ℕ, divCore .binary64 m e m' e' =
        (m <<< k / m', e - e' - k, accuracyOfFraction (m <<< k % m') m') ∧
      e - e' - k ≤ max ((m.log2 : ℤ) - m'.log2 + (e - e') - 53) (-1074) := by
  have htarget : Format.binary64.targetExponent (totalExponent m e - totalExponent m' e') =
      max ((m.log2 : ℤ) - m'.log2 + (e - e') - 53) (-1074) := by
    show max ((m.log2 : ℤ) + 1 + e - (m'.log2 + 1 + e') - 53) (-1074) = _
    congr 1
    ring
  set t := max ((m.log2 : ℤ) - m'.log2 + (e - e') - 53) (-1074)
  obtain ⟨k, hk⟩ : ∃ k : ℕ, min (e - e') t = e - e' - k :=
    ⟨(e - e' - min (e - e') t).toNat, by omega⟩
  refine ⟨k, ?_, hk ▸ min_le_right _ _⟩
  rw [divCore, htarget, hk, show (e - e' - (e - e' - k)).toNat = k by omega]

/-- A quotient of mantissas that is rounded by what the division tells is the quotient rounded. -/
theorem denotes_quotient (s : Sign) {m m' : ℕ} (hm : 0 < m) (hm' : 0 < m') (e e' : ℤ) :
    Denotes (roundWithAccuracy .binary64 s (divCore .binary64 m e m' e').1
      (divCore .binary64 m e m' e').2.1 (divCore .binary64 m e m' e').2.2)
      ((s.apply 1 : ℤ) * rounded (m * 2 ^ e / (m' * 2 ^ e'))) := by
  obtain ⟨k, hcore, hexponent⟩ := exists_divCore_eq m m' e e'
  have hvalue : ((m <<< k : ℕ) : ℝ) / m' * 2 ^ (e - e' - k) = m * 2 ^ e / (m' * 2 ^ e') := by
    rw [cast_shiftLeft, zpow_sub₀ two_ne_zero, zpow_sub₀ two_ne_zero]
    field_simp
  have hn : 0 < m <<< k := shiftLeft_pos hm k
  have htells := tells_quotient (m <<< k) hm'
  have hlog := log2_shiftLeft hm.ne' k
  rw [hcore, ← hvalue]
  dsimp only
  rcases Nat.eq_zero_or_pos (m <<< k / m') with hzero | hpos
  · -- The divisor has no less places than the dividend was given, which leaves the least exponent.
    have hless : m <<< k < m' := (Nat.div_eq_zero_iff.1 hzero).resolve_left hm'.ne'
    have hplaces : (m <<< k).log2 ≤ m'.log2 :=
      (Nat.le_log2 hm'.ne').2 ((Nat.log2_self_le hn.ne').trans hless.le)
    rw [hzero] at htells ⊢
    refine denotes_roundWithAccuracy_zero s htells ?_ (by omega)
    exact div_pos (Nat.cast_pos.2 hn) (Nat.cast_pos.2 hm')
  · have hplaces := log2_le_log2_div hn.ne' hm'
    refine denotes_roundWithAccuracy s hpos htells ?_
    rw [targetExponent_eq]
    omega

theorem Denotes.div {u v : UnpackedFloat} {r r' : ℝ} (hu : Denotes u r) (hv : Denotes v r')
    (hne : r' ≠ 0) : Denotes (UnpackedFloat.div .binary64 u v) (rounded (r / r')) := by
  obtain ⟨s', rfl, rfl⟩ | ⟨s', m', e', hm', rfl, rfl⟩ := hv.zero_or_finite
  · exact absurd rfl hne
  obtain ⟨s, rfl, rfl⟩ | ⟨s, m, e, hm, rfl, rfl⟩ := hu.zero_or_finite
  · exact ⟨trivial, by simp [UnpackedFloat.div]⟩
  have hquotient : ((s.apply m : ℤ) : ℝ) * 2 ^ e / ((s'.apply m' : ℤ) * 2 ^ e') =
      ((s / s').apply 1 : ℤ) * (m * 2 ^ e / (m' * 2 ^ e')) := by
    rw [apply_eq, apply_eq s', apply_div]
    ring
  rw [hquotient, rounded_apply]
  exact denotes_quotient _ hm hm' e e'

/-! ### Square roots -/

/-- No root of a whole number is halfway between two whole ones, and the rest tells on which side of
the middle it is. -/
theorem sqrt_sub_half (n : ℕ) : √(n : ℝ) ≠ n.sqrt + 1 / 2 ∧
    (√(n : ℝ) < n.sqrt + 1 / 2 ↔ n ≤ n.sqrt * n.sqrt + n.sqrt) := by
  have hsquare : ((n.sqrt : ℝ) + 1 / 2) ^ 2 = ((n.sqrt * n.sqrt + n.sqrt : ℕ) : ℝ) + 1 / 4 := by
    push_cast
    ring
  rw [Ne, Real.sqrt_eq_iff_eq_sq n.cast_nonneg (by positivity), Real.sqrt_lt' (by positivity),
    hsquare]
  constructor
  · intro h
    have hfour : ((4 * n : ℕ) : ℝ) = ((4 * (n.sqrt * n.sqrt + n.sqrt) + 1 : ℕ) : ℝ) := by
      push_cast at h ⊢
      linarith
    have := Nat.cast_injective hfour
    omega
  · constructor
    · intro h
      have hlt : (n : ℝ) < ((n.sqrt * n.sqrt + n.sqrt + 1 : ℕ) : ℝ) := by
        push_cast at h ⊢
        linarith
      exact Nat.lt_succ_iff.1 (Nat.cast_lt.1 hlt)
    · intro h
      have hle : (n : ℝ) ≤ ((n.sqrt * n.sqrt + n.sqrt : ℕ) : ℝ) := Nat.cast_le.2 h
      linarith

/-- The rest of a square root tells how far it is from its whole part. -/
theorem tells_root (n : ℕ) :
    Tells (.ofMantissaAndAccuracy n.sqrt (if n - n.sqrt * n.sqrt = 0 then .exact
      else .inexact (if n - n.sqrt * n.sqrt ≤ n.sqrt then .lt else .gt))) √(n : ℝ) := by
  have hle : n.sqrt * n.sqrt ≤ n := Nat.sqrt_le n
  have hexact : √(n : ℝ) = n.sqrt ↔ n.sqrt * n.sqrt = n := by
    rw [Real.sqrt_eq_iff_mul_self_eq n.cast_nonneg (Nat.cast_nonneg _), eq_comm]
    exact_mod_cast Iff.rfl
  by_cases hrest : n - n.sqrt * n.sqrt = 0
  · rw [if_pos hrest, hexact.2 (by omega)]
    exact tells_exact _
  rw [if_neg hrest]
  have hfloor : ⌊√(n : ℝ)⌋ = n.sqrt := Real.floor_real_sqrt_eq_nat_sqrt
  have hfract : Int.fract √(n : ℝ) = √(n : ℝ) - n.sqrt := by
    rw [Int.fract, hfloor, Int.cast_natCast]
  obtain ⟨hmiddle, hside⟩ := sqrt_sub_half n
  refine tells_inexact hfloor ?_ ?_ ?_
  · rw [hfract, sub_ne_zero, Ne, hexact]
    omega
  · rw [hfract, sub_lt_iff_lt_add', hside, ← Nat.sub_le_iff_le_add']
    split_ifs with hless <;> simp [hless]
  · rw [hfract, sub_eq_iff_eq_add', iff_false_right hmiddle]
    split_ifs <;> simp

/-- A square root has half as many places. -/
theorem log2_le_log2_sqrt {n : ℕ} (hn : n ≠ 0) : n.log2 ≤ 2 * n.sqrt.log2 + 1 := by
  have hroot : n.sqrt + 1 ≤ 2 ^ (n.sqrt.log2 + 1) := Nat.lt_log2_self
  have hlt : n < 2 ^ (2 * n.sqrt.log2 + 2) := by
    calc n < (n.sqrt + 1) * (n.sqrt + 1) := Nat.lt_succ_sqrt n
      _ ≤ 2 ^ (n.sqrt.log2 + 1) * 2 ^ (n.sqrt.log2 + 1) := Nat.mul_le_mul hroot hroot
      _ = 2 ^ (2 * n.sqrt.log2 + 2) := by ring
  exact Nat.lt_succ_iff.1 ((Nat.log2_lt hn).2 hlt)

theorem denotes_root {m : ℕ} (hm : 0 < m) (e : ℤ) :
    Denotes (roundWithAccuracy .binary64 .positive (sqrtCore .binary64 m e).1
      (sqrtCore .binary64 m e).2.1 (sqrtCore .binary64 m e).2.2) (rounded √(m * 2 ^ e)) := by
  obtain ⟨t, ht⟩ : ∃ t : ℤ, min (e.ediv 2) (Format.binary64.targetExponent
      ((totalExponent m e + 1).ediv 2)) = t := ⟨_, rfl⟩
  have htarget : Format.binary64.targetExponent ((totalExponent m e + 1).ediv 2) =
      max (((m.log2 : ℤ) + 2 + e) / 2 - 53) (-1074) := by
    show max (((m.log2 : ℤ) + 1 + e + 1) / 2 - 53) (-1074) = _
    congr 3
    ring
  have hhalf : e.ediv 2 = e / 2 := rfl
  rw [htarget, hhalf] at ht
  obtain ⟨k, hk⟩ : ∃ k : ℕ, e = 2 * t + k := ⟨(e - 2 * t).toNat, by omega⟩
  have hcore : sqrtCore .binary64 m e = ((m <<< k).sqrt, t,
      if m <<< k - (m <<< k).sqrt * (m <<< k).sqrt = 0 then .exact
      else .inexact (if m <<< k - (m <<< k).sqrt * (m <<< k).sqrt ≤ (m <<< k).sqrt then .lt
        else .gt)) := by
    rw [sqrtCore, htarget, hhalf, ht, show (e - 2 * t).toNat = k by omega]
  have hvalue : √((m <<< k : ℕ) : ℝ) * 2 ^ t = √(m * 2 ^ e) := by
    have hsquare : (m : ℝ) * 2 ^ e = (m <<< k : ℕ) * (2 ^ t * 2 ^ t) := by
      rw [cast_shiftLeft, hk, ← two_zpow_add, mul_assoc, ← two_zpow_add]
      ring_nf
    rw [hsquare, Real.sqrt_mul (Nat.cast_nonneg _), Real.sqrt_mul_self (two_zpow_pos t).le]
  have hn : 0 < m <<< k := shiftLeft_pos hm k
  have hplaces := log2_le_log2_sqrt hn.ne'
  rw [log2_shiftLeft hm.ne'] at hplaces
  rw [hcore, ← hvalue]
  have h := denotes_roundWithAccuracy .positive (Nat.sqrt_pos.2 hn) (tells_root (m <<< k))
    (e := t) ?_
  · simpa [Sign.apply] using h
  · rw [targetExponent_eq]
    omega

theorem Denotes.sqrt {u : UnpackedFloat} {r : ℝ} (h : Denotes u r) (hr : 0 ≤ r) :
    Denotes (UnpackedFloat.sqrt .binary64 u) (rounded √r) := by
  obtain ⟨s, rfl, rfl⟩ | ⟨s, m, e, hm, rfl, rfl⟩ := h.zero_or_finite
  · exact ⟨trivial, by simp [UnpackedFloat.sqrt]⟩
  cases s with
  | negative =>
    have hpos : (0 : ℝ) < m * 2 ^ e := mul_pos (Nat.cast_pos.2 hm) (two_zpow_pos e)
    have hvalue : ((Sign.negative.apply m : ℤ) : ℝ) * 2 ^ e = -(m * 2 ^ e) := by
      simp [Sign.apply]
    exact absurd hr (by linarith)
  | positive =>
    rw [Sign.apply, Int.cast_natCast]
    exact denotes_root hm e

/-! ### Encoded results -/

/-- A double encoded from a decoded number denotes that number, if it is not too large. -/
theorem extended?_of_denotes {z : Float} {u : UnpackedFloat} {r : ℝ}
    (hz : unpack z = UnpackedFloat.unpack .binary64 (UnpackedFloat.pack .binary64 u))
    (hu : Denotes u (rounded r)) : extended? z = some (nearest r) := by
  rw [extended?, hz, denoted_unpack_pack hu.canonical, hu.denoted, Option.map_some, nearest_coe]

variable {x y : Float} {r r' : ℝ}

theorem extended?_sub (hx : extended? x = some (r : EReal)) (hy : extended? y = some (r' : EReal)) :
    extended? (x - y) = some (nearest (r - r' : ℝ)) :=
  extended?_of_denotes rfl ((denotes_unpack hx).sub (denotes_unpack hy))

theorem extended?_mul (hx : extended? x = some (r : EReal)) (hy : extended? y = some (r' : EReal)) :
    extended? (x * y) = some (nearest (r * r' : ℝ)) :=
  extended?_of_denotes rfl ((denotes_unpack hx).mul (denotes_unpack hy))

theorem extended?_div (hx : extended? x = some (r : EReal)) (hy : extended? y = some (r' : EReal))
    (hne : r' ≠ 0) : extended? (x / y) = some (nearest (r / r' : ℝ)) :=
  extended?_of_denotes rfl ((denotes_unpack hx).div (denotes_unpack hy) hne)

theorem extended?_sqrt (hx : extended? x = some (r : EReal)) (hr : 0 ≤ r) :
    extended? x.sqrt = some (nearest (√r : ℝ)) :=
  extended?_of_denotes rfl ((denotes_unpack hx).sqrt hr)

end Summand.Binary64
