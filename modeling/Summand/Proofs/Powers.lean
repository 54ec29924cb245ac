import Summand.Proofs.ScaledNumbers

/-!
# Powers of doubles

A power of a finite double is one of the doubles nearest to the exact power, where what is too large
becomes infinite (`extended?_power`). Of two that are equally near it need not be the even one,
since that is left to the machine. So the power is not the exact power rounded, but even powers are
still monotone in the magnitude of the base (`power_le_power`), because numbers nearest to different
ones are in order whichever of them are taken (`IsNearest.mono`).

The bounds of a power that is found by squaring stay bounds when places are dropped
(`Bounds.Encloses.shorten`), and if both round to one double, the power does
(`extended?_of_rounded?`). A number halfway between two doubles is an odd multiple of half its last
place, so both neighbors are nearest (`isNearest_of_halfway`).
-/

namespace Summand.Binary64

open Float.Model (UnpackedFloat)

/-! ### Halfway cases -/

theorem lastPlace_scaled {m : ℕ} (hm : 0 < m) (e : ℤ) :
    lastPlace (m * 2 ^ e) = max (m.log2 + e - 52) (-1074) := by
  rw [lastPlace_eq hm le_rfl (lt_add_one _), targetExponent_eq]

/-- Both neighbors of a number halfway between them are nearest to it. -/
theorem isNearest_of_halfway {m j : ℕ} {e : ℤ} (hm : m % 2 = 1) (h : isHalfway m e = true)
    (hj : m = 2 * j + 1 ∨ m + 1 = 2 * j) : IsNearest (j * 2 ^ (e + 1)) (m * 2 ^ e) := by
  have hplace : lastPlace (m * 2 ^ e) = e + 1 := by
    rw [lastPlace_scaled (by omega)]
    exact (by simpa [isHalfway] using h : e + 1 = _).symm
  have hlog : m.log2 ≤ 53 ∧ -1074 ≤ e + 1 := by
    rw [lastPlace_scaled (by omega)] at hplace
    omega
  have hbits : m < 2 ^ 54 := (Nat.log2_lt (by omega)).1 (by omega)
  refine ⟨⟨j, e + 1, ?_, hlog.2, by rw [Int.cast_natCast]⟩, fun {w} hw ↦ ?_⟩
  · rw [Nat.abs_cast]
    exact_mod_cast (by omega : j ≤ 2 ^ 53)
  -- An odd multiple of half the last place is at least that far from every multiple.
  have hpos := two_zpow_pos e
  have hdistance (k : ℤ) :
      |(k : ℝ) * 2 ^ (e + 1) - m * 2 ^ e| = |((2 * k - m : ℤ) : ℝ)| * 2 ^ e := by
    rw [← abs_of_pos hpos, ← abs_mul, abs_of_pos hpos, two_zpow_add]
    congr 1
    push_cast
    ring
  have hfar : (2 : ℝ) ^ e ≤ |rounded (m * 2 ^ e) - m * 2 ^ e| := by
    rw [rounded, weight, hplace, hdistance]
    refine le_mul_of_one_le_left hpos.le ?_
    exact_mod_cast Int.one_le_abs (by omega)
  have hnear : |(j : ℝ) * 2 ^ (e + 1) - m * 2 ^ e| = 2 ^ e := by
    have hone : |(2 * (j : ℤ) - m)| = 1 := by
      rcases hj with hj | hj
      · rw [abs_of_neg (by omega)]
        omega
      · rw [abs_of_pos (by omega)]
        omega
    rw [← Int.cast_natCast j, hdistance, ← Int.cast_abs, hone, Int.cast_one, one_mul]
  rw [hnear]
  exact hfar.trans (abs_rounded_sub_le _ hw)

/-- A double that compares equal to a number denotes that number. -/
theorem extended?_of_beq {x y : Float} {Y : EReal} (hy : extended? y = some Y)
    (h : (x == y) = true) : extended? x = some Y := by
  rcases hx : extended? x with - | X
  · have hcompare : (unpack x).compare (unpack y) = some .eq := beq_iff_eq.1 h
    rw [eq_notANumber_of_denoted hx] at hcompare
    cases hcompare
  · rw [eq_of_beq hx hy h]

/-- The favored double is taken only if it is nearest, too. -/
theorem extended?_nearestFavoring (favored : Float) {m : ℕ} (hm : m % 2 = 1) (e : ℤ) :
    ∃ v, IsNearest v (m * 2 ^ e) ∧
      extended? (nearestFavoring favored m e) = some (overflowed v) := by
  rw [nearestFavoring]
  split_ifs with h
  swap
  · exact ⟨_, isNearest_rounded _, extended?_roundScaled false m e⟩
  rw [Bool.and_eq_true, Bool.or_eq_true] at h
  obtain ⟨hhalf, hneighbor⟩ := h
  have hfavored {j : ℕ} (hj : m = 2 * j + 1 ∨ m + 1 = 2 * j)
      (heq : (favored == roundScaled false (2 * j) e) = true) :
      ∃ v, IsNearest v (m * 2 ^ e) ∧ extended? favored = some (overflowed v) := by
    have hnearest := isNearest_of_halfway hm hhalf hj
    have hvalue : ((2 * j : ℕ) : ℝ) * 2 ^ e = j * 2 ^ (e + 1) := by
      rw [two_zpow_add]
      push_cast
      ring
    refine ⟨_, hnearest, extended?_of_beq ?_ heq⟩
    rw [extended?_roundScaled, hvalue, nearest_coe, rounded_of_fits hnearest.fits]
    rfl
  rcases hneighbor with heq | heq
  · refine hfavored (j := m / 2) (.inl (by omega)) ?_
    rwa [show 2 * (m / 2) = m - 1 by omega]
  · refine hfavored (j := (m + 1) / 2) (.inr (by omega)) ?_
    rwa [show 2 * ((m + 1) / 2) = m + 1 by omega]

/-! ### Enclosing a power -/

namespace Bounds

/-- The number lies between the bounds. -/
structure Encloses (b : Bounds) (r : ℝ) : Prop where
  lower : (b.lower : ℝ) * 2 ^ b.exponent ≤ r
  upper : r ≤ b.upper * 2 ^ b.exponent

variable {b c : Bounds} {r s : ℝ}

/-- Dropped places of the lower bound make it smaller, and those of the upper bound are made up. -/
theorem Encloses.shorten (h : b.Encloses r) (bits : ℕ) : (b.shorten bits).Encloses r := by
  obtain ⟨d, hd⟩ : ∃ d, Nat.log2 b.upper - bits = d := ⟨_, rfl⟩
  have hpos : 0 < 2 ^ d := Nat.two_pow_pos d
  have hscale (m : ℕ) : (m : ℝ) * 2 ^ (b.exponent + d) = (m * 2 ^ d : ℕ) * 2 ^ b.exponent := by
    rw [two_zpow_add, zpow_natCast]
    push_cast
    ring
  rw [Bounds.shorten, hd, Nat.pow_eq]
  constructor
  · rw [hscale]
    refine (mul_le_mul_of_nonneg_right ?_ (two_zpow_pos _).le).trans h.lower
    exact_mod_cast Nat.div_mul_le_self b.lower (2 ^ d)
  · rw [hscale]
    refine h.upper.trans (mul_le_mul_of_nonneg_right ?_ (two_zpow_pos _).le)
    have hup : b.upper ≤ (b.upper + 2 ^ d - 1) / 2 ^ d * 2 ^ d := by
      have hrest := Nat.lt_div_mul_add (a := b.upper + 2 ^ d - 1) hpos
      omega
    exact_mod_cast hup

theorem Encloses.mul (h : b.Encloses r) (h' : c.Encloses s) (hr : 0 ≤ r) (hs : 0 ≤ s) :
    (b.mul c).Encloses (r * s) := by
  have hproduct (m m' : ℕ) (e e' : ℤ) :
      ((m * m' : ℕ) : ℝ) * 2 ^ (e + e') = m * 2 ^ e * (m' * 2 ^ e') := by
    rw [two_zpow_add]
    push_cast
    ring
  have hnonneg (m : ℕ) (e : ℤ) : (0 : ℝ) ≤ m * 2 ^ e := mul_nonneg m.cast_nonneg (two_zpow_pos e).le
  constructor
  · rw [Bounds.mul, hproduct]
    exact mul_le_mul h.lower h'.lower (hnonneg _ _) hr
  · rw [Bounds.mul, hproduct]
    exact mul_le_mul h.upper h'.upper hs (hnonneg _ _)

theorem encloses_power (bits m : ℕ) (e : ℤ) (n : ℕ) :
    (Bounds.power bits m e n).Encloses ((m * 2 ^ e : ℝ) ^ n) := by
  have hnonneg : (0 : ℝ) ≤ m * 2 ^ e := mul_nonneg m.cast_nonneg (two_zpow_pos e).le
  induction n using Nat.strong_induction_on with
  | h n ih =>
    rw [Bounds.power]
    rcases eq_or_ne n 0 with rfl | hn
    · rw [if_pos rfl]
      constructor <;> simp
    have hroot := ih (n / 2) (by omega)
    have hsquare := (hroot.mul hroot (pow_nonneg hnonneg _) (pow_nonneg hnonneg _)).shorten bits
    rw [← pow_add] at hsquare
    rw [if_neg hn]
    dsimp only
    split_ifs with heven
    · rwa [show n / 2 + n / 2 = n by omega] at hsquare
    · have hbase : (Bounds.mk m m e).Encloses (m * 2 ^ e) := ⟨le_rfl, le_rfl⟩
      have hpower := (hsquare.mul hbase (pow_nonneg hnonneg _) hnonneg).shorten bits
      rwa [← pow_succ, show n / 2 + n / 2 + 1 = n by omega] at hpower

end Bounds

/-- An integer times a power of two becomes the double nearest to it. -/
theorem extended?_enclosure_nearest (v e : ℤ) :
    extended? (Enclosure.nearest v e) = some (nearest ((v * 2 ^ e : ℝ))) := by
  rw [Enclosure.nearest, extended?_roundScaled]
  rcases le_or_gt 0 v with hv | hv
  · rw [decide_eq_false hv.not_gt, Nat.cast_natAbs, abs_of_nonneg hv]
    rfl
  · rw [decide_eq_true hv, Nat.cast_natAbs, abs_of_neg hv, Int.cast_neg, neg_mul, EReal.coe_neg,
      nearest_neg]
    simp [signed]

/-- If both bounds round to one double, so does what lies between them. -/
theorem extended?_of_rounded? {b : Bounds} {r : ℝ} {x : Float} (h : b.Encloses r)
    (hx : b.toEnclosure.rounded? = some x) : extended? x = some (nearest r) := by
  obtain ⟨hbits, rfl⟩ : (Enclosure.nearest b.lower b.exponent).toBits =
      (Enclosure.nearest b.upper b.exponent).toBits ∧ Enclosure.nearest b.lower b.exponent = x := by
    simpa [Enclosure.rounded?, Bounds.toEnclosure] using hx
  have hlower := extended?_enclosure_nearest b.lower b.exponent
  have hupper := extended?_enclosure_nearest b.upper b.exponent
  have hequal : extended? (Enclosure.nearest b.lower b.exponent) =
      extended? (Enclosure.nearest b.upper b.exponent) := by
    rw [extended?_eq, extended?_eq, hbits]
  rw [Int.cast_natCast] at hlower hupper
  rw [hlower, hupper, Option.some_inj] at hequal
  rw [hlower, Option.some_inj]
  exact le_antisymm (nearest_mono (EReal.coe_le_coe_iff.2 h.lower))
    (hequal ▸ nearest_mono (EReal.coe_le_coe_iff.2 h.upper))

theorem extended?_powerByBounds? {m n : ℕ} {e : ℤ} {precisions : List ℕ} {x : Float}
    (h : powerByBounds? m e n precisions = some x) :
    extended? x = some (nearest ((m * 2 ^ e : ℝ) ^ n : ℝ)) := by
  induction precisions with
  | nil => cases h
  | cons bits rest ih =>
    rw [powerByBounds?] at h
    rcases hrounded : (Bounds.power bits m e n).toEnclosure.rounded? with - | y
    · rw [hrounded] at h
      exact ih h
    · rw [hrounded] at h
      obtain rfl := Option.some_inj.1 h
      exact extended?_of_rounded? (Bounds.encloses_power bits m e n) hrounded

/-! ### Powers -/

theorem pow_scaled (m : ℕ) (e : ℤ) (n : ℕ) :
    ((m * 2 ^ e : ℝ)) ^ n = (m ^ n : ℕ) * 2 ^ (e * n) := by
  rw [mul_pow, zpow_mul, zpow_natCast]
  push_cast
  rfl

/-- The power of an odd mantissa and an exponent is a double nearest to the exact power. -/
theorem extended?_powerMagnitude (favored : Float) {m : ℕ} (hm : m % 2 = 1) (e : ℤ) (n : ℕ) :
    ∃ v, IsNearest v ((m * 2 ^ e : ℝ) ^ n) ∧
      extended? (powerMagnitude favored m e n) = some (overflowed v) := by
  rw [powerMagnitude]
  split_ifs with hone hsmall
  · obtain ⟨v, hv, hx⟩ := extended?_nearestFavoring favored (m := 1) rfl (e * n)
    rw [hone, pow_scaled, one_pow]
    exact ⟨v, hv, hx⟩
  · rw [pow_scaled]
    exact extended?_nearestFavoring favored (by rw [Nat.pow_mod, hm, one_pow]; rfl) (e * n)
  · rcases hbounds : powerByBounds? m e n [128, 256, 512, 1024, 2048] with - | x
    · refine ⟨_, isNearest_rounded _, ?_⟩
      rw [pow_scaled]
      exact extended?_roundScaled false (m ^ n) (e * n)
    · exact ⟨_, isNearest_rounded _, extended?_powerByBounds? hbounds⟩

/-- Halving the mantissa leaves an odd one, and the number as it was. -/
theorem oddMantissa_spec {m : ℕ} (hm : m ≠ 0) (e : ℤ) : (oddMantissa m e).1 % 2 = 1 ∧
    ((oddMantissa m e).1 : ℝ) * 2 ^ (oddMantissa m e).2 = m * 2 ^ e := by
  induction m, e using oddMantissa.induct with
  | case1 m e heven ih =>
    rw [oddMantissa, if_pos heven]
    obtain ⟨hodd, hvalue⟩ := ih (by omega)
    refine ⟨hodd, hvalue.trans ?_⟩
    have hhalf : (m : ℝ) = 2 * (m / 2 : ℕ) := by exact_mod_cast (by omega : m = 2 * (m / 2))
    rw [hhalf, two_zpow_add]
    ring
  | case2 m e hodd =>
    rw [oddMantissa, if_neg hodd]
    exact ⟨by omega, rfl⟩

theorem abs_eq (x : Float) : x.abs = ⟨Float.Model.pack (unpack x).abs⟩ := rfl

/-- The magnitude of the power of a number that is not zero. -/
def magnitudePower (m : ℕ) (e : ℤ) (hm : 0 < m) (n : ℕ) : Float :=
  powerMagnitude (Float.pow ⟨Float.Model.pack (.finite .positive m e hm)⟩ (ofInt n))
    (oddMantissa m e).1 (oddMantissa m e).2 n

theorem power_of_finite {x : Float} {s : UnpackedFloat.Sign} {m : ℕ} {e : ℤ} {hm : 0 < m}
    (hx : unpack x = .finite s m e hm) (n : ℕ) :
    power x n = if s == .negative && n % 2 == 1 then -magnitudePower m e hm n
      else magnitudePower m e hm n := by
  rw [power, hx, abs_eq, hx]
  rfl

theorem extended?_magnitudePower {m : ℕ} (e : ℤ) (hm : 0 < m) (n : ℕ) :
    ∃ v, IsNearest v ((m * 2 ^ e : ℝ) ^ n) ∧
      extended? (magnitudePower m e hm n) = some (overflowed v) := by
  obtain ⟨hodd, hvalue⟩ := oddMantissa_spec hm.ne' e
  rw [← hvalue]
  exact extended?_powerMagnitude _ hodd _ n

theorem extended?_power_of_zero {x : Float} {s : UnpackedFloat.Sign} (hx : unpack x = .zero s)
    (n : ℕ) : extended? (power x n) = some 0 := by
  have hbase : extended? x = some 0 := by rw [extended?, hx, denoted_zero]
  have habs : extended? x.abs = some 0 := by
    have hunpack : (unpack x).abs = .zero .positive := by rw [hx]; rfl
    rw [extended?_of_encoded (z := x.abs) (u := (unpack x).abs) rfl (hunpack ▸ trivial)
      (hunpack ▸ denoted_zero _), overflowed_zero]
  rw [power, hx]
  dsimp only
  split_ifs
  · exact hbase
  · exact habs

variable {x y : Float} {r r' : ℝ} {n : ℕ}

/-- A power is a double nearest to the exact one. -/
theorem extended?_power (hx : extended? x = some (r : EReal)) (hn : n ≠ 0) :
    ∃ v, IsNearest v (r ^ n) ∧ extended? (power x n) = some (overflowed v) := by
  obtain ⟨s, hs, rfl⟩ | ⟨s, m, e, hm, hs, rfl⟩ := (denotes_unpack hx).zero_or_finite
  · refine ⟨0, ?_, ?_⟩
    · rw [zero_pow hn]
      simpa using isNearest_rounded 0
    · rw [extended?_power_of_zero hs, EReal.coe_zero, overflowed_zero]
  obtain ⟨v, hv, hpower⟩ := extended?_magnitudePower e hm n
  rw [power_of_finite hs]
  cases s with
  | positive => exact ⟨v, by simpa [UnpackedFloat.Sign.apply] using hv, hpower⟩
  | negative =>
    have hbase : (((UnpackedFloat.Sign.negative.apply m : ℤ) : ℝ) * 2 ^ e) = -(m * 2 ^ e) := by
      simp [UnpackedFloat.Sign.apply]
    rw [hbase]
    rcases Nat.mod_two_eq_zero_or_one n with heven | hodd
    · refine ⟨v, ?_, ?_⟩
      · rwa [(Nat.even_iff.2 heven).neg_pow]
      · rwa [heven]
    · refine ⟨-v, ?_, ?_⟩
      · rw [(Nat.odd_iff.2 hodd).neg_pow]
        exact hv.neg
      · rw [hodd]
        show extended? (-magnitudePower m e hm n) = _
        rw [extended?_neg, hpower, Option.map_some, EReal.coe_neg, overflowed_neg]

/-- Even powers of numbers of one magnitude are the same. -/
theorem extended?_power_congr (hx : extended? x = some (r : EReal))
    (hy : extended? y = some (r' : EReal)) (heven : n % 2 = 0) (h : |r| = |r'|) :
    extended? (power x n) = extended? (power y n) := by
  have habs (s : UnpackedFloat.Sign) {m : ℕ} (hm : 0 < m) (e : ℤ) :
      |((s.apply m : ℤ) : ℝ) * 2 ^ e| = m * 2 ^ e ∧ (0 : ℝ) < m * 2 ^ e := by
    have hpos : (0 : ℝ) < m * 2 ^ e := mul_pos (Nat.cast_pos.2 hm) (two_zpow_pos e)
    cases s <;> simp [UnpackedFloat.Sign.apply, abs_mul, hpos, abs_of_pos (two_zpow_pos e)]
  have hcanonical := (denotes_unpack hx).canonical
  have hcanonical' := (denotes_unpack hy).canonical
  obtain ⟨s, hs, rfl⟩ | ⟨s, m, e, hm, hs, rfl⟩ := (denotes_unpack hx).zero_or_finite <;>
    obtain ⟨s', hs', rfl⟩ | ⟨s', m', e', hm', hs', rfl⟩ := (denotes_unpack hy).zero_or_finite
  · rw [extended?_power_of_zero hs, extended?_power_of_zero hs']
  · rw [abs_zero, (habs s' hm' e').1] at h
    exact absurd h (habs s' hm' e').2.ne
  · rw [abs_zero, (habs s hm e).1] at h
    exact absurd h (habs s hm e).2.ne'
  · -- Canonical numbers of one magnitude have the same mantissa and the same exponent.
    rw [(habs s hm e).1, (habs s' hm' e').1] at h
    rw [hs] at hcanonical
    rw [hs'] at hcanonical'
    have hnot := (mul_zpow_lt_iff hcanonical.1 hcanonical'.1 hcanonical.2.1 hcanonical'.2.1
      hcanonical.2.2 hcanonical'.2.2).not.1 h.not_lt
    have hnot' := (mul_zpow_lt_iff hcanonical'.1 hcanonical.1 hcanonical'.2.1 hcanonical.2.1
      hcanonical'.2.2 hcanonical.2.2).not.1 h.not_gt
    obtain ⟨rfl, rfl⟩ : m = m' ∧ e = e' := by omega
    rw [power_of_finite hs, power_of_finite hs', heven]
    simp

/-- Even powers are monotone in the magnitude. -/
theorem power_le_power (hx : extended? x = some (r : EReal)) (hy : extended? y = some (r' : EReal))
    (heven : n % 2 = 0) (hn : n ≠ 0) (h : |r| ≤ |r'|) : ∃ X Y, extended? (power x n) = some X ∧
      extended? (power y n) = some Y ∧ X ≤ Y := by
  obtain ⟨v, hv, hX⟩ := extended?_power hx hn
  obtain ⟨v', hv', hY⟩ := extended?_power hy hn
  refine ⟨_, _, hX, hY, ?_⟩
  rcases h.eq_or_lt with heq | hlt
  · rw [extended?_power_congr hx hy heven heq, hY, Option.some_inj] at hX
    exact hX.ge
  · have hpowers : r ^ n < r' ^ n := by
      rw [← (Nat.even_iff.2 heven).pow_abs, ← (Nat.even_iff.2 heven).pow_abs r']
      exact pow_lt_pow_left₀ hlt (abs_nonneg r) hn
    exact overflowed_mono (EReal.coe_le_coe_iff.2 (hv.mono hv' hpowers))

end Summand.Binary64
