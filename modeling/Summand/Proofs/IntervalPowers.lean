import Summand.Proofs.IntervalArithmetic
import Summand.Proofs.Powers

/-!
# Enclosure by powers of intervals

A power of an interval with finite bounds contains the powers of all numbers in it, and never has
its bounds out of order (`Interval.power_encloses`), where the exponent is the nearest double to the
given one. Up to `2 ^ 53` this is the given exponent, so powers are enclosed as they should be.

Beyond, an odd exponent may be rounded to an even one, while the bounds are still taken in the order
that suits an odd one. If there are negative numbers in the interval, the bounds of the power may be
out of order then, or contain no power at all. These exponents are left out.
-/

namespace Summand.Interval

open Binary64

/-! ### Powers of bounds -/

/-- The double is one of those nearest to a real number, and finite. -/
structure Approximates (y : Float) (v r : ℝ) : Prop where
  denoted : extended? y = some (v : EReal)
  nearest : IsNearest v r

namespace Approximates

variable {y : Float} {v r : ℝ}

theorem overflowed_eq (h : Approximates y v r) : overflowed v = v := overflowed_extended h.denoted

theorem lowered_le (h : Approximates y v r) : lowered v ≤ r := by
  have hle := h.nearest.lowered_le (by rw [h.overflowed_eq]; exact EReal.coe_ne_top v)
  rwa [h.overflowed_eq] at hle

theorem le_raised (h : Approximates y v r) : r ≤ raised v := by
  have hle := h.nearest.le_raised (by rw [h.overflowed_eq]; exact EReal.coe_ne_bot v)
  rwa [h.overflowed_eq] at hle

end Approximates

section

variable {x y : Float} {r : ℝ} {n k : ℕ}

/-- A bound's power fails if the exponent or the power is too large. -/
theorem powerBound_eq_error {fault : Fault} (h : powerBound x n = .error fault) :
    fault = .number .integerTooLarge ∨ fault = .number .powerOverflow := by
  rw [powerBound] at h
  rcases hk : toExponent? n with - | k
  · rw [hk] at h
    exact .inl (Except.error.inj h).symm
  · rw [hk] at h
    dsimp only at h
    split_ifs at h
    exact .inr (Except.error.inj h).symm

/-- A bound's power is finite and nearest to the exact one. -/
theorem powerBound_eq_ok (hx : extended? x = some (r : EReal)) (hn : n ≠ 0)
    (h : powerBound x n = .ok y) : ∃ k, toExponent? n = some k ∧ y = Binary64.power x k ∧
      ∃ v, Approximates y v (r ^ k) := by
  have hfinite : x.isFinite := isFinite_iff.2 ⟨r, hx⟩
  rw [powerBound] at h
  rcases hk : toExponent? n with - | k
  · rw [hk] at h
    cases h
  obtain ⟨v, hv, hpower⟩ := extended?_power hx (toExponent?_pos hk hn).ne'
  rw [hk] at h
  dsimp only at h
  split_ifs at h with hinf
  obtain rfl := Except.ok.inj h
  rw [hfinite, Bool.and_true, isInf_iff hpower] at hinf
  obtain ⟨w, hw⟩ := (isInfinite_or_eq_coe (overflowed v)).resolve_left hinf
  obtain rfl : v = w := eq_of_overflowed hw
  exact ⟨k, rfl, rfl, v, by rw [hpower, hw], hv⟩

/-- A power that is not too large is returned. -/
theorem powerBound_of_finite {v : ℝ} (hk : toExponent? n = some k)
    (h : extended? (Binary64.power x k) = some (v : EReal)) :
    powerBound x n = .ok (Binary64.power x k) := by
  have hinf : (Binary64.power x k).isInf = false := by
    rw [Bool.eq_false_iff, Ne, isInf_iff h]
    exact not_isInfinite_coe v
  rw [powerBound, hk]
  dsimp only
  rw [hinf, Bool.false_and, if_neg Bool.false_ne_true]

end

/-! ### Powers of intervals -/

section

variable {i p : Interval} {n k : ℕ} {low high : Float} {l u a b : ℝ}

/-- The interval around the powers of both bounds, which are taken in the order that suits the
exponent and the signs. -/
def powerAround (i : Interval) (n : ℕ) (low high : Float) : Except Fault Interval :=
  if n % 2 = 1 || 0.0 ≤ i.lower then outward low high
  else if i.upper ≤ 0.0 then outward high low
  else make 0.0 (up (maxOf low high))

theorem powerNat_eq_ok (hn : n ≠ 0) : i.powerNat n = .ok p ↔ ∃ low high,
    powerBound i.lower n = .ok low ∧ powerBound i.upper n = .ok high ∧
      i.powerAround n low high = .ok p := by
  rw [powerNat, if_neg hn]
  simp only [powerAround]
  split_ifs <;> simp only [bind_eq_ok_iff]
  · exact ⟨fun ⟨low, hlow, high, hhigh, h⟩ ↦ ⟨low, high, hlow, hhigh, h⟩,
      fun ⟨low, high, hlow, hhigh, h⟩ ↦ ⟨low, hlow, high, hhigh, h⟩⟩
  · exact ⟨fun ⟨high, hhigh, low, hlow, h⟩ ↦ ⟨low, high, hlow, hhigh, h⟩,
      fun ⟨low, high, hlow, hhigh, h⟩ ↦ ⟨high, hhigh, low, hlow, h⟩⟩
  · exact ⟨fun ⟨low, hlow, high, hhigh, h⟩ ↦ ⟨low, high, hlow, hhigh, h⟩,
      fun ⟨low, high, hlow, hhigh, h⟩ ↦ ⟨low, hlow, high, hhigh, h⟩⟩

/-- A power fails as the power of a bound does, or because its bounds are out of order. -/
theorem powerNat_eq_error {fault : Fault} (hn : n ≠ 0) (h : i.powerNat n = .error fault) :
    (∃ x, powerBound x n = .error fault) ∨ ∃ low high, powerBound i.lower n = .ok low ∧
      powerBound i.upper n = .ok high ∧ i.powerAround n low high = .error fault := by
  rw [powerNat, if_neg hn] at h
  simp only [powerAround]
  split_ifs at h ⊢ <;> simp only [bind_eq_error_iff] at h
  · obtain h | ⟨low, hlow, h | ⟨high, hhigh, h⟩⟩ := h
    · exact .inl ⟨_, h⟩
    · exact .inl ⟨_, h⟩
    · exact .inr ⟨low, high, hlow, hhigh, h⟩
  · obtain h | ⟨high, hhigh, h | ⟨low, hlow, h⟩⟩ := h
    · exact .inl ⟨_, h⟩
    · exact .inl ⟨_, h⟩
    · exact .inr ⟨low, high, hlow, hhigh, h⟩
  · obtain h | ⟨low, hlow, h | ⟨high, hhigh, h⟩⟩ := h
    · exact .inl ⟨_, h⟩
    · exact .inl ⟨_, h⟩
    · exact .inr ⟨low, high, hlow, hhigh, h⟩

/-- Which bounds a power gets: where powers rise, where they fall, and around zero. -/
inductive PowerCase (i : Interval) (n : ℕ) (l u : ℝ) : Prop
  | rising (h : n % 2 = 1 ∨ 0 ≤ l)
      (hrun : ∀ low high, i.powerAround n low high = outward low high)
  | falling (heven : n % 2 = 0) (h : u ≤ 0)
      (hrun : ∀ low high, i.powerAround n low high = outward high low)
  | straddling (heven : n % 2 = 0) (hl : l < 0) (hu : 0 < u)
      (hrun : ∀ low high, i.powerAround n low high = make 0.0 (up (maxOf low high)))

theorem Spans.powerCase (h : i.Spans l u) (n : ℕ) : PowerCase i n l u := by
  have hnonneg : 0.0 ≤ i.lower ↔ 0 ≤ l := by
    rw [le_iff_le extended?_zero h.lower, EReal.coe_le_coe_iff]
  have hnonpos : i.upper ≤ 0.0 ↔ u ≤ 0 := by
    rw [le_iff_le h.upper extended?_zero, EReal.coe_le_coe_iff]
  by_cases hrising : n % 2 = 1 ∨ 0 ≤ l
  · refine .rising hrising fun low high ↦ if_pos ?_
    rw [Bool.or_eq_true, decide_eq_true_iff, decide_eq_true_iff, hnonneg]
    exact hrising
  have hnot : ¬(n % 2 = 1 || decide (0.0 ≤ i.lower)) = true := by
    rw [Bool.or_eq_true, decide_eq_true_iff, decide_eq_true_iff, hnonneg]
    exact hrising
  rw [not_or, not_le] at hrising
  by_cases hu : u ≤ 0
  · refine .falling (by omega) hu fun low high ↦ ?_
    rw [powerAround, if_neg hnot, if_pos (hnonpos.2 hu)]
  · refine .straddling (by omega) hrising.2 (not_le.1 hu) fun low high ↦ ?_
    rw [powerAround, if_neg hnot, if_neg (hnonpos.not.2 hu)]

theorem even_pow_le {x y : ℝ} (hk : k % 2 = 0) (h : |x| ≤ |y|) : x ^ k ≤ y ^ k := by
  rw [← (Nat.even_iff.2 hk).pow_abs x, ← (Nat.even_iff.2 hk).pow_abs y]
  exact pow_le_pow_left₀ (abs_nonneg x) h k

theorem rising_pow_le {x y : ℝ} (hk : k % 2 = 1 ∨ 0 ≤ x) (h : x ≤ y) : x ^ k ≤ y ^ k := by
  rcases hk with hodd | hx
  · exact (Nat.odd_iff.2 hodd).strictMono_pow.monotone h
  · exact pow_le_pow_left₀ hx h k

/-- A number between two others has no greater magnitude than both. -/
theorem abs_le_or_abs_le {x : ℝ} (hl : l ≤ x) (hu : x ≤ u) : |x| ≤ |l| ∨ |x| ≤ |u| := by
  rcases le_total 0 x with hx | hx
  · right
    rwa [abs_of_nonneg hx, abs_of_nonneg (hx.trans hu)]
  · left
    rw [abs_of_nonpos hx, abs_of_nonpos (hl.trans hx)]
    exact neg_le_neg hl

/-- The bounds of a power enclose the powers of all numbers between the bounds, if the exponent that
is used has the parity of the given one, or the numbers are not negative. -/
theorem yields_powerAround (h : i.Spans l u) (hlow : Approximates low a (l ^ k))
    (hhigh : Approximates high b (u ^ k)) (hodd : n % 2 = 1 → k % 2 = 1 ∨ 0 ≤ l)
    (heven : n % 2 = 0 → k % 2 = 0) : ∃ D V, Yields (i.powerAround n low high) D V ∧
      ∀ x : ℝ, l ≤ x → x ≤ u → D ≤ (x ^ k : ℝ) ∧ (x ^ k : ℝ) ≤ V := by
  have hlu : l ≤ u := EReal.coe_le_coe_iff.1 h.ordered
  cases h.powerCase n with
  | rising hrising hrun =>
    have hpow {x y : ℝ} (hl : l ≤ x) (hxy : x ≤ y) : ((x ^ k : ℝ) : EReal) ≤ (y ^ k : ℝ) :=
      EReal.coe_le_coe_iff.2 (rising_pow_le (hrising.elim hodd .inr |>.imp_right hl.trans') hxy)
    refine ⟨_, _, hrun low high ▸ yields_outward hlow.denoted hhigh.denoted
      (hlow.lowered_le.trans ((hpow le_rfl hlu).trans hhigh.le_raised)), fun x hl hu ↦ ?_⟩
    exact ⟨hlow.lowered_le.trans (hpow le_rfl hl), (hpow hl hu).trans hhigh.le_raised⟩
  | falling hn hu hrun =>
    have hpow {x y : ℝ} (hy : y ≤ u) (hxy : x ≤ y) : ((y ^ k : ℝ) : EReal) ≤ (x ^ k : ℝ) := by
      refine EReal.coe_le_coe_iff.2 (even_pow_le (heven hn) ?_)
      rw [abs_of_nonpos (hy.trans hu), abs_of_nonpos (hxy.trans (hy.trans hu))]
      exact neg_le_neg hxy
    refine ⟨_, _, hrun low high ▸ yields_outward hhigh.denoted hlow.denoted
      (hhigh.lowered_le.trans ((hpow le_rfl hlu).trans hlow.le_raised)), fun x hl hu ↦ ?_⟩
    exact ⟨hhigh.lowered_le.trans (hpow le_rfl hu), (hpow hu hl).trans hlow.le_raised⟩
  | straddling hn hl hu hrun =>
    have hmax : extended? (maxOf low high) = some (max (a : EReal) b) := by
      rw [extended?_maxOf hlow.denoted, hhigh.denoted, Option.getD_some]
    have hnonneg (x : ℝ) : (0 : EReal) ≤ (x ^ k : ℝ) :=
      EReal.coe_nonneg.2 ((Nat.even_iff.2 (heven hn)).pow_nonneg x)
    have hbelow : ((l ^ k : ℝ) : EReal) ≤ raised (max (a : EReal) b) :=
      hlow.le_raised.trans (raised_mono (le_max_left _ _))
    have hbelow' : ((u ^ k : ℝ) : EReal) ≤ raised (max (a : EReal) b) :=
      hhigh.le_raised.trans (raised_mono (le_max_right _ _))
    refine ⟨0, raised (max (a : EReal) b), hrun low high ▸ yields_make extended?_zero ?_
      ((hnonneg l).trans hbelow), fun x hlx hxu ↦ ⟨hnonneg x, ?_⟩⟩
    · rw [extended?_up, hmax, Option.map_some]
    rcases abs_le_or_abs_le hlx hxu with hle | hle
    · exact (EReal.coe_le_coe_iff.2 (even_pow_le (heven hn) hle)).trans hbelow
    · exact (EReal.coe_le_coe_iff.2 (even_pow_le (heven hn) hle)).trans hbelow'

end

theorem power_int (i : Interval) (n : ℕ) : i.power (.int n) = i.powerNat n := by
  rw [power, exponentOf?, if_pos (Int.natCast_nonneg n)]
  rfl

/-- The power to the exponent zero holds one alone. -/
theorem powerNat_zero (i : Interval) : i.powerNat 0 = .ok ⟨1.0, 1.0⟩ := by
  rw [powerNat, if_pos rfl, make, if_neg]
  rw [lt_iff_lt extended?_one extended?_one]
  exact lt_irrefl _

/-- A power fails only if the exponent or a power of a bound is too large. If it does not, its
bounds are in order, and enclose the powers of all numbers in the interval. -/
theorem power_encloses {i : Interval} (hi : i.Bounded) {n : ℕ}
    (h : toExponent? n = some n ∨ n % 2 = 0 ∨ 0.0 ≤ i.lower) :
    (∀ fault, i.power (.int n) = .error fault →
      fault = .number .integerTooLarge ∨ fault = .number .powerOverflow) ∧
    ∀ p, i.power (.int n) = .ok p → p.lower ≤ p.upper ∧ ∃ k, toExponent? n = some k ∧
      (n ≤ 2 ^ 53 → k = n) ∧ ∀ x, i.Contains x → p.Contains (x ^ k) := by
  rw [power_int]
  rcases eq_or_ne n 0 with rfl | hn
  · rw [powerNat_zero]
    refine ⟨fun fault hfault ↦ (nomatch hfault), ?_⟩
    rintro p ⟨⟩
    refine ⟨(le_iff_le extended?_one extended?_one).2 le_rfl, 0, toExponent?_of_le (Nat.zero_le _),
      fun _ ↦ rfl, fun x _ ↦ ?_⟩
    rw [pow_zero]
    exact ⟨_, _, extended?_one, extended?_one, le_rfl, le_rfl⟩
  obtain ⟨l, u, hspans⟩ := hi.spans
  -- Whatever the powers of the bounds are, the interval around them is as it should be.
  have haround {low high : Float} (hlow : powerBound i.lower n = .ok low)
      (hhigh : powerBound i.upper n = .ok high) : ∃ k, toExponent? n = some k ∧
        ∃ D V, Yields (i.powerAround n low high) D V ∧
          ∀ x : ℝ, l ≤ x → x ≤ u → D ≤ (x ^ k : ℝ) ∧ (x ^ k : ℝ) ≤ V := by
    obtain ⟨k, hk, -, a, ha⟩ := powerBound_eq_ok hspans.lower hn hlow
    obtain ⟨k', hk', -, b, hb⟩ := powerBound_eq_ok hspans.upper hn hhigh
    obtain rfl : k = k' := Option.some_inj.1 (hk.symm.trans hk')
    refine ⟨k, hk, yields_powerAround hspans ha hb (fun hodd ↦ ?_)
      fun heven ↦ even_of_toExponent? hk (.inr heven)⟩
    obtain hsame | heven | hnonneg := h
    · obtain rfl : k = n := Option.some_inj.1 (hk.symm.trans hsame)
      exact .inl hodd
    · omega
    · rw [le_iff_le extended?_zero hspans.lower, EReal.coe_le_coe_iff] at hnonneg
      exact .inr hnonneg
  constructor
  · intro fault hfault
    obtain ⟨x, hx⟩ | ⟨low, high, hlow, hhigh, hrun⟩ := powerNat_eq_error hn hfault
    · exact powerBound_eq_error hx
    · obtain ⟨k, -, D, V, hyields, -⟩ := haround hlow hhigh
      obtain ⟨p, hp, -⟩ := hyields.returns
      rw [hrun] at hp
      cases hp
  · intro p hp
    obtain ⟨low, high, hlow, hhigh, hrun⟩ := (powerNat_eq_ok hn).1 hp
    obtain ⟨k, hk, D, V, hyields, hall⟩ := haround hlow hhigh
    obtain ⟨p', hp', hD, hV⟩ := hyields.returns
    obtain rfl : p' = p := Except.ok.inj (hp'.symm.trans hrun)
    refine ⟨(le_iff_le hD hV).2 hyields.ordered, k, hk, fun hle ↦ eq_of_toExponent? hk hle,
      fun x hx ↦ ?_⟩
    obtain ⟨hlx, hxu⟩ := hspans.contains_iff.1 hx
    obtain ⟨hDx, hxV⟩ := hall x (EReal.coe_le_coe_iff.1 hlx) (EReal.coe_le_coe_iff.1 hxu)
    exact ⟨D, V, hD, hV, hDx, hxV⟩

end Summand.Interval

namespace Summand.Small

open Summand.Interval

/-- The cube of the tenths contains that of a quarter. -/
theorem contains_cube_of_quarter :
    ∃ p, tenths.power (.int 3) = .ok p ∧ p.lower ≤ p.upper ∧ p.Contains (1 / 64) := by
  have hbounded : tenths.Bounded := ⟨by decide +kernel, by decide +kernel, by decide +kernel⟩
  have hquarter : tenths.Contains (1 / 4) :=
    contains_quarter 7205759403792794 5404319552844595 (-56) (-54) (by norm_num) (by norm_num)
      rfl rfl (by norm_num) (by norm_num)
  have hexponent : Binary64.toExponent? 3 = some 3 := Binary64.toExponent?_of_le (by norm_num)
  obtain ⟨-, hall⟩ := power_encloses hbounded (.inl hexponent)
  have hreturns : (tenths.power (.int 3)).toOption.any (fun _ ↦ true) = true := by decide +kernel
  obtain ⟨p, hrun, -⟩ := exists_ok_of_any hreturns
  obtain ⟨hordered, k, -, hsame, hcontains⟩ := hall p hrun
  obtain rfl := hsame (by norm_num)
  have hcube := hcontains _ hquarter
  norm_num at hcube
  exact ⟨p, hrun, hordered, hcube⟩

/-- The least odd exponent that is no double is rounded to an even one. The bounds of a power are
out of order then, or on the wrong side of zero. -/
theorem reversed_of_rounded_exponent :
    (∃ lower upper, (⟨-1.0, 0.0⟩ : Interval).power (.int 9007199254740993) =
        .error (.reversed lower upper)) ∧
      ∃ p, (⟨-1.0, -1.0⟩ : Interval).power (.int 9007199254740993) = .ok p ∧
        ¬p.Contains ((-1) ^ 9007199254740993) := by
  constructor
  · have hfault : (match (⟨-1.0, 0.0⟩ : Interval).power (.int 9007199254740993) with
        | .error (.reversed _ _) => true
        | _ => false) = true := by
      decide +kernel
    rcases hrun : (⟨-1.0, 0.0⟩ : Interval).power (.int 9007199254740993) with fault | p
    · rw [hrun] at hfault
      cases fault with
      | reversed lower upper => exact ⟨lower, upper, rfl⟩
      | _ => cases hfault
    · rw [hrun] at hfault
      cases hfault
  · have hpositive : ((⟨-1.0, -1.0⟩ : Interval).power (.int 9007199254740993)).toOption.any
        (fun p ↦ 0.0 < p.lower) = true := by
      decide +kernel
    obtain ⟨p, hp, hlower⟩ := exists_ok_of_any hpositive
    refine ⟨p, hp, ?_⟩
    rw [Odd.neg_one_pow (by decide)]
    rintro ⟨L, -, hL, -, hle, -⟩
    rw [decide_eq_true_iff, Binary64.lt_iff_lt Binary64.extended?_zero hL] at hlower
    exact absurd (EReal.coe_lt_coe_iff.1 (hlower.trans_le hle)) (by norm_num)

end Summand.Small
