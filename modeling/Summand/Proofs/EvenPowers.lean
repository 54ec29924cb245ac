import Summand.Proofs.IntervalPowers
import Summand.Proofs.Isotonicity

/-!
# Even powers of intervals

The lower bound of an even power is not negative if the interval has numbers of both signs, and is
then zero, or if no power of its numbers is rounded to zero. It is negative otherwise, since zero is
widened like any other bound, and the square root of the power is refused
(`Interval.EvenPower.nonneg`, `Interval.EvenPower.negative`).

The power of a narrower interval has no greater upper bound, as the magnitudes are bounded and
powers are monotone in these. It has no smaller lower bound either, except in the case above: a
narrower interval on one side of zero may have a negative lower bound where the wider one has zero
(`Interval.EvenPower.narrower`).
-/

namespace Summand.Interval

open Binary64

/-! ### Bounds of even powers -/

section

variable {i p : Interval} {n k : ℕ} {low high : Float} {l u a b : ℝ}

/-- The lower bound of an even power: zero for numbers of both signs, and else just below the lesser
power of the bounds. -/
noncomputable def leastEven (l u a b : ℝ) : EReal :=
  if l < 0 ∧ 0 < u then 0 else lowered (min a b : ℝ)

theorem leastEven_ne_top (l u a b : ℝ) : leastEven l u a b ≠ ⊤ := by
  rw [leastEven]
  split_ifs
  · exact EReal.zero_ne_top
  · exact ne_top_of_le_ne_top (EReal.coe_ne_top _) (lowered_le _)

/-- The bounds of an even power are the powers of the bounds of least and greatest magnitude, or
zero. -/
theorem yields_even (h : i.Spans l u) (heven : n % 2 = 0) (hlow : extended? low = some (a : EReal))
    (hhigh : extended? high = some (b : EReal)) (hrising : |l| ≤ |u| → a ≤ b)
    (hfalling : |u| ≤ |l| → b ≤ a) (ha : 0 ≤ a) :
    Yields (i.powerAround n low high) (leastEven l u a b) (raised (max a b : ℝ)) := by
  have hlu : l ≤ u := EReal.coe_le_coe_iff.1 h.ordered
  rw [leastEven]
  cases h.powerCase n with
  | rising hcase hrun =>
    have hl : 0 ≤ l := hcase.resolve_left (by omega)
    have hab : a ≤ b := hrising (by rwa [abs_of_nonneg hl, abs_of_nonneg (hl.trans hlu)])
    rw [hrun, if_neg fun hzero ↦ hl.not_gt hzero.1, min_eq_left hab, max_eq_right hab]
    exact yields_outward hlow hhigh (lowered_le_raised (EReal.coe_le_coe_iff.2 hab))
  | falling _ hu hrun =>
    have hba : b ≤ a := hfalling (by
      rw [abs_of_nonpos hu, abs_of_nonpos (hlu.trans hu)]
      exact neg_le_neg hlu)
    rw [hrun, if_neg fun hzero ↦ hu.not_gt hzero.2, min_eq_right hba, max_eq_left hba]
    exact yields_outward hhigh hlow (lowered_le_raised (EReal.coe_le_coe_iff.2 hba))
  | straddling _ hl hu hrun =>
    rw [hrun, if_pos ⟨hl, hu⟩]
    refine yields_make extended?_zero ?_ ?_
    · rw [extended?_up, extended?_maxOf hlow, hhigh, Option.getD_some, Option.map_some,
        ← EReal.coe_strictMono.monotone.map_max]
    · exact (EReal.coe_nonneg.2 (ha.trans (le_max_left a b))).trans (le_raised _)

/-- Even powers are monotone in the magnitude. -/
theorem Approximates.le {x y : Float} {r r' v v' : ℝ}
    (h : Approximates (Binary64.power x k) v (r ^ k))
    (h' : Approximates (Binary64.power y k) v' (r' ^ k)) (hx : extended? x = some (r : EReal))
    (hy : extended? y = some (r' : EReal)) (heven : k % 2 = 0) (hk : k ≠ 0) (hle : |r| ≤ |r'|) :
    v ≤ v' := by
  obtain ⟨X, Y, hX, hY, hXY⟩ := power_le_power hx hy heven hk hle
  rw [h.denoted, Option.some_inj] at hX
  rw [h'.denoted, Option.some_inj] at hY
  rwa [← hX, ← hY, EReal.coe_le_coe_iff] at hXY

/-- The power of a number of less magnitude is no more too large. -/
theorem Approximates.exists_of_abs_le {x y : Float} {r r' v' : ℝ}
    (h' : Approximates (Binary64.power y k) v' (r' ^ k)) (hx : extended? x = some (r : EReal))
    (hy : extended? y = some (r' : EReal)) (heven : k % 2 = 0) (hk : k ≠ 0) (hle : |r| ≤ |r'|) :
    ∃ v, Approximates (Binary64.power x k) v (r ^ k) := by
  obtain ⟨X, Y, hX, hY, hXY⟩ := power_le_power hx hy heven hk hle
  obtain ⟨v, hv, hpower⟩ := extended?_power hx hk
  have hnonneg : 0 ≤ overflowed v := by
    rw [← overflowed_zero]
    exact overflowed_mono (EReal.coe_nonneg.2 (hv.nonneg ((Nat.even_iff.2 heven).pow_nonneg r)))
  rw [h'.denoted, Option.some_inj] at hY
  rw [hpower, Option.some_inj] at hX
  subst hX hY
  induction hw : overflowed v with
  | bot => exact absurd (hw ▸ hnonneg) (not_le.2 EReal.bot_lt_zero)
  | top => exact absurd (hw ▸ hXY) (not_le.2 (EReal.coe_lt_top v'))
  | coe w =>
    obtain rfl : v = w := eq_of_overflowed hw
    exact ⟨v, by rw [hpower, hw], hv⟩

/-- What the bounds of an even power are made of: the powers of the bounds, to the exponent that is
used. -/
structure Powered (i : Interval) (k : ℕ) (l u a b : ℝ) : Prop where
  spans : i.Spans l u
  low : Approximates (Binary64.power i.lower k) a (l ^ k)
  high : Approximates (Binary64.power i.upper k) b (u ^ k)

theorem Powered.nonneg (h : Powered i k l u a b) (hk : k % 2 = 0) : 0 ≤ a ∧ 0 ≤ b :=
  ⟨h.low.nearest.nonneg ((Nat.even_iff.2 hk).pow_nonneg l),
    h.high.nearest.nonneg ((Nat.even_iff.2 hk).pow_nonneg u)⟩

theorem Powered.yields (h : Powered i k l u a b) (hk : toExponent? n = some k) (heven : n % 2 = 0)
    (hn : n ≠ 0) : Yields (i.power (.int n)) (leastEven l u a b) (raised (max a b : ℝ)) := by
  have hkeven := even_of_toExponent? hk (.inr heven)
  have hkpos := (toExponent?_pos hk hn).ne'
  have hyields := yields_even h.spans heven h.low.denoted h.high.denoted
    (h.low.le h.high h.spans.lower h.spans.upper hkeven hkpos)
    (h.high.le h.low h.spans.upper h.spans.lower hkeven hkpos) (h.nonneg hkeven).1
  obtain ⟨p, hp, hlower, hupper⟩ := hyields.returns
  refine ⟨hyields.ordered, p, ?_, hlower, hupper⟩
  rw [power_int, powerNat_eq_ok hn]
  exact ⟨_, _, powerBound_of_finite hk h.low.denoted, powerBound_of_finite hk h.high.denoted, hp⟩

theorem exists_powered (h : i.Spans l u) (hn : n ≠ 0) (hrun : i.power (.int n) = .ok p) :
    ∃ k a b, toExponent? n = some k ∧ Powered i k l u a b := by
  rw [power_int, powerNat_eq_ok hn] at hrun
  obtain ⟨low, high, hlow, hhigh, -⟩ := hrun
  obtain ⟨k, hk, rfl, a, ha⟩ := powerBound_eq_ok h.lower hn hlow
  obtain ⟨k', hk', rfl, b, hb⟩ := powerBound_eq_ok h.upper hn hhigh
  obtain rfl : k = k' := Option.some_inj.1 (hk.symm.trans hk')
  exact ⟨k, a, b, hk, h, ha, hb⟩

/-! ### Signs of lower bounds -/

theorem zero_mem_doubles : (0 : EReal) ∈ doubles := ⟨0.0, extended?_zero⟩

theorem lowered_zero_lt : lowered 0 < 0 := by
  have hraised : ((0 : ℝ) : EReal) < raised ((0 : ℝ) : EReal) := lt_raised extended?_zero
  rw [lowered, neg_zero, EReal.neg_lt_zero]
  exact hraised

/-- The lower bound is not negative around zero, or if no power is rounded to zero. -/
theorem Powered.leastEven_nonneg (h : Powered i k l u a b)
    (hcase : l < 0 ∧ 0 < u ∨ ∀ x, i.Contains x → 2 ^ (-1075 : ℤ) < x ^ k) :
    0 ≤ leastEven l u a b := by
  rw [leastEven]
  split_ifs with hzero
  · exact le_rfl
  obtain hlarge := hcase.resolve_left hzero
  have ha : 0 < a :=
    h.low.nearest.pos (hlarge l (h.spans.contains_iff.2 ⟨le_rfl, h.spans.ordered⟩))
  have hb : 0 < b :=
    h.high.nearest.pos (hlarge u (h.spans.contains_iff.2 ⟨h.spans.ordered, le_rfl⟩))
  exact le_lowered zero_mem_doubles (EReal.coe_pos.2 (lt_min ha hb))

/-- The lower bound is negative on one side of zero, if a power is rounded to zero. -/
theorem Powered.leastEven_neg (h : Powered i k l u a b) (hk : k % 2 = 0) (hzero : ¬(l < 0 ∧ 0 < u))
    {x : ℝ} (hx : i.Contains x) (hsmall : x ^ k < 2 ^ (-1075 : ℤ)) : leastEven l u a b < 0 := by
  obtain ⟨hlx, hxu⟩ := h.spans.contains_iff.1 hx
  rw [EReal.coe_le_coe_iff] at hlx hxu
  obtain ⟨ha, hb⟩ := h.nonneg hk
  have hvanishes {y : Float} {v r : ℝ} (hy : Approximates y v (r ^ k)) (hle : |r| ≤ |x|) :
      v = 0 := by
    refine hy.nearest.eq_zero ?_
    rw [abs_of_nonneg ((Nat.even_iff.2 hk).pow_nonneg r)]
    exact (even_pow_le hk hle).trans_lt hsmall
  have hmin : min a b = 0 := by
    rcases le_or_gt 0 l with hl | hl
    · rw [hvanishes h.low (by rwa [abs_of_nonneg hl, abs_of_nonneg (hl.trans hlx)]), min_eq_left hb]
    · have hu : u ≤ 0 := not_lt.1 fun hu ↦ hzero ⟨hl, hu⟩
      rw [hvanishes h.high ?_, min_eq_right ha]
      rw [abs_of_nonpos hu, abs_of_nonpos (hxu.trans hu)]
      exact neg_le_neg hxu
  rw [leastEven, if_neg hzero, hmin, EReal.coe_zero]
  exact lowered_zero_lt

/-! ### Narrower intervals -/

variable {j : Interval} {l' u' a' b' : ℝ}

/-- The power of a number in an interval is no greater than the greater power of its bounds. -/
theorem Powered.exists_approximates (h : Powered i k l u a b) (heven : k % 2 = 0) (hk : k ≠ 0)
    {x : Float} {r : ℝ} (hx : extended? x = some (r : EReal)) (hl : l ≤ r) (hu : r ≤ u) :
    ∃ v, Approximates (Binary64.power x k) v (r ^ k) ∧ v ≤ max a b := by
  rcases abs_le_or_abs_le hl hu with hle | hle
  · obtain ⟨v, hv⟩ := h.low.exists_of_abs_le hx h.spans.lower heven hk hle
    exact ⟨v, hv, le_max_of_le_left (hv.le h.low hx h.spans.lower heven hk hle)⟩
  · obtain ⟨v, hv⟩ := h.high.exists_of_abs_le hx h.spans.upper heven hk hle
    exact ⟨v, hv, le_max_of_le_right (hv.le h.high hx h.spans.upper heven hk hle)⟩

/-- An interval on one side of zero has the powers of a narrower one above its lower bound. -/
theorem Powered.leastEven_le (h : Powered i k l u a b) (h' : Powered j k l' u' a' b')
    (heven : k % 2 = 0) (hk : k ≠ 0) (hl : l ≤ l') (hu : u' ≤ u) (hzero : ¬(l < 0 ∧ 0 < u)) :
    leastEven l u a b ≤ leastEven l' u' a' b' := by
  have hlu' : l' ≤ u' := EReal.coe_le_coe_iff.1 h'.spans.ordered
  have hzero' : ¬(l' < 0 ∧ 0 < u') := fun hboth ↦
    hzero ⟨hl.trans_lt hboth.1, hboth.2.trans_le hu⟩
  rw [leastEven, leastEven, if_neg hzero, if_neg hzero']
  refine lowered_mono (EReal.coe_le_coe_iff.2 ?_)
  rcases le_or_gt 0 l with hpos | hneg
  · have hmagnitude {r : ℝ} (hr : l ≤ r) : |l| ≤ |r| := by
      rwa [abs_of_nonneg hpos, abs_of_nonneg (hpos.trans hr)]
    refine (min_le_left a b).trans (le_min ?_ ?_)
    · exact h.low.le h'.low h.spans.lower h'.spans.lower heven hk (hmagnitude hl)
    · exact h.low.le h'.high h.spans.lower h'.spans.upper heven hk (hmagnitude (hl.trans hlu'))
  · have hnonpos : u ≤ 0 := not_lt.1 fun hpos ↦ hzero ⟨hneg, hpos⟩
    have hmagnitude {r : ℝ} (hr : r ≤ u) : |u| ≤ |r| := by
      rw [abs_of_nonpos hnonpos, abs_of_nonpos (hr.trans hnonpos)]
      exact neg_le_neg hr
    refine (min_le_right a b).trans (le_min ?_ ?_)
    · exact h.high.le h'.low h.spans.upper h'.spans.lower heven hk (hmagnitude (hlu'.trans hu))
    · exact h.high.le h'.high h.spans.upper h'.spans.upper heven hk (hmagnitude hu)

/-- The power of a narrower interval is returned, and its upper bound is no greater. -/
theorem Powered.narrower (h : Powered i k l u a b) (heven : k % 2 = 0) (hk : k ≠ 0)
    (h' : j.Spans l' u') (hl : l ≤ l') (hu : u' ≤ u) :
    ∃ a' b', Powered j k l' u' a' b' ∧ max a' b' ≤ max a b := by
  have hlu' : l' ≤ u' := EReal.coe_le_coe_iff.1 h'.ordered
  obtain ⟨a', ha, hale⟩ := h.exists_approximates heven hk h'.lower hl (hlu'.trans hu)
  obtain ⟨b', hb, hble⟩ := h.exists_approximates heven hk h'.upper (hl.trans hlu') hu
  exact ⟨a', b', ⟨h', ha, hb⟩, max_le hale hble⟩

end

/-! ### Even powers -/

/-- What holds of an even power, where `k` is the exponent that is used. -/
structure EvenPower (i : Interval) (n k : ℕ) (p : Interval) : Prop where
  nonneg : (i.lower < 0.0 ∧ 0.0 < i.upper ∨ ∀ x, i.Contains x → 2 ^ (-1075 : ℤ) < x ^ k) →
    0.0 ≤ p.lower ∧ ∃ q, p.sqrt = .ok q
  negative : ¬(i.lower < 0.0 ∧ 0.0 < i.upper) → (∃ x, i.Contains x ∧ x ^ k < 2 ^ (-1075 : ℤ)) →
    p.lower < 0.0 ∧ p.sqrt = .error (.negative p)
  narrower : ∀ j, j.Bounded → i.containsInterval j → ∃ q, j.power (.int n) = .ok q ∧
    q.upper ≤ p.upper ∧ (p.lower ≤ q.lower ∨ q.lower < 0.0 ∧ i.lower < 0.0 ∧ 0.0 < i.upper)

theorem evenPower_of_bounded {i p : Interval} (hi : i.Bounded) {n : ℕ} (heven : n % 2 = 0)
    (hn : n ≠ 0) (hrun : i.power (.int n) = .ok p) :
    ∃ k, toExponent? n = some k ∧ EvenPower i n k p := by
  obtain ⟨l, u, hspans⟩ := hi.spans
  obtain ⟨k, a, b, hk, h⟩ := exists_powered hspans hn hrun
  have hkeven := even_of_toExponent? hk (.inr heven)
  have hkpos := (toExponent?_pos hk hn).ne'
  obtain ⟨p', hp', hlower, hupper⟩ := (h.yields hk heven hn).returns
  obtain rfl : p' = p := Except.ok.inj (hp'.symm.trans hrun)
  have hstraddles : i.lower < 0.0 ∧ 0.0 < i.upper ↔ l < 0 ∧ 0 < u := by
    rw [lt_iff_lt hspans.lower extended?_zero, lt_iff_lt extended?_zero hspans.upper,
      EReal.coe_lt_coe_iff, EReal.coe_lt_coe_iff]
  have hordered := (h.yields hk heven hn).ordered
  refine ⟨k, hk, fun hcase ↦ ?_, fun hzero ⟨x, hx, hsmall⟩ ↦ ?_, fun j hj hwithin ↦ ?_⟩
  · rw [hstraddles] at hcase
    have hnonneg := h.leastEven_nonneg hcase
    have hp : p'.Spans (leastEven l u a b) (raised (max a b : ℝ)) :=
      ⟨hlower, hupper, hordered, leastEven_ne_top l u a b,
        ne_bot_of_le_ne_bot (EReal.coe_ne_bot _) (le_raised _)⟩
    obtain ⟨q, hq, -⟩ := (yields_sqrt hp hnonneg).returns
    exact ⟨(le_iff_le extended?_zero hlower).2 hnonneg, q, hq⟩
  · have hneg := h.leastEven_neg hkeven (hstraddles.not.1 hzero) hx hsmall
    have hless : p'.lower < 0.0 := (lt_iff_lt hlower extended?_zero).2 hneg
    refine ⟨hless, ?_⟩
    rw [Interval.sqrt, if_pos hless]
    rfl
  · obtain ⟨l', u', hspans'⟩ := hj.spans
    obtain ⟨hl, hu⟩ := hspans'.within hspans hwithin
    rw [EReal.coe_le_coe_iff] at hl hu
    obtain ⟨a', b', h', hmax⟩ := h.narrower hkeven hkpos hspans' hl hu
    obtain ⟨q, hq, hlower', hupper'⟩ := (h'.yields hk heven hn).returns
    refine ⟨q, hq, ?_, ?_⟩
    · rw [le_iff_le hupper' hupper]
      exact raised_mono (EReal.coe_le_coe_iff.2 hmax)
    by_cases hzero : l < 0 ∧ 0 < u
    · rcases lt_or_ge (leastEven l' u' a' b') 0 with hneg | hnonneg
      · exact .inr ⟨(lt_iff_lt hlower' extended?_zero).2 hneg, hstraddles.2 hzero⟩
      · left
        rw [le_iff_le hlower hlower', leastEven, if_pos hzero]
        exact hnonneg
    · left
      rw [le_iff_le hlower hlower']
      exact h.leastEven_le h' hkeven hkpos hl hu hzero

end Summand.Interval

namespace Summand.Small

open Summand.Interval

/-- Numbers of both signs and of magnitude at most one. -/
def bothSigns : Interval := ⟨-1.0, 1.0⟩

/-- Numbers of magnitude at most one that are not negative. -/
def oneSign : Interval := ⟨0.0, 1.0⟩

/-- The square of the numbers of both signs has a root, and that of the tenths does not exceed
it. -/
theorem root_of_square : ∃ p, bothSigns.power (.int 2) = .ok p ∧ 0.0 ≤ p.lower ∧
    (∃ q, p.sqrt = .ok q) ∧ ∃ q, tenths.power (.int 2) = .ok q ∧ q.upper ≤ p.upper := by
  have hbounded : bothSigns.Bounded := ⟨by decide +kernel, by decide +kernel, by decide +kernel⟩
  have htenths : tenths.Bounded := ⟨by decide +kernel, by decide +kernel, by decide +kernel⟩
  have hreturns : (bothSigns.power (.int 2)).toOption.any (fun _ ↦ true) = true := by
    decide +kernel
  obtain ⟨p, hrun, -⟩ := exists_ok_of_any hreturns
  obtain ⟨k, -, heven⟩ := evenPower_of_bounded hbounded (n := 2) rfl two_ne_zero hrun
  obtain ⟨hnonneg, hroot⟩ := heven.nonneg (.inl ⟨by decide +kernel, by decide +kernel⟩)
  obtain ⟨q, hq, hupper, -⟩ := heven.narrower tenths htenths (by decide +kernel)
  exact ⟨p, hrun, hnonneg, hroot, q, hq, hupper⟩

/-- The square of the numbers from zero to one has a negative lower bound and no root, and is not in
the square of the numbers of both signs. -/
theorem negative_of_square :
    (∃ p, oneSign.power (.int 2) = .ok p ∧ p.lower < 0.0 ∧ p.sqrt = .error (.negative p)) ∧
      bothSigns.containsInterval oneSign ∧ ∃ p p', oneSign.power (.int 2) = .ok p ∧
        bothSigns.power (.int 2) = .ok p' ∧ ¬p'.containsInterval p := by
  have hnegative : (oneSign.power (.int 2)).toOption.any (fun p ↦ p.lower < 0.0) = true := by
    decide +kernel
  have hnonneg : (bothSigns.power (.int 2)).toOption.any
      (fun p' ↦ (oneSign.power (.int 2)).toOption.any fun p ↦ !p'.containsInterval p) = true := by
    decide +kernel
  obtain ⟨p, hp, hlower⟩ := exists_ok_of_any hnegative
  obtain ⟨p', hp', hescapes⟩ := exists_ok_of_any hnonneg
  have hless : p.lower < 0.0 := of_decide_eq_true hlower
  rw [hp] at hescapes
  refine ⟨⟨p, hp, hless, ?_⟩, by decide +kernel, p, p', hp, hp', ?_⟩
  · rw [Interval.sqrt, if_pos hless]
    rfl
  · intro hcontains
    rw [show (Except.ok p : Except Fault Interval).toOption = some p from rfl, Option.any_some,
      hcontains] at hescapes
    cases hescapes

end Summand.Small
