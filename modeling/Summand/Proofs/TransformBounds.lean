import Summand.Proofs.ElementaryRanges
import Summand.Proofs.ExactNumbers
import Summand.Proofs.RoundTrip

/-!
# Bounds of transforms

Over the real numbers, a transform by an exponential keeps a variable above or below a bound, and
one by a sine keeps it between two bounds. In doubles every operation is rounded, and less is left
of that.

An exponential that is small beside the bound is lost when it is added. So a variable does not cross
the bound but may reach it, and then it is taken back to an infinity (`Elementwise.Beyond`). No
bound is safe from that, since there is nothing left of an exponential from `-750` on.

The place between two bounds is found from their distance. If that is rounded up, the upper bound
may be crossed; if it overflows, nothing finite is written; and if the bounds have become equal
doubles, there is no way back (`Elementwise.Between`). Whether the bounds hold can be told at a
quarter turn (`Elementwise.forall_between_iff`), and they do if the distance is exact and not very
large (`Elementwise.top_le_of_exact`).
-/

namespace Summand

namespace Binary64

theorem le_trans {x y z : Float} (h : x ≤ y) (h' : y ≤ z) : x ≤ z := by
  obtain ⟨X, Y, hX, hY, hXY⟩ := le_iff.1 h
  obtain ⟨Y', Z, hY', hZ, hYZ⟩ := le_iff.1 h'
  obtain rfl : Y = Y' := Option.some_inj.1 (hY.symm.trans hY')
  exact (le_iff_le hX hZ).2 (hXY.trans hYZ)

end Binary64

open Binary64

/-- Numbers in order denote numbers in order. -/
theorem Number.value_lt {m n : Number} (hm : m.IsFinite) (hn : n.IsFinite) (h : m < n) :
    m.value < n.value := by
  have hcompare : compare? m n = some .lt := h
  cases m with
  | int i =>
    cases n with
    | int j =>
      rw [compare?, Option.some_inj, compare_lt_iff_lt] at hcompare
      exact Int.cast_lt.2 hcompare
    | real y =>
      rw [compare?, compareInt?_eq, extended?_value hn, Option.map_some, Option.map_some,
        Option.some_inj, Ordering.swap_eq_lt, cmp_eq_gt_iff] at hcompare
      exact EReal.coe_lt_coe_iff.1 hcompare
  | real x =>
    cases n with
    | int j =>
      rw [compare?, compareInt?_eq, extended?_value hm, Option.map_some, Option.some_inj,
        cmp_eq_lt_iff] at hcompare
      exact EReal.coe_lt_coe_iff.1 hcompare
    | real y =>
      by_cases hlt : x < y
      · exact EReal.coe_lt_coe_iff.1 ((lt_iff_lt (extended?_value hm) (extended?_value hn)).1 hlt)
      · rw [compare?, if_neg hlt] at hcompare
        split_ifs at hcompare <;> cases hcompare

/-- Numbers in order are converted to doubles in order, which may be equal. -/
theorem Number.exists_le_of_lt {m n : Number} {x y : Float} (hm : m.toFloat = .ok x)
    (hx : x.isFinite) (hn : n.toFloat = .ok y) (hy : y.isFinite) (h : m < n) :
    ∃ r s : ℝ, extended? x = some (r : EReal) ∧ extended? y = some (s : EReal) ∧ r ≤ s := by
  have hm' : m.Convertible := ⟨x, hm, hx⟩
  have hn' : n.Convertible := ⟨y, hn, hy⟩
  obtain ⟨x', hx', hr⟩ := hm'.exists_toFloat
  obtain ⟨y', hy', hs⟩ := hn'.exists_toFloat
  obtain rfl := Except.ok.inj (hm.symm.trans hx')
  obtain rfl := Except.ok.inj (hn.symm.trans hy')
  exact ⟨_, _, hr, hs, rounded_mono (value_lt hm'.isFinite hn'.isFinite h).le⟩

namespace Elementwise

/-! ### Bounds by an exponential -/

/-- What the maps of a transform by an exponential do: for `t` a double is written that respects the
bound, and `y` is the double that it is taken back to. The double differs from the bound if twice
the exponential exceeds the gap between the bound and the next double, and equals the bound if it
falls short of that gap, as it does from `-750` on for all bounds. On the way back there is never a
NaN, and the result is finite if the double differs from the bound and its distance from the bound
does not overflow. -/
structure Beyond (gap distance t y : Float) (within strictly : Prop) : Prop where
  holds : within
  strict : gap < 2 * Elementary.exp t → strictly
  absorbed : gap.isFinite → 2 * Elementary.exp t < gap → ¬strictly
  vanished : t ≤ -750.0 → ¬strictly
  isNaN : y.isNaN = false
  isFinite_iff : y.isFinite ↔ strictly ∧ distance.isFinite

variable {t bound : Float} {r v : ℝ} {X E : EReal} {within strictly : Prop}

theorem isFinite_log_iff {x : Float} {D : EReal} (hx : extended? x = some D) (hD : 0 ≤ D) :
    (Elementary.log x).isNaN = false ∧ ((Elementary.log x).isFinite ↔ 0 < D ∧ x.isFinite) := by
  induction D with
  | bot => exact absurd hD (EReal.bot_lt_zero).not_ge
  | top =>
    have hlog := Elementary.extended?_log_top hx
    refine ⟨isNaN_eq_false hlog, ?_⟩
    simp [Interval.isFinite_of_extended? hlog, Interval.isFinite_of_extended? hx]
  | coe d =>
    rcases (EReal.coe_nonneg.1 hD).eq_or_lt with rfl | hpos
    · have hlog := Elementary.extended?_log_zero hx
      refine ⟨isNaN_eq_false hlog, ?_⟩
      simp [Interval.isFinite_of_extended? hlog]
    · have hfinite := Elementary.isFinite_log hx hpos
      obtain ⟨l, hl⟩ := isFinite_iff.1 hfinite
      exact ⟨isNaN_eq_false hl, iff_of_true hfinite
        ⟨EReal.coe_pos.2 hpos, isFinite_iff.2 ⟨d, hx⟩⟩⟩

/-- A double and an exponential, added and rounded, are beyond the double. -/
theorem beyond_of {gap distance : Float} (hv : (v : EReal) ∈ doubles)
    (ht : extended? t = some (r : EReal)) (hexp : extended? (Elementary.exp t) = some E)
    (hE : 0 ≤ E) (hX : X = nearest (v + E)) (hmem : X ∈ doubles)
    (hgap : extended? gap = some (nearest (raised v - v)))
    (hdistance : extended? distance = some (nearest (X - v)))
    (hwithin : within ↔ v ≤ X) (hstrictly : strictly ↔ v < X) :
    Beyond gap distance t (Elementary.log distance) within strictly := by
  have hle : v ≤ X := hX ▸ le_nearest_add hv hE
  have hdifference : 0 ≤ X - v :=
    (EReal.sub_nonneg (.inr (EReal.coe_ne_top v)) (.inr (EReal.coe_ne_bot v))).2 hle
  have htwice := extended?_two_mul hexp
  obtain ⟨hnan, hfinite⟩ := isFinite_log_iff hdistance (nearest_nonneg hdifference)
  have hpositive : 0 < nearest (X - v) ↔ strictly := by
    rw [hstrictly]
    refine ⟨fun h ↦ lt_of_le_of_ne hle fun heq ↦ ?_, nearest_sub_pos hv hmem⟩
    rw [← heq, EReal.sub_self (EReal.coe_ne_top v) (EReal.coe_ne_bot v), ← EReal.coe_zero,
      nearest_zero] at h
    exact lt_irrefl _ h
  refine ⟨hwithin.2 hle, fun hlt ↦ ?_, fun hgapfinite hlt ↦ ?_, fun hsmall ↦ ?_, hnan,
    by rw [hfinite, hpositive]⟩
  · rw [hstrictly, hX]
    exact lt_nearest_add hv hE (nearest_mono.reflect_lt ((lt_iff_lt hgap htwice).1 hlt))
  · have hraised : raised v ≠ ⊤ := by
      intro htop
      rw [htop, EReal.top_sub_coe, nearest_top] at hgap
      exact ((Interval.isFinite_of_extended? hgap).1 hgapfinite).1 rfl
    have hexact := nearest_mono.reflect_lt ((lt_iff_lt htwice hgap).1 hlt)
    rw [hstrictly, hX, nearest_add_eq hv hE hraised hexact]
    exact lt_irrefl _
  · rw [Elementary.exp_of_le ht hsmall, extended?_zero, Option.some_inj] at hexp
    rw [hstrictly, hX, ← hexp, EReal.coe_zero, add_zero, nearest_of_mem_doubles hv]
    exact lt_irrefl _

/-- The maps of a transform that keeps a variable above a bound. -/
theorem beyond_above (n : Nat) (hbound : extended? bound = some (v : EReal))
    (ht : extended? t = some (r : EReal)) :
    Beyond (nextUp bound - bound) ((above n bound).forward t - bound) t
      ((above n bound).inverse ((above n bound).forward t))
      (bound ≤ (above n bound).forward t) (bound < (above n bound).forward t) := by
  obtain ⟨E, hexp, hE⟩ := Elementary.exists_extended?_exp ht
  have hX := extended?_coe_add hbound hexp
  exact beyond_of ⟨bound, hbound⟩ ht hexp hE rfl ⟨_, hX⟩
    (extended?_sub_coe (extended?_nextUp hbound) hbound) (extended?_sub_coe hX hbound)
    (le_iff_le hbound hX) (lt_iff_lt hbound hX)

/-- The maps of a transform that keeps a variable below a bound, which are those above the negated
bound, negated. -/
theorem beyond_below (n : Nat) (hbound : extended? bound = some (v : EReal))
    (ht : extended? t = some (r : EReal)) :
    Beyond (bound - nextDown bound) (bound - (below n bound).forward t) t
      ((below n bound).inverse ((below n bound).forward t))
      ((below n bound).forward t ≤ bound) ((below n bound).forward t < bound) := by
  obtain ⟨E, hexp, hE⟩ := Elementary.exists_extended?_exp ht
  have hsum : -((-v : ℝ) + E) = (v : EReal) - E := by
    rw [EReal.neg_add (.inl (EReal.coe_ne_bot _)) (.inl (EReal.coe_ne_top _)), EReal.coe_neg,
      neg_neg]
  have hflip (Y : EReal) : (v : EReal) - -Y = Y - (-v : ℝ) := by
    rw [sub_eq_add_neg, sub_eq_add_neg, neg_neg, EReal.coe_neg, neg_neg, add_comm]
  have hX : extended? (bound - Elementary.exp t) = some (-nearest ((-v : ℝ) + E)) := by
    rw [extended?_coe_sub hbound hexp, ← nearest_neg, hsum]
  have hneg : ((-v : ℝ) : EReal) ∈ doubles := neg_mem_doubles ⟨bound, hbound⟩
  have hmem : nearest ((-v : ℝ) + E) ∈ doubles := by
    have := neg_mem_doubles ⟨_, hX⟩
    rwa [neg_neg] at this
  refine beyond_of hneg ht hexp hE rfl hmem ?_ ?_ ((le_iff_le hX hbound).trans ?_)
    ((lt_iff_lt hX hbound).trans ?_)
  · rw [extended?_coe_sub hbound (extended?_nextDown hbound), lowered, ← EReal.coe_neg, hflip]
  · exact (extended?_coe_sub hbound hX).trans (by rw [hflip])
  · rw [EReal.neg_le, EReal.coe_neg]
  · rw [EReal.neg_lt_comm, EReal.coe_neg]

/-! ### Bounds by a sine -/

/-- What the maps of a transform by a sine do: a double `x` is written, and `y` is the double that
it is taken back to. If the distance of the bounds does not overflow, the double is not below the
lower bound and not above what is written for a sine of one, which need not be the upper bound. If
it does overflow, the double is no number up to the upper bound. The double is taken back to a
finite one if the bounds are apart and their distance does not overflow, and to a NaN otherwise. -/
structure Between (lower upper x y : Float) : Prop where
  holds : (upper - lower).isFinite → lower ≤ x ∧ x ≤ lower + (upper - lower) * 2 / 2
  overflow : (upper - lower).isFinite = false → ¬x ≤ upper
  isFinite_iff : y.isFinite ↔ lower < upper ∧ (upper - lower).isFinite
  isFinite_or_isNaN : y.isFinite ∨ y.isNaN

section Sine

variable {lower upper width x : Float} {L U W S : ℝ}

/-- A number between minus one and one stays, and others become the nearer one of these. -/
theorem exists_clampUnit {c : Float} {C : EReal} (hc : extended? c = some C) :
    ∃ s : ℝ, extended? (Transcendental.clampUnit c) = some (s : EReal) ∧ |s| ≤ 1 := by
  show ∃ s : ℝ, extended? (if c < -1.0 then -1.0 else if 1.0 < c then 1.0 else c) = _ ∧ _
  split_ifs with hlow hhigh
  · exact ⟨-1, Elementary.extended?_minusOne, by simp⟩
  · exact ⟨1, extended?_one, by simp⟩
  · rw [lt_iff_lt hc Elementary.extended?_minusOne, not_lt] at hlow
    rw [lt_iff_lt extended?_one hc, not_lt] at hhigh
    induction C with
    | bot => exact absurd hlow (EReal.bot_lt_coe _).not_ge
    | top => exact absurd hhigh (EReal.coe_lt_top _).not_ge
    | coe s => exact ⟨s, hc, abs_le.2 ⟨EReal.coe_le_coe_iff.1 hlow, EReal.coe_le_coe_iff.1 hhigh⟩⟩

theorem isNaN_asin_clampUnit {c : Float} (hc : extended? c = none) :
    (Transcendental.arcsin (Transcendental.clampUnit c)).isNaN = true := by
  have hclamp : Transcendental.clampUnit c = c := by
    show (if c < -1.0 then -1.0 else if 1.0 < c then 1.0 else c) = c
    rw [if_neg, if_neg] <;> rw [lt_iff] <;> rintro ⟨X, Y, hX, hY, -⟩
    · rw [hc] at hY
      cases hY
    · rw [hc] at hX
      cases hX
  rw [hclamp]
  show (Elementary.asin c).isNaN = true
  rw [Elementary.asin, eq_notANumber_of_denoted hc]
  show notANumber.isNaN = true
  decide +kernel

/-- Every number comes back from between bounds that are apart as a finite one. -/
theorem isFinite_arcsin_place {X : EReal} (hx : extended? x = some X)
    (hlower : extended? lower = some (L : EReal)) (hwidth : extended? width = some (W : EReal))
    (hW : W ≠ 0) : (Transcendental.arcsin
      (Transcendental.clampUnit (2 * (x - lower) / width - 1))).isFinite = true := by
  have hdistance := extended?_sub_coe hx hlower
  have hquotient := extended?_div_coe (extended?_two_mul hdistance) hwidth hW
  obtain ⟨s, hs, hunit⟩ := exists_clampUnit (extended?_sub_coe hquotient extended?_one)
  exact Elementary.isFinite_asin hs hunit

/-- Where the quotient of a place is no number, the point is none. -/
theorem isNaN_arcsin_place (h : extended? (2 * (x - lower) / width) = none) :
    (Transcendental.arcsin
      (Transcendental.clampUnit (2 * (x - lower) / width - 1))).isNaN = true :=
  isNaN_asin_clampUnit (extended?_sub_none h 1)

/-- Equal bounds leave one place only, and the way back divides zero by zero. -/
theorem isNaN_arcsin_of_eq (hx : extended? x = some (L : EReal))
    (hlower : extended? lower = some (L : EReal))
    (hwidth : extended? width = some ((0 : ℝ) : EReal)) :
    (Transcendental.arcsin
      (Transcendental.clampUnit (2 * (x - lower) / width - 1))).isNaN = true := by
  have hdistance := extended?_sub hx hlower
  rw [sub_self, nearest_zero] at hdistance
  have hdouble := extended?_two_mul hdistance
  rw [← EReal.coe_mul, mul_zero, nearest_zero] at hdouble
  exact isNaN_arcsin_place (extended?_div_zero hdouble hwidth)

/-- What is written at a height above the lower bound, which is one more than a sine: the product
with the distance of the bounds is halved and added, and rounded each time. -/
noncomputable def placed (L W S : ℝ) : EReal :=
  nearest (L + nearest (nearest ((W * S : ℝ)) / (weight 1 : ℝ)))

theorem weight_one : weight 1 = 2 := zpow_one 2

theorem placed_mono (L : ℝ) (hW : 0 ≤ W) : Monotone (placed L W) := by
  intro S S' h
  have hproduct := nearest_mono (EReal.coe_le_coe_iff.2 (mul_le_mul_of_nonneg_left h hW))
  have hhalf := nearest_mono
    (EReal.div_le_div_right_of_nonneg (EReal.coe_nonneg.2 (two_zpow_pos 1).le) hproduct)
  exact nearest_mono (add_le_add_right hhalf _)

theorem placed_of_mul_eq_zero (hL : (L : EReal) ∈ doubles) (h : W * S = 0) :
    placed L W S = L := by
  rw [placed, h, nearest_zero, EReal.coe_zero, EReal.zero_div, ← EReal.coe_zero, nearest_zero,
    EReal.coe_zero, add_zero, nearest_of_mem_doubles hL]

theorem extended?_placed {height : Float} (hlower : extended? lower = some (L : EReal))
    (hwidth : extended? width = some (W : EReal)) (hheight : extended? height = some (S : EReal)) :
    extended? (lower + width * height / 2) = some (placed L W S) := by
  have hhalf := extended?_div_coe (extended?_mul hwidth hheight) extended?_two two_ne_zero
  rw [placed, weight_one]
  exact extended?_coe_add hlower hhalf

/-- A sine and one are at most two, in doubles as well. -/
theorem exists_height {t : Float} {r : ℝ} (ht : extended? t = some (r : EReal)) :
    ∃ S : ℝ, extended? (Elementary.sin t + 1) = some (S : EReal) ∧ 0 ≤ S ∧ S ≤ 2 := by
  obtain ⟨s, hs, hunit⟩ := Elementary.exists_extended?_sin ht
  obtain ⟨hlow, hhigh⟩ := abs_le.1 hunit
  have hfits : Fits 2 := ⟨2, 0, by norm_num, by norm_num, by simp⟩
  have hlt : (2 : ℝ) < 2 ^ (1024 : ℤ) :=
    (zpow_one 2).symm.trans_lt (zpow_lt_zpow_right₀ one_lt_two (by norm_num))
  obtain ⟨S, hS, hsize⟩ := exists_nearest_le (r := s + 1) hfits hlt
    (abs_le.2 ⟨by linarith, by linarith⟩)
  have hnonneg : 0 ≤ nearest ((s + 1 : ℝ) : EReal) :=
    nearest_nonneg (EReal.coe_nonneg.2 (by linarith))
  rw [hS] at hnonneg
  refine ⟨S, ?_, EReal.coe_nonneg.1 hnonneg, (le_abs_self S).trans hsize⟩
  rw [← hS, EReal.coe_add]
  exact extended?_coe_add hs extended?_one

/-- If the distance of the bounds overflows, nothing finite is written. -/
theorem extended?_overflowed {height : Float} (hlower : extended? lower = some (L : EReal))
    (hwidth : extended? width = some ⊤) (hheight : extended? height = some (S : EReal))
    (hS : 0 ≤ S) : extended? (lower + width * height / 2) = none ∨
      extended? (lower + width * height / 2) = some ⊤ := by
  rcases hS.eq_or_lt with rfl | hpos
  · have hproduct := extended?_mul_of_indeterminate hwidth hheight
      (.inr ⟨isInfinite_iff.2 (.inl rfl), rfl⟩)
    exact .inl (extended?_add_none lower (extended?_div_none hproduct 2))
  · have hproduct := extended?_mul_of_determinate hwidth hheight fun h ↦ by
      rcases h with ⟨h, -⟩ | ⟨-, h⟩
      · exact EReal.top_ne_zero h
      · exact hpos.ne' (EReal.coe_eq_zero.1 h)
    rw [EReal.top_mul_coe_of_pos hpos, nearest_top] at hproduct
    have hhalf := extended?_div_coe hproduct extended?_two two_ne_zero
    rw [EReal.top_div_of_pos_ne_top (EReal.coe_pos.2 two_pos) (EReal.coe_ne_top 2), nearest_top]
      at hhalf
    have hsum := extended?_coe_add hlower hhalf
    rw [EReal.coe_add_top, nearest_top] at hsum
    exact .inr hsum

theorem not_isFinite_of_isNaN {y : Float} (h : y.isNaN) : ¬y.isFinite := by
  intro hfinite
  obtain ⟨r, hr⟩ := isFinite_iff.1 hfinite
  rw [isNaN_iff.1 h] at hr
  cases hr

/-- The maps between bounds whose distance overflows. -/
theorem between_of_overflow (n : Nat) (hlower : extended? lower = some (L : EReal))
    (hupper : extended? upper = some (U : EReal)) (hwidth : extended? (upper - lower) = some ⊤)
    {t : Float} (hheight : extended? (Elementary.sin t + 1) = some (S : EReal)) (hS : 0 ≤ S) :
    Between lower upper ((between n lower upper).forward t)
      ((between n lower upper).inverse ((between n lower upper).forward t)) := by
  have hoverflow : (upper - lower).isFinite = false := by
    simp [← Bool.not_eq_true, Interval.isFinite_of_extended? hwidth]
  have hx := extended?_overflowed hlower hwidth hheight hS
  have hquotient : extended? (2 * ((between n lower upper).forward t - lower) /
      (upper - lower)) = none := by
    rcases hx with hx | hx
    · exact extended?_div_none (extended?_mul_none 2 (extended?_sub_none hx lower)) _
    · have hdistance := extended?_sub_coe hx hlower
      rw [EReal.top_sub_coe, nearest_top] at hdistance
      have hdouble := extended?_two_mul hdistance
      rw [EReal.coe_mul_top_of_pos two_pos, nearest_top] at hdouble
      exact extended?_div_of_infinite hdouble hwidth (isInfinite_iff.2 (.inl rfl))
        (isInfinite_iff.2 (.inl rfl))
  have hnan := isNaN_arcsin_place hquotient
  refine ⟨fun h ↦ ?_, fun _ hbelow ↦ ?_, ?_, .inr hnan⟩
  · rw [hoverflow] at h
    cases h
  · obtain ⟨X, Y, hX, hY, hXY⟩ := le_iff.1 hbelow
    obtain rfl : (U : EReal) = Y := Option.some_inj.1 (hupper.symm.trans hY)
    rcases hx with hx | hx
    · cases hx.symm.trans hX
    · obtain rfl : ⊤ = X := Option.some_inj.1 (hx.symm.trans hX)
      exact (EReal.coe_lt_top U).not_ge hXY
  · rw [hoverflow]
    exact iff_of_false (not_isFinite_of_isNaN hnan) (by simp)

/-- The maps between bounds with a finite distance. -/
theorem between_of_width (n : Nat) (hlower : extended? lower = some (L : EReal))
    (hupper : extended? upper = some (U : EReal)) (hle : L ≤ U)
    (hwidth : extended? (upper - lower) = some (W : EReal)) (hW : nearest ((U - L : ℝ) : EReal) = W)
    {t : Float} (hheight : extended? (Elementary.sin t + 1) = some (S : EReal)) (hS : 0 ≤ S)
    (hS' : S ≤ 2) :
    Between lower upper ((between n lower upper).forward t)
      ((between n lower upper).inverse ((between n lower upper).forward t)) := by
  have hfinite : (upper - lower).isFinite := isFinite_iff.2 ⟨W, hwidth⟩
  have hnonneg : 0 ≤ W := by
    rw [← EReal.coe_nonneg, ← hW]
    exact nearest_nonneg (EReal.coe_nonneg.2 (sub_nonneg.2 hle))
  have hmono := placed_mono L hnonneg
  have hx : extended? ((between n lower upper).forward t) = some (placed L W S) :=
    extended?_placed hlower hwidth hheight
  have htop : extended? (lower + (upper - lower) * 2 / 2) = some (placed L W 2) :=
    extended?_placed hlower hwidth extended?_two
  have hbounds : lower ≤ (between n lower upper).forward t ∧
      (between n lower upper).forward t ≤ lower + (upper - lower) * 2 / 2 := by
    rw [le_iff_le hlower hx, le_iff_le hx htop,
      ← placed_of_mul_eq_zero ⟨lower, hlower⟩ (mul_zero W)]
    exact ⟨hmono hS, hmono hS'⟩
  rcases hle.eq_or_lt with rfl | hlt
  · have hzero : W = 0 := by
      rw [sub_self, nearest_zero] at hW
      exact (EReal.coe_eq_coe_iff.1 hW).symm
    rw [hzero, placed_of_mul_eq_zero ⟨lower, hlower⟩ (zero_mul S)] at hx
    rw [hzero] at hwidth
    have hnan := isNaN_arcsin_of_eq hx hlower hwidth
    refine ⟨fun _ ↦ hbounds, fun h ↦ absurd hfinite (by simp [h]), iff_of_false
      (not_isFinite_of_isNaN hnan) fun h ↦ ?_, .inr hnan⟩
    exact lt_irrefl _ ((lt_iff_lt hlower hupper).1 h.1)
  · have hpos : (0 : EReal) < W := by
      rw [← hW, EReal.coe_sub]
      exact nearest_sub_pos ⟨lower, hlower⟩ ⟨upper, hupper⟩ (EReal.coe_lt_coe_iff.2 hlt)
    have hback := isFinite_arcsin_place hx hlower hwidth (EReal.coe_pos.1 hpos).ne'
    have hapart : lower < upper := (lt_iff_lt hlower hupper).2 (EReal.coe_lt_coe_iff.2 hlt)
    exact ⟨fun _ ↦ hbounds, fun h ↦ absurd hfinite (by simp [h]),
      iff_of_true hback ⟨hapart, hfinite⟩, .inl hback⟩

/-- The maps of a transform that keeps a variable between two bounds. -/
theorem between_of (n : Nat) (hlower : extended? lower = some (L : EReal))
    (hupper : extended? upper = some (U : EReal)) (hle : L ≤ U) {t : Float} {r : ℝ}
    (ht : extended? t = some (r : EReal)) :
    Between lower upper ((between n lower upper).forward t)
      ((between n lower upper).inverse ((between n lower upper).forward t)) := by
  obtain ⟨S, hheight, hS, hS'⟩ := exists_height ht
  have hwidth : extended? (upper - lower) = some (nearest ((U - L : ℝ) : EReal)) :=
    extended?_sub hupper hlower
  have hnonneg : 0 ≤ nearest ((U - L : ℝ) : EReal) :=
    nearest_nonneg (EReal.coe_nonneg.2 (sub_nonneg.2 hle))
  induction hW : nearest ((U - L : ℝ) : EReal) with
  | bot => exact absurd (hW ▸ hnonneg) EReal.bot_lt_zero.not_ge
  | top => exact between_of_overflow n hlower hupper (hW ▸ hwidth) hheight hS
  | coe W => exact between_of_width n hlower hupper hle (hW ▸ hwidth) hW hheight hS hS'

end Sine

/-! ### A quarter turn -/

/-- A quarter turn, to the nearest double. Its sine is rounded to one. -/
def quarterTurn : Float := 1.5707963267948966

theorem height_quarterTurn : Elementary.sin quarterTurn + 1 = 2 := by decide +kernel

theorem forward_quarterTurn (n : Nat) (lower upper : Float) :
    (between n lower upper).forward quarterTurn = lower + (upper - lower) * 2 / 2 :=
  congrArg (lower + (upper - lower) * · / 2) height_quarterTurn

/-- The bounds hold for all doubles if they hold at a quarter turn. -/
theorem forall_between_iff (n : Nat) {lower upper : Float} {L U : ℝ}
    (hlower : extended? lower = some (L : EReal)) (hupper : extended? upper = some (U : EReal))
    (hle : L ≤ U) :
    (∀ t : Float, t.isFinite → lower ≤ (between n lower upper).forward t ∧
        (between n lower upper).forward t ≤ upper) ↔
      lower + (upper - lower) * 2 / 2 ≤ upper := by
  have hquarter : quarterTurn.isFinite = true := by decide +kernel
  rw [← forward_quarterTurn n]
  refine ⟨fun h ↦ (h quarterTurn hquarter).2, fun htop t ht ↦ ?_⟩
  have hbetween {t : Float} (ht : t.isFinite) : Between lower upper
      ((between n lower upper).forward t)
      ((between n lower upper).inverse ((between n lower upper).forward t)) := by
    obtain ⟨r, hr⟩ := isFinite_iff.1 ht
    exact between_of n hlower hupper hle hr
  have hfinite : (upper - lower).isFinite = true := by
    by_contra hoverflow
    exact (hbetween hquarter).overflow (Bool.eq_false_of_not_eq_true hoverflow) htop
  obtain ⟨hlow, hhigh⟩ := (hbetween ht).holds hfinite
  exact ⟨hlow, Binary64.le_trans hhigh (forward_quarterTurn n lower upper ▸ htop)⟩

/-- If the distance of the bounds is a double, and twice that double is finite, both bounds hold. -/
theorem top_le_of_exact {lower upper : Float} {L U : ℝ}
    (hlower : extended? lower = some (L : EReal)) (hupper : extended? upper = some (U : EReal))
    (hexact : extended? (upper - lower) = some ((U - L : ℝ) : EReal))
    (hdouble : ((upper - lower) * 2).isFinite) : lower + (upper - lower) * 2 / 2 ≤ upper := by
  have htop : extended? (lower + (upper - lower) * 2 / 2) = some (placed L (U - L) 2) :=
    extended?_placed hlower hexact extended?_two
  obtain ⟨D, hD⟩ := isFinite_iff.1 hdouble
  have hproduct : nearest (((U - L) * 2 : ℝ) : EReal) = (((U - L) * 2 : ℝ) : EReal) := by
    have hround := Option.some_inj.1 ((extended?_mul hexact extended?_two).symm.trans hD)
    rw [hround, EReal.coe_eq_coe_iff, ← eq_of_overflowed hround]
    exact rounded_of_fits (fits_of_mem_doubles ⟨_, hexact⟩).mul_two
  rw [le_iff_le htop hupper, placed, hproduct, weight_one, ← EReal.coe_div,
    mul_div_cancel_right₀ _ two_ne_zero, nearest_of_mem_doubles ⟨_, hexact⟩, ← EReal.coe_add,
    add_sub_cancel, nearest_of_mem_doubles ⟨upper, hupper⟩]

end Elementwise

/-! ### Transforms -/

/-- For every point of a size with finite entries, a transform fills arrays with a value and, from
that value, with a point again, which are related to the first one entry by entry. -/
def Transform.Relates (t : Transform Float) (n : Int) (P : Float → Float → Float → Prop) : Prop :=
  ∀ point : List Float, (point.length : Int) = n → (∀ a ∈ point, a.isFinite) →
    ∃ value back : List Float, Fills (t.userVector · point) n.toNat value ∧
      Fills (t.optimizationVector · value) n.toNat back ∧
        ∀ (i : Nat) a x y, point[i]? = some a → value[i]? = some x → back[i]? = some y → P a x y

theorem Fills.unique {fill : List Float → Progress (List Float)} {size : Nat}
    {value value' : List Float} (h : Fills fill size value) (h' : Fills fill size value') :
    value = value' := by
  have hlength : (List.replicate size (0.0 : Float)).length = size := List.length_replicate
  exact Except.ok.inj ((h _ hlength).symm.trans (h' _ hlength))

namespace Elementwise

/-- A transform by scalar maps relates the entries of points as its maps do. -/
theorem relates_iff (e : Elementwise Float) (id : Nat) {n : Int} (hn : (e.dimension : Int) = n)
    (hpos : 0 < n) {P : Float → Float → Float → Prop} : (e.toTransform id).Relates n P ↔
      ∀ t : Float, t.isFinite → P t (e.forward t) (e.inverse (e.forward t)) := by
  subst hn
  constructor
  · intro h t ht
    have hlength : (List.replicate e.dimension t).length = e.dimension := List.length_replicate
    obtain ⟨value, back, hvalue, hback, hrelated⟩ := h (List.replicate e.dimension t) (by simp)
      fun a ha ↦ (List.eq_of_mem_replicate ha).symm ▸ ht
    obtain rfl := hvalue.unique (e.fills_userVector id hlength)
    obtain rfl := hback.unique (e.fills_optimizationVector id (by simp))
    have hfirst : 0 < e.dimension := Int.natCast_pos.1 hpos
    exact hrelated 0 t _ _ (by simp [hfirst]) (by simp [hfirst]) (by simp [hfirst])
  · intro h point hlength hpoint
    refine ⟨point.map e.forward, (point.map e.forward).map e.inverse,
      e.fills_userVector id (by omega),
      e.fills_optimizationVector id (by rw [List.length_map]; omega), ?_⟩
    intro i a x y ha hx hy
    simp only [List.getElem?_map, ha, Option.map_some, Option.some_inj] at hx hy
    subst hx hy
    exact h a (hpoint a (List.mem_of_getElem? ha))

/-- Whatever finite bounds the builders accept, and whatever finite doubles the points consist of,
what is written respects a single bound, is taken back to no NaN, and differs from the bound unless
the exponential is lost, which happens for every bound. What is written between two bounds respects
the lower one if the distance of the bounds does not overflow; it respects both for all points if
and only if it does so for a sine of one, where the distance is added to the lower bound. -/
theorem bounds_of_built (id : Nat) (n : Int) (e : Elementwise Float) :
    (∀ (given : Number) (bound : Float), greaterThan Number.toFloat n given = .ok e →
        given.toFloat = .ok bound → bound.isFinite →
          (e.toTransform id).Relates n (fun t x y ↦
            Beyond (nextUp bound - bound) (x - bound) t y (bound ≤ x) (bound < x)) ∧
          ¬(e.toTransform id).Relates n fun _ x _ ↦ bound < x) ∧
      (∀ (given : Number) (bound : Float), lessThan Number.toFloat n given = .ok e →
        given.toFloat = .ok bound → bound.isFinite →
          (e.toTransform id).Relates n (fun t x y ↦
            Beyond (bound - nextDown bound) (bound - x) t y (x ≤ bound) (x < bound)) ∧
          ¬(e.toTransform id).Relates n fun _ x _ ↦ x < bound) ∧
      ∀ (given given' : Number) (lower upper : Float), box Number.toFloat n given given' = .ok e →
        given.toFloat = .ok lower → given'.toFloat = .ok upper → lower.isFinite →
          upper.isFinite → (e.toTransform id).Relates n (fun _ x y ↦ Between lower upper x y) ∧
            ((e.toTransform id).Relates n (fun _ x _ ↦ lower ≤ x ∧ x ≤ upper) ↔
              lower + (upper - lower) * 2 / 2 ≤ upper) := by
  have hfar : (-750.0 : Float).isFinite = true := by decide +kernel
  have hfar' : (-750.0 : Float) ≤ -750.0 := by decide +kernel
  refine ⟨fun given bound h hbound hfinite ↦ ?_, fun given bound h hbound hfinite ↦ ?_,
    fun given given' lower upper h hlower hupper hlow hhigh ↦ ?_⟩ <;>
    obtain ⟨m, hm, h⟩ := bind_eq_ok_iff.1 h <;>
    obtain ⟨hn, hpos⟩ := of_checkDimension_eq_ok hm
  · rw [denoted, hbound] at h
    cases h
    obtain ⟨v, hv⟩ := isFinite_iff.1 hfinite
    rw [relates_iff _ id hn hpos, relates_iff _ id hn hpos]
    have hbeyond {t : Float} (ht : t.isFinite) := beyond_above m hv (isFinite_iff.1 ht).choose_spec
    exact ⟨fun t ht ↦ hbeyond ht, fun hstrict ↦ (hbeyond hfar).vanished hfar' (hstrict _ hfar)⟩
  · rw [denoted, hbound] at h
    cases h
    obtain ⟨v, hv⟩ := isFinite_iff.1 hfinite
    rw [relates_iff _ id hn hpos, relates_iff _ id hn hpos]
    have hbeyond {t : Float} (ht : t.isFinite) := beyond_below m hv (isFinite_iff.1 ht).choose_spec
    exact ⟨fun t ht ↦ hbeyond ht, fun hstrict ↦ (hbeyond hfar).vanished hfar' (hstrict _ hfar)⟩
  · split at h
    · cases h
    rename_i hrange
    rw [denoted, denoted, hlower, hupper] at h
    cases h
    obtain ⟨L, U, hL, hU, hle⟩ := Number.exists_le_of_lt hlower hlow hupper hhigh (not_not.1 hrange)
    rw [relates_iff _ id hn hpos, relates_iff _ id hn hpos]
    exact ⟨fun t ht ↦ between_of m hL hU hle (isFinite_iff.1 ht).choose_spec,
      forall_between_iff m hL hU hle⟩

end Elementwise

namespace Small

open Elementwise

/-- Bounds for which all is well on the points that are used, and between the last two on all
points. -/
theorem bounds_of_integers :
    (∃ e, greaterThan Number.toFloat 41 (.real 1.0) = .ok e ∧ (e.toTransform 1).Relates 41
        fun t x y ↦ Beyond (nextUp 1.0 - 1.0) (x - 1.0) t y (1.0 ≤ x) (1.0 < x)) ∧
      (∃ e, lessThan Number.toFloat 41 (.real (-2.0)) = .ok e ∧ (e.toTransform 2).Relates 41
        fun t x y ↦ Beyond (-2.0 - nextDown (-2.0)) (-2.0 - x) t y (x ≤ -2.0) (x < -2.0)) ∧
      ∃ e, box Number.toFloat 41 (.real (-1.0)) (.real 4.0) = .ok e ∧
        (e.toTransform 3).Relates 41 fun _ x _ ↦ -1.0 ≤ x ∧ x ≤ 4.0 := by
  refine ⟨⟨above 41 1.0, rfl, ?_⟩, ⟨below 41 (-2.0), rfl, ?_⟩, between 41 (-1.0) 4.0, ?_, ?_⟩
  · exact ((bounds_of_built 1 41 _).1 (.real 1.0) 1.0 rfl rfl (by decide +kernel)).1
  · exact ((bounds_of_built 2 41 _).2.1 (.real (-2.0)) (-2.0) rfl rfl (by decide +kernel)).1
  · rfl
  · exact ((bounds_of_built 3 41 _).2.2 (.real (-1.0)) (.real 4.0) (-1.0) 4.0 rfl rfl rfl
      (by decide +kernel) (by decide +kernel)).2.2 (by decide +kernel)

/-- The exponential of `-50` is lost beside one, and the rounded distance of `-1` and `0.3` leads
beyond `0.3`. -/
theorem crossed_bounds :
    (¬∀ (given : Number) (bound : Float) (e : Elementwise Float),
        greaterThan Number.toFloat 1 given = .ok e → given.toFloat = .ok bound → bound.isFinite →
          (e.toTransform 1).Relates 1 fun _ x y ↦ bound < x ∧ y.isFinite) ∧
      ¬∀ (given given' : Number) (lower upper : Float) (e : Elementwise Float),
        box Number.toFloat 1 given given' = .ok e → given.toFloat = .ok lower →
          given'.toFloat = .ok upper → lower.isFinite → upper.isFinite →
            (e.toTransform 1).Relates 1 fun _ x _ ↦ lower ≤ x ∧ x ≤ upper := by
  constructor <;> intro h
  · have hrelates := h (.real 1.0) 1.0 (above 1 1.0) rfl rfl (by decide +kernel)
    have hfinite : (-50.0 : Float).isFinite = true := by decide +kernel
    exact absurd ((relates_iff _ 1 rfl (by decide)).1 hrelates _ hfinite).1 (by decide +kernel)
  · have hrelates := h (.real (-1.0)) (.real 0.3) (-1.0) 0.3 (between 1 (-1.0) 0.3) rfl rfl rfl
      (by decide +kernel) (by decide +kernel)
    have hfinite : quarterTurn.isFinite = true := by decide +kernel
    exact absurd ((relates_iff _ 1 rfl (by decide)).1 hrelates _ hfinite).2 (by decide +kernel)

end Small

end Summand
