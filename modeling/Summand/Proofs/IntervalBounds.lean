import Summand.Interval.Arithmetic
import Summand.Proofs.AdjacentDoubles
import Summand.Proofs.Enclosures
import Summand.Proofs.InfiniteOperands

/-!
# Bounds of interval operations

What bounds an operation on intervals returns, in terms of what the bounds of the operands denote.
These may be infinite, as long as there are real numbers in between (`Interval.Spans`). A computed
bound is an exact one, rounded to the nearest double and then to the adjacent one
(`Interval.yields_add`, `Interval.yields_sub`, `Interval.yields_sqrt`).

A product lies between the extreme products of bounds, the corners, whatever the signs
(`Interval.mul_between_corners`), and since rounding is monotone, the extreme ones of rounded
corners are the extreme corners rounded. A quotient is the product with an inverse. The product of
zero and an infinity is a NaN, which a comparison passes over unless it is the first of the four
candidates. It then makes no difference, because there are corners on both sides of zero, or at zero
(`Interval.yields_around`). If it is the first, it stays (`Interval.around_of_none`).
-/

namespace Summand.Interval

open Binary64

/-! ### Bounds that are extended reals -/

/-- The bounds are the given extended reals, and there are real numbers between them. -/
structure Spans (i : Interval) (L U : EReal) : Prop where
  lower : extended? i.lower = some L
  upper : extended? i.upper = some U
  ordered : L ≤ U
  lower_ne_top : L ≠ ⊤
  upper_ne_bot : U ≠ ⊥

theorem Contains.spans {i : Interval} {r : ℝ} (h : i.Contains r) : ∃ L U, i.Spans L U := by
  obtain ⟨L, U, hL, hU, hlow, hhigh⟩ := h
  exact ⟨L, U, hL, hU, hlow.trans hhigh, ne_top_of_le_ne_top (EReal.coe_ne_top r) hlow,
    ne_bot_of_le_ne_bot (EReal.coe_ne_bot r) hhigh⟩

namespace Spans

variable {i : Interval} {L U : EReal} {r : ℝ}

theorem contains_iff (h : i.Spans L U) : i.Contains r ↔ L ≤ r ∧ r ≤ U := by
  constructor
  · rintro ⟨L', U', hL, hU, hlow, hhigh⟩
    obtain rfl : L = L' := Option.some_inj.1 (h.lower.symm.trans hL)
    obtain rfl : U = U' := Option.some_inj.1 (h.upper.symm.trans hU)
    exact ⟨hlow, hhigh⟩
  · rintro ⟨hlow, hhigh⟩
    exact ⟨L, U, h.lower, h.upper, hlow, hhigh⟩

theorem mem_uIcc (h : i.Spans L U) (hr : i.Contains r) : (r : EReal) ∈ Set.uIcc L U :=
  Set.mem_uIcc_of_le (h.contains_iff.1 hr).1 (h.contains_iff.1 hr).2

/-- The bounds are not the same infinity. -/
theorem not_isInfinite (h : i.Spans L U) (heq : L = U) : ¬IsInfinite L := by
  rw [isInfinite_iff, not_or]
  exact ⟨h.lower_ne_top, heq ▸ h.upper_ne_bot⟩

end Spans

/-- The operation returns an interval with the given bounds, which are in order. -/
structure Yields (result : Except Fault Interval) (L U : EReal) : Prop where
  ordered : L ≤ U
  returns : ∃ k, result = .ok k ∧ extended? k.lower = some L ∧ extended? k.upper = some U

/-- A property of a result that is computed along with it. -/
theorem exists_ok_of_any {result : Except Fault Interval} {property : Interval → Bool}
    (h : result.toOption.any property = true) : ∃ k, result = .ok k ∧ property k = true := by
  rcases result with fault | k
  · cases h
  · exact ⟨k, rfl, h⟩

/-! ### Bounds that are computed -/

theorem extended?_minOf {x : Float} {X : EReal} (hx : extended? x = some X) (y : Float) :
    extended? (minOf x y) = some (min X ((extended? y).getD ⊤)) := by
  rw [minOf]
  split_ifs with h
  · obtain ⟨Y, X', hy, hx', hlt⟩ := lt_iff.1 h
    obtain rfl : X = X' := Option.some_inj.1 (hx.symm.trans hx')
    rw [hy, Option.getD_some, min_eq_right hlt.le]
  · rcases hy : extended? y with - | Y
    · rw [hx, Option.getD_none, min_top_right]
    · rw [lt_iff_lt hy hx] at h
      rw [hx, Option.getD_some, min_eq_left (not_lt.1 h)]

theorem extended?_maxOf {x : Float} {X : EReal} (hx : extended? x = some X) (y : Float) :
    extended? (maxOf x y) = some (max X ((extended? y).getD ⊥)) := by
  rw [maxOf]
  split_ifs with h
  · obtain ⟨X', Y, hx', hy, hlt⟩ := lt_iff.1 h
    obtain rfl : X = X' := Option.some_inj.1 (hx.symm.trans hx')
    rw [hy, Option.getD_some, max_eq_right hlt.le]
  · rcases hy : extended? y with - | Y
    · rw [hx, Option.getD_none, max_bot_right]
    · rw [lt_iff_lt hx hy] at h
      rw [hx, Option.getD_some, max_eq_left (not_lt.1 h)]

/-- A NaN stays if it is the first candidate. -/
theorem minOf_of_none {x : Float} (hx : extended? x = none) (y : Float) : minOf x y = x := by
  refine if_neg fun h ↦ ?_
  obtain ⟨Y, X, -, hX, -⟩ := lt_iff.1 h
  rw [hx] at hX
  cases hX

theorem maxOf_of_none {x : Float} (hx : extended? x = none) (y : Float) : maxOf x y = x := by
  refine if_neg fun h ↦ ?_
  obtain ⟨X, Y, hX, -, -⟩ := lt_iff.1 h
  rw [hx] at hX
  cases hX

section

variable {l u a b c d : Float} {L U X X' Y Y' : EReal}

theorem yields_make (hl : extended? l = some L) (hu : extended? u = some U) (h : L ≤ U) :
    Yields (make l u) L U := by
  refine ⟨h, ⟨l, u⟩, ?_, hl, hu⟩
  rw [make, if_neg]
  rw [lt_iff_lt hu hl]
  exact h.not_gt

theorem lowered_le_raised (h : L ≤ U) : lowered L ≤ raised U :=
  (lowered_le L).trans (h.trans (le_raised U))

theorem yields_outward (hl : extended? l = some L) (hu : extended? u = some U)
    (h : lowered L ≤ raised U) : Yields (outward l u) (lowered L) (raised U) := by
  refine yields_make ?_ ?_ h
  · rw [extended?_down, hl, Option.map_some]
  · rw [extended?_up, hu, Option.map_some]

/-! ### Corners -/

/-- The least product of one of two extended reals and one of two others. -/
noncomputable def leastProduct (X X' Y Y' : EReal) : EReal :=
  min (min (min (X * Y) (X * Y')) (X' * Y)) (X' * Y')

/-- The greatest product of one of two extended reals and one of two others. -/
noncomputable def greatestProduct (X X' Y Y' : EReal) : EReal :=
  max (max (max (X * Y) (X * Y')) (X' * Y)) (X' * Y')

theorem leastProduct_neg (X X' Y Y' : EReal) :
    leastProduct X X' (-Y) (-Y') = -greatestProduct X X' Y Y' := by
  simp only [leastProduct, greatestProduct, mul_neg, EReal.min_neg_neg]

theorem mul_mem_uIcc {x : EReal} (y : EReal) (hx : x ∈ Set.uIcc X X') :
    x * y ∈ Set.uIcc (X * y) (X' * y) := by
  rcases le_total 0 y with hy | hy
  · exact (Monotone.mapsTo_uIcc fun _ _ h ↦ mul_le_mul_of_nonneg_right h hy) hx
  · refine (Antitone.mapsTo_uIcc (f := (· * y)) fun z z' h ↦ ?_) hx
    have hneg : 0 ≤ -y := EReal.neg_nonneg.2 hy
    simpa using mul_le_mul_of_nonneg_right h hneg

/-- A product lies between the extreme products of bounds, whatever their signs and order. -/
theorem mul_between_corners {x y : EReal} (hx : x ∈ Set.uIcc X X') (hy : y ∈ Set.uIcc Y Y') :
    leastProduct X X' Y Y' ≤ x * y ∧ x * y ≤ greatestProduct X X' Y Y' := by
  obtain ⟨hlow, hhigh⟩ := mul_mem_uIcc y hx
  have hcorner (z : EReal) : z * y ∈ Set.uIcc (z * Y) (z * Y') := by
    rw [mul_comm z, mul_comm z, mul_comm z]
    exact mul_mem_uIcc z hy
  rw [leastProduct, greatestProduct, min_assoc (min _ _), max_assoc (max _ _)]
  exact ⟨(min_le_min (hcorner X).1 (hcorner X').1).trans hlow,
    hhigh.trans (max_le_max (hcorner X).2 (hcorner X').2)⟩

/-- Beside a corner with a zero, there is a corner that is a number and not positive, unless the
first one is no number. -/
theorem exists_corner_of_zero (hY : Y = Y' → ¬IsInfinite Y) (hfirst : ¬Indeterminate X Y)
    (hzero : 0 = X ∨ 0 = X') :
    ∃ A B, (A = X ∨ A = X') ∧ (B = Y ∨ B = Y') ∧ ¬Indeterminate A B ∧ A * B ≤ 0 := by
  have hdeterminate {B : EReal} (hB : ¬IsInfinite B) : ¬Indeterminate 0 B := by
    rintro (⟨-, h⟩ | ⟨h, -⟩)
    · exact hB h
    · exact not_isInfinite_zero h
  by_cases hinf : IsInfinite Y
  swap
  · exact ⟨0, Y, hzero, .inl rfl, hdeterminate hinf, (zero_mul Y).le⟩
  by_cases hinf' : IsInfinite Y'
  swap
  · exact ⟨0, Y', hzero, .inr rfl, hdeterminate hinf', (zero_mul Y').le⟩
  -- Opposite infinities have opposite products with a number that is not zero.
  have hX : X ≠ 0 := fun hX ↦ hfirst (.inl ⟨hX, hinf⟩)
  have hopposite : Y' = -Y := by
    have hne : Y ≠ Y' := fun h ↦ hY h hinf
    rw [isInfinite_iff] at hinf hinf'
    rcases hinf with rfl | rfl <;> rcases hinf' with rfl | rfl <;> simp at hne ⊢
  have hsecond : ¬Indeterminate X Y' := by rwa [hopposite, indeterminate_neg]
  rcases le_total (X * Y) 0 with h | h
  · exact ⟨X, Y, .inl rfl, .inl rfl, hfirst, h⟩
  · refine ⟨X, Y', .inl rfl, .inr rfl, hsecond, ?_⟩
    rw [hopposite, mul_neg]
    exact EReal.neg_le_zero.2 h

/-- Beside a corner that is no number, there is one that is a number and not positive, unless the
first one is no number. -/
theorem exists_corner_nonpos {Z W : EReal} (hX : X = X' → ¬IsInfinite X)
    (hY : Y = Y' → ¬IsInfinite Y) (hfirst : ¬Indeterminate X Y) (hZ : Z = X ∨ Z = X')
    (hW : W = Y ∨ W = Y') (h : Indeterminate Z W) :
    ∃ A B, (A = X ∨ A = X') ∧ (B = Y ∨ B = Y') ∧ ¬Indeterminate A B ∧ A * B ≤ 0 := by
  rcases h with ⟨rfl, -⟩ | ⟨-, rfl⟩
  · exact exists_corner_of_zero hY hfirst hZ
  · obtain ⟨B, A, hB, hA, hdeterminate, hle⟩ :=
      exists_corner_of_zero hX (indeterminate_comm.not.1 hfirst) hW
    exact ⟨A, B, hA, hB, indeterminate_comm.not.1 hdeterminate, mul_comm B A ▸ hle⟩

/-- The least of the rounded corners that are numbers is the least of all, rounded. -/
theorem min_products (hX : X = X' → ¬IsInfinite X) (hY : Y = Y' → ¬IsInfinite Y)
    (hfirst : ¬Indeterminate X Y) :
    min (min (min (nearest (X * Y)) ((product? X Y').getD ⊤)) ((product? X' Y).getD ⊤))
      ((product? X' Y').getD ⊤) = nearest (leastProduct X X' Y Y') := by
  set m := min (min (min (nearest (X * Y)) ((product? X Y').getD ⊤)) ((product? X' Y).getD ⊤))
    ((product? X' Y').getD ⊤)
  have hnumber {A B : EReal} (hA : A = X ∨ A = X') (hB : B = Y ∨ B = Y')
      (h : ¬Indeterminate A B) : m ≤ nearest (A * B) := by
    rcases hA with rfl | rfl <;> rcases hB with rfl | rfl <;>
      simp [m, product?_of_not h]
  have hcorner {A B : EReal} (hA : A = X ∨ A = X') (hB : B = Y ∨ B = Y') :
      m ≤ nearest (A * B) := by
    by_cases h : Indeterminate A B
    · obtain ⟨A', B', hA', hB', hdeterminate, hle⟩ := exists_corner_nonpos hX hY hfirst hA hB h
      exact (hnumber hA' hB' hdeterminate).trans (nearest_mono (hle.trans h.mul_eq_zero.ge))
    · exact hnumber hA hB h
  have hpassed (A B : EReal) : nearest (A * B) ≤ (product? A B).getD ⊤ := by
    by_cases h : Indeterminate A B
    · rw [product?_of_indeterminate h, Option.getD_none]
      exact le_top
    · rw [product?_of_not h, Option.getD_some]
  rw [leastProduct, nearest_mono.map_min, nearest_mono.map_min, nearest_mono.map_min]
  refine le_antisymm (le_min (le_min (le_min ?_ ?_) ?_) ?_)
    (min_le_min (min_le_min (min_le_min le_rfl (hpassed X Y')) (hpassed X' Y)) (hpassed X' Y'))
  · exact hcorner (.inl rfl) (.inl rfl)
  · exact hcorner (.inl rfl) (.inr rfl)
  · exact hcorner (.inr rfl) (.inl rfl)
  · exact hcorner (.inr rfl) (.inr rfl)

/-- The greatest of the rounded corners that are numbers is the greatest of all, rounded. -/
theorem max_products (hX : X = X' → ¬IsInfinite X) (hY : Y = Y' → ¬IsInfinite Y)
    (hfirst : ¬Indeterminate X Y) :
    max (max (max (nearest (X * Y)) ((product? X Y').getD ⊥)) ((product? X' Y).getD ⊥))
      ((product? X' Y').getD ⊥) = nearest (greatestProduct X X' Y Y') := by
  have hY' : -Y = -Y' → ¬IsInfinite (-Y) := by
    rw [isInfinite_neg, neg_inj]
    exact hY
  have hneg (o : Option EReal) : (o.map Neg.neg).getD ⊤ = -o.getD ⊥ := by cases o <;> simp
  have hmin := min_products hX hY' (indeterminate_neg.not.2 hfirst)
  simp only [product?_neg, hneg, mul_neg, nearest_neg, leastProduct_neg, EReal.min_neg_neg] at hmin
  exact neg_inj.1 hmin

/-- The interval around four rounded corners is that around the extreme corners. -/
theorem yields_around (ha : extended? a = product? X Y) (hb : extended? b = product? X Y')
    (hc : extended? c = product? X' Y) (hd : extended? d = product? X' Y')
    (hX : X = X' → ¬IsInfinite X) (hY : Y = Y' → ¬IsInfinite Y) (hfirst : ¬Indeterminate X Y) :
    Yields (around a b c d) (lowered (nearest (leastProduct X X' Y Y')))
      (raised (nearest (greatestProduct X X' Y Y'))) := by
  rw [product?_of_not hfirst] at ha
  have hlower := extended?_minOf (extended?_minOf (extended?_minOf ha b) c) d
  have hupper := extended?_maxOf (extended?_maxOf (extended?_maxOf ha b) c) d
  rw [hb, hc, hd, min_products hX hY hfirst] at hlower
  rw [hb, hc, hd, max_products hX hY hfirst] at hupper
  exact yields_outward hlower hupper
    (lowered_le_raised (nearest_mono ((min_le_right _ _).trans (le_max_right _ _))))

/-- If the first corner is no number, neither are the bounds. -/
theorem around_of_none (b c d : Float) (ha : extended? a = none) :
    ∃ k, around a b c d = .ok k ∧ extended? k.lower = none ∧ extended? k.upper = none := by
  have hdown : extended? (down a) = none := by rw [extended?_down, ha, Option.map_none]
  have hup : extended? (up a) = none := by rw [extended?_up, ha, Option.map_none]
  refine ⟨⟨down a, up a⟩, ?_, hdown, hup⟩
  rw [around, minOf_of_none (x := a) ha, minOf_of_none ha, minOf_of_none ha, maxOf_of_none ha,
    maxOf_of_none ha, maxOf_of_none ha, outward, make, if_neg]
  intro h
  obtain ⟨U, -, hU, -, -⟩ := lt_iff.1 h
  rw [hup] at hU
  cases hU

/-! ### Operations -/

variable {i j : Interval} {L' U' : EReal}

theorem Spans.neg_lower (h : i.Spans L U) : extended? (-i.lower) = some (-L) := by
  rw [extended?_neg, h.lower, Option.map_some]

theorem Spans.neg_upper (h : i.Spans L U) : extended? (-i.upper) = some (-U) := by
  rw [extended?_neg, h.upper, Option.map_some]

theorem yields_neg (h : i.Spans L U) : Yields i.neg (-U) (-L) :=
  yields_make h.neg_upper h.neg_lower (EReal.neg_le_neg_iff.2 h.ordered)

theorem yields_abs (h : i.Spans L U) : Yields i.abs (max 0 (max L (-U))) (max (-L) U) := by
  have hnonneg : 0.0 ≤ i.lower ↔ 0 ≤ L := le_iff_le extended?_zero h.lower
  have hnonpos : i.upper ≤ 0.0 ↔ U ≤ 0 := le_iff_le h.upper extended?_zero
  have hneg : -U ≤ -L := EReal.neg_le_neg_iff.2 h.ordered
  by_cases hl : 0 ≤ L
  · have hL : -L ≤ 0 := EReal.neg_le_zero.2 hl
    rw [Interval.abs, if_pos (hnonneg.2 hl), max_eq_left (hneg.trans (hL.trans hl)),
      max_eq_right hl, max_eq_right (hL.trans (hl.trans h.ordered))]
    exact yields_make h.lower h.upper h.ordered
  by_cases hu : U ≤ 0
  · have hU : 0 ≤ -U := EReal.neg_nonneg.2 hu
    rw [Interval.abs, if_neg (hnonneg.not.2 hl), if_pos (hnonpos.2 hu),
      max_eq_right (h.ordered.trans (hu.trans hU)), max_eq_right hU,
      max_eq_left (hu.trans (hU.trans hneg))]
    exact yields_neg h
  · have hL : 0 ≤ -L := EReal.neg_nonneg.2 (not_le.1 hl).le
    have hU : -U ≤ 0 := EReal.neg_le_zero.2 (not_le.1 hu).le
    rw [Interval.abs, if_neg (hnonneg.not.2 hl), if_neg (hnonpos.not.2 hu),
      max_eq_left (max_le (not_le.1 hl).le hU)]
    refine yields_make extended?_zero ?_ (le_max_of_le_left hL)
    rw [extended?_maxOf h.neg_lower, h.upper, Option.getD_some]

theorem Spans.add_lower (h : i.Spans L U) (h' : j.Spans L' U') :
    extended? (i.lower + j.lower) = some (nearest (L + L')) :=
  extended?_add h.lower h'.lower (fun hbad ↦ h.lower_ne_top hbad.1)
    fun hbad ↦ h'.lower_ne_top hbad.2

theorem Spans.add_upper (h : i.Spans L U) (h' : j.Spans L' U') :
    extended? (i.upper + j.upper) = some (nearest (U + U')) :=
  extended?_add h.upper h'.upper (fun hbad ↦ h'.upper_ne_bot hbad.2)
    fun hbad ↦ h.upper_ne_bot hbad.1

theorem yields_add (h : i.Spans L U) (h' : j.Spans L' U') :
    Yields (i.add j) (lowered (nearest (L + L'))) (raised (nearest (U + U'))) :=
  yields_outward (h.add_lower h') (h.add_upper h')
    (lowered_le_raised (nearest_mono (add_le_add h.ordered h'.ordered)))

theorem Spans.sub_upper (h : i.Spans L U) (h' : j.Spans L' U') :
    extended? (i.lower - j.upper) = some (nearest (L - U')) :=
  extended?_sub_of_determinate h.lower h'.upper (fun hbad ↦ h.lower_ne_top hbad.1)
    fun hbad ↦ h'.upper_ne_bot hbad.2

theorem Spans.sub_lower (h : i.Spans L U) (h' : j.Spans L' U') :
    extended? (i.upper - j.lower) = some (nearest (U - L')) :=
  extended?_sub_of_determinate h.upper h'.lower (fun hbad ↦ h'.lower_ne_top hbad.2)
    fun hbad ↦ h.upper_ne_bot hbad.1

theorem yields_sub (h : i.Spans L U) (h' : j.Spans L' U') :
    Yields (i.sub j) (lowered (nearest (L - U'))) (raised (nearest (U - L'))) :=
  yields_outward (h.sub_upper h') (h.sub_lower h')
    (lowered_le_raised (nearest_mono (EReal.sub_le_sub h.ordered h'.ordered)))

theorem yields_mul (h : i.Spans L U) (h' : j.Spans L' U') (hfirst : ¬Indeterminate L L') :
    Yields (i.mul j) (lowered (nearest (leastProduct L U L' U')))
      (raised (nearest (greatestProduct L U L' U'))) :=
  yields_around (extended?_mul_eq_product? h.lower h'.lower)
    (extended?_mul_eq_product? h.lower h'.upper) (extended?_mul_eq_product? h.upper h'.lower)
    (extended?_mul_eq_product? h.upper h'.upper) h.not_isInfinite h'.not_isInfinite hfirst

theorem mul_of_indeterminate (h : i.Spans L U) (h' : j.Spans L' U') (hfirst : Indeterminate L L') :
    ∃ k, i.mul j = .ok k ∧ extended? k.lower = none ∧ extended? k.upper = none :=
  around_of_none _ _ _ (extended?_mul_of_indeterminate h.lower h'.lower hfirst)

/-- The bounds of an interval without zero are not zero. -/
theorem Spans.ne_zero (h : i.Spans L U) (hzero : ¬(L ≤ 0 ∧ 0 ≤ U)) : L ≠ 0 ∧ U ≠ 0 :=
  ⟨fun hl ↦ hzero ⟨hl.le, hl ▸ h.ordered⟩, fun hu ↦ hzero ⟨hu ▸ h.ordered, hu.ge⟩⟩

theorem divideBounds_eq {x y : Float} {Y : EReal} (hy : extended? y = some Y) (hY : Y ≠ 0) :
    divideBounds x y = .ok (x / y) := by
  have hne : (y == 0.0) = false := by
    rw [Bool.eq_false_iff]
    intro h
    exact hY (eq_of_beq hy extended?_zero h)
  rw [divideBounds, Number.quotient, hne]
  rfl

/-- The divisor is refused if there is zero in it. -/
theorem div_eq (h' : j.Spans L' U') : i.div j =
    if L' ≤ 0 ∧ 0 ≤ U' then .error (.zeroInDivisor j)
    else around (i.lower / j.lower) (i.lower / j.upper) (i.upper / j.lower)
      (i.upper / j.upper) := by
  have hzero : (decide (j.lower ≤ 0.0) && decide (0.0 ≤ j.upper)) = decide (L' ≤ 0 ∧ 0 ≤ U') := by
    rw [Bool.decide_and]
    congr 2
    · rw [le_iff_le h'.lower extended?_zero, EReal.coe_zero]
    · rw [le_iff_le extended?_zero h'.upper, EReal.coe_zero]
  rw [Interval.div, hzero]
  by_cases hcontains : L' ≤ 0 ∧ 0 ≤ U'
  · rw [decide_eq_true hcontains, if_pos hcontains]
    rfl
  · obtain ⟨hl, hu⟩ := h'.ne_zero hcontains
    rw [decide_eq_false hcontains, if_neg hcontains, divideBounds_eq h'.lower hl,
      divideBounds_eq h'.upper hu, divideBounds_eq h'.lower hl, divideBounds_eq h'.upper hu]
    rfl

theorem yields_div (h : i.Spans L U) (h' : j.Spans L' U') (hzero : ¬(L' ≤ 0 ∧ 0 ≤ U'))
    (hfirst : ¬Indeterminate L L'⁻¹) :
    Yields (i.div j) (lowered (nearest (leastProduct L U L'⁻¹ U'⁻¹)))
      (raised (nearest (greatestProduct L U L'⁻¹ U'⁻¹))) := by
  obtain ⟨hl, hu⟩ := h'.ne_zero hzero
  rw [div_eq h', if_neg hzero]
  exact yields_around (extended?_div_eq_product? h.lower h'.lower hl)
    (extended?_div_eq_product? h.lower h'.upper hu) (extended?_div_eq_product? h.upper h'.lower hl)
    (extended?_div_eq_product? h.upper h'.upper hu) h.not_isInfinite
    (fun _ ↦ not_isInfinite_inv L') hfirst

theorem div_of_indeterminate (h : i.Spans L U) (h' : j.Spans L' U') (hzero : ¬(L' ≤ 0 ∧ 0 ≤ U'))
    (hfirst : Indeterminate L L'⁻¹) :
    ∃ k, i.div j = .ok k ∧ extended? k.lower = none ∧ extended? k.upper = none := by
  rw [div_eq h', if_neg hzero]
  refine around_of_none _ _ _ ?_
  rw [extended?_div_eq_product? h.lower h'.lower (h'.ne_zero hzero).1,
    product?_of_indeterminate hfirst]

/-- The inverse lies between the inverses of bounds of one sign. -/
theorem inv_mem_uIcc {y : EReal} (hl : L ≤ y) (hu : y ≤ U) (hzero : ¬(L ≤ 0 ∧ 0 ≤ U)) :
    y⁻¹ ∈ Set.uIcc L⁻¹ U⁻¹ := by
  have hpositive {Z Z' : EReal} (hZ : 0 < Z) (hle : Z ≤ Z') : Z'⁻¹ ≤ Z⁻¹ :=
    EReal.inv_strictAntiOn.antitoneOn hZ (hZ.trans_le hle) hle
  rcases lt_or_ge 0 L with hpos | hneg
  · exact Set.mem_uIcc_of_ge (hpositive (hpos.trans_le hl) hu) (hpositive hpos hl)
  · have hneg : 0 < -U := EReal.neg_pos.2 (not_le.1 fun h ↦ hzero ⟨hneg, h⟩)
    have hlow := hpositive hneg (EReal.neg_le_neg_iff.2 hu)
    have hhigh := hpositive (hneg.trans_le (EReal.neg_le_neg_iff.2 hu)) (EReal.neg_le_neg_iff.2 hl)
    simp only [EReal.inv_neg, EReal.neg_le_neg_iff] at hlow hhigh
    exact Set.mem_uIcc_of_ge hlow hhigh

theorem sqrtBound_eq {x : Float} {X : EReal} (hx : extended? x = some X) (hX : 0 ≤ X) :
    sqrtBound x = .ok x.sqrt := by
  rw [sqrtBound, if_neg]
  rw [lt_iff_lt hx extended?_zero]
  exact hX.not_gt

/-- A negative number under the root is refused. -/
theorem sqrt_eq (h : i.Spans L U) : i.sqrt = if L < 0 then .error (.negative i)
    else make (maxOf 0.0 (down i.lower.sqrt)) (up i.upper.sqrt) := by
  have hneg : i.lower < 0.0 ↔ L < 0 := lt_iff_lt h.lower extended?_zero
  rw [Interval.sqrt]
  by_cases hl : L < 0
  · rw [if_pos (hneg.2 hl), if_pos hl]
    rfl
  · rw [if_neg (hneg.not.2 hl), if_neg hl, sqrtBound_eq h.lower (not_lt.1 hl),
      sqrtBound_eq h.upper ((not_lt.1 hl).trans h.ordered)]
    rfl

theorem yields_sqrt (h : i.Spans L U) (hl : 0 ≤ L) :
    Yields i.sqrt (max 0 (lowered (nearest (root L)))) (raised (nearest (root U))) := by
  have hroots : nearest (root L) ≤ nearest (root U) := nearest_mono (root_mono h.ordered)
  have hnonneg : 0 ≤ nearest (root U) := by
    rw [← EReal.coe_zero, ← nearest_zero]
    exact nearest_mono (root_nonneg U)
  rw [sqrt_eq h, if_neg hl.not_gt]
  refine yields_make ?_ ?_ (max_le (hnonneg.trans (le_raised _)) (lowered_le_raised hroots))
  · rw [extended?_maxOf extended?_zero, extended?_down, extended?_sqrt_eq_root h.lower hl,
      Option.map_some, Option.getD_some, EReal.coe_zero]
  · rw [extended?_up, extended?_sqrt_eq_root h.upper (hl.trans h.ordered), Option.map_some]

end

end Summand.Interval
