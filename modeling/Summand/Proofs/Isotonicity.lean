import Summand.Proofs.IntervalArithmetic

/-!
# Isotonicity of interval arithmetic

An operation on intervals with finite bounds returns a result on narrower intervals if it does on
wider ones, and the narrower result lies in the wider one, whether or not bounds have overflowed
(`Interval.Operation.isotone`).

The bounds that an operation returns are monotone functions of what the bounds of its operands
denote, since rounding is monotone and so is taking the adjacent double. The corners of a product
are no monotone functions, but those of narrower operands lie between the extreme corners of wider
ones (`Interval.products_within`). A divisor without zero, or an operand without negative numbers,
has none in a part of it.
-/

namespace Summand.Interval

open Binary64

section

variable {i i' j j' : Interval} {L U L' U' : EReal}

theorem Spans.within (h : i.Spans L U) (h' : i'.Spans L' U') (hwithin : i'.containsInterval i) :
    L' ≤ L ∧ U ≤ U' := by
  rw [containsInterval, Bool.and_eq_true, decide_eq_true_iff, decide_eq_true_iff,
    le_iff_le h'.lower h.lower, le_iff_le h.upper h'.upper] at hwithin
  exact hwithin

/-- A bound that lies in an interval, between that interval's bounds. -/
theorem Spans.lower_mem (h : i.Spans L U) (hwithin : L' ≤ L ∧ U ≤ U') : L ∈ Set.uIcc L' U' :=
  Set.mem_uIcc_of_le hwithin.1 (h.ordered.trans hwithin.2)

theorem Spans.upper_mem (h : i.Spans L U) (hwithin : L' ≤ L ∧ U ≤ U') : U ∈ Set.uIcc L' U' :=
  Set.mem_uIcc_of_le (hwithin.1.trans h.ordered) hwithin.2

/-- The narrower operation returns a result, which lies in that of the wider one. -/
def Narrows (result result' : Except Fault Interval) : Prop :=
  ∀ k', result' = .ok k' → ∃ k, result = .ok k ∧ k'.containsInterval k

theorem Yields.narrows {result result' : Except Fault Interval} (h : Yields result L U)
    (h' : Yields result' L' U') (hlower : L' ≤ L) (hupper : U ≤ U') : Narrows result result' := by
  intro k' hk'
  obtain ⟨k, hk, hL, hU⟩ := h.returns
  obtain ⟨k₀, hk₀, hL', hU'⟩ := h'.returns
  obtain rfl : k₀ = k' := Except.ok.inj (hk₀.symm.trans hk')
  refine ⟨k, hk, ?_⟩
  rw [containsInterval, Bool.and_eq_true, decide_eq_true_iff, decide_eq_true_iff,
    le_iff_le hL' hL, le_iff_le hU hU']
  exact ⟨hlower, hupper⟩

/-- A result between narrower bounds, after these are rounded. -/
theorem narrows_of_nearest {P Q P' Q' : EReal} {result result' : Except Fault Interval}
    (h : Yields result (lowered (nearest P)) (raised (nearest Q)))
    (h' : Yields result' (lowered (nearest P')) (raised (nearest Q'))) (hlower : P' ≤ P)
    (hupper : Q ≤ Q') : Narrows result result' :=
  h.narrows h' (lowered_mono (nearest_mono hlower)) (raised_mono (nearest_mono hupper))

/-- The extreme corners of operands lie between those of wider ones. -/
theorem products_within {X X' Y Y' A A' B B' : EReal} (hX : X ∈ Set.uIcc A A')
    (hX' : X' ∈ Set.uIcc A A') (hY : Y ∈ Set.uIcc B B') (hY' : Y' ∈ Set.uIcc B B') :
    leastProduct A A' B B' ≤ leastProduct X X' Y Y' ∧
      greatestProduct X X' Y Y' ≤ greatestProduct A A' B B' := by
  obtain ⟨hlow₁, hhigh₁⟩ := mul_between_corners hX hY
  obtain ⟨hlow₂, hhigh₂⟩ := mul_between_corners hX hY'
  obtain ⟨hlow₃, hhigh₃⟩ := mul_between_corners hX' hY
  obtain ⟨hlow₄, hhigh₄⟩ := mul_between_corners hX' hY'
  exact ⟨le_min (le_min (le_min hlow₁ hlow₂) hlow₃) hlow₄,
    max_le (max_le (max_le hhigh₁ hhigh₂) hhigh₃) hhigh₄⟩

/-! ### Operations -/

theorem narrows_neg (h : i.Spans L U) (h' : i'.Spans L' U') (hwithin : L' ≤ L ∧ U ≤ U') :
    Narrows i.neg i'.neg :=
  (yields_neg h).narrows (yields_neg h') (EReal.neg_le_neg_iff.2 hwithin.2)
    (EReal.neg_le_neg_iff.2 hwithin.1)

theorem narrows_abs (h : i.Spans L U) (h' : i'.Spans L' U') (hwithin : L' ≤ L ∧ U ≤ U') :
    Narrows i.abs i'.abs :=
  (yields_abs h).narrows (yields_abs h')
    (max_le_max le_rfl (max_le_max hwithin.1 (EReal.neg_le_neg_iff.2 hwithin.2)))
    (max_le_max (EReal.neg_le_neg_iff.2 hwithin.1) hwithin.2)

theorem narrows_sqrt (h : i.Spans L U) (h' : i'.Spans L' U') (hwithin : L' ≤ L ∧ U ≤ U') :
    Narrows i.sqrt i'.sqrt := by
  rcases lt_or_ge L' 0 with hneg | hnonneg
  · intro k' hk'
    rw [sqrt_eq h', if_pos hneg] at hk'
    cases hk'
  · exact (yields_sqrt h (hnonneg.trans hwithin.1)).narrows (yields_sqrt h' hnonneg)
      (max_le_max le_rfl (lowered_mono (nearest_mono (root_mono hwithin.1))))
      (raised_mono (nearest_mono (root_mono hwithin.2)))

variable {P Q P' Q' : EReal}

theorem narrows_add (h : i.Spans L U) (h' : i'.Spans L' U') (hwithin : L' ≤ L ∧ U ≤ U')
    (g : j.Spans P Q) (g' : j'.Spans P' Q') (gwithin : P' ≤ P ∧ Q ≤ Q') :
    Narrows (i.add j) (i'.add j') :=
  narrows_of_nearest (yields_add h g) (yields_add h' g') (add_le_add hwithin.1 gwithin.1)
    (add_le_add hwithin.2 gwithin.2)

theorem narrows_sub (h : i.Spans L U) (h' : i'.Spans L' U') (hwithin : L' ≤ L ∧ U ≤ U')
    (g : j.Spans P Q) (g' : j'.Spans P' Q') (gwithin : P' ≤ P ∧ Q ≤ Q') :
    Narrows (i.sub j) (i'.sub j') :=
  narrows_of_nearest (yields_sub h g) (yields_sub h' g') (EReal.sub_le_sub hwithin.1 gwithin.2)
    (EReal.sub_le_sub hwithin.2 gwithin.1)

theorem narrows_mul (h : i.Spans L U) (h' : i'.Spans L' U') (hwithin : L' ≤ L ∧ U ≤ U')
    (g : j.Spans P Q) (g' : j'.Spans P' Q') (gwithin : P' ≤ P ∧ Q ≤ Q')
    (hfirst : ¬Indeterminate L P) (hfirst' : ¬Indeterminate L' P') :
    Narrows (i.mul j) (i'.mul j') := by
  obtain ⟨hleast, hgreatest⟩ := products_within (h.lower_mem hwithin) (h.upper_mem hwithin)
    (g.lower_mem gwithin) (g.upper_mem gwithin)
  exact narrows_of_nearest (yields_mul h g hfirst) (yields_mul h' g' hfirst') hleast hgreatest

theorem narrows_div (h : i.Spans L U) (h' : i'.Spans L' U') (hwithin : L' ≤ L ∧ U ≤ U')
    (g : j.Spans P Q) (g' : j'.Spans P' Q') (gwithin : P' ≤ P ∧ Q ≤ Q')
    (hfirst : ¬Indeterminate L P⁻¹) (hfirst' : ¬Indeterminate L' P'⁻¹) :
    Narrows (i.div j) (i'.div j') := by
  by_cases hzero' : P' ≤ 0 ∧ 0 ≤ Q'
  · intro k' hk'
    rw [div_eq g', if_pos hzero'] at hk'
    cases hk'
  have hzero : ¬(P ≤ 0 ∧ 0 ≤ Q) := fun hzero ↦
    hzero' ⟨gwithin.1.trans hzero.1, hzero.2.trans gwithin.2⟩
  obtain ⟨hleast, hgreatest⟩ := products_within (h.lower_mem hwithin) (h.upper_mem hwithin)
    (inv_mem_uIcc gwithin.1 (g.ordered.trans gwithin.2) hzero')
    (inv_mem_uIcc (gwithin.1.trans g.ordered) gwithin.2 hzero')
  exact narrows_of_nearest (yields_div h g hzero hfirst) (yields_div h' g' hzero' hfirst') hleast
    hgreatest

end

namespace Operation

/-- The operations are the same, and each operand of the first one lies in that of the second. -/
inductive Within : Operation → Operation → Prop
  | neg {i i' : Interval} (h : i'.containsInterval i) : Within (.neg i) (.neg i')
  | abs {i i' : Interval} (h : i'.containsInterval i) : Within (.abs i) (.abs i')
  | sqrt {i i' : Interval} (h : i'.containsInterval i) : Within (.sqrt i) (.sqrt i')
  | add {i i' j j' : Interval} (h : i'.containsInterval i) (g : j'.containsInterval j) :
    Within (.add i j) (.add i' j')
  | sub {i i' j j' : Interval} (h : i'.containsInterval i) (g : j'.containsInterval j) :
    Within (.sub i j) (.sub i' j')
  | mul {i i' j j' : Interval} (h : i'.containsInterval i) (g : j'.containsInterval j) :
    Within (.mul i j) (.mul i' j')
  | div {i i' j j' : Interval} (h : i'.containsInterval i) (g : j'.containsInterval j) :
    Within (.div i j) (.div i' j')

/-- An operation on narrower intervals returns an interval in that of the wider ones. -/
theorem isotone {op op' : Operation} (hwithin : op.Within op')
    (hoperands : ∀ i ∈ op.operands, i.Bounded) (hoperands' : ∀ i ∈ op'.operands, i.Bounded)
    {k' : Interval} (hrun : op'.run = .ok k') : ∃ k, op.run = .ok k ∧ k'.containsInterval k := by
  have hspans {i i' : Interval} (hi : i ∈ op.operands) (hi' : i' ∈ op'.operands)
      (h : i'.containsInterval i) :
      ∃ l u l' u' : ℝ, i.Spans l u ∧ i'.Spans l' u' ∧ (l' : EReal) ≤ l ∧ (u : EReal) ≤ u' := by
    obtain ⟨l, u, hspans⟩ := (hoperands i hi).spans
    obtain ⟨l', u', hspans'⟩ := (hoperands' i' hi').spans
    exact ⟨l, u, l', u', hspans, hspans', hspans.within hspans' h⟩
  cases hwithin with
  | neg hi =>
    obtain ⟨l, u, l', u', h, h', hnested⟩ := hspans (.head _) (.head _) hi
    exact narrows_neg h h' hnested k' hrun
  | abs hi =>
    obtain ⟨l, u, l', u', h, h', hnested⟩ := hspans (.head _) (.head _) hi
    exact narrows_abs h h' hnested k' hrun
  | sqrt hi =>
    obtain ⟨l, u, l', u', h, h', hnested⟩ := hspans (.head _) (.head _) hi
    exact narrows_sqrt h h' hnested k' hrun
  | add hi hj =>
    obtain ⟨l, u, l', u', h, h', hnested⟩ := hspans (.head _) (.head _) hi
    obtain ⟨p, q, p', q', g, g', gnested⟩ := hspans (.tail _ (.head _)) (.tail _ (.head _)) hj
    exact narrows_add h h' hnested g g' gnested k' hrun
  | sub hi hj =>
    obtain ⟨l, u, l', u', h, h', hnested⟩ := hspans (.head _) (.head _) hi
    obtain ⟨p, q, p', q', g, g', gnested⟩ := hspans (.tail _ (.head _)) (.tail _ (.head _)) hj
    exact narrows_sub h h' hnested g g' gnested k' hrun
  | mul hi hj =>
    obtain ⟨l, u, l', u', h, h', hnested⟩ := hspans (.head _) (.head _) hi
    obtain ⟨p, q, p', q', g, g', gnested⟩ := hspans (.tail _ (.head _)) (.tail _ (.head _)) hj
    exact narrows_mul h h' hnested g g' gnested (not_indeterminate_coe l p)
      (not_indeterminate_coe l' p') k' hrun
  | div hi hj =>
    obtain ⟨l, u, l', u', h, h', hnested⟩ := hspans (.head _) (.head _) hi
    obtain ⟨p, q, p', q', g, g', gnested⟩ := hspans (.tail _ (.head _)) (.tail _ (.head _)) hj
    exact narrows_div h h' hnested g g' gnested (not_indeterminate_coe l p⁻¹)
      (not_indeterminate_coe l' p'⁻¹) k' hrun

end Operation

end Summand.Interval

namespace Summand.Small

open Summand.Interval

/-- Numbers of both signs, the greatest of which are too large to be multiplied by each other. -/
def broad : Interval := ⟨-1e308, 1e308⟩

/-- The product of a part of the interval lies in the product of the whole, which is unbounded. -/
theorem isotone_of_broad : ∃ k', broad.mul broad = .ok k' ∧
    ∃ k, tenths.mul broad = .ok k ∧ k'.containsInterval k := by
  have htenths : tenths.Bounded := ⟨by decide +kernel, by decide +kernel, by decide +kernel⟩
  have hbroad : broad.Bounded := ⟨by decide +kernel, by decide +kernel, by decide +kernel⟩
  have hwithin : (Operation.mul tenths broad).Within (.mul broad broad) :=
    .mul (by decide +kernel) (by decide +kernel)
  have hreturns : (broad.mul broad).toOption.any (fun _ ↦ true) = true := by decide +kernel
  obtain ⟨k', hrun, -⟩ := exists_ok_of_any hreturns
  exact ⟨k', hrun, Operation.isotone hwithin
    (List.forall_mem_cons.2 ⟨htenths, List.forall_mem_singleton.2 hbroad⟩)
    (List.forall_mem_cons.2 ⟨hbroad, List.forall_mem_singleton.2 hbroad⟩) hrun⟩

end Summand.Small
