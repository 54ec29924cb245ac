import Mathlib
import Summand.Proofs.ChainRule
import Summand.Proofs.RoundTrip

/-!
# Transforms over the real numbers

The transforms by scalar maps are written for any numbers with elementary functions. Over the real
numbers, with exact functions, each of them is a change of variables (`Transform.Changes`): its two
maps undo each other, and gradients are pulled back by the derivative of the first one.

This is first said of scalars (`Elementwise.Inverts`), where a sine has an inverse between two
quarter turns only, and an exponential only gives positive numbers. Then it is carried over to
vectors of any length (`Elementwise.Inverts.changes`), and to whatever parameters the builders
accept (`Elementwise.changes_of_built`).
-/

namespace Summand

open Set Real

noncomputable instance : Transcendental ℝ where
  exp := Real.exp
  log := Real.log
  sin := Real.sin
  cos := Real.cos
  arcsin := Real.arcsin
  clampUnit x := max (-1) (min x 1)

/-! ### Changes of variables -/

/-- The entry at a place of the user-space value of a point, as a function of the entry of the point
at that place. -/
noncomputable def Transform.component (t : Transform ℝ) (point : List ℝ) (i : Nat) (y : ℝ) : ℝ :=
  ((t.userVector (Buffer.zeros point.length) (point.set i y)).state).getD i 0

/-- A transform of vectors of a length changes variables: points with entries in a set come back
from user space; values with entries in another set come back from optimization space as the nearest
ones that there are; and to an accumulator is added, entry by entry, the gradient times the
derivative of the user-space value. -/
structure Transform.Changes (t : Transform ℝ) (n : Int) (points values : Set ℝ) (nearest : ℝ → ℝ) :
    Prop where
  input : t.inputDimension = n
  output : t.outputDimension = n
  restoresPoint : ∀ point : List ℝ, (point.length : Int) = n → (∀ a ∈ point, a ∈ points) →
    ∃ value, Fills (t.userVector · point) n.toNat value ∧
      Fills (t.optimizationVector · value) n.toNat point
  restoresValue : ∀ value : List ℝ, (value.length : Int) = n → (∀ u ∈ value, u ∈ values) →
    ∃ point, Fills (t.optimizationVector · value) n.toNat point ∧
      Fills (t.userVector · point) n.toNat (value.map nearest)
  addsGradient : ∀ accumulator point gradient : List ℝ, (accumulator.length : Int) = n →
    (point.length : Int) = n → (gradient.length : Int) = n →
      ∃ sum, (t.projectedVector accumulator point gradient).complete = .ok sum ∧
        sum.length = accumulator.length ∧ ∀ i a y g, accumulator[i]? = some a →
          point[i]? = some y → gradient[i]? = some g →
            ∃ d, HasDerivAt (t.component point i) d y ∧ sum[i]? = some (a + g * d)

namespace Elementwise

/-! ### Scalar maps -/

/-- The scalar maps of a transform undo each other, and the last one is the derivative of the first
one. -/
structure Inverts (e : Elementwise ℝ) (points values : Set ℝ) (nearest : ℝ → ℝ) : Prop where
  inverse_forward : ∀ t ∈ points, e.inverse (e.forward t) = t
  forward_inverse : ∀ u ∈ values, e.forward (e.inverse u) = nearest u
  hasDerivAt : ∀ t, HasDerivAt e.forward (e.derivative t) t

theorem inverts_scaling (n : Nat) {factor : ℝ} (h : factor ≠ 0) :
    (scaling n factor).Inverts univ univ id where
  inverse_forward t _ := mul_div_cancel_left₀ t h
  forward_inverse u _ := mul_div_cancel₀ u h
  hasDerivAt t := by
    simpa [scaling] using (hasDerivAt_id t).const_mul factor

theorem inverts_above (n : Nat) (bound : ℝ) : (above n bound).Inverts univ (Ioi bound) id where
  inverse_forward t _ := by
    show Real.log (bound + Real.exp t - bound) = t
    rw [add_sub_cancel_left, Real.log_exp]
  forward_inverse u hu := by
    show bound + Real.exp (Real.log (u - bound)) = u
    rw [Real.exp_log (sub_pos.2 hu), add_sub_cancel]
  hasDerivAt t := (Real.hasDerivAt_exp t).const_add bound

theorem inverts_below (n : Nat) (bound : ℝ) : (below n bound).Inverts univ (Iio bound) id where
  inverse_forward t _ := by
    show Real.log (bound - (bound - Real.exp t)) = t
    rw [sub_sub_cancel, Real.log_exp]
  forward_inverse u hu := by
    show bound - Real.exp (Real.log (bound - u)) = u
    rw [Real.exp_log (sub_pos.2 hu), sub_sub_cancel]
  hasDerivAt t := (Real.hasDerivAt_exp t).const_sub bound

/-- The place of a value between two bounds, as a sine, leads back to the value, and that of a value
beyond a bound to the bound. -/
theorem lower_add_clampUnit {lower upper : ℝ} (h : lower < upper) (u : ℝ) :
    lower + (upper - lower) *
        (max (-1) (min (2 * (u - lower) / (upper - lower) - 1) 1) + 1) / 2 =
      max lower (min u upper) := by
  have hwidth : 0 < upper - lower := sub_pos.2 h
  rcases le_total u lower with hlow | hlow
  · have hplace : 2 * (u - lower) / (upper - lower) - 1 ≤ -1 := by
      have := div_nonpos_of_nonpos_of_nonneg (show 2 * (u - lower) ≤ 0 by linarith) hwidth.le
      linarith
    rw [min_eq_left (by linarith), max_eq_left hplace, max_eq_left ((min_le_left _ _).trans hlow)]
    ring
  have hplace : -1 ≤ 2 * (u - lower) / (upper - lower) - 1 := by
    have := div_nonneg (show 0 ≤ 2 * (u - lower) by linarith) hwidth.le
    linarith
  rcases le_total u upper with hhigh | hhigh
  · have hplace' : 2 * (u - lower) / (upper - lower) - 1 ≤ 1 := by
      have := (div_le_iff₀ hwidth).2 (show 2 * (u - lower) ≤ 2 * (upper - lower) by linarith)
      linarith
    rw [min_eq_left hplace', max_eq_right hplace, min_eq_left hhigh, max_eq_right hlow]
    field_simp
    ring
  · have hplace' : 1 ≤ 2 * (u - lower) / (upper - lower) - 1 := by
      have := (le_div_iff₀ hwidth).2 (show 2 * (upper - lower) ≤ 2 * (u - lower) by linarith)
      linarith
    rw [min_eq_right hplace', max_eq_right (by norm_num), min_eq_right hhigh, max_eq_right h.le]
    ring

theorem inverts_between (n : Nat) {lower upper : ℝ} (h : lower < upper) :
    (between n lower upper).Inverts (Icc (-(π / 2)) (π / 2)) univ
      fun u ↦ max lower (min u upper) where
  inverse_forward t ht := by
    have hwidth : upper - lower ≠ 0 := (sub_pos.2 h).ne'
    have hplace : 2 * (lower + (upper - lower) * (Real.sin t + 1) / 2 - lower) / (upper - lower) -
        1 = Real.sin t := by
      field_simp
      ring
    show Real.arcsin (max (-1) (min (2 * (lower + (upper - lower) * (Real.sin t + 1) / 2 - lower) /
      (upper - lower) - 1) 1)) = t
    rw [hplace, min_eq_left (Real.sin_le_one t), max_eq_right (Real.neg_one_le_sin t),
      Real.arcsin_sin ht.1 ht.2]
  forward_inverse u _ := by
    show lower + (upper - lower) * (Real.sin (Real.arcsin (max (-1)
      (min (2 * (u - lower) / (upper - lower) - 1) 1))) + 1) / 2 = _
    rw [Real.sin_arcsin (le_max_left _ _) (max_le (by norm_num) (min_le_right _ _)),
      lower_add_clampUnit h]
  hasDerivAt t :=
    ((((Real.hasDerivAt_sin t).add_const 1).const_mul (upper - lower)).div_const 2).const_add lower

/-! ### Vectors -/

variable {e : Elementwise ℝ} {points values : Set ℝ} {nearest : ℝ → ℝ} {n : Int}

/-- The entries of the user-space value are those of the scalar map. -/
theorem component_eq (e : Elementwise ℝ) (id : Nat) {point : List ℝ} {i : Nat}
    (hi : i < point.length) : (e.toTransform id).component point i = e.forward := by
  funext y
  have hvalues : ((point.set i y).map e.forward).length =
      (Buffer.zeros point.length : List ℝ).length := by simp
  obtain ⟨-, hstate⟩ := Progress.complete_eq_ok_iff.1 (complete_overwritten hvalues)
  simp only [Transform.component, Transform.userVector, toTransform, Grid.map_vector]
  rw [hstate]
  simp [hi]

/-- A gradient is multiplied by the derivatives and added to the accumulator. -/
theorem complete_projectedVector_eq_ok (e : Elementwise ℝ) (id : Nat)
    {accumulator point gradient : List ℝ} (hpoint : point.length = accumulator.length)
    (hgradient : gradient.length = accumulator.length) :
    ((e.toTransform id).projectedVector accumulator point gradient).complete =
      .ok (List.zipWith (· + ·) accumulator
        (List.zipWith (· * ·) gradient (point.map e.derivative))) := by
  have hlength : gradient.length = (point.map e.derivative).length := by
    rw [List.length_map, hpoint, hgradient]
  have hsum : accumulator.length =
      (List.zipWith (· * ·) gradient (point.map e.derivative)).length := by
    simp [hgradient, hpoint]
  rw [complete_projectedVector, Grid.zipWith_vector _ hlength]
  exact congrArg (Except.map Grid.entries) (Grid.combine_vector _ hsum)

/-- A transform by scalar maps that undo each other changes variables. -/
theorem Inverts.changes (h : e.Inverts points values nearest) (id : Nat)
    (hn : (e.dimension : Int) = n) : (e.toTransform id).Changes n points values nearest where
  input := hn
  output := hn
  restoresPoint point hlength hpoint := by
    have hback : (point.map e.forward).map e.inverse = point := by
      rw [List.map_map]
      exact (List.map_congr_left fun a ha ↦ h.inverse_forward a (hpoint a ha)).trans
        (List.map_id point)
    have hvalues : (point.map e.forward).length = n.toNat := by rw [List.length_map]; omega
    have hfills := e.fills_optimizationVector id hvalues
    rw [hback] at hfills
    exact ⟨point.map e.forward, e.fills_userVector id (by omega), hfills⟩
  restoresValue value hlength hvalue := by
    have hback : (value.map e.inverse).map e.forward = value.map nearest := by
      rw [List.map_map]
      exact List.map_congr_left fun u hu ↦ h.forward_inverse u (hvalue u hu)
    have hpoints : (value.map e.inverse).length = n.toNat := by rw [List.length_map]; omega
    have hfills := e.fills_userVector id hpoints
    rw [hback] at hfills
    exact ⟨value.map e.inverse, e.fills_optimizationVector id (by omega), hfills⟩
  addsGradient accumulator point gradient haccumulator hpoint hgradient := by
    refine ⟨_, complete_projectedVector_eq_ok e id (by omega) (by omega), ?_, ?_⟩
    · simp
      omega
    · intro i a y g ha hy hg
      have hi : i < point.length := (List.getElem?_eq_some_iff.1 hy).1
      refine ⟨e.derivative y, ?_, by simp [List.getElem?_zipWith, ha, hy, hg]⟩
      rw [component_eq e id hi]
      exact h.hasDerivAt y

/-! ### Building -/

/-- Whatever parameters the builders accept, they build changes of variables. A factor maps all
numbers to all numbers; an exponential, all numbers to those on one side of the bound; and a sine,
those between two quarter turns to those between the bounds, where a value outside of them is taken
back to the nearer one. -/
theorem changes_of_built (id : Nat) (n : Int) (e : Elementwise ℝ) :
    (∀ factor : ℝ, scaled .ok n factor = .ok e →
        (e.toTransform id).Changes n univ univ fun u ↦ u) ∧
      (∀ bound : ℝ, greaterThan .ok n bound = .ok e →
        (e.toTransform id).Changes n univ (Ioi bound) fun u ↦ u) ∧
      (∀ bound : ℝ, lessThan .ok n bound = .ok e →
        (e.toTransform id).Changes n univ (Iio bound) fun u ↦ u) ∧
      ∀ lower upper : ℝ, box .ok n lower upper = .ok e →
        (e.toTransform id).Changes n (Icc (-(π / 2)) (π / 2)) univ
            fun u ↦ max lower (min u upper) := by
  refine ⟨fun factor h ↦ ?_, fun bound h ↦ ?_, fun bound h ↦ ?_, fun lower upper h ↦ ?_⟩ <;>
    obtain ⟨m, hm, h⟩ := bind_eq_ok_iff.1 h
  · split at h
    · cases h
    rename_i hfactor
    cases h
    exact (inverts_scaling m (by simpa using hfactor)).changes id (of_checkDimension_eq_ok hm).1
  · cases h
    exact (inverts_above m bound).changes id (of_checkDimension_eq_ok hm).1
  · cases h
    exact (inverts_below m bound).changes id (of_checkDimension_eq_ok hm).1
  · split at h
    · cases h
    rename_i hrange
    cases h
    exact (inverts_between m (not_not.1 hrange)).changes id (of_checkDimension_eq_ok hm).1

end Elementwise

namespace Small

open Elementwise

/-- Doubling is accepted in two dimensions, and so are the bounds minus one and one. -/
theorem changes_of_doubling :
    (∃ e, scaled (α := ℝ) .ok 2 (2 : ℝ) = .ok e ∧ (e.toTransform 1).Changes 2 univ univ fun u ↦ u) ∧
      ∃ e, box (α := ℝ) .ok 2 (-1 : ℝ) 1 = .ok e ∧
        (e.toTransform 2).Changes 2 (Icc (-(π / 2)) (π / 2)) univ fun u ↦ max (-1) (min u 1) := by
  have hscaled : scaled (α := ℝ) .ok 2 (2 : ℝ) = .ok (scaling 2 2) := by
    have hfactor : ((2 : ℝ) == 0) = false := by simp
    simp only [scaled, checkDimension, hfactor]
    rfl
  have hbox : box (α := ℝ) .ok 2 (-1 : ℝ) 1 = .ok (between 2 (-1) 1) := by
    have hrange : (-1 : ℝ) < 1 := by norm_num
    simp only [box, checkDimension, not_not.2 hrange, if_false]
    rfl
  exact ⟨⟨_, hscaled, (changes_of_built 1 2 _).1 2 hscaled⟩,
    _, hbox, (changes_of_built 2 2 _).2.2.2 (-1) 1 hbox⟩

end Small

end Summand
