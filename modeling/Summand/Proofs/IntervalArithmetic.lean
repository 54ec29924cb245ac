import Summand.Proofs.IntervalBounds

/-!
# Enclosure by interval arithmetic

On intervals with finite bounds, sums, differences, products, quotients, negations, absolute values
and square roots have their bounds in order and contain every exact result on numbers in the
operands, unless a double computed on the way is infinite. Only a divisor with zero in it and the
square root of a negative number are refused (`Interval.Operation.sound_of_bounded`).

All bounds are found alike. A bound that is computed is the nearest double to an exact one, which
stays on the inner side of the adjacent double, unless it has become infinite on the wrong side
(`Interval.Operation.returns_of_nearest`). So the bounds that an operation returns are bounds of its
exact results, as long as the lower one is not positive infinity and the upper one not negative
infinity (`Interval.Operation.Returns`); those of the operands may be infinite.
-/

namespace Summand.Interval

open Binary64

/-! ### Intervals with finite bounds -/

/-- The bounds are finite and in order. -/
structure Bounded (i : Interval) : Prop where
  lower : i.lower.isFinite
  upper : i.upper.isFinite
  ordered : i.lower ≤ i.upper

theorem Bounded.spans {i : Interval} (h : i.Bounded) : ∃ l u : ℝ, i.Spans l u := by
  obtain ⟨l, hl⟩ := isFinite_iff.1 h.lower
  obtain ⟨u, hu⟩ := isFinite_iff.1 h.upper
  exact ⟨l, u, hl, hu, (le_iff_le hl hu).1 h.ordered, EReal.coe_ne_top l, EReal.coe_ne_bot u⟩

/-! ### Operations -/

/-- An operation on intervals, with its operands. -/
inductive Operation where
  | neg (i : Interval)
  | abs (i : Interval)
  | sqrt (i : Interval)
  | add (i j : Interval)
  | sub (i j : Interval)
  | mul (i j : Interval)
  | div (i j : Interval)

namespace Operation

def operands : Operation → List Interval
  | neg i | abs i | sqrt i => [i]
  | add i j | sub i j | mul i j | div i j => [i, j]

/-- What the operation comes to. -/
def run : Operation → Except Fault Interval
  | neg i => i.neg
  | abs i => i.abs
  | sqrt i => i.sqrt
  | add i j => i.add j
  | sub i j => i.sub j
  | mul i j => i.mul j
  | div i j => i.div j

/-- The doubles that the operation rounds to, before it takes adjacent ones. Negations are exact. -/
def computed : Operation → List Float
  | neg _ | abs _ => []
  | sqrt i => [i.lower.sqrt, i.upper.sqrt]
  | add i j => [i.lower + j.lower, i.upper + j.upper]
  | sub i j => [i.lower - j.upper, i.upper - j.lower]
  | mul i j => [i.lower * j.lower, i.lower * j.upper, i.upper * j.lower, i.upper * j.upper]
  | div i j => [i.lower / j.lower, i.lower / j.upper, i.upper / j.lower, i.upper / j.upper]

/-- The real number is the exact result on numbers in the operands. -/
def Exact : Operation → ℝ → Prop
  | neg i, r => ∃ a, i.Contains a ∧ r = -a
  | abs i, r => ∃ a, i.Contains a ∧ r = |a|
  | sqrt i, r => ∃ a, i.Contains a ∧ r = √a
  | add i j, r => ∃ a b, i.Contains a ∧ j.Contains b ∧ r = a + b
  | sub i j, r => ∃ a b, i.Contains a ∧ j.Contains b ∧ r = a - b
  | mul i j, r => ∃ a b, i.Contains a ∧ j.Contains b ∧ r = a * b
  | div i j, r => ∃ a b, i.Contains a ∧ j.Contains b ∧ r = a / b

/-- The operands have no result, and the fault says so: there is zero in the divisor, or a negative
number under the root. -/
def Refuses : Operation → Fault → Prop
  | div _ j, fault => j.Contains 0 ∧ fault = .zeroInDivisor j
  | sqrt i, fault => (∃ a < 0, i.Contains a) ∧ fault = .negative i
  | _, _ => False

/-- The result has its bounds in order and contains the exact results, if no double computed on the
way is infinite. -/
def Encloses (op : Operation) : Prop :=
  ∃ k, op.run = .ok k ∧ k.lower ≤ k.upper ∧
    ((∀ x ∈ op.computed, x.isFinite) → ∀ r, op.Exact r → k.Contains r)

/-- The operation returns the bounds `D` and `V`, which are bounds of the exact results unless the
lower one is positive infinity or the upper one negative infinity. Neither is if the doubles
computed on the way are finite. -/
structure Returns (op : Operation) (D V : EReal) : Prop where
  yields : Yields op.run D V
  lower_le : D ≠ ⊤ → ∀ r : ℝ, op.Exact r → D ≤ r
  le_upper : V ≠ ⊥ → ∀ r : ℝ, op.Exact r → r ≤ V
  proper : (∀ x ∈ op.computed, x.isFinite) → D ≠ ⊤ ∧ V ≠ ⊥

variable {op : Operation}

theorem Returns.encloses {D V : EReal} (h : op.Returns D V) : op.Encloses := by
  obtain ⟨k, hk, hD, hV⟩ := h.yields.returns
  refine ⟨k, hk, (le_iff_le hD hV).2 h.yields.ordered, fun hfinite r hr ↦ ?_⟩
  obtain ⟨hlower, hupper⟩ := h.proper hfinite
  exact ⟨D, V, hD, hV, h.lower_le hlower r hr, h.le_upper hupper r hr⟩

/-- Bounds are widened after they have been rounded to the nearest doubles. -/
theorem returns_of_nearest {P Q : EReal}
    (hyields : Yields op.run (lowered (nearest P)) (raised (nearest Q)))
    (hexact : ∀ r : ℝ, op.Exact r → P ≤ r ∧ r ≤ Q)
    (hproper : (∀ x ∈ op.computed, x.isFinite) → nearest P ≠ ⊤ ∧ nearest Q ≠ ⊥) :
    op.Returns (lowered (nearest P)) (raised (nearest Q)) := by
  refine ⟨hyields, fun hD r hr ↦ ?_, fun hV r hr ↦ ?_, fun hfinite ↦ ?_⟩
  · refine (lowered_nearest_le fun h ↦ hD ?_).trans (hexact r hr).1
    rw [h, lowered_top]
  · refine (hexact r hr).2.trans (le_raised_nearest fun h ↦ hV ?_)
    rw [h, raised_bot]
  · obtain ⟨hP, hQ⟩ := hproper hfinite
    exact ⟨ne_top_of_le_ne_top hP (lowered_le _), ne_bot_of_le_ne_bot hQ (le_raised _)⟩

/-- An extreme corner is not infinite on the wrong side if the first one is finite. -/
theorem proper_of_product {x : Float} {L U L' U' : EReal} (hx : extended? x = product? L L')
    (hfirst : ¬Indeterminate L L') (hfinite : x.isFinite) :
    nearest (leastProduct L U L' U') ≠ ⊤ ∧ nearest (greatestProduct L U L' U') ≠ ⊥ := by
  rw [product?_of_not hfirst] at hx
  obtain ⟨htop, hbot⟩ := (isFinite_of_extended? hx).1 hfinite
  have hleast : leastProduct L U L' U' ≤ L * L' :=
    (min_le_left _ _).trans ((min_le_left _ _).trans (min_le_left _ _))
  have hgreatest : L * L' ≤ greatestProduct L U L' U' :=
    (le_max_left _ _).trans ((le_max_left _ _).trans (le_max_left _ _))
  exact ⟨ne_top_of_le_ne_top htop (nearest_mono hleast),
    ne_bot_of_le_ne_bot hbot (nearest_mono hgreatest)⟩

variable {i j : Interval} {L U L' U' : EReal}

theorem returns_neg (h : i.Spans L U) : (neg i).Returns (-U) (-L) := by
  have hexact (r : ℝ) (hr : (neg i).Exact r) : -U ≤ r ∧ r ≤ -L := by
    obtain ⟨a, ha, rfl⟩ := hr
    obtain ⟨hlow, hhigh⟩ := h.contains_iff.1 ha
    exact ⟨EReal.neg_le_neg_iff.2 hhigh, EReal.neg_le_neg_iff.2 hlow⟩
  refine ⟨yields_neg h, fun _ r hr ↦ (hexact r hr).1, fun _ r hr ↦ (hexact r hr).2, fun _ ↦ ?_⟩
  exact ⟨EReal.neg_eq_top_iff.not.2 h.upper_ne_bot, EReal.neg_eq_bot_iff.not.2 h.lower_ne_top⟩

theorem returns_abs (h : i.Spans L U) : (abs i).Returns (max 0 (max L (-U))) (max (-L) U) := by
  have hexact (r : ℝ) (hr : (abs i).Exact r) : max 0 (max L (-U)) ≤ r ∧ r ≤ max (-L) U := by
    obtain ⟨a, ha, rfl⟩ := hr
    obtain ⟨hlow, hhigh⟩ := h.contains_iff.1 ha
    have habs : ((|a| : ℝ) : EReal) = max (a : EReal) (-a) := EReal.coe_strictMono.monotone.map_max
    rw [habs]
    refine ⟨max_le ?_ (max_le_max hlow (EReal.neg_le_neg_iff.2 hhigh)), max_le ?_ ?_⟩
    · rw [← habs]
      exact EReal.coe_nonneg.2 (abs_nonneg a)
    · exact le_max_of_le_right hhigh
    · exact le_max_of_le_left (EReal.neg_le_neg_iff.2 hlow)
  refine ⟨yields_abs h, fun _ r hr ↦ (hexact r hr).1, fun _ r hr ↦ (hexact r hr).2, fun _ ↦ ?_⟩
  have hzero : (0 : EReal) ≠ ⊤ := EReal.zero_ne_top
  exact ⟨max_rec' (· ≠ ⊤) hzero
      (max_rec' (· ≠ ⊤) h.lower_ne_top (EReal.neg_eq_top_iff.not.2 h.upper_ne_bot)),
    ne_bot_of_le_ne_bot h.upper_ne_bot (le_max_right _ _)⟩

theorem returns_add (h : i.Spans L U) (h' : j.Spans L' U') :
    (add i j).Returns (lowered (nearest (L + L'))) (raised (nearest (U + U'))) := by
  refine returns_of_nearest (yields_add h h') ?_ fun hfinite ↦ ?_
  · rintro r ⟨a, b, ha, hb, rfl⟩
    obtain ⟨hlow, hhigh⟩ := h.contains_iff.1 ha
    obtain ⟨hlow', hhigh'⟩ := h'.contains_iff.1 hb
    exact ⟨add_le_add hlow hlow', add_le_add hhigh hhigh'⟩
  · exact ⟨((isFinite_of_extended? (h.add_lower h')).1 (hfinite _ (.head _))).1,
      ((isFinite_of_extended? (h.add_upper h')).1 (hfinite _ (.tail _ (.head _)))).2⟩

theorem returns_sub (h : i.Spans L U) (h' : j.Spans L' U') :
    (sub i j).Returns (lowered (nearest (L - U'))) (raised (nearest (U - L'))) := by
  refine returns_of_nearest (yields_sub h h') ?_ fun hfinite ↦ ?_
  · rintro r ⟨a, b, ha, hb, rfl⟩
    obtain ⟨hlow, hhigh⟩ := h.contains_iff.1 ha
    obtain ⟨hlow', hhigh'⟩ := h'.contains_iff.1 hb
    exact ⟨EReal.sub_le_sub hlow hhigh', EReal.sub_le_sub hhigh hlow'⟩
  · exact ⟨((isFinite_of_extended? (h.sub_upper h')).1 (hfinite _ (.head _))).1,
      ((isFinite_of_extended? (h.sub_lower h')).1 (hfinite _ (.tail _ (.head _)))).2⟩

theorem returns_mul (h : i.Spans L U) (h' : j.Spans L' U') (hfirst : ¬Indeterminate L L') :
    (mul i j).Returns (lowered (nearest (leastProduct L U L' U')))
      (raised (nearest (greatestProduct L U L' U'))) := by
  refine returns_of_nearest (yields_mul h h' hfirst) ?_ fun hfinite ↦
    proper_of_product (extended?_mul_eq_product? h.lower h'.lower) hfirst (hfinite _ (.head _))
  rintro r ⟨a, b, ha, hb, rfl⟩
  exact mul_between_corners (h.mem_uIcc ha) (h'.mem_uIcc hb)

theorem returns_div (h : i.Spans L U) (h' : j.Spans L' U') (hzero : ¬(L' ≤ 0 ∧ 0 ≤ U'))
    (hfirst : ¬Indeterminate L L'⁻¹) :
    (div i j).Returns (lowered (nearest (leastProduct L U L'⁻¹ U'⁻¹)))
      (raised (nearest (greatestProduct L U L'⁻¹ U'⁻¹))) := by
  refine returns_of_nearest (yields_div h h' hzero hfirst) ?_ fun hfinite ↦
    proper_of_product (extended?_div_eq_product? h.lower h'.lower (h'.ne_zero hzero).1) hfirst
      (hfinite _ (.head _))
  rintro r ⟨a, b, ha, hb, rfl⟩
  obtain ⟨hlow, hhigh⟩ := h'.contains_iff.1 hb
  rw [div_eq_mul_inv, EReal.coe_mul, EReal.coe_inv]
  exact mul_between_corners (h.mem_uIcc ha) (inv_mem_uIcc hlow hhigh hzero)

theorem returns_sqrt (h : i.Spans L U) (hl : 0 ≤ L) :
    (sqrt i).Returns (max 0 (lowered (nearest (root L)))) (raised (nearest (root U))) := by
  have hexact (r : ℝ) (hr : (sqrt i).Exact r) : 0 ≤ (r : EReal) ∧ root L ≤ r ∧ r ≤ root U := by
    obtain ⟨a, ha, rfl⟩ := hr
    obtain ⟨hlow, hhigh⟩ := h.contains_iff.1 ha
    exact ⟨EReal.coe_nonneg.2 (Real.sqrt_nonneg a), root_mono hlow, root_mono hhigh⟩
  refine ⟨yields_sqrt h hl, fun hD r hr ↦ ?_, fun hV r hr ↦ ?_, fun hfinite ↦ ?_⟩
  · obtain ⟨hnonneg, hlow, -⟩ := hexact r hr
    refine max_le hnonneg ((lowered_nearest_le fun hL ↦ hD ?_).trans hlow)
    rw [hL, lowered_top, max_top_right]
  · refine (hexact r hr).2.2.trans (le_raised_nearest fun hU ↦ hV ?_)
    rw [hU, raised_bot]
  · have hlower := extended?_sqrt_eq_root h.lower hl
    have hupper := extended?_sqrt_eq_root h.upper (hl.trans h.ordered)
    have htop := ((isFinite_of_extended? hlower).1 (hfinite _ (.head _))).1
    have hbot := ((isFinite_of_extended? hupper).1 (hfinite _ (.tail _ (.head _)))).2
    exact ⟨max_rec' (· ≠ ⊤) EReal.zero_ne_top (ne_top_of_le_ne_top htop (lowered_le _)),
      ne_bot_of_le_ne_bot hbot (le_raised _)⟩

/-! ### Soundness -/

/-- An operation fails exactly on the operands that are refused. Otherwise its bounds are in order,
and unless a double computed on the way is infinite, they enclose the exact results on all numbers
in the operands. -/
structure Sound (op : Operation) : Prop where
  fails_iff : ∀ fault, op.run = .error fault ↔ op.Refuses fault
  ordered : ∀ k, op.run = .ok k → k.lower ≤ k.upper
  contains : ∀ k, op.run = .ok k → (∀ x ∈ op.computed, x.isFinite) →
    ∀ r, op.Exact r → k.Contains r

theorem Encloses.sound (h : op.Encloses) (hrefuses : ∀ fault, ¬op.Refuses fault) : op.Sound := by
  obtain ⟨k, hk, hordered, hcontains⟩ := h
  have heq {k' : Interval} (hk' : op.run = .ok k') : k = k' := Except.ok.inj (hk.symm.trans hk')
  refine ⟨fun fault ↦ ?_, fun k' hk' ↦ heq hk' ▸ hordered, fun k' hk' ↦ heq hk' ▸ hcontains⟩
  rw [hk]
  exact iff_of_false (by simp) (hrefuses fault)

theorem sound_of_error (fault : Fault) (hrun : op.run = .error fault)
    (hrefuses : ∀ fault', op.Refuses fault' ↔ fault' = fault) : op.Sound := by
  refine ⟨fun fault' ↦ ?_, fun k hk ↦ ?_, fun k hk ↦ ?_⟩
  · rw [hrun, hrefuses, Except.error.injEq, eq_comm]
  · rw [hrun] at hk
    cases hk
  · rw [hrun] at hk
    cases hk

theorem contains_zero_iff (h' : j.Spans L' U') : j.Contains 0 ↔ L' ≤ 0 ∧ 0 ≤ U' := h'.contains_iff

theorem sound_div {l l' : ℝ} (h : i.Spans l U) (h' : j.Spans l' U') : (div i j).Sound := by
  by_cases hzero : j.Contains 0
  · refine sound_of_error (.zeroInDivisor j) ?_ fun fault ↦ and_iff_right hzero
    rw [run, div_eq h', if_pos ((contains_zero_iff h').1 hzero)]
  · have hfirst : ¬Indeterminate (l : EReal) (l' : EReal)⁻¹ := not_indeterminate_coe l l'⁻¹
    exact (returns_div h h' ((contains_zero_iff h').not.1 hzero) hfirst).encloses.sound
      fun fault hrefuses ↦ hzero hrefuses.1

theorem sound_sqrt {l : ℝ} (h : i.Spans l U) : (sqrt i).Sound := by
  rcases lt_or_ge (l : EReal) 0 with hl | hl
  · have hnegative : ∃ a < 0, i.Contains a :=
      ⟨l, EReal.coe_neg'.1 hl, h.contains_iff.2 ⟨le_rfl, h.ordered⟩⟩
    refine sound_of_error (.negative i) ?_ fun fault ↦ and_iff_right hnegative
    rw [run, sqrt_eq h, if_pos hl]
  · refine (returns_sqrt h hl).encloses.sound ?_
    rintro fault ⟨⟨a, ha, hcontains⟩, -⟩
    exact (hl.trans (h.contains_iff.1 hcontains).1).not_gt (EReal.coe_neg'.2 ha)

/-- Every operation on intervals with finite bounds is sound. -/
theorem sound_of_bounded (op : Operation) (hoperands : ∀ i ∈ op.operands, i.Bounded) :
    op.Sound := by
  have hspans {i : Interval} (hi : i ∈ op.operands) : ∃ l u : ℝ, i.Spans l u :=
    (hoperands i hi).spans
  cases op with
  | neg i =>
    obtain ⟨l, u, h⟩ := hspans (.head _)
    exact (returns_neg h).encloses.sound fun _ ↦ not_false
  | abs i =>
    obtain ⟨l, u, h⟩ := hspans (.head _)
    exact (returns_abs h).encloses.sound fun _ ↦ not_false
  | sqrt i =>
    obtain ⟨l, u, h⟩ := hspans (.head _)
    exact sound_sqrt h
  | add i j =>
    obtain ⟨l, u, h⟩ := hspans (.head _)
    obtain ⟨l', u', h'⟩ := hspans (.tail _ (.head _))
    exact (returns_add h h').encloses.sound fun _ ↦ not_false
  | sub i j =>
    obtain ⟨l, u, h⟩ := hspans (.head _)
    obtain ⟨l', u', h'⟩ := hspans (.tail _ (.head _))
    exact (returns_sub h h').encloses.sound fun _ ↦ not_false
  | mul i j =>
    obtain ⟨l, u, h⟩ := hspans (.head _)
    obtain ⟨l', u', h'⟩ := hspans (.tail _ (.head _))
    exact (returns_mul h h' (not_indeterminate_coe l l')).encloses.sound fun _ ↦ not_false
  | div i j =>
    obtain ⟨l, u, h⟩ := hspans (.head _)
    obtain ⟨l', u', h'⟩ := hspans (.tail _ (.head _))
    exact sound_div h h'

end Operation

end Summand.Interval

namespace Summand.Small

open Summand.Interval

/-- An interval whose bounds are not the tenths that they are written as. -/
def tenths : Interval := ⟨0.1, 0.3⟩

/-- The interval over itself contains one, which is a quarter over itself. -/
theorem contains_one_of_tenths :
    ∃ k, (Operation.div tenths tenths).run = .ok k ∧ k.lower ≤ k.upper ∧ k.Contains 1 := by
  have hbounded : tenths.Bounded := ⟨by decide +kernel, by decide +kernel, by decide +kernel⟩
  have hquarter : tenths.Contains (1 / 4) :=
    contains_quarter 7205759403792794 5404319552844595 (-56) (-54) (by norm_num) (by norm_num)
      rfl rfl (by norm_num) (by norm_num)
  obtain ⟨-, hordered, hcontains⟩ := Operation.sound_of_bounded (.div tenths tenths)
    (List.forall_mem_cons.2 ⟨hbounded, List.forall_mem_singleton.2 hbounded⟩)
  have hreturns : (Operation.div tenths tenths).run.toOption.isSome = true := by decide +kernel
  have hfinite : ∀ x ∈ (Operation.div tenths tenths).computed, x.isFinite := by decide +kernel
  rcases hrun : (Operation.div tenths tenths).run with fault | k
  · rw [hrun] at hreturns
    cases hreturns
  · exact ⟨k, rfl, hordered k hrun, hcontains k hrun hfinite 1 ⟨1 / 4, 1 / 4, hquarter, hquarter,
      (div_self (by norm_num)).symm⟩⟩

end Summand.Small
