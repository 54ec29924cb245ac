import Summand.Proofs.IntervalArithmetic

/-!
# Interval arithmetic with infinite bounds

What holds of the operations on intervals whose bounds may be infinite, and of results that are too
large for a double. As long as there are numbers in the operands, only a divisor with zero in it and
the square root of a negative number are refused, and the finite bounds of a result are bounds of
all exact results (`Interval.Operation.adequate_of_contains`).

A result need not contain the exact ones all the same. A bound that is infinite is not widened, so a
lower bound that was rounded to positive infinity stays there, above every number, and likewise an
upper bound at negative infinity. And zero times an infinity is a NaN for doubles, as is the
quotient of two infinities. It is passed over among the four corners unless it is the first of them;
then both bounds are NaNs. These two are the only ways in which an exact result escapes.
-/

namespace Summand.Interval

open Binary64

namespace Operation

/-- The operation fails exactly on the operands that are refused. Otherwise the finite bounds of its
result are bounds of the exact results on all numbers in the operands, and it contains these unless
a bound is infinite on the wrong side or a NaN. The bounds are NaNs if the first double is one that
the operation computes. -/
structure Adequate (op : Operation) : Prop where
  fails_iff : ∀ fault, op.run = .error fault ↔ op.Refuses fault
  brackets : ∀ k, op.run = .ok k → ∀ r, op.Exact r → k.Brackets r
  contains_iff : ∀ k, op.run = .ok k → ((∀ r, op.Exact r → k.Contains r) ↔
    k.lower < positiveInfinity ∧ negativeInfinity < k.upper)
  isNaN_lower_iff : ∀ k, op.run = .ok k → (k.lower.isNaN ↔ ∃ x ∈ op.computed.head?, x.isNaN)
  isNaN_upper_iff : ∀ k, op.run = .ok k → (k.upper.isNaN ↔ ∃ x ∈ op.computed.head?, x.isNaN)

variable {op : Operation}

theorem adequate_of_error (fault : Fault) (hrun : op.run = .error fault)
    (hrefuses : ∀ fault', op.Refuses fault' ↔ fault' = fault) : op.Adequate := by
  have hnone {k : Interval} (hk : op.run = .ok k) : False := by
    rw [hrun] at hk
    cases hk
  refine ⟨fun fault' ↦ ?_, fun _ hk ↦ (hnone hk).elim, fun _ hk ↦ (hnone hk).elim,
    fun _ hk ↦ (hnone hk).elim, fun _ hk ↦ (hnone hk).elim⟩
  rw [hrun, hrefuses, Except.error.injEq, eq_comm]

theorem adequate_of_ok {k : Interval} (hrun : op.run = .ok k)
    (hrefuses : ∀ fault, ¬op.Refuses fault) (hbrackets : ∀ r, op.Exact r → k.Brackets r)
    (hcontains : (∀ r, op.Exact r → k.Contains r) ↔
      k.lower < positiveInfinity ∧ negativeInfinity < k.upper)
    (hlower : k.lower.isNaN ↔ ∃ x ∈ op.computed.head?, x.isNaN)
    (hupper : k.upper.isNaN ↔ ∃ x ∈ op.computed.head?, x.isNaN) : op.Adequate := by
  have heq {k' : Interval} (hk' : op.run = .ok k') : k = k' := Except.ok.inj (hrun.symm.trans hk')
  refine ⟨fun fault ↦ ?_, fun _ hk ↦ heq hk ▸ hbrackets, fun _ hk ↦ heq hk ▸ hcontains,
    fun _ hk ↦ heq hk ▸ hlower, fun _ hk ↦ heq hk ▸ hupper⟩
  rw [hrun]
  exact iff_of_false (by simp) (hrefuses fault)

/-- An exact result is between bounds that are numbers exactly if neither is infinite on the wrong
side. -/
theorem Returns.adequate {D V : EReal} (h : op.Returns D V) (hrefuses : ∀ fault, ¬op.Refuses fault)
    (hnumber : ∀ x ∈ op.computed.head?, extended? x ≠ none) (hexact : ∃ r, op.Exact r) :
    op.Adequate := by
  obtain ⟨k, hk, hD, hV⟩ := h.yields.returns
  have hfirst : ¬∃ x ∈ op.computed.head?, x.isNaN := by
    rintro ⟨x, hx, hnan⟩
    exact hnumber x hx (isNaN_iff.1 hnan)
  have hlower : k.lower < positiveInfinity ↔ D ≠ ⊤ := by
    rw [lt_iff_lt hD extended?_positiveInfinity, lt_top_iff_ne_top]
  have hupper : negativeInfinity < k.upper ↔ V ≠ ⊥ := by
    rw [lt_iff_lt extended?_negativeInfinity hV, bot_lt_iff_ne_bot]
  refine adequate_of_ok hk hrefuses (fun r hr ↦ ⟨fun a ha ↦ ?_, fun b hb ↦ ?_, fun L U hL hU ↦ ?_⟩)
    ⟨fun hall ↦ ?_, fun ⟨hlow, hhigh⟩ r hr ↦ ?_⟩ ?_ ?_
  · obtain rfl : D = a := Option.some_inj.1 (hD.symm.trans ha)
    exact EReal.coe_le_coe_iff.1 (h.lower_le (EReal.coe_ne_top a) r hr)
  · obtain rfl : V = b := Option.some_inj.1 (hV.symm.trans hb)
    exact EReal.coe_le_coe_iff.1 (h.le_upper (EReal.coe_ne_bot b) r hr)
  · obtain rfl : D = L := Option.some_inj.1 (hD.symm.trans hL)
    obtain rfl : V = U := Option.some_inj.1 (hV.symm.trans hU)
    exact h.yields.ordered
  · obtain ⟨r, hr⟩ := hexact
    obtain ⟨D', V', hD', hV', hlow, hhigh⟩ := hall r hr
    obtain rfl : D = D' := Option.some_inj.1 (hD.symm.trans hD')
    obtain rfl : V = V' := Option.some_inj.1 (hV.symm.trans hV')
    exact ⟨hlower.2 (ne_top_of_le_ne_top (EReal.coe_ne_top r) hlow),
      hupper.2 (ne_bot_of_le_ne_bot (EReal.coe_ne_bot r) hhigh)⟩
  · exact ⟨D, V, hD, hV, h.lower_le (hlower.1 hlow) r hr, h.le_upper (hupper.1 hhigh) r hr⟩
  · exact iff_of_false (by rw [isNaN_iff, hD]; exact Option.some_ne_none D) hfirst
  · exact iff_of_false (by rw [isNaN_iff, hV]; exact Option.some_ne_none V) hfirst

/-- Bounds that are NaNs contain nothing. -/
theorem adequate_of_none {k : Interval} {x : Float} (hrun : op.run = .ok k)
    (hlower : extended? k.lower = none) (hupper : extended? k.upper = none)
    (hrefuses : ∀ fault, ¬op.Refuses fault) (hhead : op.computed.head? = some x)
    (hx : extended? x = none) (hexact : ∃ r, op.Exact r) : op.Adequate := by
  have hfirst : ∃ x ∈ op.computed.head?, x.isNaN := ⟨x, hhead, isNaN_iff.2 hx⟩
  refine adequate_of_ok hrun hrefuses
    (fun r hr ↦ ⟨fun a ha ↦ ?_, fun b hb ↦ ?_, fun L U hL hU ↦ ?_⟩)
    (iff_of_false (fun hall ↦ ?_) fun hless ↦ ?_) (iff_of_true (isNaN_iff.2 hlower) hfirst)
    (iff_of_true (isNaN_iff.2 hupper) hfirst)
  · rw [hlower] at ha
    cases ha
  · rw [hupper] at hb
    cases hb
  · rw [hlower] at hL
    cases hL
  · obtain ⟨r, hr⟩ := hexact
    obtain ⟨D, -, hD, -⟩ := hall r hr
    rw [hlower] at hD
    cases hD
  · obtain ⟨D, -, hD, -⟩ := lt_iff.1 hless.1
    rw [hlower] at hD
    cases hD

/-! ### All operations -/

theorem exists_exact (op : Operation) (hoperands : ∀ i ∈ op.operands, ∃ a, i.Contains a) :
    ∃ r, op.Exact r := by
  cases op with
  | neg i | abs i | sqrt i =>
    obtain ⟨a, ha⟩ := hoperands i (.head _)
    exact ⟨_, a, ha, rfl⟩
  | add i j | sub i j | mul i j | div i j =>
    obtain ⟨a, ha⟩ := hoperands i (.head _)
    obtain ⟨b, hb⟩ := hoperands j (.tail _ (.head _))
    exact ⟨_, a, b, ha, hb, rfl⟩

variable {i j : Interval} {L U L' U' : EReal}

theorem adequate_mul (h : i.Spans L U) (h' : j.Spans L' U') (hexact : ∃ r, (mul i j).Exact r) :
    (mul i j).Adequate := by
  have hfirst := extended?_mul_eq_product? h.lower h'.lower
  by_cases hindeterminate : Indeterminate L L'
  · rw [product?_of_indeterminate hindeterminate] at hfirst
    obtain ⟨k, hk, hlower, hupper⟩ := mul_of_indeterminate h h' hindeterminate
    exact adequate_of_none hk hlower hupper (fun _ ↦ not_false) rfl hfirst hexact
  · refine (returns_mul h h' hindeterminate).adequate (fun _ ↦ not_false) ?_ hexact
    rintro x ⟨⟩
    rw [hfirst, product?_of_not hindeterminate]
    exact Option.some_ne_none _

theorem adequate_div (h : i.Spans L U) (h' : j.Spans L' U') (hexact : ∃ r, (div i j).Exact r) :
    (div i j).Adequate := by
  by_cases hzero : L' ≤ 0 ∧ 0 ≤ U'
  · refine adequate_of_error (.zeroInDivisor j) ?_ fun fault ↦
      and_iff_right ((contains_zero_iff h').2 hzero)
    rw [run, div_eq h', if_pos hzero]
  have hrefuses (fault : Fault) : ¬(div i j).Refuses fault :=
    fun hrefuses ↦ hzero ((contains_zero_iff h').1 hrefuses.1)
  have hfirst := extended?_div_eq_product? h.lower h'.lower (h'.ne_zero hzero).1
  by_cases hindeterminate : Indeterminate L L'⁻¹
  · rw [product?_of_indeterminate hindeterminate] at hfirst
    obtain ⟨k, hk, hlower, hupper⟩ := div_of_indeterminate h h' hzero hindeterminate
    exact adequate_of_none hk hlower hupper hrefuses rfl hfirst hexact
  · refine (returns_div h h' hzero hindeterminate).adequate hrefuses ?_ hexact
    rintro x ⟨⟩
    rw [hfirst, product?_of_not hindeterminate]
    exact Option.some_ne_none _

theorem adequate_sqrt (h : i.Spans L U) (hexact : ∃ r, (sqrt i).Exact r) : (sqrt i).Adequate := by
  rcases lt_or_ge L 0 with hl | hl
  · obtain ⟨-, a, ha, -⟩ := hexact
    -- Some number in the operand is negative: the lower bound, unless it is infinite.
    have hnegative : ∃ a < 0, i.Contains a := by
      obtain ⟨b, hLb, hb⟩ := EReal.lt_iff_exists_real_btwn.1 hl
      have hneg : min b a < 0 := (min_le_left _ _).trans_lt (EReal.coe_neg'.1 hb)
      obtain ⟨hlow, hhigh⟩ := h.contains_iff.1 ha
      refine ⟨min b a, hneg, h.contains_iff.2 ⟨?_, ?_⟩⟩
      · rw [EReal.coe_strictMono.monotone.map_min]
        exact le_min hLb.le hlow
      · exact (EReal.coe_le_coe_iff.2 (min_le_right b a)).trans hhigh
    refine adequate_of_error (.negative i) ?_ fun fault ↦ and_iff_right hnegative
    rw [run, sqrt_eq h, if_pos hl]
  · refine (returns_sqrt h hl).adequate ?_ ?_ hexact
    · rintro fault ⟨⟨a, ha, hcontains⟩, -⟩
      exact (hl.trans (h.contains_iff.1 hcontains).1).not_gt (EReal.coe_neg'.2 ha)
    · rintro x ⟨⟩
      rw [extended?_sqrt_eq_root h.lower hl]
      exact Option.some_ne_none _

/-- Every operation on intervals with numbers in them is adequate. -/
theorem adequate_of_contains (op : Operation) (hoperands : ∀ i ∈ op.operands, ∃ a, i.Contains a) :
    op.Adequate := by
  have hexact := exists_exact op hoperands
  have hspans {i : Interval} (hi : i ∈ op.operands) : ∃ L U, i.Spans L U := by
    obtain ⟨a, ha⟩ := hoperands i hi
    exact ha.spans
  cases op with
  | neg i =>
    obtain ⟨L, U, h⟩ := hspans (.head _)
    exact (returns_neg h).adequate (fun _ ↦ not_false) (by rintro x ⟨⟩) hexact
  | abs i =>
    obtain ⟨L, U, h⟩ := hspans (.head _)
    exact (returns_abs h).adequate (fun _ ↦ not_false) (by rintro x ⟨⟩) hexact
  | sqrt i =>
    obtain ⟨L, U, h⟩ := hspans (.head _)
    exact adequate_sqrt h hexact
  | add i j =>
    obtain ⟨L, U, h⟩ := hspans (.head _)
    obtain ⟨L', U', h'⟩ := hspans (.tail _ (.head _))
    refine (returns_add h h').adequate (fun _ ↦ not_false) ?_ hexact
    rintro x ⟨⟩
    rw [h.add_lower h']
    exact Option.some_ne_none _
  | sub i j =>
    obtain ⟨L, U, h⟩ := hspans (.head _)
    obtain ⟨L', U', h'⟩ := hspans (.tail _ (.head _))
    refine (returns_sub h h').adequate (fun _ ↦ not_false) ?_ hexact
    rintro x ⟨⟩
    rw [h.sub_upper h']
    exact Option.some_ne_none _
  | mul i j =>
    obtain ⟨L, U, h⟩ := hspans (.head _)
    obtain ⟨L', U', h'⟩ := hspans (.tail _ (.head _))
    exact adequate_mul h h' hexact
  | div i j =>
    obtain ⟨L, U, h⟩ := hspans (.head _)
    obtain ⟨L', U', h'⟩ := hspans (.tail _ (.head _))
    exact adequate_div h h' hexact

end Operation

end Summand.Interval

namespace Summand.Small

open Summand.Interval Binary64

/-- The numbers from one on. -/
def fromOne : Interval := ⟨1.0, positiveInfinity⟩

/-- The numbers from zero on. -/
def fromZero : Interval := ⟨0.0, positiveInfinity⟩

/-- One of the corners of the product is a NaN, but not the first one. -/
theorem contains_six_of_unbounded : ∃ k, fromOne.mul fromZero = .ok k ∧ k.Contains 6 := by
  have htwo : fromOne.Contains 2 := ⟨_, _, extended?_one, extended?_positiveInfinity,
    EReal.coe_le_coe_iff.2 one_le_two, le_top⟩
  have hthree : fromZero.Contains 3 := ⟨_, _, extended?_zero, extended?_positiveInfinity,
    EReal.coe_le_coe_iff.2 zero_le_three, le_top⟩
  have hadequate := Operation.adequate_of_contains (.mul fromOne fromZero)
    (List.forall_mem_cons.2 ⟨⟨2, htwo⟩, List.forall_mem_singleton.2 ⟨3, hthree⟩⟩)
  have hbounds : (Operation.mul fromOne fromZero).run.toOption.any
      (fun k ↦ k.lower < positiveInfinity && negativeInfinity < k.upper) = true := by
    decide +kernel
  obtain ⟨k, hrun, hproper⟩ := exists_ok_of_any hbounds
  rw [Bool.and_eq_true, decide_eq_true_iff, decide_eq_true_iff] at hproper
  exact ⟨k, hrun, (hadequate.contains_iff k hrun).2 hproper 6 ⟨2, 3, htwo, hthree, by norm_num⟩⟩

/-- A number of which twice is too large for a double. -/
def large : Interval := ⟨1e308, 1e308⟩

/-- The sum of the number with itself is above every number, and the first corner of the product of
the numbers up to zero and those from zero to one is a NaN. -/
theorem escapes_of_large :
    (∃ k a, large.add large = .ok k ∧ large.Contains a ∧ ¬k.Contains (a + a)) ∧
      ∃ k, (⟨negativeInfinity, 0.0⟩ : Interval).mul ⟨0.0, 1.0⟩ = .ok k ∧ k.lower.isNaN ∧
        k.upper.isNaN := by
  constructor
  · have hfinite : large.lower.isFinite := by decide +kernel
    obtain ⟨a, ha⟩ := isFinite_iff.1 hfinite
    have hlower : (large.add large).toOption.any (fun k ↦ positiveInfinity ≤ k.lower) = true := by
      decide +kernel
    obtain ⟨k, hrun, hinfinite⟩ := exists_ok_of_any hlower
    refine ⟨k, a, hrun, ⟨a, a, ha, ha, le_rfl, le_rfl⟩, ?_⟩
    rintro ⟨L, -, hL, -, hlow, -⟩
    rw [decide_eq_true_iff, le_iff_le extended?_positiveInfinity hL, top_le_iff] at hinfinite
    exact absurd (top_le_iff.1 (hinfinite ▸ hlow)) (EReal.coe_ne_top _)
  · have hnan : ((⟨negativeInfinity, 0.0⟩ : Interval).mul ⟨0.0, 1.0⟩).toOption.any
        (fun k ↦ k.lower.isNaN && k.upper.isNaN) = true := by
      decide +kernel
    obtain ⟨k, hrun, hbounds⟩ := exists_ok_of_any hnan
    exact ⟨k, hrun, Bool.and_eq_true_iff.1 hbounds⟩

end Summand.Small
