import Summand.Interval.Quantity
import Summand.Proofs.IntervalArithmetic
import Summand.Proofs.Progress
import Summand.Proofs.ScaledNumbers

/-!
# Exact numbers among intervals

A number enters the arithmetic of intervals as the double nearest to it, with no room for what is
rounded off. Alone, it becomes the interval that holds this double and no other number; the hull of
several numbers lies between two of their doubles; and as an operand of an interval it gives results
that contain the exact ones for the double (`Interval.hull_and_operands`). Asked whether it contains
a number, an interval compares integers exactly (`Interval.containsNumber_iff`). So what is said of
the numbers themselves holds of those that are doubles, which are all finite doubles and all
integers up to `2 ^ 53`, and an integer that is no double is not in the interval made of it.
-/

namespace Summand

namespace Binary64

open Float.Model (UnpackedFloat)
open Float.Model.UnpackedFloat (Sign)

/-! ### Doubles and integers -/

theorem compareScaled_eq (negative : Bool) (m : ℕ) (e n : ℤ) : compareScaled negative m e n =
    cmp (((if negative then -(m : ℤ) else m : ℤ) : ℝ) * 2 ^ e) n := by
  rw [compareScaled]
  generalize (if negative then -(m : ℤ) else m : ℤ) = v
  split_ifs with he
  · obtain ⟨k, rfl⟩ := Int.eq_ofNat_of_zero_le he
    have hcast : (v : ℝ) * 2 ^ (k : ℤ) = ((v * 2 ^ k : ℤ) : ℝ) := by
      push_cast
      rw [zpow_natCast]
    rw [hcast, Int.cast_strictMono.cmp_map_eq, cmp_eq_compare]
    rfl
  · obtain ⟨k, rfl⟩ : ∃ k : ℕ, e = -k := ⟨(-e).toNat, by omega⟩
    -- Both sides are multiplied by the denominator.
    have hcast : (v : ℝ) = (v * 2 ^ (-(k : ℤ))) * 2 ^ k := by
      rw [mul_assoc, zpow_neg, zpow_natCast, inv_mul_cancel₀ (by positivity), mul_one]
    have hcast' : (n : ℝ) * 2 ^ k = ((n * 2 ^ k : ℤ) : ℝ) := by push_cast; rfl
    rw [← cmp_mul_pos_right (a := (2 : ℝ) ^ k) (by positivity), ← hcast, hcast',
      Int.cast_strictMono.cmp_map_eq, cmp_eq_compare, neg_neg, Int.toNat_natCast]
    rfl

/-- A double and an integer are in the order of what they denote. -/
theorem compareInt?_eq (x : Float) (n : ℤ) :
    compareInt? x n = (extended? x).map (cmp · ((n : ℝ) : EReal)) := by
  rw [compareInt?, extended?]
  rcases unpack x with (- | -) | - | s | ⟨s, m, e, hm⟩
  · exact congrArg some ((cmp_eq_lt_iff _ _).2 (EReal.bot_lt_coe n)).symm
  · exact congrArg some ((cmp_eq_gt_iff _ _).2 (EReal.coe_lt_top n)).symm
  · rfl
  · have hzero : (0 : EReal) = (((0 : ℤ) : ℝ) : EReal) := by simp
    rw [denoted_zero, Option.map_some, hzero, EReal.coe_strictMono.cmp_map_eq,
      Int.cast_strictMono.cmp_map_eq, cmp_eq_compare]
  · rw [denoted_finite, Option.map_some, EReal.coe_strictMono.cmp_map_eq]
    show some (compareScaled (s == .negative) m e n) = _
    rw [compareScaled_eq]
    cases s <;> rfl

theorem isLE_compareInt?_iff {x : Float} {n : ℤ} : (compareInt? x n).any Ordering.isLE = true ↔
    ∃ X, extended? x = some X ∧ X ≤ (n : ℝ) := by
  rw [compareInt?_eq]
  rcases extended? x with - | X
  · simp
  · simp [cmp_eq_compare, Ordering.isLE_iff_ne_gt, compare_le_iff_le]

theorem isGE_compareInt?_iff {x : Float} {n : ℤ} : (compareInt? x n).any Ordering.isGE = true ↔
    ∃ X, extended? x = some X ∧ (n : ℝ) ≤ X := by
  rw [compareInt?_eq]
  rcases extended? x with - | X
  · simp
  · simp [cmp_eq_compare, Ordering.isGE_iff_ne_lt, compare_ge_iff_ge]

/-- An integer becomes the double nearest to it. -/
theorem extended?_ofInt_intCast (n : ℤ) : extended? (ofInt n) = some (nearest (n : ℝ)) := by
  rw [ofInt, extended?_roundScaled, zpow_zero, mul_one]
  rcases le_or_gt 0 n with hn | hn
  · rw [decide_eq_false hn.not_gt, Nat.cast_natAbs, abs_of_nonneg hn]
    rfl
  · rw [decide_eq_true hn, Nat.cast_natAbs, abs_of_neg hn, Int.cast_neg, EReal.coe_neg, nearest_neg]
    simp [signed]

theorem eq_of_ofInt? {n : ℤ} {x : Float} (h : ofInt? n = some x) : ofInt n = x := by
  rw [ofInt?] at h
  split at h
  · cases h
  · exact Option.some_inj.1 h

/-- A comparison tells that there is no NaN. -/
theorem le_iff {x y : Float} :
    x ≤ y ↔ ∃ X Y, extended? x = some X ∧ extended? y = some Y ∧ X ≤ Y := by
  constructor
  · intro h
    have hle : (unpack x).le (unpack y) = true := by
      rwa [← decide_eq_true_iff (p := (unpack x).le (unpack y) = true)]
    rcases hx : extended? x with - | X
    · rw [eq_notANumber_of_denoted hx] at hle
      cases hle
    rcases hy : extended? y with - | Y
    · rw [eq_notANumber_of_denoted hy, UnpackedFloat.le] at hle
      cases hu : unpack x <;> rw [hu] at hle <;> cases hle
    · exact ⟨X, Y, rfl, rfl, (le_iff_le hx hy).1 h⟩
  · rintro ⟨X, Y, hx, hy, h⟩
    exact (le_iff_le hx hy).2 h

/-- Integers of at most 53 bits fit. -/
theorem fits_intCast {n : ℤ} (h : |n| ≤ 2 ^ 53) : Fits n := ⟨n, 0, h, by norm_num, by simp⟩

end Binary64

open Binary64

/-! ### Numbers -/

namespace Number

/-- The real number that a number denotes, unless it is an infinity or a NaN. -/
noncomputable def value : Number → ℝ
  | .int n => n
  | .real x => ((extended? x).getD 0).toReal

/-- The number denotes a real number. -/
def IsFinite : Number → Prop
  | .int _ => True
  | .real x => x.isFinite

/-- There is a finite double nearest to the number. -/
def Convertible (n : Number) : Prop := ∃ x, n.toFloat = .ok x ∧ x.isFinite

instance (n : Number) : Decidable n.Convertible :=
  decidable_of_iff (n.toFloat.toOption.any Float.isFinite = true) <| by
    rw [Convertible]
    cases n.toFloat <;> simp [Except.toOption]

variable {n : Number}

theorem extended?_value {x : Float} (hx : x.isFinite) :
    extended? x = some ((value (.real x) : ℝ) : EReal) := by
  obtain ⟨r, hr⟩ := isFinite_iff.1 hx
  rw [value, hr, Option.getD_some, EReal.toReal_coe]

/-- A finite double is a number that fits. -/
theorem fits_value {x : Float} (hx : x.isFinite) : Fits (value (.real x)) :=
  (denotes_unpack (extended?_value hx)).fits

theorem Convertible.isFinite (h : n.Convertible) : n.IsFinite := by
  obtain ⟨x, hx, hfinite⟩ := h
  cases n with
  | int n => trivial
  | real y =>
    cases hx
    exact hfinite

/-- A number is converted to the double nearest to it. -/
theorem Convertible.exists_toFloat (h : n.Convertible) :
    ∃ x, n.toFloat = .ok x ∧ extended? x = some (rounded n.value : EReal) := by
  obtain ⟨x, hx, hfinite⟩ := h
  refine ⟨x, hx, ?_⟩
  cases n with
  | real y =>
    cases hx
    rw [rounded_of_fits (fits_value hfinite)]
    exact extended?_value hfinite
  | int n =>
    obtain ⟨r, hr⟩ := isFinite_iff.1 hfinite
    rw [toFloat, floatOfInt] at hx
    rcases hn : ofInt? n with - | y <;> rw [hn] at hx <;> cases hx
    have hnearest := extended?_ofInt_intCast n
    rw [eq_of_ofInt? hn, hr, Option.some_inj] at hnearest
    rw [hr, value, eq_of_overflowed hnearest.symm]

end Number

namespace Interval

theorem contains_iff_exists {i : Interval} {r : ℝ} : i.Contains r ↔
    (∃ L, extended? i.lower = some L ∧ L ≤ r) ∧ ∃ U, extended? i.upper = some U ∧ r ≤ U :=
  ⟨fun ⟨L, U, hL, hU, hlow, hhigh⟩ ↦ ⟨⟨L, hL, hlow⟩, U, hU, hhigh⟩,
    fun ⟨⟨L, hL, hlow⟩, U, hU, hhigh⟩ ↦ ⟨L, U, hL, hU, hlow, hhigh⟩⟩

/-- An interval tells exactly which numbers it contains. -/
theorem containsNumber_iff (i : Interval) {m : Number} (hm : m.IsFinite) :
    i.containsNumber m = true ↔ i.Contains m.value := by
  rw [contains_iff_exists]
  cases m with
  | real x =>
    rw [containsNumber, Bool.and_eq_true, decide_eq_true_iff, decide_eq_true_iff, le_iff, le_iff]
    simp [Number.extended?_value hm]
  | int n =>
    rw [containsNumber, Bool.and_eq_true, isLE_compareInt?_iff, isGE_compareInt?_iff]
    rfl

/-! ### One number -/

variable {n : Number}

/-- The interval made of a number holds the double nearest to it alone. -/
theorem exists_ofNumber (h : n.Convertible) : ∃ i, ofNumber n = .ok i ∧ i.Bounded ∧
    i.Spans (rounded n.value) (rounded n.value) := by
  obtain ⟨x, hx, hvalue⟩ := h.exists_toFloat
  have hbound : boundOf n = .ok x := by
    rw [boundOf, hx]
    rfl
  have hmake : make x x = .ok ⟨x, x⟩ := by
    rw [make, if_neg]
    rw [lt_iff_lt hvalue hvalue]
    exact lt_irrefl _
  have hfinite : x.isFinite := isFinite_iff.2 ⟨_, hvalue⟩
  refine ⟨⟨x, x⟩, ?_, ⟨hfinite, hfinite, (le_iff_le hvalue hvalue).2 le_rfl⟩, hvalue, hvalue,
    le_rfl, EReal.coe_ne_top _, EReal.coe_ne_bot _⟩
  rw [ofNumber, ofNumbers, hbound]
  exact hmake

/-! ### Operands -/

/-- An operation on intervals that is not refused has a result, also as one on quantities, which
contains the exact results if no double computed on the way is infinite. -/
theorem Operation.Sound.exists_quantity {op : Operation} (h : op.Sound)
    (hrefuses : ∀ fault, ¬op.Refuses fault) : ∃ k, Quantity.ofInterval op.run = .ok (.interval k) ∧
      ((∀ x ∈ op.computed, x.isFinite) → ∀ r, op.Exact r → k.Contains r) := by
  rcases hrun : op.run with fault | k
  · exact absurd ((h.fails_iff fault).1 hrun) (hrefuses fault)
  · exact ⟨k, rfl, h.contains k hrun⟩

/-- A sum, a difference or a product. -/
inductive RingOperation where
  | add
  | sub
  | mul

namespace RingOperation

def onQuantities : RingOperation → Quantity → Quantity → Except Failure Quantity
  | add => Quantity.add
  | sub => Quantity.sub
  | mul => Quantity.mul

def onReals : RingOperation → ℝ → ℝ → ℝ
  | add, a, b => a + b
  | sub, a, b => a - b
  | mul, a, b => a * b

/-- What is done with an interval and the interval of a number on its right. -/
def withRight : RingOperation → Interval → Interval → Operation
  | add, i, j => .add i j
  | sub, i, j => .sub i j
  | mul, i, j => .mul i j

/-- What is done with an interval and the interval of a number on its left. Sums and products take
the number as if it stood on the right. -/
def withLeft : RingOperation → Interval → Interval → Operation
  | add, i, j => .add i j
  | sub, i, j => .sub j i
  | mul, i, j => .mul i j

variable {i j : Interval} {a r : ℝ}

theorem onQuantities_number (op : RingOperation) (i : Interval) (hj : ofNumber n = .ok j) :
    op.onQuantities (.interval i) (.number n) = Quantity.ofInterval (op.withRight i j).run ∧
      op.onQuantities (.number n) (.interval i) = Quantity.ofInterval (op.withLeft i j).run := by
  cases op <;>
    simp only [onQuantities, Quantity.add, Quantity.sub, Quantity.mul, addNumber, subNumber,
      numberSub, mulNumber, hj] <;>
    exact ⟨rfl, rfl⟩

theorem exact_withRight (op : RingOperation) (ha : i.Contains a) (hr : j.Contains r) :
    (op.withRight i j).Exact (op.onReals a r) := by
  cases op <;> exact ⟨a, r, ha, hr, rfl⟩

theorem exact_withLeft (op : RingOperation) (ha : i.Contains a) (hr : j.Contains r) :
    (op.withLeft i j).Exact (op.onReals r a) := by
  cases op with
  | add => exact ⟨a, r, ha, hr, add_comm r a⟩
  | sub => exact ⟨r, a, hr, ha, rfl⟩
  | mul => exact ⟨a, r, ha, hr, mul_comm r a⟩

theorem exists_withRight (op : RingOperation) (hi : i.Bounded) (hj : j.Bounded) :
    ∃ k, Quantity.ofInterval (op.withRight i j).run = .ok (.interval k) ∧
      ((∀ x ∈ (op.withRight i j).computed, x.isFinite) →
        ∀ r, (op.withRight i j).Exact r → k.Contains r) := by
  have hoperands : ∀ i' ∈ (op.withRight i j).operands, i'.Bounded := by
    cases op <;> exact List.forall_mem_cons.2 ⟨hi, List.forall_mem_singleton.2 hj⟩
  refine (Operation.sound_of_bounded _ hoperands).exists_quantity ?_
  cases op <;> exact fun _ ↦ not_false

theorem exists_withLeft (op : RingOperation) (hi : i.Bounded) (hj : j.Bounded) :
    ∃ k, Quantity.ofInterval (op.withLeft i j).run = .ok (.interval k) ∧
      ((∀ x ∈ (op.withLeft i j).computed, x.isFinite) →
        ∀ r, (op.withLeft i j).Exact r → k.Contains r) := by
  cases op with
  | add => exact add.exists_withRight hi hj
  | sub => exact sub.exists_withRight hj hi
  | mul => exact mul.exists_withRight hi hj

end RingOperation

/-- The number counts as a real number: the interval made of it contains that one alone, and as an
operand on either side of an interval with finite bounds it gives a result, which contains the exact
results for that one unless a double computed on the way is infinite. -/
structure StandsFor (n : Number) (r : ℝ) : Prop where
  alone : ∃ i, ofNumber n = .ok i ∧
    ∀ m : Number, m.IsFinite → (i.containsNumber m = true ↔ m.value = r)
  right : ∀ (op : RingOperation) (i : Interval), i.Bounded → ∃ j k, ofNumber n = .ok j ∧
    op.onQuantities (.interval i) (.number n) = .ok (.interval k) ∧
      ((∀ x ∈ (op.withRight i j).computed, x.isFinite) →
        ∀ a, i.Contains a → k.Contains (op.onReals a r))
  left : ∀ (op : RingOperation) (i : Interval), i.Bounded → ∃ j k, ofNumber n = .ok j ∧
    op.onQuantities (.number n) (.interval i) = .ok (.interval k) ∧
      ((∀ x ∈ (op.withLeft i j).computed, x.isFinite) →
        ∀ a, i.Contains a → k.Contains (op.onReals r a))

/-- A number counts as the double nearest to it. -/
theorem standsFor_rounded (h : n.Convertible) : StandsFor n (rounded n.value) := by
  obtain ⟨j, hj, hbounded, hspans⟩ := exists_ofNumber h
  have hcontains {r : ℝ} : j.Contains r ↔ r = rounded n.value := by
    rw [hspans.contains_iff, EReal.coe_le_coe_iff, EReal.coe_le_coe_iff, and_comm, le_antisymm_iff]
  have hself : j.Contains (rounded n.value) := hcontains.2 rfl
  refine ⟨⟨j, hj, fun m hm ↦ (j.containsNumber_iff hm).trans hcontains⟩, fun op i hi ↦ ?_,
    fun op i hi ↦ ?_⟩
  · obtain ⟨k, hk, hresults⟩ := op.exists_withRight hi hbounded
    exact ⟨j, k, hj, (op.onQuantities_number i hj).1.trans hk,
      fun hfinite a ha ↦ hresults hfinite _ (op.exact_withRight ha hself)⟩
  · obtain ⟨k, hk, hresults⟩ := op.exists_withLeft hi hbounded
    exact ⟨j, k, hj, (op.onQuantities_number i hj).2.trans hk,
      fun hfinite a ha ↦ hresults hfinite _ (op.exact_withLeft ha hself)⟩

/-! ### Hulls -/

/-- Where one of two doubles is chosen time and again, the last choice is one of them all, and it
stands before all of them. -/
theorem exists_extreme (choose : Float → Float → Float) (choose' : ℝ → ℝ → ℝ)
    (before : ℝ → ℝ → Prop)
    (hchoose : ∀ {x y : Float} {a b : ℝ}, extended? x = some (a : EReal) →
      extended? y = some (b : EReal) → extended? (choose x y) = some (choose' a b : EReal))
    (heither : ∀ a b, choose' a b = a ∨ choose' a b = b)
    (hbefore : ∀ {c a b}, before c (choose' a b) → before c a ∧ before c b)
    (hself : ∀ a, before a a) {x : Float} {a : ℝ} (hx : extended? x = some (a : EReal))
    {l : List Float} {m : List ℝ}
    (h : List.Forall₂ (fun (y : Float) (b : ℝ) ↦ extended? y = some (b : EReal)) l m) :
    ∃ c ∈ a :: m, extended? (l.foldl choose x) = some (c : EReal) ∧ ∀ b ∈ a :: m, before c b := by
  induction h generalizing x a with
  | nil => exact ⟨a, List.mem_singleton_self a, hx, List.forall_mem_singleton.2 (hself a)⟩
  | @cons y b l m hy _ ih =>
    obtain ⟨c, hc, hfold, hall⟩ := ih (hchoose hx hy)
    obtain ⟨hfirst, hall⟩ := List.forall_mem_cons.1 hall
    obtain ⟨ha, hb⟩ := hbefore hfirst
    refine ⟨c, ?_, hfold, List.forall_mem_cons.2 ⟨ha, List.forall_mem_cons.2 ⟨hb, hall⟩⟩⟩
    rcases List.mem_cons.1 hc with rfl | hc
    · rcases heither a b with h | h <;> rw [h] <;> simp
    · exact List.mem_cons_of_mem _ (List.mem_cons_of_mem _ hc)

theorem exists_mapM_boundOf {values : List Number} (h : ∀ n ∈ values, n.Convertible) :
    ∃ l, values.mapM boundOf = .ok l ∧ List.Forall₂
      (fun (x : Float) (a : ℝ) ↦ extended? x = some (a : EReal)) l
        (values.map fun n ↦ rounded n.value) := by
  induction values with
  | nil => exact ⟨[], rfl, .nil⟩
  | cons n values ih =>
    obtain ⟨hn, h⟩ := List.forall_mem_cons.1 h
    obtain ⟨x, hx, hvalue⟩ := hn.exists_toFloat
    obtain ⟨l, hl, hvalues⟩ := ih h
    refine ⟨x :: l, ?_, .cons hvalue hvalues⟩
    rw [List.mapM_cons, boundOf, hx, hl]
    rfl

/-- The hull of numbers reaches from the double nearest to one of them to that of another one. -/
theorem exists_hull {values : List Number} (hne : values ≠ []) (h : ∀ n ∈ values, n.Convertible) :
    ∃ k, hull values = .ok k ∧ ∀ r, k.Contains r ↔ ∃ n ∈ values, ∃ n' ∈ values,
      rounded n.value ≤ r ∧ r ≤ rounded n'.value := by
  obtain ⟨l, hl, hvalues⟩ := exists_mapM_boundOf h
  obtain - | ⟨n, values⟩ := values
  · exact absurd rfl hne
  obtain - | ⟨hx, hrest⟩ := hvalues
  rename_i x rest
  obtain ⟨low, hlow, hleast, hle⟩ := exists_extreme minOf min (· ≤ ·)
    (fun hx hy ↦ by rw [extended?_minOf hx, hy]; rfl) min_choice le_min_iff.1 le_refl hx hrest
  obtain ⟨high, hhigh, hgreatest, hge⟩ := exists_extreme maxOf max (· ≥ ·)
    (fun hx hy ↦ by rw [extended?_maxOf hx, hy]; rfl) max_choice max_le_iff.1 le_refl hx hrest
  change low ∈ (n :: values).map (fun n ↦ rounded n.value) at hlow
  change high ∈ (n :: values).map (fun n ↦ rounded n.value) at hhigh
  have hordered : (low : EReal) ≤ high := EReal.coe_le_coe_iff.2 (hle high hhigh)
  obtain ⟨w, hw, rfl⟩ := List.mem_map.1 hlow
  obtain ⟨w', hw', rfl⟩ := List.mem_map.1 hhigh
  replace hle : ∀ v ∈ n :: values, rounded w.value ≤ rounded v.value := List.forall_mem_map.1 hle
  replace hge : ∀ v ∈ n :: values, rounded w'.value ≥ rounded v.value := List.forall_mem_map.1 hge
  obtain ⟨k, hk, hlower, hupper⟩ := (yields_make hleast hgreatest hordered).returns
  have hspans : k.Spans (rounded w.value) (rounded w'.value) :=
    ⟨hlower, hupper, hordered, EReal.coe_ne_top _, EReal.coe_ne_bot _⟩
  refine ⟨k, ?_, fun r ↦ ?_⟩
  · rw [hull, hl]
    exact hk
  rw [hspans.contains_iff, EReal.coe_le_coe_iff, EReal.coe_le_coe_iff]
  constructor
  · exact fun ⟨hlr, hru⟩ ↦ ⟨w, hw, w', hw', hlr, hru⟩
  · rintro ⟨v, hv, v', hv', hlr, hru⟩
    exact ⟨(hle v hv).trans hlr, hru.trans (hge v' hv')⟩

/-- Numbers count as the doubles nearest to them, alone, as operands, and in the hull of them all. A
number is in the interval made of it if and only if it is a double, in the sense that it has 53 bits
at most, and it counts as itself then and is in the hull. -/
theorem numbers_standFor_rounded {values : List Number} (hne : values ≠ [])
    (h : ∀ n ∈ values, n.Convertible) :
    (∀ n ∈ values, StandsFor n (rounded n.value)) ∧
    ∃ k, hull values = .ok k ∧
      (∀ m : Number, m.IsFinite → (k.containsNumber m = true ↔ ∃ n ∈ values, ∃ n' ∈ values,
        rounded n.value ≤ m.value ∧ m.value ≤ rounded n'.value)) ∧
      ∀ n ∈ values, ((∃ i, ofNumber n = .ok i ∧ i.containsNumber n = true) ↔ Fits n.value) ∧
        (Fits n.value → StandsFor n n.value ∧ k.containsNumber n = true) := by
  have hstands (n) (hn : n ∈ values) := standsFor_rounded (h n hn)
  obtain ⟨k, hk, hcontains⟩ := exists_hull hne h
  refine ⟨hstands, k, hk, fun m hm ↦ (k.containsNumber_iff hm).trans (hcontains m.value),
    fun n hn ↦ ⟨?_, fun hfits ↦ ?_⟩⟩
  · obtain ⟨i, hi, halone⟩ := (hstands n hn).alone
    have hself : i.containsNumber n = true ↔ n.value = rounded n.value :=
      halone n (h n hn).isFinite
    constructor
    · rintro ⟨j, hj, hn⟩
      obtain rfl : i = j := Except.ok.inj (hi.symm.trans hj)
      rw [hself.1 hn]
      exact fits_rounded _
    · exact fun hfits ↦ ⟨i, hi, hself.2 (rounded_of_fits hfits).symm⟩
  · have hrounded := rounded_of_fits hfits
    refine ⟨hrounded ▸ hstands n hn, (k.containsNumber_iff (h n hn).isFinite).2 ?_⟩
    exact (hcontains n.value).2 ⟨n, hn, n, hn, hrounded.le, hrounded.ge⟩

end Interval

end Summand

namespace Summand.Small

open Summand.Interval Summand.Binary64

/-- Minus three is in the hull with an integer that is no double, and it counts as itself. -/
theorem standsFor_of_hull :
    ∃ k, hull [.int (-3), .int 9007199254740993] = .ok k ∧ k.containsNumber (.int (-3)) = true ∧
      StandsFor (.int (-3)) (-3) ∧
        StandsFor (.int 9007199254740993) (rounded 9007199254740993) := by
  have hconvertible : ∀ n ∈ [Number.int (-3), .int 9007199254740993], n.Convertible := by
    decide +kernel
  obtain ⟨hstands, k, hk, -, hfits⟩ := numbers_standFor_rounded (List.cons_ne_nil _ _) hconvertible
  obtain ⟨-, hself⟩ := hfits (.int (-3)) List.mem_cons_self
  obtain ⟨hthree, hcontains⟩ := hself (fits_intCast (by norm_num))
  have hlarge := hstands (.int 9007199254740993) (List.mem_cons_of_mem _ List.mem_cons_self)
  simp only [Number.value, Int.cast_neg, Int.cast_ofNat] at hthree hlarge
  exact ⟨k, hk, hcontains, hthree, hlarge⟩

/-- An integer of 54 bits is not in the interval made of it, nor in a hull, and its sum with the
integer next to its opposite is not in the sum of intervals. -/
theorem escapes_of_rounded_integer :
    (Number.int 9007199254740993).Convertible ∧
    (∃ i, ofNumber (.int 9007199254740993) = .ok i ∧
      i.containsNumber (.int 9007199254740993) = false) ∧
    (∃ i, hull [.int 9007199254740993] = .ok i ∧
      i.containsNumber (.int 9007199254740993) = false) ∧
    ∃ k, (⟨-9007199254740992, -9007199254740992⟩ : Interval).addNumber (.int 9007199254740993) =
        .ok k ∧
      (⟨-9007199254740992, -9007199254740992⟩ : Interval).containsNumber
        (.int (-9007199254740992)) = true ∧
      k.lower.isFinite = true ∧ k.upper.isFinite = true ∧ k.containsNumber (.int 1) = false := by
  have hescapes (result : Except Fault Interval) (n : Number)
      (h : result.toOption.any (fun i ↦ i.lower.isFinite && i.upper.isFinite &&
        !i.containsNumber n) = true) : ∃ i, result = .ok i ∧ i.lower.isFinite = true ∧
          i.upper.isFinite = true ∧ i.containsNumber n = false := by
    obtain ⟨i, hi, hproperty⟩ := exists_ok_of_any h
    simp only [Bool.and_eq_true, Bool.not_eq_true'] at hproperty
    exact ⟨i, hi, hproperty.1.1, hproperty.1.2, hproperty.2⟩
  refine ⟨by decide +kernel, ?_, ?_, ?_⟩
  · obtain ⟨i, hi, -, -, h⟩ := hescapes (ofNumber (.int 9007199254740993))
      (.int 9007199254740993) (by decide +kernel)
    exact ⟨i, hi, h⟩
  · obtain ⟨i, hi, -, -, h⟩ := hescapes (hull [.int 9007199254740993])
      (.int 9007199254740993) (by decide +kernel)
    exact ⟨i, hi, h⟩
  · obtain ⟨k, hk, hlower, hupper, h⟩ := hescapes
      ((⟨-9007199254740992, -9007199254740992⟩ : Interval).addNumber (.int 9007199254740993))
      (.int 1) (by decide +kernel)
    exact ⟨k, hk, by decide +kernel, hlower, hupper, h⟩

end Summand.Small
