import Summand.Proofs.Normalization

/-!
# Doubles as extended reals

A double other than a NaN denotes an extended real (`extended?`). Comparisons are those of the
numbers (`lt_iff`), and a sum denotes the exact sum rounded to the nearest double (`extended?_add`),
where what is too large becomes infinite.
-/

namespace Summand.Binary64

open Float.Model (Format totalExponent)
open Float.Model.UnpackedFloat hiding add pack unpack round
open Float.Model (UnpackedFloat)

/-! ### What doubles denote -/

/-- The extended real that a double denotes; a NaN denotes none. -/
noncomputable def extended? (x : Float) : Option EReal := denoted (unpack x)

theorem extended?_eq (x : Float) : extended? x =
    (magnitude? (x.toBits.toNat % 2 ^ 63)).map (signed (decide (2 ^ 63 ≤ x.toBits.toNat))) :=
  denoted_unpack _

/-- A double is a number below `2 ^ 1024`, or infinite. -/
theorem overflowed_extended {x : Float} {X : EReal} (h : extended? x = some X) :
    overflowed X = X := by
  rw [extended?_eq, Option.map_eq_some_iff] at h
  obtain ⟨Y, hY, rfl⟩ := h
  rw [overflowed_signed, overflowed_of_magnitude? hY]

theorem unpack_ofBits (b : UInt64) : unpack (Float.ofBits b) = UnpackedFloat.unpack .binary64
    (UnpackedFloat.pack .binary64 (UnpackedFloat.unpack .binary64 b.toBitVec)) := rfl

theorem extended?_ofBits (b : UInt64) : extended? (Float.ofBits b) =
    (magnitude? (b.toNat % 2 ^ 63)).map (signed (decide (2 ^ 63 ≤ b.toNat))) := by
  have hencoded : extended? (Float.ofBits b) =
      (denoted (UnpackedFloat.unpack .binary64 b.toBitVec)).map overflowed := by
    rw [extended?, unpack_ofBits]
    exact denoted_unpack_pack (canonical_unpack _)
  rw [hencoded, denoted_unpack]
  show ((magnitude? (b.toNat % 2 ^ 63)).map (signed (decide (2 ^ 63 ≤ b.toNat)))).map overflowed = _
  rcases hX : magnitude? (b.toNat % 2 ^ 63) with - | X
  · rfl
  · rw [Option.map_some, Option.map_some, overflowed_signed, overflowed_of_magnitude? hX]

theorem denotes_unpack {x : Float} {r : ℝ} (h : extended? x = some (r : EReal)) :
    Denotes (unpack x) r := ⟨canonical_unpack _, h⟩

theorem isFinite_iff {x : Float} : x.isFinite ↔ ∃ r : ℝ, extended? x = some (r : EReal) := by
  show (unpack x).isFinite = true ↔ ∃ r : ℝ, denoted (unpack x) = some (r : EReal)
  rcases unpack x with s | - | s | ⟨s, m, e, hm⟩
  · obtain ⟨negative, rfl⟩ := exists_signOf s
    cases negative <;> simp [UnpackedFloat.isFinite, signed]
  · simp [UnpackedFloat.isFinite, denoted]
  · simpa [UnpackedFloat.isFinite] using ⟨0, rfl⟩
  · simp [UnpackedFloat.isFinite]

theorem isNaN_eq_false {x : Float} {X : EReal} (h : extended? x = some X) : x.isNaN = false := by
  rw [extended?] at h
  show (unpack x).isNaN = false
  cases hu : unpack x with
  | notANumber => rw [hu] at h; cases h
  | _ => rfl

theorem extended?_zero : extended? 0.0 = some ((0 : ℝ) : EReal) := denoted_zero .positive

theorem extended?_one : extended? 1.0 = some ((1 : ℝ) : EReal) := by
  have hunpack : unpack 1.0 = .finite .positive (2 ^ 52) (-52) (by norm_num) := rfl
  rw [extended?, hunpack, denoted_finite, value]
  norm_num [Sign.apply]

theorem unpack_add (x y : Float) : unpack (x + y) = UnpackedFloat.unpack .binary64
    (UnpackedFloat.pack .binary64 (UnpackedFloat.add .binary64 (unpack x) (unpack y))) := rfl

/-- A double encoded from a decoded number denotes that number, unless it is too large. -/
theorem extended?_of_encoded {z : Float} {u : UnpackedFloat} {X : EReal}
    (hz : unpack z = UnpackedFloat.unpack .binary64 (UnpackedFloat.pack .binary64 u))
    (hu : Canonical u) (hX : denoted u = some X) : extended? z = some (overflowed X) := by
  rw [extended?, hz, denoted_unpack_pack hu, hX, Option.map_some]

/-! ### Order -/

/-- Among canonical numbers the greater exponent is that of the greater number. -/
theorem mul_zpow_lt_iff {m m' : ℕ} {e e' : ℤ} (hm : m < 2 ^ 53) (hm' : m' < 2 ^ 53)
    (he : -1074 ≤ e) (he' : -1074 ≤ e') (h : 2 ^ 52 ≤ m ∨ e = -1074)
    (h' : 2 ^ 52 ≤ m' ∨ e' = -1074) :
    (m : ℝ) * 2 ^ e < m' * 2 ^ e' ↔ e < e' ∨ e = e' ∧ m < m' := by
  -- A greater exponent is not the least one, so the greater number has all its bits.
  have hless {m m' : ℕ} {e e' : ℤ} (hm : m < 2 ^ 53) (h' : 2 ^ 52 ≤ m') (hlt : e < e') :
      (m : ℝ) * 2 ^ e < m' * 2 ^ e' := by
    calc (m : ℝ) * 2 ^ e < 2 ^ (53 : ℤ) * 2 ^ e :=
        mul_lt_mul_of_pos_right (by exact_mod_cast hm) (two_zpow_pos e)
      _ = 2 ^ (53 + e) := (two_zpow_add _ _).symm
      _ ≤ 2 ^ (52 + e') := zpow_le_zpow_right₀ one_le_two (by omega)
      _ = 2 ^ (52 : ℤ) * 2 ^ e' := two_zpow_add _ _
      _ ≤ m' * 2 ^ e' := mul_le_mul_of_nonneg_right (by exact_mod_cast h') (two_zpow_pos e').le
  rcases lt_trichotomy e e' with hlt | rfl | hgt
  · simp only [hlt, true_or, iff_true]
    exact hless hm (h'.resolve_right (by omega)) hlt
  · rw [mul_lt_mul_iff_left₀ (two_zpow_pos e), Nat.cast_lt]
    simp
  · have := hless hm' (h.resolve_right (by omega)) hgt
    simp only [this.not_gt, false_iff]
    omega

theorem lt_unpacked_iff {u v : UnpackedFloat} (hu : Canonical u) (hv : Canonical v) :
    u.lt v ↔ ∃ X Y, denoted u = some X ∧ denoted v = some Y ∧ X < Y := by
  have hthen (e e' : ℤ) (m m' : ℕ) : (compare e e').then (compare m m') = .lt ↔
      e < e' ∨ e = e' ∧ m < m' := by
    rw [Ordering.then_eq_lt, Int.compare_eq_lt, Int.compare_eq_eq, Nat.compare_eq_lt]
  have hthen' (e e' : ℤ) (m m' : ℕ) : (compare e e').then (compare m m') = .gt ↔
      e' < e ∨ e' = e ∧ m' < m := by
    rw [Ordering.then_eq_gt, Int.compare_eq_gt, Int.compare_eq_eq, Nat.compare_eq_gt, eq_comm]
  have hpositive {m : ℕ} (hm : 0 < m) (e : ℤ) : (0 : ℝ) < m * 2 ^ e :=
    mul_pos (Nat.cast_pos.2 hm) (two_zpow_pos e)
  rcases u with (- | -) | - | - | ⟨- | -, m, e, hm⟩ <;>
    rcases v with (- | -) | - | - | ⟨- | -, m', e', hm'⟩ <;>
    simp [UnpackedFloat.lt, UnpackedFloat.compare, denoted, value, Sign.apply, hthen, hthen',
      -EReal.coe_mul, -EReal.coe_neg]
  case infinity.negative.infinity.positive => rfl
  case finite.negative.finite.negative =>
    exact (mul_zpow_lt_iff hv.1 hu.1 hv.2.1 hu.2.1 hv.2.2 hu.2.2).symm
  case finite.positive.finite.positive =>
    exact (mul_zpow_lt_iff hu.1 hv.1 hu.2.1 hv.2.1 hu.2.2 hv.2.2).symm
  -- The rest compares numbers of different signs.
  case zero.finite.negative => exact (hpositive hm' e').le
  case zero.finite.positive => exact hpositive hm' e'
  case finite.negative.zero => exact hpositive hm e
  case finite.positive.zero => exact (hpositive hm e).le
  case finite.negative.finite.positive => linarith [hpositive hm e, hpositive hm' e']
  case finite.positive.finite.negative => linarith [hpositive hm e, hpositive hm' e']

theorem lt_iff {x y : Float} :
    x < y ↔ ∃ X Y, extended? x = some X ∧ extended? y = some Y ∧ X < Y := by
  show decide ((unpack x).lt (unpack y) = true) = true ↔ _
  rw [decide_eq_true_iff]
  exact lt_unpacked_iff (canonical_unpack _) (canonical_unpack _)

/-- Numbers are ordered as what they denote. -/
theorem lt_iff_lt {x y : Float} {X Y : EReal} (hx : extended? x = some X)
    (hy : extended? y = some Y) : x < y ↔ X < Y := by
  rw [lt_iff]
  constructor
  · rintro ⟨X', Y', hX, hY, h⟩
    obtain rfl : X = X' := Option.some_inj.1 (hx.symm.trans hX)
    obtain rfl : Y = Y' := Option.some_inj.1 (hy.symm.trans hY)
    exact h
  · exact fun h ↦ ⟨X, Y, hx, hy, h⟩

theorem compare_swap (u v : UnpackedFloat) : v.compare u = (u.compare v).map Ordering.swap := by
  have hthen (e e' : ℤ) (m m' : ℕ) : (compare e' e).then (compare m' m) =
      ((compare e e').then (compare m m')).swap := by
    rw [Ordering.swap_then, ← Int.compare_swap, ← Nat.compare_swap]
  rcases u with (- | -) | - | - | ⟨- | -, m, e, hm⟩ <;>
    rcases v with (- | -) | - | - | ⟨- | -, m', e', hm'⟩ <;> try rfl
  · exact congrArg (fun o : Ordering ↦ some o.swap) (hthen e e' m m')
  · exact congrArg some (hthen e e' m m')

theorem le_unpacked_iff_not_lt {u v : UnpackedFloat} (hu : u ≠ .notANumber)
    (hv : v ≠ .notANumber) : u.le v ↔ ¬v.lt u := by
  obtain ⟨o, ho⟩ : ∃ o, u.compare v = some o := by
    rcases u with (- | -) | - | - | ⟨- | -, m, e, hm⟩ <;>
      rcases v with (- | -) | - | - | ⟨- | -, m', e', hm'⟩ <;>
      first | exact ⟨_, rfl⟩ | exact absurd rfl hu | exact absurd rfl hv
  rw [UnpackedFloat.le, UnpackedFloat.lt, compare_swap u, ho]
  cases o <;> decide

theorem unpack_ne_notANumber {x : Float} {X : EReal} (h : extended? x = some X) :
    unpack x ≠ .notANumber := by
  intro hu
  rw [extended?, hu] at h
  cases h

theorem le_iff_le {x y : Float} {X Y : EReal} (hx : extended? x = some X)
    (hy : extended? y = some Y) : x ≤ y ↔ X ≤ Y := by
  have hnot : x ≤ y ↔ ¬y < x := by
    show decide ((unpack x).le (unpack y) = true) = true ↔
      ¬decide ((unpack y).lt (unpack x) = true) = true
    rw [decide_eq_true_iff, decide_eq_true_iff]
    exact le_unpacked_iff_not_lt (unpack_ne_notANumber hx) (unpack_ne_notANumber hy)
  rw [hnot, lt_iff_lt hy hx, not_lt]

/-- Doubles that compare equal denote the same number. -/
theorem eq_of_beq {x y : Float} {X Y : EReal} (hx : extended? x = some X)
    (hy : extended? y = some Y) (h : (x == y) = true) : X = Y := by
  have hcompare : (unpack x).compare (unpack y) = some .eq := beq_iff_eq.1 h
  have hle : x ≤ y := by
    show decide ((unpack x).le (unpack y) = true) = true
    rw [decide_eq_true_iff, UnpackedFloat.le, hcompare]
    rfl
  have hge : y ≤ x := by
    show decide ((unpack y).le (unpack x) = true) = true
    rw [decide_eq_true_iff, UnpackedFloat.le, compare_swap (unpack x), hcompare]
    rfl
  exact ((le_iff_le hx hy).1 hle).antisymm ((le_iff_le hy hx).1 hge)

/-! ### Negation and addition -/

theorem canonical_neg {u : UnpackedFloat} (h : Canonical u) : Canonical u.neg := by
  rcases u with s | - | s | ⟨s, m, e, hm⟩ <;> exact h

theorem denoted_neg (u : UnpackedFloat) : denoted u.neg = (denoted u).map Neg.neg := by
  cases u with
  | notANumber => rfl
  | infinity s =>
    cases s with
    | negative => exact congrArg some EReal.neg_bot.symm
    | positive => exact congrArg some EReal.neg_top.symm
  | zero s => rw [UnpackedFloat.neg, denoted_zero, denoted_zero, Option.map_some, neg_zero]
  | finite s m e hm =>
    have hvalue : value (.finite (-s) m e hm) = -value (.finite s m e hm) := by
      cases s
      · show ((m : ℤ) : ℝ) * 2 ^ e = -(((-m : ℤ) : ℝ) * 2 ^ e)
        push_cast
        ring
      · show ((-m : ℤ) : ℝ) * 2 ^ e = -(((m : ℤ) : ℝ) * 2 ^ e)
        push_cast
        ring
    rw [UnpackedFloat.neg, denoted_finite, denoted_finite, hvalue, Option.map_some, EReal.coe_neg]

theorem extended?_neg (x : Float) : extended? (-x) = (extended? x).map Neg.neg := by
  have hencoded : extended? (-x) = (denoted (unpack x).neg).map overflowed :=
    denoted_unpack_pack (canonical_neg (canonical_unpack x.toBits.toBitVec))
  rw [hencoded, denoted_neg]
  show ((extended? x).map Neg.neg).map overflowed = _
  rcases hx : extended? x with - | X
  · rfl
  · rw [Option.map_some, Option.map_some, overflowed_neg, overflowed_extended hx]

/-- The extended real that the nearest double to an extended real denotes. -/
noncomputable def nearest : EReal → EReal
  | ⊥ => ⊥
  | ⊤ => ⊤
  | (r : ℝ) => overflowed (rounded r)

theorem nearest_coe (r : ℝ) : nearest r = overflowed (rounded r) := rfl

theorem nearest_zero : nearest ((0 : ℝ) : EReal) = ((0 : ℝ) : EReal) := by
  rw [nearest_coe, rounded_zero, overflowed_of_abs_lt (by rw [abs_zero]; exact two_zpow_pos _)]

@[simp] theorem nearest_top : nearest ⊤ = ⊤ := rfl

@[simp] theorem nearest_bot : nearest ⊥ = ⊥ := rfl

theorem nearest_mono : Monotone nearest := by
  intro X Y h
  induction X with
  | bot => exact bot_le
  | top => rw [top_le_iff.1 h]
  | coe r =>
    induction Y with
    | bot => exact absurd (le_bot_iff.1 h) (EReal.coe_ne_bot r)
    | top => exact le_top
    | coe r' =>
      exact overflowed_mono (EReal.coe_le_coe_iff.2 (rounded_mono (EReal.coe_le_coe_iff.1 h)))

theorem eq_infinity_of_denoted {u : UnpackedFloat} (negative : Bool)
    (h : denoted u = some (signed negative ⊤)) : u = .infinity (signOf negative) := by
  have hne (r : ℝ) : (r : EReal) ≠ signed negative ⊤ := by cases negative <;> simp [signed]
  cases u with
  | notANumber => cases h
  | infinity s =>
    obtain ⟨negative', rfl⟩ := exists_signOf s
    rw [denoted_infinity, Option.some_inj] at h
    cases negative <;> cases negative' <;> simp [signed] at h ⊢
  | zero s => exact absurd (Option.some_inj.1 ((denoted_zero s).symm.trans h)) (hne 0)
  | finite s m e hm => exact absurd (Option.some_inj.1 h) (hne _)

/-- A sum with an infinity is that infinity, unless the operands are opposite infinities. -/
theorem add_infinity (negative : Bool) {v : UnpackedFloat} {Y : EReal} (hv : denoted v = some Y)
    (hY : Y ≠ -signed negative ⊤) :
    UnpackedFloat.add .binary64 (.infinity (signOf negative)) v = .infinity (signOf negative) ∧
      UnpackedFloat.add .binary64 v (.infinity (signOf negative)) =
        .infinity (signOf negative) := by
  cases v with
  | notANumber => cases hv
  | infinity s =>
    obtain ⟨negative', rfl⟩ := exists_signOf s
    rw [denoted_infinity, Option.some_inj] at hv
    subst hv
    cases negative <;> cases negative' <;> simp [signed] at hY ⊢ <;> rfl
  | zero s => exact ⟨rfl, rfl⟩
  | finite s m e hm => exact ⟨rfl, rfl⟩

/-- A sum denotes the exact sum rounded once it is encoded, unless the operands are opposite
infinities. -/
theorem exists_denoted_add {u v : UnpackedFloat} {X Y : EReal} (hu : Canonical u)
    (hv : Canonical v) (hX : denoted u = some X) (hY : denoted v = some Y)
    (h : ¬(X = ⊤ ∧ Y = ⊥)) (h' : ¬(X = ⊥ ∧ Y = ⊤)) :
    ∃ Z, Canonical (UnpackedFloat.add .binary64 u v) ∧
      denoted (UnpackedFloat.add .binary64 u v) = some Z ∧ overflowed Z = nearest (X + Y) := by
  have hinfinite (negative : Bool)
      (hsum : UnpackedFloat.add .binary64 u v = .infinity (signOf negative))
      (hXY : X + Y = signed negative ⊤) :
      ∃ Z, Canonical (UnpackedFloat.add .binary64 u v) ∧
        denoted (UnpackedFloat.add .binary64 u v) = some Z ∧ overflowed Z = nearest (X + Y) := by
    refine ⟨signed negative ⊤, hsum ▸ trivial, hsum ▸ denoted_infinity negative, ?_⟩
    rw [hXY]
    cases negative <;> simp [signed]
  induction X with
  | bot =>
    have hY' : Y ≠ ⊤ := fun hY' ↦ h' ⟨rfl, hY'⟩
    refine hinfinite true ?_ (EReal.bot_add Y)
    rw [eq_infinity_of_denoted true hX]
    exact (add_infinity true hY (by simpa [signed] using hY')).1
  | top =>
    have hY' : Y ≠ ⊥ := fun hY' ↦ h ⟨rfl, hY'⟩
    refine hinfinite false ?_ (EReal.top_add_of_ne_bot hY')
    rw [eq_infinity_of_denoted false hX]
    exact (add_infinity false hY (by simpa [signed] using hY')).1
  | coe r =>
    induction Y with
    | bot =>
      refine hinfinite true ?_ (EReal.add_bot _)
      rw [eq_infinity_of_denoted true hY]
      exact (add_infinity true hX (by simp [signed])).2
    | top =>
      refine hinfinite false ?_ (EReal.coe_add_top r)
      rw [eq_infinity_of_denoted false hY]
      exact (add_infinity false hX (by simp [signed])).2
    | coe r' =>
      have hsum : Denotes (UnpackedFloat.add .binary64 u v) (rounded (r + r')) :=
        Denotes.add ⟨hu, hX⟩ ⟨hv, hY⟩
      exact ⟨_, hsum.canonical, hsum.denoted, by rw [← EReal.coe_add, nearest_coe]⟩

/-- A sum denotes the exact sum rounded, unless the operands are opposite infinities. -/
theorem extended?_add {x y : Float} {X Y : EReal} (hx : extended? x = some X)
    (hy : extended? y = some Y) (h : ¬(X = ⊤ ∧ Y = ⊥)) (h' : ¬(X = ⊥ ∧ Y = ⊤)) :
    extended? (x + y) = some (nearest (X + Y)) := by
  obtain ⟨Z, hcanonical, hZ, hsum⟩ :=
    exists_denoted_add (canonical_unpack _) (canonical_unpack _) hx hy h h'
  rw [← hsum]
  exact extended?_of_encoded (unpack_add x y) hcanonical hZ

theorem eq_notANumber_of_denoted {u : UnpackedFloat} (h : denoted u = none) : u = .notANumber := by
  cases u with
  | notANumber => rfl
  | infinity s => cases s <;> cases h
  | zero s => cases h
  | finite s m e hm => cases h

/-- What a sum denotes comes from what its operands denote. -/
theorem of_extended?_add {x y : Float} {Z : EReal} (h : extended? (x + y) = some Z) :
    ∃ X Y, extended? x = some X ∧ extended? y = some Y ∧ Z = nearest (X + Y) := by
  have hnumber : UnpackedFloat.add .binary64 (unpack x) (unpack y) ≠ .notANumber := by
    intro hsum
    rw [extended?, unpack_add, hsum, denoted_unpack_pack (u := .notANumber) trivial] at h
    cases h
  rcases hx : extended? x with - | X
  · rw [eq_notANumber_of_denoted hx] at hnumber
    exact absurd (by cases unpack y <;> rfl) hnumber
  rcases hy : extended? y with - | Y
  · rw [eq_notANumber_of_denoted hy] at hnumber
    exact absurd (by cases unpack x <;> rfl) hnumber
  have hopposite (negative : Bool) (hX : X = signed negative ⊤) (hY : Y = signed (!negative) ⊤) :
      False := by
    have hxinf : unpack x = .infinity (signOf negative) := eq_infinity_of_denoted _ (hX ▸ hx)
    have hyinf : unpack y = .infinity (signOf !negative) := eq_infinity_of_denoted _ (hY ▸ hy)
    rw [hxinf, hyinf] at hnumber
    exact hnumber (by cases negative <;> rfl)
  have hsum := extended?_add hx hy (fun hXY ↦ hopposite false hXY.1 (by simpa [signed] using hXY.2))
    fun hXY ↦ hopposite true (by simpa [signed] using hXY.1) hXY.2
  exact ⟨X, Y, rfl, rfl, Option.some_inj.1 (h.symm.trans hsum)⟩

/-- A finite sum has finite operands. -/
theorem finite_of_nearest_add {X Y : EReal} {r : ℝ} (h : nearest (X + Y) = r) :
    ∃ a b : ℝ, X = a ∧ Y = b ∧ rounded (a + b) = r := by
  induction X with
  | bot => simp at h
  | top =>
    induction Y with
    | bot => simp at h
    | top => simp at h
    | coe b => simp at h
  | coe a =>
    induction Y with
    | bot => simp at h
    | top => simp at h
    | coe b =>
      rw [← EReal.coe_add, nearest_coe] at h
      exact ⟨a, b, rfl, rfl, eq_of_overflowed h⟩

end Summand.Binary64
