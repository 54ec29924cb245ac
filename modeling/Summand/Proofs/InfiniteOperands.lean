import Summand.Proofs.Operations

/-!
# Operations with infinite operands

Doubles that are infinite are taken for the infinities, so that differences, products, quotients and
roots of all doubles are the exact ones rounded to the nearest double
(`extended?_sub_of_determinate`, `extended?_mul_eq_product?`, `extended?_div_eq_product?`,
`extended?_sqrt_eq_root`). Extended reals have a product of zero and an infinity, which is zero, and
doubles have none (`Indeterminate`, `product?`). A quotient is the product with an inverse, and the
inverse of an infinity is zero.
-/

namespace Summand.Binary64

open Float.Model.UnpackedFloat hiding add pack unpack round
open Float.Model (UnpackedFloat)

/-! ### Signs and infinities -/

theorem signed_mul (negative negative' : Bool) (X Y : EReal) :
    signed negative X * signed negative' Y = signed (negative ^^ negative') (X * Y) := by
  cases negative <;> cases negative' <;> simp [signed]

theorem signed_div (negative negative' : Bool) (X Y : EReal) :
    signed negative X / signed negative' Y = signed (negative ^^ negative') (X / Y) := by
  cases negative <;> cases negative' <;> simp [signed, div_eq_mul_inv, EReal.inv_neg]

theorem signOf_mul (negative negative' : Bool) :
    signOf negative * signOf negative' = signOf (negative ^^ negative') := by
  cases negative <;> cases negative' <;> rfl

theorem signOf_div (negative negative' : Bool) :
    signOf negative / signOf negative' = signOf (negative ^^ negative') := by
  cases negative <;> cases negative' <;> rfl

/-- One of the two infinities. -/
def IsInfinite (X : EReal) : Prop := ∃ negative, X = signed negative ⊤

theorem isInfinite_iff {X : EReal} : IsInfinite X ↔ X = ⊤ ∨ X = ⊥ := by
  simp [IsInfinite, signed, or_comm]

theorem not_isInfinite_coe (r : ℝ) : ¬IsInfinite (r : EReal) := by simp [isInfinite_iff]

theorem not_isInfinite_zero : ¬IsInfinite 0 := not_isInfinite_coe 0

theorem isInfinite_or_eq_coe (X : EReal) : IsInfinite X ∨ ∃ r : ℝ, X = r := by
  induction X <;> simp [isInfinite_iff]

theorem isInfinite_neg {X : EReal} : IsInfinite (-X) ↔ IsInfinite X := by
  rw [isInfinite_iff, isInfinite_iff, EReal.neg_eq_top_iff, EReal.neg_eq_bot_iff, or_comm]

theorem not_isInfinite_inv (X : EReal) : ¬IsInfinite X⁻¹ := by
  induction X with
  | bot => simpa using not_isInfinite_zero
  | top => simpa using not_isInfinite_zero
  | coe r => exact not_isInfinite_coe r⁻¹

/-- What is not zero has the inverse zero exactly if it is infinite. -/
theorem inv_eq_zero_iff {X : EReal} (h : X ≠ 0) : X⁻¹ = 0 ↔ IsInfinite X := by
  induction X with
  | bot => simp [isInfinite_iff]
  | top => simp [isInfinite_iff]
  | coe r =>
    rw [iff_false_right (not_isInfinite_coe r), ← EReal.coe_inv]
    exact_mod_cast inv_ne_zero fun hr ↦ h (congrArg _ hr)

/-- Zero times an infinity. -/
def Indeterminate (X Y : EReal) : Prop := X = 0 ∧ IsInfinite Y ∨ IsInfinite X ∧ Y = 0

theorem not_indeterminate_coe (r r' : ℝ) : ¬Indeterminate (r : EReal) r' := by
  rintro (⟨-, h⟩ | ⟨h, -⟩)
  · exact not_isInfinite_coe r' h
  · exact not_isInfinite_coe r h

theorem indeterminate_comm {X Y : EReal} : Indeterminate X Y ↔ Indeterminate Y X := by
  rw [Indeterminate, Indeterminate, and_comm, and_comm (b := Y = 0), or_comm]

theorem indeterminate_neg {X Y : EReal} : Indeterminate X (-Y) ↔ Indeterminate X Y := by
  rw [Indeterminate, Indeterminate, isInfinite_neg, EReal.neg_eq_zero_iff]

theorem Indeterminate.mul_eq_zero {X Y : EReal} (h : Indeterminate X Y) : X * Y = 0 := by
  rcases h with ⟨rfl, -⟩ | ⟨-, rfl⟩
  · exact zero_mul Y
  · exact mul_zero X

/-! ### Decoded numbers -/

theorem exists_unpacked_infinity {u : UnpackedFloat} {X : EReal} (hu : denoted u = some X)
    (hX : IsInfinite X) : ∃ s, u = .infinity s := by
  obtain ⟨negative, rfl⟩ := hX
  exact ⟨_, eq_infinity_of_denoted negative hu⟩

/-- What denotes no zero has a sign, and is infinite or finite. -/
theorem exists_signed {u : UnpackedFloat} {X : EReal} (hu : denoted u = some X) (hX : X ≠ 0) :
    ∃ negative Y, X = signed negative Y ∧ 0 < Y ∧ (u = .infinity (signOf negative) ∧ Y = ⊤ ∨
      ∃ m e hm, u = .finite (signOf negative) m e hm ∧ Y ≠ ⊤) := by
  cases u with
  | notANumber => cases hu
  | infinity s =>
    obtain ⟨negative, rfl⟩ := exists_signOf s
    rw [denoted_infinity, Option.some_inj] at hu
    exact ⟨negative, ⊤, hu.symm, EReal.zero_lt_top, .inl ⟨rfl, rfl⟩⟩
  | zero s =>
    rw [denoted_zero, Option.some_inj] at hu
    exact absurd hu.symm hX
  | finite s m e hm =>
    obtain ⟨negative, rfl⟩ := exists_signOf s
    rw [denoted_finite, Option.some_inj, coe_value_finite] at hu
    refine ⟨negative, _, hu.symm, ?_, .inr ⟨m, e, hm, rfl, EReal.coe_ne_top _⟩⟩
    exact EReal.coe_pos.2 (mul_pos (Nat.cast_pos.2 hm) (two_zpow_pos e))

theorem exists_unpacked_zero {u : UnpackedFloat} (hu : denoted u = some 0) : ∃ s, u = .zero s := by
  cases u with
  | notANumber => cases hu
  | infinity s =>
    obtain ⟨negative, rfl⟩ := exists_signOf s
    rw [denoted_infinity, Option.some_inj] at hu
    cases negative <;> simp [signed] at hu
  | zero s => exact ⟨s, rfl⟩
  | finite s m e hm =>
    have hzero : ((s.apply m : ℤ) : ℝ) * 2 ^ e = 0 := EReal.coe_injective (Option.some_inj.1 hu)
    have hm' : (s.apply m : ℤ) ≠ 0 := by cases s <;> simp [Sign.apply, hm.ne']
    exact absurd hzero (mul_ne_zero (Int.cast_ne_zero.2 hm') (two_zpow_pos e).ne')

/-- The product of an infinity and what denotes no zero is infinite, on either side. -/
theorem mul_infinity (negative : Bool) {v : UnpackedFloat} {Y : EReal} (hv : denoted v = some Y)
    (hY : Y ≠ 0) : ∃ negative',
      UnpackedFloat.mul .binary64 (.infinity (signOf negative)) v = .infinity (signOf negative') ∧
      UnpackedFloat.mul .binary64 v (.infinity (signOf negative)) = .infinity (signOf negative') ∧
      signed negative ⊤ * Y = signed negative' ⊤ := by
  obtain ⟨negative', Z, rfl, hpos, hcases⟩ := exists_signed hv hY
  refine ⟨negative ^^ negative', ?_, ?_, by rw [signed_mul, EReal.top_mul_of_pos hpos]⟩
  · rw [← signOf_mul]
    rcases hcases with ⟨rfl, -⟩ | ⟨m, e, hm, rfl, -⟩ <;> rfl
  · rw [Bool.xor_comm, ← signOf_mul]
    rcases hcases with ⟨rfl, -⟩ | ⟨m, e, hm, rfl, -⟩ <;> rfl

/-! ### Doubles that are infinite or NaNs -/

theorem extended?_positiveInfinity : extended? positiveInfinity = some ⊤ := by
  rw [positiveInfinity, extended?_ofBits]
  show (magnitude? (2047 * 2 ^ 52)).map (signed false) = some ⊤
  rw [magnitude?_inf, Option.map_some, signed, if_neg Bool.false_ne_true]

theorem extended?_negativeInfinity : extended? negativeInfinity = some ⊥ := by
  rw [negativeInfinity, extended?_ofBits]
  show (magnitude? (2047 * 2 ^ 52)).map (signed true) = some ⊥
  rw [magnitude?_inf, Option.map_some, signed, if_pos rfl, EReal.neg_top]

theorem isNaN_iff {x : Float} : x.isNaN ↔ extended? x = none := by
  constructor
  · intro h
    rcases hx : extended? x with - | X
    · rfl
    · rw [isNaN_eq_false hx] at h
      cases h
  · intro h
    show (unpack x).isNaN = true
    rw [eq_notANumber_of_denoted h]
    rfl

theorem isInf_iff {x : Float} {X : EReal} (hx : extended? x = some X) : x.isInf ↔ IsInfinite X := by
  show (unpack x).isInf = true ↔ _
  obtain hX | ⟨r, rfl⟩ := isInfinite_or_eq_coe X
  · obtain ⟨s, hs⟩ := exists_unpacked_infinity hx hX
    exact iff_of_true (hs ▸ rfl) hX
  · refine iff_of_false ?_ (not_isInfinite_coe r)
    obtain ⟨s, hs, -⟩ | ⟨s, m, e, hm, hs, -⟩ := (denotes_unpack hx).zero_or_finite <;>
      exact hs ▸ Bool.false_ne_true

/-! ### Rounded products and roots -/

open Classical in
/-- The product, rounded to the nearest double; zero times an infinity has none. -/
noncomputable def product? (X Y : EReal) : Option EReal :=
  if Indeterminate X Y then none else some (nearest (X * Y))

theorem product?_of_not {X Y : EReal} (h : ¬Indeterminate X Y) :
    product? X Y = some (nearest (X * Y)) := if_neg h

theorem product?_of_indeterminate {X Y : EReal} (h : Indeterminate X Y) : product? X Y = none :=
  if_pos h

theorem nearest_neg (X : EReal) : nearest (-X) = -nearest X := by
  induction X with
  | bot => simp
  | top => simp
  | coe r =>
    rw [← EReal.coe_neg, nearest_coe, nearest_coe, rounded_neg, EReal.coe_neg, overflowed_neg]

theorem product?_neg (X Y : EReal) : product? X (-Y) = (product? X Y).map Neg.neg := by
  by_cases h : Indeterminate X Y
  · rw [product?_of_indeterminate h, product?_of_indeterminate (indeterminate_neg.2 h),
      Option.map_none]
  · rw [product?_of_not h, product?_of_not (indeterminate_neg.not.2 h), mul_neg, nearest_neg,
      Option.map_some]

/-- The square root, which is zero below zero. -/
noncomputable def root : EReal → EReal
  | ⊥ => 0
  | ⊤ => ⊤
  | (r : ℝ) => (√r : ℝ)

theorem root_nonneg (X : EReal) : 0 ≤ root X := by
  induction X with
  | bot => exact le_rfl
  | top => exact le_top
  | coe r => exact EReal.coe_nonneg.2 (Real.sqrt_nonneg r)

theorem root_mono : Monotone root := by
  intro X Y h
  induction X with
  | bot => exact root_nonneg Y
  | top => rw [top_le_iff.1 h]
  | coe r =>
    induction Y with
    | bot => exact absurd (le_bot_iff.1 h) (EReal.coe_ne_bot r)
    | top => exact le_top
    | coe r' => exact EReal.coe_le_coe_iff.2 (Real.sqrt_le_sqrt (EReal.coe_le_coe_iff.1 h))

/-! ### Encoded results -/

theorem nearest_infinity (negative : Bool) : nearest (signed negative ⊤) = signed negative ⊤ := by
  cases negative <;> simp [signed]

/-- A double encoded from an infinity denotes that infinity. -/
theorem extended?_of_infinity (negative : Bool) {z : Float} {u : UnpackedFloat} {X : EReal}
    (hz : unpack z = UnpackedFloat.unpack .binary64 (UnpackedFloat.pack .binary64 u))
    (hu : u = .infinity (signOf negative)) (hX : X = signed negative ⊤) :
    extended? z = some (nearest X) := by
  subst hu hX
  rw [extended?_of_encoded hz trivial (denoted_infinity negative), nearest_infinity,
    overflowed_signed, overflowed_top]

/-- A double encoded from no number denotes none. -/
theorem extended?_of_notANumber {z : Float} {u : UnpackedFloat}
    (hz : unpack z = UnpackedFloat.unpack .binary64 (UnpackedFloat.pack .binary64 u))
    (hu : u = .notANumber) : extended? z = none := by
  subst hu
  rw [extended?, hz, denoted_unpack_pack (u := .notANumber) trivial]
  rfl

variable {x y : Float} {X Y : EReal}

theorem unpack_mul (x y : Float) : unpack (x * y) = UnpackedFloat.unpack .binary64
    (UnpackedFloat.pack .binary64 (UnpackedFloat.mul .binary64 (unpack x) (unpack y))) := rfl

theorem unpack_div (x y : Float) : unpack (x / y) = UnpackedFloat.unpack .binary64
    (UnpackedFloat.pack .binary64 (UnpackedFloat.div .binary64 (unpack x) (unpack y))) := rfl

/-- A difference denotes the exact difference rounded, unless it is that of equal infinities. -/
theorem extended?_sub_of_determinate (hx : extended? x = some X) (hy : extended? y = some Y)
    (h : ¬(X = ⊤ ∧ Y = ⊤)) (h' : ¬(X = ⊥ ∧ Y = ⊥)) :
    extended? (x - y) = some (nearest (X - Y)) := by
  have hneg : denoted (unpack y).neg = some (-Y) := by
    rw [denoted_neg, show denoted (unpack y) = some Y from hy, Option.map_some]
  obtain ⟨Z, hcanonical, hZ, hsum⟩ := exists_denoted_add (canonical_unpack _)
    (canonical_neg (canonical_unpack y.toBits.toBitVec)) hx hneg
    (by rwa [EReal.neg_eq_bot_iff]) (by rwa [EReal.neg_eq_top_iff])
  rw [sub_eq_add_neg, ← hsum]
  refine extended?_of_encoded ?_ hcanonical hZ
  rw [← sub_eq_add]
  rfl

/-- A product denotes the exact product rounded, unless it is that of zero and an infinity. -/
theorem extended?_mul_of_determinate (hx : extended? x = some X) (hy : extended? y = some Y)
    (h : ¬Indeterminate X Y) : extended? (x * y) = some (nearest (X * Y)) := by
  obtain ⟨negative, rfl⟩ | ⟨r, rfl⟩ := isInfinite_or_eq_coe X
  · have hY : Y ≠ 0 := fun hY ↦ h (.inr ⟨⟨negative, rfl⟩, hY⟩)
    obtain ⟨negative', hproduct, -, hXY⟩ := mul_infinity negative hy hY
    rw [← eq_infinity_of_denoted negative hx] at hproduct
    exact extended?_of_infinity negative' (unpack_mul x y) hproduct hXY
  obtain ⟨negative, rfl⟩ | ⟨r', rfl⟩ := isInfinite_or_eq_coe Y
  · have hX : (r : EReal) ≠ 0 := fun hX ↦ h (.inl ⟨hX, ⟨negative, rfl⟩⟩)
    obtain ⟨negative', -, hproduct, hXY⟩ := mul_infinity negative hx hX
    rw [← eq_infinity_of_denoted negative hy] at hproduct
    rw [mul_comm] at hXY
    exact extended?_of_infinity negative' (unpack_mul x y) hproduct hXY
  · rw [extended?_mul hx hy, EReal.coe_mul]

/-- The product of zero and an infinity is no number. -/
theorem extended?_mul_of_indeterminate (hx : extended? x = some X) (hy : extended? y = some Y)
    (h : Indeterminate X Y) : extended? (x * y) = none := by
  refine extended?_of_notANumber (unpack_mul x y) ?_
  rcases h with ⟨rfl, hY⟩ | ⟨hX, rfl⟩
  · obtain ⟨s, hs⟩ := exists_unpacked_zero hx
    obtain ⟨s', hs'⟩ := exists_unpacked_infinity hy hY
    rw [hs, hs']
    rfl
  · obtain ⟨s, hs⟩ := exists_unpacked_infinity hx hX
    obtain ⟨s', hs'⟩ := exists_unpacked_zero hy
    rw [hs, hs']
    rfl

/-- A quotient denotes the exact quotient rounded, unless it is that of two infinities. -/
theorem extended?_div_of_determinate (hx : extended? x = some X) (hy : extended? y = some Y)
    (hne : Y ≠ 0) (h : ¬(IsInfinite X ∧ IsInfinite Y)) :
    extended? (x / y) = some (nearest (X / Y)) := by
  obtain ⟨negative, rfl⟩ | ⟨r, rfl⟩ := isInfinite_or_eq_coe X
  · obtain ⟨negative', Z, rfl, hpos, ⟨-, rfl⟩ | ⟨m, e, hm, hu, hZ⟩⟩ := exists_signed hy hne
    · exact absurd ⟨⟨negative, rfl⟩, ⟨negative', rfl⟩⟩ h
    refine extended?_of_infinity (negative ^^ negative') (unpack_div x y) ?_ ?_
    · rw [eq_infinity_of_denoted negative hx, hu, ← signOf_div]
      rfl
    · rw [signed_div, EReal.top_div_of_pos_ne_top hpos hZ]
  obtain ⟨negative, rfl⟩ | ⟨r', rfl⟩ := isInfinite_or_eq_coe Y
  · have hquotient : ∃ s, UnpackedFloat.div .binary64 (unpack x) (unpack y) = .zero s := by
      rw [eq_infinity_of_denoted negative hy]
      obtain ⟨s, hu, -⟩ | ⟨s, m, e, hm, hu, -⟩ := (denotes_unpack hx).zero_or_finite <;> rw [hu] <;>
        exact ⟨_, rfl⟩
    obtain ⟨s, hs⟩ := hquotient
    have hexact : (r : EReal) / signed negative ⊤ = ((0 : ℝ) : EReal) := by
      cases negative <;> simp [signed]
    rw [hexact]
    refine extended?_of_denotes (u := .zero s) (hs ▸ rfl) ⟨trivial, ?_⟩
    rw [denoted_zero, rounded_zero, EReal.coe_zero]
  · rw [extended?_div hx hy fun h ↦ hne (congrArg _ h), EReal.coe_div]

/-- The quotient of two infinities is no number. -/
theorem extended?_div_of_infinite (hx : extended? x = some X) (hy : extended? y = some Y)
    (hX : IsInfinite X) (hY : IsInfinite Y) : extended? (x / y) = none := by
  obtain ⟨s, hs⟩ := exists_unpacked_infinity hx hX
  obtain ⟨s', hs'⟩ := exists_unpacked_infinity hy hY
  refine extended?_of_notANumber (unpack_div x y) ?_
  rw [hs, hs']
  rfl

theorem extended?_mul_eq_product? (hx : extended? x = some X) (hy : extended? y = some Y) :
    extended? (x * y) = product? X Y := by
  by_cases h : Indeterminate X Y
  · rw [extended?_mul_of_indeterminate hx hy h, product?_of_indeterminate h]
  · rw [extended?_mul_of_determinate hx hy h, product?_of_not h]

theorem extended?_div_eq_product? (hx : extended? x = some X) (hy : extended? y = some Y)
    (hne : Y ≠ 0) : extended? (x / y) = product? X Y⁻¹ := by
  have hiff : Indeterminate X Y⁻¹ ↔ IsInfinite X ∧ IsInfinite Y := by
    rw [Indeterminate, inv_eq_zero_iff hne]
    exact or_iff_right fun h ↦ not_isInfinite_inv Y h.2
  by_cases h : Indeterminate X Y⁻¹
  · obtain ⟨hX, hY⟩ := hiff.1 h
    rw [extended?_div_of_infinite hx hy hX hY, product?_of_indeterminate h]
  · rw [extended?_div_of_determinate hx hy hne (hiff.not.1 h), product?_of_not h]
    rfl

theorem extended?_sqrt_eq_root (hx : extended? x = some X) (hX : 0 ≤ X) :
    extended? x.sqrt = some (nearest (root X)) := by
  induction X with
  | bot => exact absurd (le_bot_iff.1 hX) EReal.zero_ne_bot
  | top =>
    refine extended?_of_infinity false (u := UnpackedFloat.sqrt .binary64 (unpack x)) rfl ?_ rfl
    rw [eq_infinity_of_denoted false hx]
    rfl
  | coe r => exact extended?_sqrt hx (EReal.coe_nonneg.1 hX)

end Summand.Binary64
