import Mathlib
import Summand.Binary64.Basic
import Summand.Proofs.Rounding

/-!
# What the bits of doubles denote

A bit pattern is decoded to a sign, a mantissa and an exponent, or to a special value, and denotes
an extended real unless it is a NaN (`denoted`). Below the sign, the patterns of the numbers are in
the order of what they denote, up to that of infinity (`magnitude_lt_succ`, `denoted_unpack`).

A decoded number in canonical form is encoded without loss, unless its exponent is too large, and
then it becomes infinite (`denoted_unpack_pack`).
-/

namespace Summand.Binary64

open Float.Model (Format totalExponent)
open Float.Model.UnpackedFloat hiding add pack unpack round
open Float.Model (UnpackedFloat)

/-! ### Decoded numbers -/

/-- The number that a decoded double is, and zero if it is none. -/
noncomputable def value : UnpackedFloat → ℝ
  | .finite s m e _ => (s.apply m : ℤ) * weight e
  | _ => 0

/-- A decoded number has 53 bits, or the least exponent. -/
def Canonical : UnpackedFloat → Prop
  | .finite _ m e _ => m < 2 ^ 53 ∧ -1074 ≤ e ∧ (2 ^ 52 ≤ m ∨ e = -1074)
  | _ => True

theorem exists_signOf (s : Sign) : ∃ negative, s = signOf negative := by
  cases s with
  | negative => exact ⟨true, rfl⟩
  | positive => exact ⟨false, rfl⟩

/-- An extended real or its negative. -/
noncomputable def signed (negative : Bool) (X : EReal) : EReal := if negative then -X else X

/-- The extended real that a decoded double is, unless it is no number. -/
noncomputable def denoted : UnpackedFloat → Option EReal
  | .notANumber => none
  | .infinity .positive => some ⊤
  | .infinity .negative => some ⊥
  | u => some ((value u : ℝ) : EReal)

@[simp] theorem denoted_infinity (negative : Bool) :
    denoted (.infinity (signOf negative)) = some (signed negative ⊤) := by
  cases negative <;> simp [signOf, denoted, signed]

@[simp] theorem denoted_zero (s : Sign) : denoted (.zero s) = some 0 := by simp [denoted, value]

@[simp] theorem denoted_finite (s : Sign) (m : ℕ) (e : ℤ) (hm : 0 < m) :
    denoted (.finite s m e hm) = some ((value (.finite s m e hm) : ℝ) : EReal) := rfl

theorem coe_value_finite (negative : Bool) (m : ℕ) (e : ℤ) (hm : 0 < m) :
    ((value (.finite (signOf negative) m e hm) : ℝ) : EReal) =
      signed negative ((m * 2 ^ e : ℝ) : EReal) := by
  cases negative <;> simp [signOf, value, signed, Sign.apply]

/-! ### The fields of a bit pattern -/

theorem toNat_unpackMantissa (b : BitVec 64) :
    (@unpackMantissa .binary64 b).toNat = b.toNat % 2 ^ 52 := by
  rw [unpackMantissa_def, BitVec.extractLsb'_toNat, Nat.shiftRight_zero]

theorem toNat_unpackExponent (b : BitVec 64) :
    (@unpackExponent .binary64 b).toNat = b.toNat / 2 ^ 52 % 2 ^ 11 := by
  rw [unpackExponent_def, BitVec.extractLsb'_toNat, Nat.shiftRight_eq_div_pow]

theorem ofBitVec_unpackSign (b : BitVec 64) :
    Sign.ofBitVec (@unpackSign .binary64 b) = signOf (decide (2 ^ 63 ≤ b.toNat)) := by
  have hbit : (@unpackSign .binary64 b).toNat = b.toNat / 2 ^ 63 % 2 := by
    rw [unpackSign_def, BitVec.extractLsb'_toNat, Nat.shiftRight_eq_div_pow]
    rfl
  have hlt := b.isLt
  rw [Sign.ofBitVec]
  by_cases h : 2 ^ 63 ≤ b.toNat
  · rw [if_neg fun hzero ↦ ?_, decide_eq_true h]
    · rfl
    · rw [hzero, BitVec.toNat_ofNat] at hbit
      omega
  · rw [if_pos (BitVec.eq_of_toNat_eq ?_), decide_eq_false h]
    · rfl
    · rw [hbit, BitVec.toNat_ofNat]
      omega

theorem toNat_implicit (b : BitVec 52) : (1#1 ++ b).toNat = 2 ^ 52 + b.toNat := by
  rw [BitVec.toNat_append, ← Nat.shiftLeft_add_eq_or_of_lt b.isLt]
  rfl

/-- Decoding by the fields of a bit pattern, as numbers. -/
theorem unpack_cases {P : UnpackedFloat → Prop} (b : BitVec 64)
    (infinity : b.toNat / 2 ^ 52 % 2 ^ 11 = 2047 → b.toNat % 2 ^ 52 = 0 →
      P (.infinity (signOf (decide (2 ^ 63 ≤ b.toNat)))))
    (notANumber : b.toNat / 2 ^ 52 % 2 ^ 11 = 2047 → b.toNat % 2 ^ 52 ≠ 0 → P .notANumber)
    (zero : b.toNat / 2 ^ 52 % 2 ^ 11 = 0 → b.toNat % 2 ^ 52 = 0 →
      P (.zero (signOf (decide (2 ^ 63 ≤ b.toNat)))))
    (subnormal : ∀ hm, b.toNat / 2 ^ 52 % 2 ^ 11 = 0 →
      P (.finite (signOf (decide (2 ^ 63 ≤ b.toNat))) (b.toNat % 2 ^ 52) (-1074) hm))
    (normal : ∀ hm, 0 < b.toNat / 2 ^ 52 % 2 ^ 11 → b.toNat / 2 ^ 52 % 2 ^ 11 < 2047 →
      P (.finite (signOf (decide (2 ^ 63 ≤ b.toNat))) (2 ^ 52 + b.toNat % 2 ^ 52)
        ((b.toNat / 2 ^ 52 % 2 ^ 11 : ℕ) - 1075) hm)) :
    P (UnpackedFloat.unpack .binary64 b) := by
  have hmantissa := toNat_unpackMantissa b
  have hexponent := toNat_unpackExponent b
  have hsign := ofBitVec_unpackSign b
  have himplicit := toNat_implicit (@unpackMantissa .binary64 b)
  have hones : (-1#11).toNat = 2047 := rfl
  have hfinite (s m e m' e') (hm : m = m') (he : e = e') (h : ∀ hm, P (.finite s m' e' hm))
      (hm' : 0 < m) : P (.finite s m e hm') := by
    subst hm he
    exact h hm'
  rw [UnpackedFloat.unpack]
  dsimp only
  rw [hsign]
  split_ifs with hinf hzero hleast hzero
  · have hE := congrArg BitVec.toNat hinf
    have hM := congrArg BitVec.toNat hzero
    rw [hexponent] at hE
    rw [hmantissa] at hM
    exact infinity hE hM
  · have hE := congrArg BitVec.toNat hinf
    rw [hexponent] at hE
    refine notANumber hE fun hM ↦ hzero (BitVec.eq_of_toNat_eq ?_)
    rw [hmantissa, hM]
    rfl
  · have hE := congrArg BitVec.toNat hleast
    have hM := congrArg BitVec.toNat hzero
    rw [hexponent] at hE
    rw [hmantissa] at hM
    exact zero hE hM
  · have hE := congrArg BitVec.toNat hleast
    rw [hexponent] at hE
    refine hfinite _ _ _ _ _ hmantissa ?_ (subnormal · hE) _
    rw [hexponent, hE]
    rfl
  · have hE : b.toNat / 2 ^ 52 % 2 ^ 11 ≠ 2047 := fun hE ↦ hinf (BitVec.eq_of_toNat_eq (by
      rw [hexponent, hE]
      rfl))
    have hE' : b.toNat / 2 ^ 52 % 2 ^ 11 ≠ 0 := fun hE ↦ hleast (BitVec.eq_of_toNat_eq (by
      rw [hexponent, hE]
      rfl))
    refine hfinite _ _ _ _ _ (himplicit.trans (by rw [hmantissa])) ?_
      (normal · (by omega) (by omega)) _
    rw [hexponent]
    rfl

theorem canonical_unpack (b : BitVec 64) : Canonical (UnpackedFloat.unpack .binary64 b) := by
  refine unpack_cases b (fun _ _ ↦ trivial) (fun _ _ ↦ trivial) (fun _ _ ↦ trivial)
    (fun _ _ ↦ ⟨?_, ?_, .inr rfl⟩) fun _ _ _ ↦ ⟨?_, ?_, .inl ?_⟩
  all_goals omega

/-! ### The order of bit patterns -/

/-- The number that the bits below the sign stand for, if they stand for a finite one. -/
noncomputable def magnitude (n : ℕ) : ℝ :=
  if n < 2 ^ 52 then n * weight (-1074)
  else (2 ^ 52 + n % 2 ^ 52 : ℕ) * weight ((n / 2 ^ 52 : ℕ) - 1075)

theorem magnitude_zero : magnitude 0 = 0 := by simp [magnitude]

theorem magnitude_of_lt {n : ℕ} (h : n < 2 ^ 52) : magnitude n = n * 2 ^ (-1074 : ℤ) := if_pos h

theorem magnitude_of_le {n : ℕ} (h : 2 ^ 52 ≤ n) :
    magnitude n = (2 ^ 52 + n % 2 ^ 52 : ℕ) * 2 ^ ((n / 2 ^ 52 : ℕ) - 1075 : ℤ) :=
  if_neg (by omega)

theorem magnitude_nonneg (n : ℕ) : 0 ≤ magnitude n := by
  rw [magnitude]
  split_ifs <;> exact mul_nonneg (Nat.cast_nonneg _) (two_zpow_pos _).le

/-- The next bit pattern stands for a greater number, also where the exponent changes. -/
theorem magnitude_lt_succ (n : ℕ) : magnitude n < magnitude (n + 1) := by
  have hdouble (e : ℤ) : (2 : ℝ) ^ (e + 1) = 2 ^ e * 2 := by rw [two_zpow_add, zpow_one]
  rcases lt_trichotomy (n + 1) (2 ^ 52) with hlt | heq | hgt
  · rw [magnitude_of_lt (by omega), magnitude_of_lt hlt]
    exact mul_lt_mul_of_pos_right (by push_cast; linarith) (two_zpow_pos _)
  · obtain rfl : n = 2 ^ 52 - 1 := by omega
    rw [magnitude_of_lt (by omega), magnitude_of_le (by omega)]
    exact mul_lt_mul_of_pos_right (by norm_num) (two_zpow_pos _)
  rw [magnitude_of_le (by omega), magnitude_of_le (by omega)]
  by_cases hcarry : n % 2 ^ 52 + 1 < 2 ^ 52
  · rw [show (n + 1) / 2 ^ 52 = n / 2 ^ 52 by omega,
      show (n + 1) % 2 ^ 52 = n % 2 ^ 52 + 1 by omega]
    exact mul_lt_mul_of_pos_right (by push_cast; linarith) (two_zpow_pos _)
  · rw [show (n + 1) / 2 ^ 52 = n / 2 ^ 52 + 1 by omega, show (n + 1) % 2 ^ 52 = 0 by omega,
      show n % 2 ^ 52 = 2 ^ 52 - 1 by omega,
      show ((n / 2 ^ 52 + 1 : ℕ) - 1075 : ℤ) = (n / 2 ^ 52 : ℕ) - 1075 + 1 by push_cast; ring,
      hdouble, ← mul_assoc, mul_right_comm]
    exact mul_lt_mul_of_pos_right (by norm_num) (two_zpow_pos _)

theorem magnitude_inf : magnitude (2047 * 2 ^ 52) = 2 ^ (1024 : ℤ) := by
  rw [magnitude_of_le (by norm_num), show (2 : ℝ) ^ (1024 : ℤ) = 2 ^ (52 : ℤ) * 2 ^ (972 : ℤ) by
    rw [← two_zpow_add]; norm_num]
  norm_num

theorem magnitude_lt_of_lt {n : ℕ} (h : n < 2047 * 2 ^ 52) : magnitude n < 2 ^ (1024 : ℤ) :=
  (strictMono_nat_of_lt_succ magnitude_lt_succ h).trans_eq magnitude_inf

/-- The extended real that the bits below the sign stand for, if they stand for one. -/
noncomputable def magnitude? (n : ℕ) : Option EReal :=
  if n < 2047 * 2 ^ 52 then some ((magnitude n : ℝ) : EReal)
  else if n = 2047 * 2 ^ 52 then some ⊤ else none

theorem magnitude?_of_lt {n : ℕ} (h : n < 2047 * 2 ^ 52) :
    magnitude? n = some ((magnitude n : ℝ) : EReal) := if_pos h

theorem magnitude?_inf : magnitude? (2047 * 2 ^ 52) = some ⊤ := by
  rw [magnitude?, if_neg (lt_irrefl _), if_pos rfl]

theorem magnitude?_eq_coe {n : ℕ} {r : ℝ} (h : magnitude? n = some (r : EReal)) :
    n < 2047 * 2 ^ 52 ∧ magnitude n = r := by
  rw [magnitude?] at h
  split_ifs at h with hlt heq
  · exact ⟨hlt, by simpa using h⟩
  · simp at h

theorem denoted_unpack (b : BitVec 64) :
    denoted (UnpackedFloat.unpack .binary64 b) =
      (magnitude? (b.toNat % 2 ^ 63)).map (signed (decide (2 ^ 63 ≤ b.toNat))) := by
  have hfield : b.toNat / 2 ^ 52 % 2 ^ 11 = b.toNat % 2 ^ 63 / 2 ^ 52 := by omega
  have hrest : b.toNat % 2 ^ 52 = b.toNat % 2 ^ 63 % 2 ^ 52 := by omega
  rw [magnitude?]
  refine unpack_cases (P := fun u ↦ denoted u = _) b (fun hE hM ↦ ?_) (fun hE hM ↦ ?_)
    (fun hE hM ↦ ?_) (fun hm hE ↦ ?_) fun hm hE hE' ↦ ?_ <;> rw [hfield] at *
  · rw [if_neg (by omega), if_pos (by omega), denoted_infinity, Option.map_some]
  · rw [if_neg (by omega), if_neg (by omega), Option.map_none]
    rfl
  · rw [if_pos (by omega), show b.toNat % 2 ^ 63 = 0 by omega, magnitude_zero, denoted_zero]
    simp [signed]
  · rw [if_pos (by omega), magnitude_of_lt (by omega), denoted_finite, coe_value_finite,
      Option.map_some, show b.toNat % 2 ^ 52 = b.toNat % 2 ^ 63 by omega]
  · rw [if_pos (by omega), magnitude_of_le (by omega), denoted_finite, coe_value_finite,
      Option.map_some, hrest]

/-! ### Overflow -/

/-- What is left of a number without a bound on its exponent. -/
noncomputable def overflowed (X : EReal) : EReal :=
  if (weight 1024 : ℝ) ≤ X then ⊤ else if X ≤ (-weight 1024 : ℝ) then ⊥ else X

@[simp] theorem overflowed_top : overflowed ⊤ = ⊤ := if_pos le_top

@[simp] theorem overflowed_bot : overflowed ⊥ = ⊥ := by
  rw [overflowed, if_neg (EReal.bot_lt_coe _).not_ge, if_pos bot_le]

theorem overflowed_of_abs_lt {r : ℝ} (h : |r| < 2 ^ (1024 : ℤ)) : overflowed r = r := by
  obtain ⟨hlow, hhigh⟩ := abs_lt.1 h
  rw [overflowed, if_neg (EReal.coe_lt_coe_iff.2 hhigh).not_ge,
    if_neg (EReal.coe_lt_coe_iff.2 hlow).not_ge]

theorem overflowed_of_le {r : ℝ} (h : 2 ^ (1024 : ℤ) ≤ r) : overflowed r = ⊤ :=
  if_pos (EReal.coe_le_coe_iff.2 h)

/-- What stays finite has not changed. -/
theorem eq_of_overflowed {r s : ℝ} (h : overflowed r = s) : r = s := by
  rw [overflowed] at h
  split_ifs at h
  · simp at h
  · simp at h
  · exact EReal.coe_injective h

theorem overflowed_neg (X : EReal) : overflowed (-X) = -overflowed X := by
  have hpos := two_zpow_pos 1024
  have hhigh : ((2 ^ (1024 : ℤ) : ℝ) : EReal) ≤ -X ↔ X ≤ (-2 ^ (1024 : ℤ) : ℝ) := by
    rw [EReal.le_neg, EReal.coe_neg]
  have hlow : -X ≤ ((-2 ^ (1024 : ℤ) : ℝ) : EReal) ↔ (2 ^ (1024 : ℤ) : ℝ) ≤ X := by
    rw [EReal.neg_le, ← EReal.coe_neg, neg_neg]
  simp only [overflowed, hhigh, hlow]
  split_ifs with hlow hhigh hhigh
  · exact absurd (EReal.coe_le_coe_iff.1 (hhigh.trans hlow)) (neg_lt_self hpos).not_ge
  · rw [EReal.neg_bot]
  · rw [EReal.neg_top]
  · rfl

theorem overflowed_signed (negative : Bool) (X : EReal) :
    overflowed (signed negative X) = signed negative (overflowed X) := by
  cases negative
  · rfl
  · exact overflowed_neg X

theorem overflowed_mono : Monotone overflowed := by
  intro X Y h
  rw [overflowed, overflowed]
  split_ifs with hX hY hY' hX' hY hY'
  · exact le_rfl
  · exact absurd (hX.trans h) hY
  · exact absurd (hX.trans h) hY
  · exact le_top
  · exact bot_le
  · exact bot_le
  · exact le_top
  · exact absurd (h.trans ‹_›) hX'
  · exact h

/-- A canonical number overflows if its exponent is too large. -/
theorem overflowed_finite (negative : Bool) (m : ℕ) (e : ℤ) (hm : m < 2 ^ 53)
    (he : -1074 ≤ e) (hcanonical : 2 ^ 52 ≤ m ∨ e = -1074) :
    overflowed (signed negative ((m * 2 ^ e : ℝ) : EReal)) =
      signed negative (if e < 972 then ((m * 2 ^ e : ℝ) : EReal) else ⊤) := by
  have hnonneg : (0 : ℝ) ≤ m * 2 ^ e := mul_nonneg (Nat.cast_nonneg m) (two_zpow_pos e).le
  rw [overflowed_signed]
  split_ifs with hlt
  · rw [overflowed_of_abs_lt]
    rw [abs_of_nonneg hnonneg]
    have hcast : (m : ℝ) < 2 ^ (53 : ℤ) := by exact_mod_cast hm
    calc (m : ℝ) * 2 ^ e < 2 ^ (53 : ℤ) * 2 ^ e := mul_lt_mul_of_pos_right hcast (two_zpow_pos e)
      _ = 2 ^ (53 + e) := (two_zpow_add _ _).symm
      _ ≤ 2 ^ (1024 : ℤ) := zpow_le_zpow_right₀ one_le_two (by omega)
  · rw [overflowed_of_le]
    have hcast : (2 : ℝ) ^ (52 : ℤ) ≤ m := by
      have := hcanonical.resolve_right (by omega)
      exact_mod_cast this
    calc (2 : ℝ) ^ (1024 : ℤ) ≤ 2 ^ (52 + e) := zpow_le_zpow_right₀ one_le_two (by omega)
      _ = 2 ^ (52 : ℤ) * 2 ^ e := two_zpow_add _ _
      _ ≤ m * 2 ^ e := mul_le_mul_of_nonneg_right hcast (two_zpow_pos e).le

theorem overflowed_of_magnitude? {n : ℕ} {X : EReal} (h : magnitude? n = some X) :
    overflowed X = X := by
  rw [magnitude?] at h
  split_ifs at h with hlt heq <;> cases h
  · rw [overflowed_of_abs_lt]
    rw [abs_of_nonneg (magnitude_nonneg n)]
    exact magnitude_lt_of_lt hlt
  · exact overflowed_top

/-- The bits up to those of infinity stand for a number, unless that is too large. -/
theorem magnitude?_eq {n : ℕ} (h : n ≤ 2047 * 2 ^ 52) :
    magnitude? n = some (overflowed (magnitude n : ℝ)) := by
  rcases h.lt_or_eq with hlt | rfl
  · rw [magnitude?_of_lt hlt, overflowed_of_magnitude? (magnitude?_of_lt hlt)]
  · rw [magnitude?_inf, overflowed_of_le magnitude_inf.ge]

/-! ### Encoding -/

theorem toNat_packComponents (negative : Bool) (E : BitVec 11) (M : BitVec 52) :
    (packComponents .binary64 (signOf negative) E M).toNat =
      negative.toNat * 2 ^ 63 + E.toNat * 2 ^ 52 + M.toNat := by
  have hbit : (signOf negative).toBitVec.toNat = negative.toNat := by cases negative <;> rfl
  have hE := E.isLt
  have hM := M.isLt
  rw [packComponents, BitVec.toNat_append, BitVec.toNat_append, hbit,
    ← Nat.shiftLeft_add_eq_or_of_lt hE, ← Nat.shiftLeft_add_eq_or_of_lt hM, Nat.shiftLeft_eq,
    Nat.shiftLeft_eq]
  show (negative.toNat * 2 ^ 11 + E.toNat) * 2 ^ 52 + M.toNat = _
  ring

theorem denoted_unpack_packComponents (negative : Bool) (E : BitVec 11) (M : BitVec 52) :
    denoted (UnpackedFloat.unpack .binary64 (packComponents .binary64 (signOf negative) E M)) =
      (magnitude? (E.toNat * 2 ^ 52 + M.toNat)).map (signed negative) := by
  have hE := E.isLt
  have hM := M.isLt
  have hbits := toNat_packComponents negative E M
  have hnegative : decide (2 ^ 63 ≤ (packComponents .binary64 (signOf negative) E M).toNat) =
      negative := by
    cases negative <;> simp only [Bool.toNat_true, Bool.toNat_false] at hbits <;> simp <;> omega
  rw [denoted_unpack, hnegative,
    show (packComponents .binary64 (signOf negative) E M).toNat % 2 ^ 63 =
      E.toNat * 2 ^ 52 + M.toNat by cases negative <;> simp at hbits <;> omega]

theorem denoted_unpack_packedInfinity (negative : Bool) :
    denoted (UnpackedFloat.unpack .binary64 (packedInfinity .binary64 (signOf negative))) =
      some (signed negative ⊤) := by
  rw [packedInfinity, denoted_unpack_packComponents,
    show ((-1#11).toNat * 2 ^ 52 + (0 : BitVec 52).toNat) = 2047 * 2 ^ 52 from rfl, magnitude?_inf,
    Option.map_some]

/-- Encoding a canonical number keeps what it denotes, unless it overflows. -/
theorem denoted_unpack_pack {u : UnpackedFloat} (h : Canonical u) :
    denoted (UnpackedFloat.unpack .binary64 (UnpackedFloat.pack .binary64 u)) =
      (denoted u).map overflowed := by
  cases u with
  | notANumber => exact congrArg denoted unpack_packedNaN
  | infinity s =>
    obtain ⟨negative, rfl⟩ := exists_signOf s
    rw [UnpackedFloat.pack, denoted_unpack_packedInfinity, denoted_infinity, Option.map_some]
    cases negative <;> simp [signed]
  | zero s =>
    rw [UnpackedFloat.pack, unpack_packedZero, denoted_zero, Option.map_some]
    exact congrArg some (overflowed_of_abs_lt (by rw [abs_zero]; exact two_zpow_pos _)).symm
  | finite s m e hm =>
    obtain ⟨negative, rfl⟩ := exists_signOf s
    obtain ⟨hbits, hleast, hcanonical⟩ := h
    rw [denoted_finite, coe_value_finite, Option.map_some,
      overflowed_finite negative m e hbits hleast hcanonical, UnpackedFloat.pack]
    dsimp only
    have hlog : m.log2 + 1 = Format.binary64.mantissaBits ↔ 2 ^ 52 ≤ m := by
      show m.log2 + 1 = 53 ↔ 2 ^ 52 ≤ m
      have h52 := Nat.le_log2 (k := 52) hm.ne'
      have h53 := Nat.log2_lt (k := 53) hm.ne'
      omega
    have hbiased : (e + (Format.binary64.exponentBias : ℤ) +
        (Format.binary64.mantissaBitsWithoutImplicit : ℤ)).toNat = (e + 1075).toNat := by
      show (e + 1023 + 52).toNat = _
      rw [add_assoc]
      norm_num
    rw [hbiased]
    by_cases hinf : 2 ^ 11 ≤ (e + 1075).toNat + 1
    · rw [if_pos hinf, denoted_unpack_packedInfinity, if_neg (by omega)]
    rw [if_neg hinf, if_pos (by omega : e < 972)]
    by_cases hnormal : 2 ^ 52 ≤ m
    · have hE : (BitVec.ofNat 11 (e + 1075).toNat).toNat = (e + 1075).toNat := by
        rw [BitVec.toNat_ofNat, Nat.mod_eq_of_lt (by omega)]
      have hM : (BitVec.ofNat 52 m).toNat = m - 2 ^ 52 := by
        rw [BitVec.toNat_ofNat]
        omega
      rw [if_pos (hlog.2 hnormal)]
      refine (denoted_unpack_packComponents _ _ _).trans ?_
      rw [hE, hM, magnitude?_of_lt (by omega), magnitude_of_le (by omega), Option.map_some,
        show ((e + 1075).toNat * 2 ^ 52 + (m - 2 ^ 52)) % 2 ^ 52 = m - 2 ^ 52 by omega,
        show ((e + 1075).toNat * 2 ^ 52 + (m - 2 ^ 52)) / 2 ^ 52 = (e + 1075).toNat by omega,
        Nat.add_sub_cancel' hnormal, show ((e + 1075).toNat : ℤ) - 1075 = e by omega]
    · have hM : (BitVec.ofNat 52 m).toNat = m := by
        rw [BitVec.toNat_ofNat, Nat.mod_eq_of_lt (by omega)]
      rw [if_neg fun h ↦ hnormal (hlog.1 h)]
      refine (denoted_unpack_packComponents _ _ _).trans ?_
      rw [hM, BitVec.toNat_zero, zero_mul, zero_add, magnitude?_of_lt (by omega),
        magnitude_of_lt (by omega), Option.map_some, hcanonical.resolve_left hnormal]

end Summand.Binary64
