import Summand.Proofs.Encoding

/-!
# Rounding of decoded numbers

A mantissa is rounded by two residual bits, which tell on which side of the halfway point the number
is (`Tells`). Shifting by a place keeps what they tell, so that the mantissa at the last place
is rounded as the number itself (`denotes_roundWithAccuracy`). A rounded mantissa of one bit too
many is shifted once more without loss (`carry`).

Sums are exact integers before they are rounded, so the sum of two decoded numbers denotes their sum
rounded (`Denotes.add`).
-/

namespace Summand.Binary64

open Float.Model (Format totalExponent)
open Float.Model.UnpackedFloat hiding add pack unpack round
open Float.Model (UnpackedFloat)

/-! ### Residual bits -/

/-- What a mantissa and its residual bits tell of a number: its whole part, whether it is past the
halfway point, and whether there is more than that. -/
structure Tells (em : ExtendedMantissa) (y : ℝ) : Prop where
  floor : ⌊y⌋ = em.mantissa
  roundBit : em.roundBit = true ↔ 1 / 2 ≤ Int.fract y
  stickyBit : em.stickyBit = true ↔ Int.fract y ≠ 0 ∧ Int.fract y ≠ 1 / 2

theorem tells_exact (m : ℕ) : Tells (.ofMantissaAndAccuracy m .exact) m where
  floor := Int.floor_natCast m
  roundBit := by simp [ExtendedMantissa.ofMantissaAndAccuracy]
  stickyBit := by simp [ExtendedMantissa.ofMantissaAndAccuracy]

namespace Tells

variable {em : ExtendedMantissa} {y : ℝ}

theorem le (h : Tells em y) : em.mantissa ≤ y := by
  simpa [h.floor] using Int.floor_le y

theorem lt (h : Tells em y) : y < em.mantissa + 1 := by
  simpa [h.floor] using Int.lt_floor_add_one y

/-- The residual bits tell which integer is nearest. -/
theorem roundedMantissa (h : Tells em y) : (em.roundedMantissa : ℤ) = nearestInt y := by
  obtain ⟨m, roundBit, stickyBit⟩ := em
  obtain ⟨hfloor, hround, hsticky⟩ := h
  rw [nearestInt, hfloor]
  dsimp only at hround hsticky ⊢
  cases roundBit <;> cases stickyBit <;>
    simp only [Bool.false_eq_true, false_iff, true_iff, not_le, not_and_or, not_not]
      at hround hsticky
  · rw [if_pos hround]
    rfl
  · rw [if_pos hround]
    rfl
  · have hhalf : Int.fract y = 1 / 2 := hsticky.resolve_left (by linarith)
    rw [hhalf, if_neg (lt_irrefl _), if_neg (lt_irrefl _)]
    show ((m + m % 2 : ℕ) : ℤ) = _
    push_cast
    rfl
  · have hpast : 1 / 2 < Int.fract y := lt_of_le_of_ne hround hsticky.2.symm
    rw [if_neg hpast.not_gt, if_pos hpast]
    rfl

/-- A shift by one place keeps what the bits tell: the last place becomes the round bit. -/
theorem shiftRightOne (h : Tells em y) : Tells em.shiftRightOne (y / 2) := by
  obtain ⟨hfloor, hround, hsticky⟩ := h
  have hwhole : y = em.mantissa + Int.fract y := by
    rw [← Int.cast_natCast em.mantissa, ← hfloor, Int.floor_add_fract]
  have hm : (em.mantissa : ℝ) = 2 * (em.mantissa / 2 : ℕ) + (em.mantissa % 2 : ℕ) := by
    exact_mod_cast (Nat.div_add_mod em.mantissa 2).symm
  have hnonneg := Int.fract_nonneg y
  have hlt := Int.fract_lt_one y
  have hlast : em.mantissa % 2 = 0 ∨ em.mantissa % 2 = 1 := Nat.mod_two_eq_zero_or_one _
  have hfloor' : ⌊y / 2⌋ = (em.mantissa / 2 : ℕ) := by
    rw [Int.floor_eq_iff, Int.cast_natCast]
    rcases hlast with hlast | hlast <;> rw [hlast] at hm <;> push_cast at hm <;>
      constructor <;> linarith
  have hfract : Int.fract (y / 2) = ((em.mantissa % 2 : ℕ) + Int.fract y) / 2 := by
    rw [Int.fract, hfloor', Int.cast_natCast]
    linarith
  refine ⟨hfloor', ?_, ?_⟩
  · rw [hfract]
    rcases hlast with hlast | hlast <;> simp only [ExtendedMantissa.shiftRightOne, hlast] <;>
      norm_num <;> linarith
  · have hmore : em.roundBit = true ∨ em.stickyBit = true ↔ Int.fract y ≠ 0 := by
      rw [hround, hsticky]
      constructor
      · rintro (h | h)
        · linarith
        · exact h.1
      · intro h
        by_cases hhalf : Int.fract y = 1 / 2
        · exact .inl hhalf.ge
        · exact .inr ⟨h, hhalf⟩
    have hzero : Int.fract y ≠ 0 ↔ Int.fract (y / 2) ≠ 0 ∧ Int.fract (y / 2) ≠ 1 / 2 := by
      rw [hfract]
      rcases hlast with hlast | hlast <;> rw [hlast] <;> push_cast <;> constructor
      · intro h
        exact ⟨fun h' ↦ h (by linarith), by linarith⟩
      · rintro ⟨h, -⟩ h'
        exact h (by linarith)
      · intro h
        exact ⟨by linarith, fun h' ↦ h (by linarith)⟩
      · rintro ⟨-, h⟩ h'
        exact h (by linarith)
    rw [← hzero, ← hmore]
    exact Bool.or_eq_true _ _ ▸ Iff.rfl

theorem shiftRight (h : Tells em y) (k : ℕ) : Tells (em >>> k) (y / 2 ^ k) := by
  show Tells (k.repeat ExtendedMantissa.shiftRightOne em) _
  induction k with
  | zero => simpa [Nat.repeat] using h
  | succ k ih =>
    rw [Nat.repeat, pow_succ, ← div_div]
    exact ih.shiftRightOne

end Tells

/-! ### Shifts -/

theorem targetExponent_eq (m : ℕ) (e : ℤ) :
    Format.binary64.targetExponent (totalExponent m e) = max (m.log2 + e - 52) (-1074) := by
  show max ((m.log2 : ℤ) + 1 + e - 53) (-1074) = _
  congr 1
  ring

/-- The exponent to which a mantissa is shifted is the last place of the number. -/
theorem lastPlace_eq {m : ℕ} (hm : 0 < m) {y : ℝ} (hlow : m ≤ y) (hhigh : y < m + 1) (e : ℤ) :
    lastPlace (y * 2 ^ e) = Format.binary64.targetExponent (totalExponent m e) := by
  have hpos : 0 < y * 2 ^ e :=
    mul_pos ((Nat.cast_pos.2 hm).trans_le hlow) (two_zpow_pos e)
  have hbelow : ((2 : ℕ) : ℝ) ^ ((m.log2 : ℤ) + e) ≤ y * 2 ^ e := by
    rw [Nat.cast_two, two_zpow_add, zpow_natCast]
    refine mul_le_mul_of_nonneg_right (le_trans ?_ hlow) (two_zpow_pos e).le
    exact_mod_cast Nat.log2_self_le hm.ne'
  have habove : y * 2 ^ e < ((2 : ℕ) : ℝ) ^ ((m.log2 : ℤ) + e + 1) := by
    rw [Nat.cast_two, add_right_comm, two_zpow_add]
    refine mul_lt_mul_of_pos_right (hhigh.trans_le ?_) (two_zpow_pos e)
    have hlog : m + 1 ≤ 2 ^ (m.log2 + 1) := Nat.lt_log2_self
    exact_mod_cast hlog
  have hlog : Int.log 2 (y * 2 ^ e) = m.log2 + e :=
    le_antisymm (Int.lt_add_one_iff.1 ((Int.lt_zpow_iff_log_lt one_lt_two hpos).1 habove))
      ((Int.zpow_le_iff_le_log one_lt_two hpos).1 hbelow)
  rw [lastPlace, abs_of_pos hpos, hlog, targetExponent_eq]

theorem log2_le_of_lt {m : ℕ} (hm : m < 2 ^ 53) : m.log2 ≤ 52 := by
  rcases Nat.eq_zero_or_pos m with rfl | hpos
  · decide
  · exact Nat.lt_succ_iff.1 ((Nat.log2_lt hpos.ne').2 hm)

/-- A rounded mantissa may have one bit too many, which is a zero then. -/
theorem carry {m : ℕ} {t : ℤ} (hm : m ≤ 2 ^ 53) (ht : -1074 ≤ t) (h : 2 ^ 52 ≤ m ∨ t = -1074) :
    let r := shiftToTargetExponent .binary64 m t .exact
    (r.1.mantissa : ℝ) * 2 ^ r.2 = m * 2 ^ t ∧ r.1.mantissa < 2 ^ 53 ∧ -1074 ≤ r.2 ∧
      (2 ^ 52 ≤ r.1.mantissa ∨ r.2 = -1074) := by
  rw [shiftToTargetExponent, targetExponent_eq]
  rcases hm.eq_or_lt with rfl | hlt
  · rw [Nat.log2_two_pow, shiftToExponent, max_eq_left (by push_cast; omega),
      show ((53 : ℕ) + t - 52 - t).toNat = 1 by omega]
    show ((2 ^ 53 / 2 : ℕ) : ℝ) * 2 ^ (t + (1 : ℕ)) = _ ∧ 2 ^ 53 / 2 < 2 ^ 53 ∧
      -1074 ≤ t + (1 : ℕ) ∧ (2 ^ 52 ≤ 2 ^ 53 / 2 ∨ _)
    refine ⟨?_, by norm_num, by omega, .inl (by norm_num)⟩
    rw [two_zpow_add]
    norm_num
    ring
  · have hlog := log2_le_of_lt hlt
    rw [shiftToExponent, show (max ((m.log2 : ℤ) + t - 52) (-1074) - t).toNat = 0 by omega]
    show (m : ℝ) * 2 ^ (t + (0 : ℕ)) = _ ∧ m < _ ∧ -1074 ≤ t + (0 : ℕ) ∧ (_ ≤ m ∨ t + (0 : ℕ) = _)
    rw [Nat.cast_zero, add_zero]
    exact ⟨rfl, hlt, ht, h⟩

/-- The decoded number of a mantissa that has been shifted. -/
def shifted (s : Sign) (r : ExtendedMantissa × ℤ) : UnpackedFloat :=
  if h : r.1.mantissa = 0 then .zero s else .finite s r.1.mantissa r.2 (Nat.pos_of_ne_zero h)

/-- A decoded number is a real number. -/
structure Denotes (u : UnpackedFloat) (r : ℝ) : Prop where
  canonical : Canonical u
  denoted : denoted u = some (r : EReal)

theorem denotes_shifted (s : Sign) {r : ExtendedMantissa × ℤ} (hm : r.1.mantissa < 2 ^ 53)
    (he : -1074 ≤ r.2) (h : 2 ^ 52 ≤ r.1.mantissa ∨ r.2 = -1074) :
    Denotes (shifted s r) ((s.apply 1 : ℤ) * (r.1.mantissa * 2 ^ r.2)) := by
  rw [shifted]
  split_ifs with hzero
  · exact ⟨trivial, by simp [hzero]⟩
  · refine ⟨⟨hm, he, h⟩, ?_⟩
    rw [denoted_finite, value]
    cases s <;> simp [Sign.apply]

/-- Rounding shifts twice: to the last place, and once more after a carry. -/
theorem roundWithAccuracy_eq (s : Sign) (m : ℕ) (e : ℤ) (accuracy : Accuracy) :
    roundWithAccuracy .binary64 s m e accuracy =
      let first := shiftToTargetExponent .binary64 m e accuracy
      shifted s (shiftToTargetExponent .binary64 first.1.roundedMantissa first.2 .exact) := rfl

/-- Rounding a mantissa with residual bits rounds the number that it stands for, if the shift is to
the last place of that number. -/
theorem denotes_roundWithAccuracy_of_lastPlace (s : Sign) {m : ℕ} {e : ℤ} {accuracy : Accuracy}
    {y : ℝ} (hy : Tells (.ofMantissaAndAccuracy m accuracy) y) (hpos : 0 < y * 2 ^ e)
    (hplace : lastPlace (y * 2 ^ e) = Format.binary64.targetExponent (totalExponent m e))
    (he : e ≤ Format.binary64.targetExponent (totalExponent m e)) :
    Denotes (roundWithAccuracy .binary64 s m e accuracy)
      ((s.apply 1 : ℤ) * rounded (y * 2 ^ e)) := by
  -- The first shift is to the last place, where the residual bits decide.
  obtain ⟨k, hk⟩ : ∃ k : ℕ, lastPlace (y * 2 ^ e) = e + k :=
    ⟨(lastPlace (y * 2 ^ e) - e).toNat, by omega⟩
  have hshift : (Format.binary64.targetExponent (totalExponent m e) - e).toNat = k := by omega
  set M := (ExtendedMantissa.ofMantissaAndAccuracy m accuracy >>> k).roundedMantissa with hM
  have hnearest : (M : ℤ) = nearestInt (y * 2 ^ e / 2 ^ lastPlace (y * 2 ^ e)) := by
    rw [hM, (hy.shiftRight k).roundedMantissa, hk, two_zpow_add, zpow_natCast, mul_comm y,
      mul_div_mul_left _ _ (two_zpow_pos e).ne']
  have hrounded : (M : ℝ) * 2 ^ (e + k : ℤ) = rounded (y * 2 ^ e) := by
    rw [rounded, ← hnearest, Int.cast_natCast, hk]
  have hleast : -1074 ≤ e + (k : ℤ) := hk ▸ le_max_right _ _
  have hmost : M ≤ 2 ^ 53 := by
    have := abs_nearestInt_div_le (y * 2 ^ e)
    rw [← hnearest, Nat.abs_cast] at this
    exact_mod_cast this
  have hplaces : 2 ^ 52 ≤ M ∨ e + (k : ℤ) = -1074 := by
    rcases hleast.eq_or_lt with heq | hlt
    · exact .inr heq.symm
    · have := le_nearestInt_div hpos (hk ▸ hlt)
      rw [← hnearest] at this
      exact .inl (by exact_mod_cast this)
  obtain ⟨hvalue, hbits, hexponent, hcanonical⟩ := carry hmost hleast hplaces
  have hfirst : shiftToTargetExponent .binary64 m e accuracy =
      (ExtendedMantissa.ofMantissaAndAccuracy m accuracy >>> k, e + k) := by
    rw [shiftToTargetExponent, shiftToExponent, hshift]
  rw [roundWithAccuracy_eq, hfirst, ← hrounded, ← hvalue]
  exact denotes_shifted s hbits hexponent hcanonical

/-- The last place of a mantissa other than zero is that of the number. -/
theorem denotes_roundWithAccuracy (s : Sign) {m : ℕ} (hm : 0 < m) {e : ℤ} {accuracy : Accuracy}
    {y : ℝ} (hy : Tells (.ofMantissaAndAccuracy m accuracy) y)
    (he : e ≤ Format.binary64.targetExponent (totalExponent m e)) :
    Denotes (roundWithAccuracy .binary64 s m e accuracy)
      ((s.apply 1 : ℤ) * rounded (y * 2 ^ e)) := by
  have hmantissa : (ExtendedMantissa.ofMantissaAndAccuracy m accuracy).mantissa = m := by
    rcases accuracy with - | - | - | - <;> rfl
  have hlow := hmantissa ▸ hy.le
  have hhigh := hmantissa ▸ hy.lt
  exact denotes_roundWithAccuracy_of_lastPlace s hy
    (mul_pos ((Nat.cast_pos.2 hm).trans_le hlow) (two_zpow_pos e)) (lastPlace_eq hm hlow hhigh e) he

theorem log2_shiftLeft {m : ℕ} (hm : m ≠ 0) (k : ℕ) : (m <<< k).log2 = m.log2 + k := by
  induction k with
  | zero => rfl
  | succ k ih =>
    rw [Nat.shiftLeft_succ, Nat.log2_two_mul fun h ↦ hm ?_, ih, add_assoc]
    simpa [Nat.shiftLeft_eq] using h

theorem denotes_round (s : Sign) {m : ℕ} (hm : 0 < m) (e : ℤ) :
    Denotes (UnpackedFloat.round .binary64 s m e) ((s.apply 1 : ℤ) * rounded (m * 2 ^ e)) := by
  -- The mantissa gets its places first, which changes neither the number nor its last place.
  obtain ⟨k, hk⟩ : ∃ k : ℕ,
      (e - Format.binary64.targetExponent (totalExponent m e)).toNat = k := ⟨_, rfl⟩
  have hround : UnpackedFloat.round .binary64 s m e =
      roundWithAccuracy .binary64 s (m <<< k) (e - k) .exact := by
    rw [UnpackedFloat.round, decreaseExponent, hk]
  have hvalue : ((m <<< k : ℕ) : ℝ) * 2 ^ (e - k : ℤ) = m * 2 ^ e := by
    rw [Nat.shiftLeft_eq, Nat.cast_mul, Nat.cast_pow, Nat.cast_two, mul_assoc, ← zpow_natCast,
      ← two_zpow_add, add_sub_cancel]
  rw [hround, ← hvalue]
  refine denotes_roundWithAccuracy s ?_ (tells_exact _) ?_
  · rw [Nat.shiftLeft_eq]
    positivity
  · rw [targetExponent_eq] at hk ⊢
    rw [log2_shiftLeft hm.ne']
    push_cast
    omega

theorem denotes_normalize (m e : ℤ) (s : Sign) :
    Denotes (normalize .binary64 m e s) (rounded (m * 2 ^ e)) := by
  rw [UnpackedFloat.normalize]
  rcases lt_trichotomy m 0 with hneg | rfl | hpos
  · rw [Int.compare_eq_lt.2 hneg]
    have h := denotes_round .negative (m := (-m).toNat) (by omega) e
    have hcast : (((-m).toNat : ℕ) : ℝ) = -(m : ℝ) := by
      exact_mod_cast (Int.toNat_of_nonneg (by omega : 0 ≤ -m))
    rw [hcast, neg_mul, rounded_neg, Sign.apply] at h
    simpa using h
  · rw [show compare (0 : ℤ) 0 = .eq from rfl]
    exact ⟨trivial, by simp⟩
  · rw [Int.compare_eq_gt.2 hpos]
    have h := denotes_round .positive (m := m.toNat) (by omega) e
    have hcast : ((m.toNat : ℕ) : ℝ) = (m : ℝ) := by
      exact_mod_cast (Int.toNat_of_nonneg hpos.le)
    rw [hcast, Sign.apply] at h
    simpa using h

/-! ### Sums -/

/-- What denotes a real number is a zero or finite. -/
theorem Denotes.zero_or_finite {u : UnpackedFloat} {r : ℝ} (h : Denotes u r) :
    (∃ s, u = .zero s ∧ r = 0) ∨
      ∃ s m e hm, u = .finite s m e hm ∧ r = (s.apply m : ℤ) * 2 ^ e := by
  obtain ⟨-, h⟩ := h
  cases u with
  | notANumber => cases h
  | infinity s =>
    obtain ⟨negative, rfl⟩ := exists_signOf s
    rw [denoted_infinity, Option.some_inj] at h
    cases negative <;> simp [signed] at h
  | zero s =>
    rw [denoted_zero, Option.some_inj, ← EReal.coe_zero, EReal.coe_eq_coe_iff] at h
    exact .inl ⟨s, rfl, h.symm⟩
  | finite s m e hm =>
    rw [denoted_finite, Option.some_inj, EReal.coe_eq_coe_iff] at h
    exact .inr ⟨s, m, e, hm, rfl, h.symm⟩

theorem Denotes.fits {u : UnpackedFloat} {r : ℝ} (h : Denotes u r) : Fits r := by
  obtain ⟨s, rfl, rfl⟩ | ⟨s, m, e, hm, rfl, rfl⟩ := h.zero_or_finite
  · exact ⟨0, 0, by norm_num, by norm_num, by simp⟩
  · obtain ⟨hbits, hleast, -⟩ := h.canonical
    refine ⟨s.apply m, e, ?_, hleast, rfl⟩
    cases s <;> simp only [Sign.apply, abs_neg] <;> rw [Nat.abs_cast] <;> exact_mod_cast hbits.le

theorem value_decreaseExponent (s : Sign) (m : ℕ) {e t : ℤ} (h : t ≤ e) :
    ((s.apply (decreaseExponent m e t).1 : ℤ) : ℝ) * 2 ^ t = (s.apply m : ℤ) * 2 ^ e := by
  have hvalue : (((m <<< (e - t).toNat : ℕ) : ℕ) : ℝ) * 2 ^ t = m * 2 ^ e := by
    rw [Nat.shiftLeft_eq, Nat.cast_mul, Nat.cast_pow, Nat.cast_two, mul_assoc, ← zpow_natCast,
      ← two_zpow_add, Int.toNat_of_nonneg (by omega), sub_add_cancel]
  rw [decreaseExponent]
  cases s <;> simp only [Sign.apply, Int.cast_neg, Int.cast_natCast, neg_mul, hvalue]

/-- A sum of real numbers is their sum rounded. -/
theorem Denotes.add {u v : UnpackedFloat} {r r' : ℝ} (hu : Denotes u r) (hv : Denotes v r') :
    Denotes (UnpackedFloat.add .binary64 u v) (rounded (r + r')) := by
  obtain ⟨s, rfl, rfl⟩ | ⟨s, m, e, hm, rfl, rfl⟩ := hu.zero_or_finite
  · rw [zero_add, rounded_of_fits hv.fits]
    obtain ⟨s', rfl, rfl⟩ | ⟨s', m', e', hm', rfl, rfl⟩ := hv.zero_or_finite
    · rw [UnpackedFloat.add]
      split_ifs <;> exact ⟨trivial, by simp⟩
    · exact hv
  obtain ⟨s', rfl, rfl⟩ | ⟨s', m', e', hm', rfl, rfl⟩ := hv.zero_or_finite
  · rw [add_zero, rounded_of_fits hu.fits]
    exact hu
  · rw [← value_decreaseExponent s m (min_le_left e e'),
      ← value_decreaseExponent s' m' (min_le_right e e'), ← add_mul, ← Int.cast_add]
    exact denotes_normalize _ _ _

end Summand.Binary64
