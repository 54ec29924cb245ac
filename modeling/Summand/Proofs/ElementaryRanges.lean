import Summand.Elementary.Angle
import Summand.Proofs.RoundedBounds

/-!
# Ranges of the elementary functions

An elementary function is rounded from an enclosure in fixed point. Whatever precision decides, its
value is the double nearest to the lower end of an enclosure (`exists_correctlyRounded`), and so the
range of the function follows from bounds on a few series of integers. An exponential is not
negative (`exists_extended?_exp`), the logarithm of a positive finite double is finite
(`isFinite_log`), a sine lies between minus one and one (`exists_extended?_sin`), and the arc sine
of a double between them is finite (`isFinite_asin`).

None of these bounds needs to know how near the series are to the functions that they stand for.
-/

namespace Summand

namespace Binary64

/-! ### Enclosures -/

/-- A search for a precision ends with the lower end of one of the enclosures. -/
theorem exists_settle_eq (enclose : ℕ → Enclosure) (bits : ℕ) (more : List ℕ) :
    ∃ b ∈ bits :: more, Enclosure.settle enclose bits more =
      Enclosure.nearest (enclose b).lower (enclose b).exponent := by
  induction more generalizing bits with
  | nil => exact ⟨bits, List.mem_singleton_self bits, rfl⟩
  | cons next rest ih =>
    rw [Enclosure.settle]
    split
    · rename_i x hx
      refine ⟨bits, List.mem_cons_self, ?_⟩
      rw [Enclosure.rounded?] at hx
      split_ifs at hx
      exact (Option.some_inj.1 hx).symm
    · obtain ⟨b, hb, heq⟩ := ih next
      exact ⟨b, List.mem_cons_of_mem bits hb, heq⟩

/-- A correctly rounded value is the double nearest to the lower end of an enclosure. -/
theorem exists_correctlyRounded (enclose : ℕ → Enclosure) : ∃ b, 128 ≤ b ∧ b ≤ 4096 ∧
    extended? (Enclosure.correctlyRounded enclose) =
      some (nearest (((enclose b).lower * 2 ^ (enclose b).exponent : ℝ))) := by
  obtain ⟨b, hb, heq⟩ := exists_settle_eq enclose 128 [256, 512, 1024, 2048, 4096]
  have hrange : 128 ≤ b ∧ b ≤ 4096 := by
    simp only [List.mem_cons, List.not_mem_nil, or_false] at hb
    omega
  refine ⟨b, hrange.1, hrange.2, ?_⟩
  rw [Enclosure.correctlyRounded, heq, extended?_enclosure_nearest]

end Binary64

namespace Elementary

open Float.Model (UnpackedFloat)
open Binary64 (Enclosure extended? nearest)

/-! ### Scaled products -/

/-- A factor that is no greater than the scale makes no number greater. -/
theorem abs_tdiv_le {s d : ℤ} (a : ℤ) (h : |s| ≤ d) : |(a * s).tdiv d| ≤ |a| := by
  have hscale : s.natAbs ≤ d.natAbs := by
    rw [Int.abs_eq_natAbs] at h
    omega
  have hquotient : ((a * s).tdiv d).natAbs ≤ a.natAbs := by
    rw [Int.natAbs_tdiv, Int.natAbs_mul, mul_comm]
    exact Nat.div_le_of_le_mul (Nat.mul_le_mul_right _ hscale)
  rw [Int.abs_eq_natAbs, Int.abs_eq_natAbs]
  exact_mod_cast hquotient

/-- A factor between zero and the scale takes a number towards zero. -/
theorem tdiv_mem_uIcc {s d : ℤ} (a : ℤ) (hs : 0 ≤ s) (h : s ≤ d) :
    (a * s).tdiv d ∈ Set.uIcc 0 a := by
  have habs := abs_tdiv_le a (by rwa [abs_of_nonneg hs] : |s| ≤ d)
  rcases le_total 0 a with ha | ha
  · rw [Set.uIcc_of_le ha]
    rw [abs_of_nonneg ha] at habs
    exact ⟨Int.tdiv_nonneg (mul_nonneg ha hs) (hs.trans h), (le_abs_self _).trans habs⟩
  · have hneg : 0 ≤ (-a * s).tdiv d :=
      Int.tdiv_nonneg (mul_nonneg (neg_nonneg.2 ha) hs) (hs.trans h)
    rw [neg_mul, Int.neg_tdiv] at hneg
    rw [Set.uIcc_of_ge ha]
    rw [abs_of_nonpos ha] at habs
    exact ⟨by linarith [neg_abs_le ((a * s).tdiv d)], by linarith⟩

theorem abs_le_of_mem_uIcc {a b : ℤ} (h : b ∈ Set.uIcc 0 a) : |b| ≤ |a| := by
  simpa using Set.abs_sub_left_of_mem_uIcc h

/-- A smaller power has a smaller term in the next place of an odd series. -/
theorem tdiv_le_tdiv {a b : ℤ} (ha : 0 ≤ a) (h : a ≤ b) (k : ℕ) :
    a.tdiv (2 * (k + 1 : ℕ) + 1) ≤ b.tdiv (2 * k + 1) := by
  rw [Int.tdiv_eq_ediv_of_nonneg ha, Int.tdiv_eq_ediv_of_nonneg (ha.trans h),
    Int.le_ediv_iff_mul_le (by positivity)]
  calc a / (2 * (k + 1 : ℕ) + 1) * (2 * k + 1)
      ≤ a / (2 * (k + 1 : ℕ) + 1) * (2 * (k + 1 : ℕ) + 1) :=
        mul_le_mul_of_nonneg_left (by push_cast; omega) (Int.ediv_nonneg ha (by positivity))
    _ ≤ a := Int.ediv_mul_le _ (by positivity)
    _ ≤ b := h

/-- A square of a scaled number of size at most one is at most one. -/
theorem square_mem {z : ℤ} {bits : ℕ} (h : |z| ≤ 2 ^ bits) :
    0 ≤ (z * z).tdiv (2 ^ bits) ∧ (z * z).tdiv (2 ^ bits) ≤ 2 ^ bits := by
  refine ⟨Int.tdiv_nonneg (mul_self_nonneg z) (by positivity), ?_⟩
  exact (le_abs_self _).trans ((abs_tdiv_le z h).trans h)

/-! ### Series -/

section Series

variable {square term power : ℤ} {bits : ℕ}

/-- The series of an exponential has no negative terms if its argument is not negative. -/
theorem le_expSeries {r : ℤ} (hr : 0 ≤ r) (hterm : 0 ≤ term) (bits k : ℕ) (sum : ℤ) (fuel : ℕ) :
    sum ≤ expSeries r bits term k sum fuel := by
  induction fuel generalizing term k sum with
  | zero => exact le_rfl
  | succ fuel ih =>
    rw [expSeries]
    split_ifs
    · exact le_rfl
    · have hnext : 0 ≤ (term * r).tdiv (2 ^ bits * (k + 1)) :=
        Int.tdiv_nonneg (mul_nonneg hterm hr) (by positivity)
      exact (le_add_of_nonneg_right hterm).trans (ih hnext _ _)

/-- An odd series of one sign has no negative terms from a power that is not negative. -/
theorem le_oddSeries (hsquare : 0 ≤ square) (hpower : 0 ≤ power) (bits k : ℕ) (sum : ℤ)
    (fuel : ℕ) :
    sum ≤ oddSeries false square bits power k sum fuel := by
  induction fuel generalizing power k sum with
  | zero => exact le_rfl
  | succ fuel ih =>
    by_cases hzero : power = 0
    · rw [oddSeries, if_pos hzero]
    · rw [oddSeries, if_neg hzero]
      have hterm : 0 ≤ power.tdiv (2 * k + 1) := Int.tdiv_nonneg hpower (by positivity)
      have hnext : 0 ≤ (power * square).tdiv (2 ^ bits) :=
        Int.tdiv_nonneg (mul_nonneg hpower hsquare) (by positivity)
      exact (le_add_of_nonneg_right hterm).trans (ih hnext _ _)

/-- The powers of an odd series do not grow, so none of its terms exceeds the first power. -/
theorem abs_oddSeries_sub_le (hsquare : 0 ≤ square) (hle : square ≤ 2 ^ bits) (alternating : Bool)
    (power : ℤ) (k : ℕ) (sum : ℤ) (fuel : ℕ) :
    |oddSeries alternating square bits power k sum fuel - sum| ≤ fuel * |power| := by
  induction fuel generalizing power k sum with
  | zero => simp [oddSeries]
  | succ fuel ih =>
    by_cases hzero : power = 0
    · rw [oddSeries, if_pos hzero, sub_self, abs_zero]
      positivity
    rw [oddSeries, if_neg hzero]
    set next := (power * square).tdiv (Int.pow 2 bits) with hnext
    set sum' := if alternating && k % 2 == 1 then sum - power.tdiv (2 * k + 1)
      else sum + power.tdiv (2 * k + 1) with hsum
    have hpower : |next| ≤ |power| := abs_tdiv_le power (by rwa [abs_of_nonneg hsquare])
    have hterm : |power.tdiv (2 * k + 1)| ≤ |power| := by
      simpa using abs_tdiv_le (s := 1) (d := 2 * k + 1) power (by rw [abs_one]; omega)
    have hadded : |sum' - sum| ≤ |power| := by
      rw [hsum]
      split_ifs <;> simpa using hterm
    have hrest : (fuel : ℤ) * |next| ≤ fuel * |power| :=
      mul_le_mul_of_nonneg_left hpower fuel.cast_nonneg
    calc |oddSeries alternating square bits next (k + 1) sum' fuel - sum|
        ≤ |oddSeries alternating square bits next (k + 1) sum' fuel - sum'| + |sum' - sum| :=
          abs_sub_le _ _ _
      _ ≤ fuel * |power| + |power| := add_le_add ((ih next (k + 1) sum').trans hrest) hadded
      _ = (fuel + 1 : ℕ) * |power| := by push_cast; ring

/-- An alternating series of terms that do not grow stays between the sums before and after its
first term. -/
theorem alternatingSeries_sub_mem (hsquare : 0 ≤ square) (hle : square ≤ 2 ^ bits) (term : ℤ)
    (n : ℕ) (sum : ℤ) (fuel : ℕ) :
    alternatingSeries square bits term n sum fuel - sum ∈ Set.uIcc 0 term := by
  induction fuel generalizing term n sum with
  | zero => simp [alternatingSeries]
  | succ fuel ih =>
    rw [alternatingSeries]
    split_ifs with hzero
    · simp
    have hscale : square ≤ 2 ^ bits * ((n + 1) * (n + 2)) :=
      hle.trans (le_mul_of_one_le_right (by positivity) (by nlinarith))
    have hnext := tdiv_mem_uIcc term hsquare hscale
    have hrest := ih (-(term * square).tdiv (2 ^ bits * ((n + 1) * (n + 2)))) (n + 2) (sum + term)
    rw [Set.mem_uIcc] at hnext hrest ⊢
    show 0 ≤ alternatingSeries square bits (-(term * square).tdiv (2 ^ bits * ((n + 1) * (n + 2))))
      (n + 2) (sum + term) fuel - sum ∧ _ ∨ _
    generalize alternatingSeries square bits _ (n + 2) (sum + term) fuel = result at hrest ⊢
    generalize (term * square).tdiv _ = next at hnext hrest
    omega

/-- The same holds of an odd series with alternating signs. -/
theorem exists_oddSeries_eq (hsquare : 0 ≤ square) (hle : square ≤ 2 ^ bits) (hpower : 0 ≤ power)
    (k : ℕ) (sum : ℤ) (fuel : ℕ) : ∃ d, 0 ≤ d ∧ d ≤ power.tdiv (2 * k + 1) ∧
      oddSeries true square bits power k sum fuel = if k % 2 = 1 then sum - d else sum + d := by
  induction fuel generalizing power k sum with
  | zero => exact ⟨0, le_rfl, Int.tdiv_nonneg hpower (by positivity), by simp [oddSeries]⟩
  | succ fuel ih =>
    have hterm : 0 ≤ power.tdiv (2 * k + 1) := Int.tdiv_nonneg hpower (by positivity)
    by_cases hzero : power = 0
    · exact ⟨0, le_rfl, hterm, by simp [oddSeries, hzero]⟩
    rw [oddSeries, if_neg hzero]
    obtain ⟨hnonneg, hnext⟩ := Set.uIcc_of_le hpower ▸ tdiv_mem_uIcc power hsquare hle
    -- The next term is no greater, so it does not undo more than this one has done.
    have hsmaller := tdiv_le_tdiv hnonneg hnext k
    obtain ⟨d, hd, hd', heq⟩ := ih hnonneg (k + 1) (if true && k % 2 == 1
      then sum - power.tdiv (2 * k + 1) else sum + power.tdiv (2 * k + 1))
    refine ⟨power.tdiv (2 * k + 1) - d, sub_nonneg.2 (hd'.trans hsmaller), sub_le_self _ hd,
      heq.trans ?_⟩
    rcases Nat.mod_two_eq_zero_or_one k with hk | hk
    · have hk' : (k + 1) % 2 = 1 := by omega
      simp [hk, hk', add_sub_assoc]
    · have hk' : (k + 1) % 2 = 0 := by omega
      simp [hk, hk']
      ring

end Series

/-! ### Constants -/

variable {bits : ℕ}

/-- The places that are used are enough for small bounds. -/
theorem two_pow_le (h : 160 ≤ bits) : (2 : ℤ) ^ 160 ≤ 2 ^ bits :=
  pow_le_pow_right₀ one_le_two h

theorem le_artanh {z : ℤ} (hz : 0 ≤ z) (bits : ℕ) : z ≤ artanh z bits := by
  have hsquare : 0 ≤ (z * z).tdiv (2 ^ bits) :=
    Int.tdiv_nonneg (mul_self_nonneg z) (by positivity)
  rcases hz.eq_or_lt with rfl | hpos
  · exact le_oddSeries hsquare le_rfl bits 0 0 (bits + 2)
  have hnext : 0 ≤ (z * (z * z).tdiv (2 ^ bits)).tdiv (2 ^ bits) :=
    Int.tdiv_nonneg (mul_nonneg hz hsquare) (by positivity)
  have hrest := le_oddSeries hsquare hnext bits 1 (0 + z.tdiv 1) (bits + 1)
  rw [Int.tdiv_one, zero_add] at hrest
  rw [artanh, oddSeries, if_neg hpos.ne']
  simpa using hrest

theorem abs_artanh_le {z : ℤ} (hz : |z| ≤ 2 ^ bits) : |artanh z bits| ≤ (bits + 2) * 2 ^ bits := by
  obtain ⟨hnonneg, hle⟩ := square_mem hz
  have hseries := abs_oddSeries_sub_le hnonneg hle false z 0 0 (bits + 2)
  rw [sub_zero] at hseries
  refine hseries.trans ?_
  push_cast
  exact mul_le_mul_of_nonneg_left hz (by positivity)

theorem logTwo_pos (h : 160 ≤ bits) : 0 < logTwo bits := by
  have hscale := two_pow_le h
  have hthird : 0 < (2 : ℤ) ^ bits / 3 := by omega
  have := le_artanh hthird.le bits
  exact mul_pos two_pos (hthird.trans_le this)

theorem abs_logTwo_le (bits : ℕ) : |logTwo bits| ≤ 2 * ((bits + 2) * 2 ^ bits) := by
  have hscale : (0 : ℤ) < 2 ^ bits := by positivity
  have hthird : |(2 : ℤ) ^ bits / 3| ≤ 2 ^ bits := by
    rw [abs_of_nonneg (by omega)]
    omega
  rw [logTwo, abs_mul, abs_two]
  exact mul_le_mul_of_nonneg_left (abs_artanh_le hthird) two_pos.le

/-- The arc tangent of the inverse of an integer is less than the inverse, but by no more than a
third. -/
theorem arctanInverse_mem {n : ℤ} (hn : 2 ≤ n) (bits : ℕ) :
    oddSeries true (2 ^ bits / (n * n)) bits (2 ^ bits / n) 0 0 (bits + 2) ∈
      Set.Icc (2 ^ bits / n - 2 ^ bits / n / 3) (2 ^ bits / n) := by
  have hscale : (0 : ℤ) ≤ 2 ^ bits := by positivity
  have hsquare : (0 : ℤ) ≤ 2 ^ bits / (n * n) := Int.ediv_nonneg hscale (by positivity)
  have hle : (2 : ℤ) ^ bits / (n * n) ≤ 2 ^ bits := Int.ediv_le_self _ hscale
  have hfirst : 0 ≤ (2 : ℤ) ^ bits / n := Int.ediv_nonneg hscale (by omega)
  rcases hfirst.eq_or_lt with hzero | hpos
  · rw [← hzero, oddSeries, if_pos rfl]
    exact ⟨by decide, le_rfl⟩
  obtain ⟨hnonneg, hnext⟩ := Set.uIcc_of_le hfirst ▸ tdiv_mem_uIcc _ hsquare hle
  obtain ⟨d, hd, hd', heq⟩ := exists_oddSeries_eq hsquare hle hnonneg 1 (2 ^ bits / n) (bits + 1)
  have hthird := hd'.trans (Int.tdiv_le_tdiv (by norm_num) hnext)
  rw [Int.tdiv_eq_ediv_of_nonneg hfirst] at hthird
  have hsum : oddSeries true (2 ^ bits / (n * n)) bits (2 ^ bits / n) 0 0 (bits + 2) =
      2 ^ bits / n - d := by
    rw [oddSeries, if_neg hpos.ne']
    simpa using heq
  rw [hsum]
  exact ⟨sub_le_sub_left hthird _, sub_le_self _ hd⟩

theorem pi_mem (h : 160 ≤ bits) : 2 ≤ pi bits ∧ pi bits ≤ 4 * 2 ^ bits := by
  have hscale := two_pow_le h
  obtain ⟨hlow, hhigh⟩ := arctanInverse_mem (n := 5) (by norm_num) bits
  obtain ⟨hlow', hhigh'⟩ := arctanInverse_mem (n := 239) (by norm_num) bits
  show 2 ≤ 16 * oddSeries true (2 ^ bits / (5 * 5)) bits (2 ^ bits / 5) 0 0 (bits + 2) -
      4 * oddSeries true (2 ^ bits / (239 * 239)) bits (2 ^ bits / 239) 0 0 (bits + 2) ∧
    16 * oddSeries true (2 ^ bits / (5 * 5)) bits (2 ^ bits / 5) 0 0 (bits + 2) -
      4 * oddSeries true (2 ^ bits / (239 * 239)) bits (2 ^ bits / 239) 0 0 (bits + 2) ≤ _
  omega

/-! ### Enclosures with places -/

/-- The lower end of an enclosure with binary places is at most a number. -/
theorem lower_le_iff {v : ℤ} {c : ℝ} : (v : ℝ) * 2 ^ (-(bits : ℤ)) ≤ c ↔ v ≤ c * 2 ^ bits := by
  rw [zpow_neg, zpow_natCast, ← div_eq_mul_inv, div_le_iff₀ (by positivity)]

theorem le_lower_iff {v : ℤ} {c : ℝ} : c ≤ (v : ℝ) * 2 ^ (-(bits : ℤ)) ↔ c * 2 ^ bits ≤ v := by
  rw [zpow_neg, zpow_natCast, ← div_eq_mul_inv, le_div_iff₀ (by positivity)]

/-- A value of moderate size is rounded to a finite double. -/
theorem isFinite_correctlyRounded {enclose : ℕ → Enclosure} (h : ∀ b, 128 ≤ b → b ≤ 4096 →
    ∃ bits : ℕ, (enclose b).exponent = -bits ∧ |(enclose b).lower| ≤ 2 ^ 30 * 2 ^ bits) :
    (Enclosure.correctlyRounded enclose).isFinite := by
  obtain ⟨b, hlow, hhigh, heq⟩ := Binary64.exists_correctlyRounded enclose
  obtain ⟨bits, hexponent, hbound⟩ := h b hlow hhigh
  have hreal : |((enclose b).lower : ℝ)| ≤ 2 ^ 30 * 2 ^ bits := by exact_mod_cast hbound
  have hsize : |((enclose b).lower * 2 ^ (enclose b).exponent : ℝ)| ≤ 2 ^ (30 : ℤ) := by
    rw [hexponent, abs_mul, abs_of_pos (Binary64.two_zpow_pos _), ← Int.cast_abs, lower_le_iff,
      Int.cast_abs]
    exact_mod_cast hreal
  have hfits : Binary64.Fits (2 ^ (30 : ℤ)) := ⟨1, 30, by norm_num, by norm_num, by simp⟩
  obtain ⟨s, hs, -⟩ := Binary64.exists_nearest_le hfits
    (zpow_lt_zpow_right₀ one_lt_two (by norm_num)) hsize
  exact Binary64.isFinite_iff.2 ⟨s, hs ▸ heq⟩

/-! ### Exponentials and logarithms -/

variable {x : Float} {r : ℝ}

theorem lower_expEnclosure_nonneg (v e : ℤ) {precision : ℕ} (h : 128 ≤ precision) :
    0 ≤ (expEnclosure v e precision).lower := by
  obtain ⟨bits, hbits⟩ : ∃ bits, bits = precision + 32 := ⟨_, rfl⟩
  have hplaces : 160 ≤ bits := by omega
  have hscale := two_pow_le hplaces
  have hrest := Int.fmod_nonneg_of_pos (Binary64.scaleInt v e bits) (logTwo_pos hplaces)
  rw [Int.fmod_def, mul_comm] at hrest
  have hterm : (0 : ℤ) ≤ 2 ^ bits := by positivity
  have hseries := le_expSeries hrest (Int.tdiv_nonneg (mul_nonneg hterm hrest) (by positivity) :
    0 ≤ (2 ^ bits * _ : ℤ).tdiv (2 ^ bits * ((0 : ℕ) + 1))) bits 1 (0 + 2 ^ bits) (bits + 1)
  have hfirst : (2 : ℤ) ^ bits ≠ 0 := by positivity
  rw [expEnclosure, ← hbits]
  show 0 ≤ expSeries _ bits (2 ^ bits) 0 0 (bits + 2) - (2 ^ 24 : ℕ)
  rw [expSeries, if_neg hfirst]
  refine sub_nonneg.2 (le_trans ?_ hseries)
  push_cast
  omega

/-- The exponential of a finite double is a number that is not negative, if not infinite. -/
theorem exists_extended?_exp (hx : extended? x = some (r : EReal)) :
    ∃ X, extended? (exp x) = some X ∧ 0 ≤ X := by
  obtain ⟨s, hs, -⟩ | ⟨s, m, e, hm, hs, -⟩ := (Binary64.denotes_unpack hx).zero_or_finite
  · rw [exp, hs]
    exact ⟨_, Binary64.extended?_one, EReal.coe_nonneg.2 zero_le_one⟩
  rw [exp, hs]
  dsimp only
  split_ifs
  · exact ⟨⊤, Binary64.extended?_positiveInfinity, le_top⟩
  · exact ⟨_, Binary64.extended?_zero, EReal.coe_nonneg.2 le_rfl⟩
  · obtain ⟨b, hb, -, heq⟩ := Binary64.exists_correctlyRounded (expEnclosure (s.apply m) e)
    refine ⟨_, heq, Binary64.nearest_nonneg (EReal.coe_nonneg.2 ?_)⟩
    exact mul_nonneg (Int.cast_nonneg (lower_expEnclosure_nonneg _ e hb))
      (Binary64.two_zpow_pos _).le

/-- Far below zero there is nothing left of an exponential. -/
theorem exp_of_le (hx : extended? x = some (r : EReal)) (h : x ≤ -750.0) : exp x = 0.0 := by
  obtain ⟨a, ha⟩ := Binary64.isFinite_iff.1 (by decide +kernel : (710.0 : Float).isFinite = true)
  obtain ⟨b, hb⟩ := Binary64.isFinite_iff.1 (by decide +kernel : (-750.0 : Float).isFinite = true)
  have hsmall : ¬(710.0 : Float) ≤ x := by
    intro hlarge
    have htrans := ((Binary64.le_iff_le ha hx).1 hlarge).trans ((Binary64.le_iff_le hx hb).1 h)
    exact absurd ((Binary64.le_iff_le ha hb).2 htrans) (by decide +kernel)
  obtain ⟨s, hs, rfl⟩ | ⟨s, m, e, hm, hs, -⟩ := (Binary64.denotes_unpack hx).zero_or_finite
  · have hzero := (Binary64.le_iff_le hx hb).1 h
    exact absurd ((Binary64.le_iff_le Binary64.extended?_zero hb).2 hzero) (by decide +kernel)
  · rw [exp, hs]
    dsimp only
    rw [if_neg hsmall, if_pos h]

/-- The exponent and the mantissa of a finite double. -/
theorem exponent_mem {s : UnpackedFloat.Sign} {m : ℕ} {e : ℤ} {hm : 0 < m}
    (h : Binary64.unpack x = .finite s m e hm) : m < 2 ^ 53 ∧ -1074 ≤ e ∧ e ≤ 971 := by
  have hcanonical := Binary64.canonical_unpack x.toBits.toBitVec
  rw [show UnpackedFloat.unpack .binary64 x.toBits.toBitVec = .finite s m e hm from h]
    at hcanonical
  refine ⟨hcanonical.1, hcanonical.2.1, ?_⟩
  revert h
  refine Binary64.unpack_cases (P := fun u ↦ u = .finite s m e hm → e ≤ 971) x.toBits.toBitVec
    (fun _ _ ↦ nofun) (fun _ _ ↦ nofun) (fun _ _ ↦ nofun) (fun _ _ h ↦ ?_) fun _ _ _ h ↦ ?_ <;>
    injection h <;> omega

/-- The ratio by which a mantissa differs from a power of two is at most one. -/
theorem abs_ratio_le (m k : ℕ) :
    |((m - 2 ^ k : ℤ) * 2 ^ bits).tdiv (m + 2 ^ k)| ≤ 2 ^ bits := by
  have hpower : (0 : ℤ) < 2 ^ k := pow_pos two_pos k
  have hratio : |(m - 2 ^ k : ℤ)| ≤ m + 2 ^ k := by
    rw [abs_le]
    omega
  rw [mul_comm]
  exact (abs_tdiv_le _ hratio).trans_eq (abs_of_nonneg (by positivity))

/-- Logarithms of finite doubles are of moderate size. -/
theorem abs_lower_logEnclosure_le {m : ℕ} {e : ℤ} (hm : m < 2 ^ 53) (hlow : -1074 ≤ e)
    (hhigh : e ≤ 971) {precision : ℕ} (hprecision : precision ≤ 4096) :
    |(logEnclosure m e precision).lower| ≤ 2 ^ 30 * 2 ^ (precision + 32) := by
  obtain ⟨bits, hbits⟩ : ∃ bits, bits = precision + 32 := ⟨_, rfl⟩
  obtain ⟨k, hk⟩ : ∃ k, k = if 3 * m > 4 * 2 ^ m.log2 then m.log2 + 1 else m.log2 := ⟨_, rfl⟩
  obtain ⟨z, hz⟩ : ∃ z, z = ((m - 2 ^ k : ℤ) * 2 ^ bits).tdiv (m + 2 ^ k) := ⟨_, rfl⟩
  have hexponent : |(k : ℤ) + e| ≤ 1074 := by
    have hlog := Binary64.log2_le_of_lt hm
    rw [hk, abs_le]
    split_ifs <;> omega
  have hfirst : |((k : ℤ) + e) * logTwo bits| ≤ 1074 * (2 * (4130 * 2 ^ bits)) := by
    rw [abs_mul]
    refine mul_le_mul hexponent ((abs_logTwo_le bits).trans ?_) (abs_nonneg _) (by norm_num)
    gcongr
    omega
  have hsecond : |2 * artanh z bits| ≤ 2 * (4130 * 2 ^ bits) := by
    rw [abs_mul, abs_two]
    refine mul_le_mul_of_nonneg_left ((abs_artanh_le (hz ▸ abs_ratio_le m k)).trans ?_) two_pos.le
    gcongr
    omega
  have hscale : (2 : ℤ) ^ 32 ≤ 2 ^ bits := pow_le_pow_right₀ one_le_two (by omega)
  have hlower : (logEnclosure m e precision).lower =
      ((k : ℤ) + e) * logTwo bits + 2 * artanh z bits - (2 ^ 24 : ℕ) := by
    rw [hz, hk, hbits]
    rfl
  rw [← hbits, hlower, abs_le]
  rw [abs_le] at hfirst hsecond
  push_cast
  omega

/-- The logarithm of a positive finite double is finite. -/
theorem isFinite_log (hx : extended? x = some (r : EReal)) (hr : 0 < r) : (log x).isFinite := by
  obtain ⟨s, -, rfl⟩ | ⟨s, m, e, hm, hs, rfl⟩ := (Binary64.denotes_unpack hx).zero_or_finite
  · exact absurd hr (lt_irrefl 0)
  cases s with
  | negative =>
    have hneg : ((UnpackedFloat.Sign.negative.apply m : ℤ) : ℝ) * 2 ^ e < 0 :=
      mul_neg_of_neg_of_pos (by simpa [UnpackedFloat.Sign.apply] using hm) (Binary64.two_zpow_pos e)
    exact absurd hr hneg.not_gt
  | positive =>
    obtain ⟨hbits, hlow, hhigh⟩ := exponent_mem hs
    rw [log, hs]
    dsimp only
    split_ifs
    · decide +kernel
    · exact isFinite_correctlyRounded fun b _ hb ↦
        ⟨b + 32, rfl, abs_lower_logEnclosure_le hbits hlow hhigh hb⟩

theorem extended?_log_zero (hx : extended? x = some ((0 : ℝ) : EReal)) :
    extended? (log x) = some ⊥ := by
  obtain ⟨s, hs⟩ := Binary64.exists_unpacked_zero hx
  rw [log, hs]
  exact Binary64.extended?_negativeInfinity

theorem extended?_log_top (hx : extended? x = some ⊤) : extended? (log x) = some ⊤ := by
  have hs : Binary64.unpack x = .infinity .positive := Binary64.eq_infinity_of_denoted false hx
  rw [log, hs]
  exact hx

/-! ### Sines -/

/-- What remains of a number after the nearest multiple of a step. -/
theorem abs_two_mul_sub_le (x : ℤ) {step : ℤ} (h : 0 < step) :
    |2 * (x - Int.fdiv (2 * x + step) (2 * step) * step)| ≤ step := by
  have hlow := Int.fmod_nonneg_of_pos (2 * x + step) (by omega : 0 < 2 * step)
  have hhigh := Int.fmod_lt_of_pos (2 * x + step) (by omega : 0 < 2 * step)
  rw [Int.fmod_def] at hlow hhigh
  have heq : 2 * (x - Int.fdiv (2 * x + step) (2 * step) * step) =
      2 * x + step - 2 * step * Int.fdiv (2 * x + step) (2 * step) - step := by ring
  rw [heq, abs_le]
  omega

/-- What remains of a number after quarter turns is at most one in size. -/
theorem abs_reduced_le (h : 160 ≤ bits) (x : ℤ) :
    |x - Int.fdiv (2 * x + pi bits / 2) (2 * (pi bits / 2)) * (pi bits / 2)| ≤ 2 ^ bits := by
  obtain ⟨hpi, hpi'⟩ := pi_mem h
  have hrest := abs_two_mul_sub_le x (by omega : 0 < pi bits / 2)
  rw [abs_le] at hrest ⊢
  omega

/-- The series of a sine and a cosine are at most one in size if their argument is. -/
theorem abs_sine_le {r : ℤ} (h : |r| ≤ 2 ^ bits) (fuel : ℕ) :
    |alternatingSeries ((r * r).tdiv (2 ^ bits)) bits r 1 0 fuel| ≤ 2 ^ bits ∧
      |alternatingSeries ((r * r).tdiv (2 ^ bits)) bits (2 ^ bits) 0 0 fuel| ≤ 2 ^ bits := by
  obtain ⟨hnonneg, hle⟩ := square_mem h
  have hsine := abs_le_of_mem_uIcc (alternatingSeries_sub_mem hnonneg hle r 1 0 fuel)
  have hcosine := abs_le_of_mem_uIcc (alternatingSeries_sub_mem hnonneg hle (2 ^ bits) 0 0 fuel)
  rw [sub_zero] at hsine hcosine
  exact ⟨hsine.trans h, hcosine.trans_eq (abs_of_nonneg (by positivity))⟩

/-- The lower end of an enclosure of a sine is hardly below minus one, and not above one. -/
theorem sineEnclosure_mem (v e quarters : ℤ) {precision : ℕ} (h : 128 ≤ precision) :
    ∃ bits : ℕ, (sineEnclosure v e quarters precision).exponent = -bits ∧
      -(2 ^ 60 + 1) * 2 ^ bits ≤ 2 ^ 60 * (sineEnclosure v e quarters precision).lower ∧
      (sineEnclosure v e quarters precision).lower ≤ 2 ^ bits := by
  obtain ⟨magnitude, hmagnitude⟩ : ∃ k, k = e + (v.natAbs.log2 : ℤ) := ⟨_, rfl⟩
  obtain ⟨bits, hbits⟩ : ∃ bits, bits = precision + 32 + magnitude.natAbs := ⟨_, rfl⟩
  have hplaces : 160 ≤ bits := by omega
  obtain ⟨hsine, hcosine⟩ :=
    abs_sine_le (abs_reduced_le hplaces (Binary64.scaleInt v e bits)) (bits + 2)
  obtain ⟨value, hvalue, hlower⟩ : ∃ value : ℤ, |value| ≤ 2 ^ bits ∧
      (sineEnclosure v e quarters precision).lower =
        value - (2 ^ 24 * 2 ^ magnitude.toNat : ℕ) := by
    subst hbits hmagnitude
    refine ⟨_, ?_, rfl⟩
    split
    · exact hsine
    · exact hcosine
    · exact (abs_neg _).trans_le hsine
    · exact (abs_neg _).trans_le hcosine
  have hslack : (2 : ℤ) ^ 60 * (2 ^ 24 * 2 ^ magnitude.toNat) ≤ 2 ^ bits := by
    rw [← pow_add, ← pow_add]
    exact pow_le_pow_right₀ one_le_two (by omega)
  have hslack' : (0 : ℤ) ≤ 2 ^ 24 * 2 ^ magnitude.toNat := by positivity
  obtain ⟨hlow, hhigh⟩ := abs_le.1 hvalue
  refine ⟨bits, by subst hbits hmagnitude; rfl, ?_, ?_⟩ <;> rw [hlower] <;> push_cast <;> linarith

/-- The sine of a finite double is a number between minus one and one. -/
theorem exists_extended?_sin (hx : extended? x = some (r : EReal)) :
    ∃ s : ℝ, extended? (sin x) = some (s : EReal) ∧ |s| ≤ 1 := by
  obtain ⟨s, hs, rfl⟩ | ⟨s, m, e, hm, hs, -⟩ := (Binary64.denotes_unpack hx).zero_or_finite
  · rw [sin, hs]
    exact ⟨0, hx, by simp⟩
  obtain ⟨b, hb, -, heq⟩ := Binary64.exists_correctlyRounded (sineEnclosure (s.apply m) e 0)
  obtain ⟨bits, hexponent, hlow, hhigh⟩ := sineEnclosure_mem (s.apply m) e 0 hb
  have hlow' : -(1 + 2 ^ (-60 : ℤ)) * (2 : ℝ) ^ bits ≤ (sineEnclosure (s.apply m) e 0 b).lower := by
    have hcast :
        -((2 : ℝ) ^ 60 + 1) * 2 ^ bits ≤ 2 ^ 60 * (sineEnclosure (s.apply m) e 0 b).lower := by
      exact_mod_cast hlow
    rw [show (2 : ℝ) ^ (-60 : ℤ) = 1 / 2 ^ 60 by norm_num]
    linarith
  have hhigh' : ((sineEnclosure (s.apply m) e 0 b).lower : ℝ) ≤ 1 * 2 ^ bits := by
    rw [one_mul]
    exact_mod_cast hhigh
  obtain ⟨t, ht, hbound⟩ :=
    Binary64.exists_nearest_unit (le_lower_iff.2 hlow') (lower_le_iff.2 hhigh')
  refine ⟨t, ?_, hbound⟩
  rw [sin, hs]
  rw [hexponent] at heq
  exact heq.trans (congrArg some ht)

/-! ### Arc sines -/

theorem halfAngle_le (bits z : ℕ) : halfAngle bits z ≤ z := by
  rw [halfAngle, mul_comm]
  exact Nat.div_le_of_le_mul (Nat.mul_le_mul_right z (Nat.le_add_right _ _))

/-- An arc tangent does not exceed the tangent. -/
theorem abs_arctanUnit_le {z : ℕ} (h : z ≤ 2 ^ bits) : |arctanUnit bits z| ≤ 8 * 2 ^ bits := by
  obtain ⟨small, hsmall⟩ : ∃ small, small = halfAngle bits (halfAngle bits (halfAngle bits z)) :=
    ⟨_, rfl⟩
  have hle : (small : ℤ) ≤ 2 ^ bits := by
    have := (halfAngle_le bits _).trans ((halfAngle_le bits _).trans (halfAngle_le bits z))
    rw [← hsmall] at this
    exact_mod_cast this.trans h
  have hsquare : (0 : ℤ) ≤ small * small / 2 ^ bits :=
    Int.ediv_nonneg (mul_self_nonneg _) (by positivity)
  have hsquare' : (small * small : ℤ) / 2 ^ bits ≤ 2 ^ bits :=
    Int.ediv_le_of_le_mul (by positivity) (mul_le_mul hle hle (by positivity) (by positivity))
  obtain ⟨d, hd, hd', heq⟩ := exists_oddSeries_eq hsquare hsquare' (Int.natCast_nonneg small) 0 0
    (bits + 2)
  have hangle : arctanUnit bits z = 8 * (0 + d) := by
    subst hsmall
    exact congrArg (8 * ·) heq
  rw [hangle, abs_of_nonneg (by omega), zero_add]
  have : d ≤ small := by simpa using hd'
  omega

theorem abs_arctanRatio_le (y x : ℕ) (h : 160 ≤ bits) : |arctanRatio y x bits| ≤ 10 * 2 ^ bits := by
  have hscale := two_pow_le h
  rw [arctanRatio]
  split_ifs with hle
  · have := abs_arctanUnit_le (Nat.div_le_of_le_mul (Nat.mul_le_mul_right (2 ^ bits) hle))
    exact this.trans (by omega)
  · have hunit := abs_le.1 (abs_arctanUnit_le
      (Nat.div_le_of_le_mul (Nat.mul_le_mul_right (2 ^ bits) (not_le.1 hle).le)))
    obtain ⟨hpi, hpi'⟩ := pi_mem h
    show |pi bits / 2 - arctanUnit bits (x * 2 ^ bits / y)| ≤ 10 * 2 ^ bits
    rw [abs_le]
    omega

/-- The lower end of an enclosure of an arc sine is of moderate size. -/
theorem asinEnclosure_mem (negative : Bool) (m : ℕ) (e : ℤ) {precision : ℕ}
    (h : 128 ≤ precision) : ∃ bits : ℕ, (asinEnclosure negative m e precision).exponent = -bits ∧
      |(asinEnclosure negative m e precision).lower| ≤ 2 ^ 30 * 2 ^ bits := by
  obtain ⟨bits, hbits⟩ :
      ∃ bits, bits = precision + 32 + 2 * (-(e + m.log2)).toNat + 64 := ⟨_, rfl⟩
  have hplaces : 160 ≤ bits := by omega
  have hscale := two_pow_le hplaces
  obtain ⟨angle, hangle, hlower⟩ : ∃ angle, |angle| ≤ 10 * 2 ^ bits ∧
      asinEnclosure negative m e precision =
        if negative then (Enclosure.around angle slack (-bits)).neg
        else .around angle slack (-bits) := by
    subst hbits
    exact ⟨_, abs_arctanRatio_le _ _ hplaces, rfl⟩
  have hslack : (slack : ℤ) = 2 ^ 24 := rfl
  rw [hlower]
  rw [abs_le] at hangle
  refine ⟨bits, by split <;> rfl, ?_⟩
  split <;> simp only [Enclosure.around, Enclosure.neg, hslack] <;> rw [abs_le] <;> omega

theorem extended?_minusOne : extended? (-1.0) = some ((-1 : ℝ) : EReal) := by
  have hneg := Binary64.extended?_neg 1.0
  rwa [Binary64.extended?_one] at hneg

/-- The arc sine of a double between minus one and one is finite. -/
theorem isFinite_asin (hx : extended? x = some (r : EReal)) (hr : |r| ≤ 1) :
    (asin x).isFinite := by
  obtain ⟨s, hs, rfl⟩ | ⟨s, m, e, hm, hs, -⟩ := (Binary64.denotes_unpack hx).zero_or_finite
  · rw [asin, hs]
    exact Binary64.isFinite_iff.2 ⟨_, hx⟩
  have hlow : ¬x < -1.0 := by
    rw [Binary64.lt_iff_lt hx extended?_minusOne, EReal.coe_lt_coe_iff]
    exact (neg_le_of_abs_le hr).not_gt
  have hhigh : ¬(1.0 : Float) < x := by
    rw [Binary64.lt_iff_lt Binary64.extended?_one hx, EReal.coe_lt_coe_iff]
    exact (le_of_abs_le hr).not_gt
  rw [asin, hs]
  dsimp only
  rw [if_neg (by simp [hlow, hhigh])]
  exact isFinite_correctlyRounded fun b hb _ ↦ asinEnclosure_mem _ m e hb

end Elementary

end Summand
