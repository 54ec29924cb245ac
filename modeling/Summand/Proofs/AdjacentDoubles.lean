import Summand.Interval.Basic
import Summand.Proofs.Doubles

/-!
# Adjacent doubles

The bit patterns of the numbers, read as integers with a sign, are their places in the order of what
they denote (`place`, `ranked_strictMono`), and the next double is the one in the next place
(`extended?_nextUp_eq_ranked`). So nothing lies between a double and the next one, whichever bits a
zero has, and widening a bound is a monotone function of the number that the bound denotes
(`raised`, `lowered`, `Interval.extended?_up`, `Interval.extended?_down`).

A number rounded to one of the nearest doubles lies between the doubles that are adjacent to it
(`IsNearest.le_raised`, `IsNearest.lowered_le`), unless it has become infinite: the infinities are
not widened.
-/

namespace Summand.Binary64

/-! ### Places -/

/-- The place of a bit pattern in the order of what the patterns denote. Both zeros have place
zero. -/
def place (b : UInt64) : ℤ := if b.toNat < 2 ^ 63 then b.toNat else 2 ^ 63 - b.toNat

theorem place_of_lt {b : UInt64} (h : b.toNat < 2 ^ 63) : place b = b.toNat := if_pos h

theorem place_of_le {b : UInt64} (h : 2 ^ 63 ≤ b.toNat) : place b = 2 ^ 63 - b.toNat :=
  if_neg h.not_gt

/-- The number in a place, as if no exponent were too large. -/
noncomputable def ranked (k : ℤ) : ℝ :=
  if 0 ≤ k then magnitude k.toNat else -magnitude (-k).toNat

theorem ranked_natCast (n : ℕ) : ranked n = magnitude n := by simp [ranked]

theorem ranked_neg_natCast (n : ℕ) : ranked (-n) = -magnitude n := by
  rcases Nat.eq_zero_or_pos n with rfl | hn
  · simp [ranked, magnitude_zero]
  · rw [ranked, if_neg (by omega), neg_neg, Int.toNat_natCast]

theorem ranked_strictMono : StrictMono ranked := by
  refine strictMono_int_of_lt_succ fun k ↦ ?_
  rcases le_or_gt 0 k with hk | hk
  · obtain ⟨n, rfl⟩ := Int.eq_ofNat_of_zero_le hk
    rw [← Nat.cast_succ, ranked_natCast, ranked_natCast]
    exact magnitude_lt_succ n
  · obtain ⟨n, hn⟩ : ∃ n : ℕ, k + 1 = -n := ⟨(-(k + 1)).toNat, by omega⟩
    obtain rfl : k = -(n + 1 : ℕ) := by omega
    rw [hn, ranked_neg_natCast, ranked_neg_natCast, neg_lt_neg_iff]
    exact magnitude_lt_succ n

/-- The bits up to those of infinity denote the number in their place. -/
theorem signed_magnitude? {b : UInt64} (h : b.toNat % 2 ^ 63 ≤ 2047 * 2 ^ 52) :
    (magnitude? (b.toNat % 2 ^ 63)).map (signed (decide (2 ^ 63 ≤ b.toNat))) =
      some (overflowed (ranked (place b))) := by
  have hlt := b.toNat_lt
  rw [magnitude?_eq h, Option.map_some, Option.some_inj]
  rcases lt_or_ge b.toNat (2 ^ 63) with hsign | hsign
  · rw [place_of_lt hsign, Nat.mod_eq_of_lt hsign, ranked_natCast, signed,
      if_neg (by simpa using hsign)]
  · obtain ⟨n, hn⟩ := Nat.exists_eq_add_of_le hsign
    rw [place_of_le hsign, hn, show (2 ^ 63 + n) % 2 ^ 63 = n by omega, signed, if_pos (by simp),
      ← overflowed_neg, ← EReal.coe_neg, ← ranked_neg_natCast,
      show (2 ^ 63 - (2 ^ 63 + n : ℕ) : ℤ) = -n by push_cast; ring]

/-- A number is the one in its place, unless that is too large. -/
theorem extended?_eq_ranked {x : Float} {X : EReal} (h : extended? x = some X) :
    X = overflowed (ranked (place x.toBits)) := by
  rw [extended?_eq] at h
  obtain ⟨Y, hY, -⟩ := Option.map_eq_some_iff.1 h
  have hle : x.toBits.toNat % 2 ^ 63 ≤ 2047 * 2 ^ 52 := by
    rw [magnitude?] at hY
    split_ifs at hY <;> omega
  rw [signed_magnitude? hle] at h
  exact (Option.some_inj.1 h).symm

theorem extended?_ofBits_of_le {b : UInt64} (h : b.toNat % 2 ^ 63 ≤ 2047 * 2 ^ 52) :
    extended? (Float.ofBits b) = some (overflowed (ranked (place b))) := by
  rw [extended?_ofBits, signed_magnitude? h]

/-- The bits of a finite double are below those of infinity. -/
theorem toBits_lt_of_finite {x : Float} {r : ℝ} (h : extended? x = some (r : EReal)) :
    x.toBits.toNat % 2 ^ 63 < 2047 * 2 ^ 52 := by
  rw [extended?_eq, Option.map_eq_some_iff] at h
  obtain ⟨X, hX, hr⟩ := h
  rw [signed] at hr
  split_ifs at hr
  · rw [neg_eq_iff_eq_neg, ← EReal.coe_neg] at hr
    exact (magnitude?_eq_coe (hr ▸ hX)).1
  · exact (magnitude?_eq_coe (hr ▸ hX)).1

/-! ### The next double -/

/-- The next double of a finite one is the one in the next place. -/
theorem extended?_nextUp_eq_ranked {x : Float} {r : ℝ} (h : extended? x = some (r : EReal)) :
    extended? (nextUp x) = some (overflowed (ranked (place x.toBits + 1))) := by
  have hbits := x.toBits.toNat_lt
  have hfinite := toBits_lt_of_finite h
  have hinf : x.toBits ≠ 0x7FF0000000000000 := by
    intro heq
    rw [heq] at hfinite
    exact absurd hfinite (by decide)
  have hnext {b : UInt64} (hle : b.toNat % 2 ^ 63 ≤ 2047 * 2 ^ 52)
      (hplace : place b = place x.toBits + 1) :
      extended? (Float.ofBits b) = some (overflowed (ranked (place x.toBits + 1))) := by
    rw [extended?_ofBits_of_le hle, hplace]
  rw [nextUp, isNaN_eq_false h, if_neg (by simpa using hinf)]
  split_ifs with hzero hpos
  · -- The next double of both zeros is the least positive one.
    have hzero : x.toBits = 0x8000000000000000 := by simpa using hzero
    exact hnext (by decide) (by rw [hzero]; rfl)
  · -- Towards greater magnitudes.
    have hpos : x.toBits.toNat < 2 ^ 63 := hpos
    have hsucc : (x.toBits + 1).toNat = x.toBits.toNat + 1 := by
      rw [UInt64.toNat_add]
      show (x.toBits.toNat + 1) % 2 ^ 64 = _
      omega
    refine hnext (by omega) ?_
    rw [place_of_lt hpos, place_of_lt (by omega), hsucc]
    rfl
  · -- Towards smaller magnitudes of negative numbers.
    have hneg : 2 ^ 63 ≤ x.toBits.toNat := not_lt.1 hpos
    have hne : x.toBits.toNat ≠ 2 ^ 63 := fun heq ↦ hzero (by simpa using UInt64.toNat_inj.1 heq)
    have hpred : (x.toBits - 1).toNat = x.toBits.toNat - 1 := by
      rw [UInt64.toNat_sub_of_le _ _ (UInt64.le_iff_toNat_le.2 (by show 1 ≤ _; omega))]
      rfl
    refine hnext (by omega) ?_
    rw [place_of_le hneg, place_of_le (by omega), hpred]
    omega

/-- The extended reals that doubles denote. -/
def doubles : Set EReal := {X | ∃ x, extended? x = some X}

theorem neg_mem_doubles {Z : EReal} (h : Z ∈ doubles) : -Z ∈ doubles := by
  obtain ⟨z, hz⟩ := h
  exact ⟨-z, by rw [extended?_neg, hz, Option.map_some]⟩

theorem fits_of_mem_doubles {w : ℝ} (h : (w : EReal) ∈ doubles) : Fits w := by
  obtain ⟨z, hz⟩ := h
  exact (denotes_unpack hz).fits

/-- The next double of a finite one is the least of all that are greater. -/
theorem isLeast_nextUp {x : Float} {r : ℝ} (h : extended? x = some (r : EReal)) :
    ∃ Y, extended? (nextUp x) = some Y ∧ IsLeast {Z ∈ doubles | (r : EReal) < Z} Y := by
  have hr : (r : EReal) = overflowed (ranked (place x.toBits)) := extended?_eq_ranked h
  have hle {k l : ℤ} (hkl : k ≤ l) : overflowed (ranked k) ≤ overflowed (ranked l) :=
    overflowed_mono (EReal.coe_le_coe_iff.2 (ranked_strictMono.monotone hkl))
  have hnext := extended?_nextUp_eq_ranked h
  refine ⟨_, hnext, ⟨⟨_, hnext⟩, ?_⟩, ?_⟩
  · refine lt_of_le_of_ne (hr ▸ hle (by omega)) fun heq ↦ ?_
    have hranked : ranked (place x.toBits + 1) = ranked (place x.toBits) :=
      (eq_of_overflowed heq.symm).trans (eq_of_overflowed hr.symm).symm
    have := ranked_strictMono.injective hranked
    omega
  · rintro Z ⟨⟨z, hz⟩, hlt⟩
    obtain rfl := extended?_eq_ranked hz
    refine hle ?_
    by_contra hbelow
    exact hlt.not_ge (hr ▸ hle (by omega))

/-! ### Widening -/

/-- The least double above an extended real; negative infinity stays. -/
noncomputable def raised (X : EReal) : EReal := if X = ⊥ then ⊥ else sInf {Z ∈ doubles | X < Z}

/-- The greatest double below an extended real; positive infinity stays. -/
noncomputable def lowered (X : EReal) : EReal := -raised (-X)

theorem raised_mono : Monotone raised := by
  intro X Y h
  rw [raised, raised]
  split_ifs with hX hY
  · exact le_rfl
  · exact bot_le
  · exact absurd (le_bot_iff.1 (‹Y = ⊥› ▸ h)) hX
  · exact sInf_le_sInf fun Z hZ ↦ ⟨hZ.1, h.trans_lt hZ.2⟩

theorem lowered_mono : Monotone lowered := fun _ _ h ↦
  EReal.neg_le_neg_iff.2 (raised_mono (EReal.neg_le_neg_iff.2 h))

theorem le_raised (X : EReal) : X ≤ raised X := by
  rw [raised]
  split_ifs with hX
  · exact hX.le
  · exact le_sInf fun Z hZ ↦ hZ.2.le

theorem lowered_le (X : EReal) : lowered X ≤ X := EReal.neg_le.1 (le_raised (-X))

@[simp] theorem raised_bot : raised ⊥ = ⊥ := if_pos rfl

@[simp] theorem raised_top : raised ⊤ = ⊤ := top_le_iff.1 (le_raised ⊤)

@[simp] theorem lowered_top : lowered ⊤ = ⊤ := by simp [lowered]

@[simp] theorem lowered_bot : lowered ⊥ = ⊥ := by simp [lowered]

theorem raised_le {X Z : EReal} (hZ : Z ∈ doubles) (h : X < Z) : raised X ≤ Z := by
  rw [raised]
  split_ifs
  · exact bot_le
  · exact sInf_le ⟨hZ, h⟩

theorem le_lowered {X Z : EReal} (hZ : Z ∈ doubles) (h : Z < X) : Z ≤ lowered X :=
  EReal.le_neg.1 (raised_le (neg_mem_doubles hZ) (EReal.neg_lt_neg_iff.2 h))

theorem extended?_nextUp {x : Float} {r : ℝ} (h : extended? x = some (r : EReal)) :
    extended? (nextUp x) = some (raised r) := by
  obtain ⟨Y, hY, hleast⟩ := isLeast_nextUp h
  rw [hY, raised, if_neg (EReal.coe_ne_bot r), hleast.isGLB.sInf_eq]

/-- The double above a finite one is greater. -/
theorem lt_raised {x : Float} {r : ℝ} (h : extended? x = some (r : EReal)) :
    (r : EReal) < raised r := by
  obtain ⟨Y, hY, hleast⟩ := isLeast_nextUp h
  rw [extended?_nextUp h, Option.some_inj] at hY
  exact hY ▸ hleast.1.2

theorem extended?_nextDown {x : Float} {r : ℝ} (h : extended? x = some (r : EReal)) :
    extended? (nextDown x) = some (lowered r) := by
  have hneg : extended? (-x) = some ((-r : ℝ) : EReal) := by
    rw [extended?_neg, h, Option.map_some, EReal.coe_neg]
  rw [nextDown, extended?_neg, extended?_nextUp hneg, Option.map_some, lowered, EReal.coe_neg]

namespace IsNearest

variable {v r : ℝ}

/-- A number is not above the double after one of its nearest ones, if that is not too large. -/
theorem le_raised (h : IsNearest v r) (hv : overflowed v ≠ ⊥) : r ≤ raised (overflowed v) := by
  rw [raised, if_neg hv]
  refine le_sInf fun Z hZ ↦ ?_
  obtain ⟨hdouble, hlt⟩ := hZ
  induction Z with
  | bot => exact absurd hlt not_lt_bot
  | top => exact le_top
  | coe w =>
    induction hX : overflowed v with
    | bot => exact absurd hX hv
    | top => exact absurd (hX ▸ hlt) not_top_lt
    | coe v' =>
      rw [hX, ← eq_of_overflowed hX, EReal.coe_lt_coe_iff] at hlt
      exact EReal.coe_le_coe_iff.2 (h.le_of_gt (fits_of_mem_doubles hdouble) hlt)

/-- A number is not below the double before one of its nearest ones, if that is not too large. -/
theorem lowered_le (h : IsNearest v r) (hv : overflowed v ≠ ⊤) : lowered (overflowed v) ≤ r := by
  have hneg := h.neg.le_raised (by rwa [EReal.coe_neg, overflowed_neg, Ne, EReal.neg_eq_bot_iff])
  rw [EReal.coe_neg, EReal.coe_neg, overflowed_neg] at hneg
  exact EReal.neg_le.1 hneg

end IsNearest

theorem le_raised_nearest {X : EReal} (h : nearest X ≠ ⊥) : X ≤ raised (nearest X) := by
  induction X with
  | bot => exact bot_le
  | top => simp
  | coe r => exact (isNearest_rounded r).le_raised h

theorem lowered_nearest_le {X : EReal} (h : nearest X ≠ ⊤) : lowered (nearest X) ≤ X := by
  induction X with
  | bot => simp
  | top => exact le_top
  | coe r => exact (isNearest_rounded r).lowered_le h

end Summand.Binary64

namespace Summand.Interval

open Binary64

theorem isFinite_of_extended? {x : Float} {X : EReal} (h : extended? x = some X) :
    x.isFinite ↔ X ≠ ⊤ ∧ X ≠ ⊥ := by
  rw [isFinite_iff, h]
  induction X <;> simp

theorem extended?_up (x : Float) : extended? (up x) = (extended? x).map raised := by
  rw [up]
  split_ifs with hfinite
  · obtain ⟨r, hr⟩ := isFinite_iff.1 hfinite
    rw [hr, extended?_nextUp hr, Option.map_some]
  · rcases hx : extended? x with - | X
    · rfl
    · rw [isFinite_of_extended? hx, not_and_or, not_not, not_not] at hfinite
      rcases hfinite with rfl | rfl <;> simp

theorem extended?_down (x : Float) : extended? (down x) = (extended? x).map lowered := by
  rw [down]
  split_ifs with hfinite
  · obtain ⟨r, hr⟩ := isFinite_iff.1 hfinite
    rw [hr, extended?_nextDown hr, Option.map_some]
  · rcases hx : extended? x with - | X
    · rfl
    · rw [isFinite_of_extended? hx, not_and_or, not_not, not_not] at hfinite
      rcases hfinite with rfl | rfl <;> simp

end Summand.Interval
