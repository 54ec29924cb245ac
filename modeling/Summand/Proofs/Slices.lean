import Mathlib.Algebra.Order.BigOperators.Group.List
import Summand.Proofs.Registry

/-!
# Slices of the flat vector

Taking a slice and replacing it is told entry by entry, with the place and the size that the slice
has in a vector (`Variable.getElem?_slice`, `Variable.getElem?_setSlice`). If no variable has a
negative dimension, these are the variable's offset and dimension (`Laid.liesIn`), and slices do not
meet (`Laid.disjoint`). With a negative dimension the bounds of a slice would be counted from the
end, and slices could overlap.
-/

namespace Summand

variable {α β : Type}

/-! ### Parts, entry by entry -/

namespace Buffer

theorem getElem?_part (offset count : Nat) (v : List α) (i : Nat) :
    (part offset count v)[i]? = if i < count then v[offset + i]? else none := by
  rw [part, List.getElem?_take, List.getElem?_drop]

theorem getElem?_setPart {offset : Nat} {w v : List α} (h : offset + w.length ≤ v.length)
    (i : Nat) :
    (setPart offset w v)[i]? =
      if offset ≤ i ∧ i < offset + w.length then w[i - offset]? else v[i]? := by
  have hw : w.length ≤ (v.drop offset).length := by
    rw [List.length_drop]
    omega
  rw [setPart, List.getElem?_append, List.length_take, Nat.min_eq_left (by omega),
    List.getElem?_take, conform_eq_append hw, List.getElem?_append, List.getElem?_drop,
    List.getElem?_drop]
  rcases Nat.lt_or_ge i offset with hlt | hge
  · simp [hlt, Nat.not_le.2 hlt]
  · by_cases hi : i < offset + w.length
    · simp [Nat.not_lt.2 hge, hge, hi, show i - offset < w.length by omega]
    · simp [Nat.not_lt.2 hge, hi, show ¬ i - offset < w.length by omega,
        show offset + (w.length + (i - offset - w.length)) = i by omega]

/-- A span ends within the vector. -/
theorem span_le (length : Nat) (first last : Int) :
    (span length first last).1 + (span length first last).2 ≤ length := by
  simp only [span]
  omega

/-- Bounds that lie within a vector are taken as they are. -/
theorem span_of_le {length : Nat} {first count : Int} (hfirst : 0 ≤ first) (hcount : 0 ≤ count)
    (h : first + count ≤ length) :
    span length first (first + count) = (first.toNat, count.toNat) := by
  simp only [span, if_neg (Int.not_lt.2 hfirst), if_neg (show ¬ first + count < 0 by omega)]
  exact Prod.ext (by dsimp only; omega) (by dsimp only; omega)

end Buffer

/-! ### Slices -/

namespace Variable

variable {n : Nat} {v w : Variable α}

theorem span_le (v : Variable α) (n : Nat) : (v.span n).1 + (v.span n).2 ≤ n :=
  Buffer.span_le _ _ _

theorem length_slice_eq_span {x : List β} (hx : x.length = n) (v : Variable α) :
    (v.slice x).length = (v.span n).2 := by
  have hle := v.span_le n
  rw [slice, hx]
  dsimp only
  rw [Buffer.length_part]
  omega

theorem getElem?_slice {x : List β} (hx : x.length = n) (v : Variable α) (i : Nat) :
    (v.slice x)[i]? = if i < (v.span n).2 then x[(v.span n).1 + i]? else none := by
  rw [slice, hx]
  exact Buffer.getElem?_part _ _ _ _

theorem slice_zeros [Zero β] (v : Variable α) (n : Nat) :
    v.slice (Buffer.zeros n : List β) = Buffer.zeros (v.span n).2 := by
  have hle := v.span_le n
  rw [slice, Buffer.length_zeros]
  dsimp only
  rw [Buffer.part, Buffer.drop_zeros, Buffer.take_zeros (by omega)]

theorem getElem?_setSlice {x p : List α} (hx : x.length = n) (hp : p.length = (v.span n).2)
    (i : Nat) :
    (v.setSlice p x)[i]? =
      if (v.span n).1 ≤ i ∧ i < (v.span n).1 + (v.span n).2 then
        p[i - (v.span n).1]? else x[i]? := by
  have hle := v.span_le n
  rw [setSlice, hx, ← hp]
  exact Buffer.getElem?_setPart (by omega) i

/-- The variable's slice lies within flat vectors of a length. -/
structure LiesIn (n : Nat) (v : Variable α) : Prop where
  offset : 0 ≤ v.offset
  dimension : 0 ≤ v.solverDimension
  le : v.offset + v.solverDimension ≤ n

theorem LiesIn.span_eq (h : v.LiesIn n) : v.span n = (v.offset.toNat, v.solverDimension.toNat) :=
  Buffer.span_of_le h.offset h.dimension h.le

theorem LiesIn.getElem?_slice (h : v.LiesIn n) {x : List β} (hx : x.length = n) (i : Nat) :
    (v.slice x)[i]? = if i < v.solverDimension.toNat then x[v.offset.toNat + i]? else none := by
  rw [v.getElem?_slice hx, h.span_eq]

theorem LiesIn.length_slice (h : v.LiesIn n) {x : List β} (hx : x.length = n) :
    (v.slice x).length = v.solverDimension.toNat := by
  rw [v.length_slice_eq_span hx, h.span_eq]

theorem LiesIn.slice_zeros [Zero α] (h : v.LiesIn n) :
    v.slice (Buffer.zeros n : List α) = Buffer.zeros v.solverDimension.toNat := by
  rw [v.slice_zeros n, h.span_eq]

theorem LiesIn.getElem?_setSlice (h : v.LiesIn n) {x p : List α} (hx : x.length = n)
    (hp : p.length = v.solverDimension.toNat) (i : Nat) :
    (v.setSlice p x)[i]? =
      if v.offset.toNat ≤ i ∧ i < v.offset.toNat + v.solverDimension.toNat then
        p[i - v.offset.toNat]? else x[i]? := by
  rw [Variable.getElem?_setSlice hx (by rw [hp, h.span_eq]), h.span_eq]

@[simp] theorem length_setSlice (v : Variable α) (c x : List α) :
    (v.setSlice c x).length = x.length := Buffer.length_setPart _ _ _

/-- Slices have no entry in common. -/
def Disjoint (v w : Variable α) : Prop :=
  v.offset + v.solverDimension ≤ w.offset ∨ w.offset + w.solverDimension ≤ v.offset

/-- Replacing a slice leaves those that have nothing in common with it as they are. -/
theorem LiesIn.slice_setSlice_of_disjoint (hv : v.LiesIn n) (hw : w.LiesIn n) (h : v.Disjoint w)
    {x c : List α} (hx : x.length = n) (hc : c.length = w.solverDimension.toNat) :
    v.slice (w.setSlice c x) = v.slice x := by
  have := hv.dimension
  have := hw.dimension
  have := hv.offset
  have := hw.offset
  apply List.ext_getElem?
  intro i
  rw [hv.getElem?_slice (by rw [length_setSlice, hx]), hv.getElem?_slice hx,
    hw.getElem?_setSlice hx hc]
  split
  · -- An entry of the one slice lies in front of the other one or after it.
    rw [if_neg]
    rintro ⟨hle, hlt⟩
    rcases h with h | h <;> omega
  · rfl

end Variable

namespace Registry

/-- No variable has a negative dimension. -/
def Natural (r : Registry α) : Prop := ∀ v ∈ r.entries, 0 ≤ v.solverDimension

variable {r : Registry α}

/-- No variable has a negative dimension if none of the transforms asks for one. -/
theorem Laid.natural (h : r.Laid) (htransform : ∀ v ∈ r.entries, ∀ t, v.transform = some t →
    0 ≤ t.inputDimension) : r.Natural := by
  intro v hv
  have hfits := h.fits v hv
  rcases ht : v.transform with - | t
  · rw [hfits.solverDimension_eq ht]
    omega
  · rw [← (hfits.transform_dimensions ht).2]
    exact htransform v hv t ht

/-- Dimensions are no matter of scratch values. -/
theorem Natural.of_bare [Zero α] (h : r.Natural) {s : Registry α}
    (hentries : r.entries.map Variable.bare = s.entries.map Variable.bare) : s.Natural := by
  intro v hv
  obtain ⟨w, hw, hbare⟩ := exists_mem_of_bare hentries hv
  have hdimension : w.solverDimension = v.solverDimension :=
    (congrArg Variable.solverDimension hbare :)
  rw [← hdimension]
  exact h w hw

theorem sum_solverDimension_nonneg (vars : List (Variable α))
    (h : ∀ v ∈ vars, 0 ≤ v.solverDimension) : 0 ≤ (vars.map Variable.solverDimension).sum := by
  apply List.sum_nonneg
  intro d hd
  obtain ⟨v, hv, rfl⟩ := List.mem_map.1 hd
  exact h v hv

theorem Laid.totalScalars_nonneg (h : r.Laid) (hnatural : r.Natural) : 0 ≤ r.totalScalars := by
  rw [h.total]
  exact sum_solverDimension_nonneg _ hnatural

/-- Slices lie within the flat vector. -/
theorem Laid.liesIn (h : r.Laid) (hnatural : r.Natural) {v : Variable α} (hv : v ∈ r.entries) :
    v.LiesIn r.totalScalars.toNat := by
  obtain ⟨earlier, later, hr⟩ := List.append_of_mem hv
  obtain ⟨-, hoffset, -⟩ := h.split hr
  have hearlier := sum_solverDimension_nonneg earlier
    fun w hw ↦ hnatural w (by simp [hr, hw])
  have hlater := sum_solverDimension_nonneg later
    fun w hw ↦ hnatural w (by simp [hr, hw])
  have htotal := h.total
  rw [hr, List.map_append, List.map_cons, List.sum_append, List.sum_cons, ← hoffset] at htotal
  have hv := hnatural v hv
  exact ⟨by omega, hv, by omega⟩

/-- A slice ends before a later one begins. -/
theorem Laid.le_offset (h : r.Laid) (hnatural : r.Natural) {v w : Variable α}
    {earlier between later : List (Variable α)}
    (hr : r.entries = earlier ++ v :: (between ++ w :: later)) :
    v.offset + v.solverDimension ≤ w.offset := by
  obtain ⟨-, hv, -⟩ := h.split hr
  have hr' : r.entries = (earlier ++ v :: between) ++ w :: later := by simp [hr]
  obtain ⟨-, hw, -⟩ := h.split hr'
  have hbetween := sum_solverDimension_nonneg between
    fun u hu ↦ hnatural u (by simp [hr, hu])
  rw [List.map_append, List.map_cons, List.sum_append, List.sum_cons, ← hv] at hw
  omega

/-- The slices of different variables have no entry in common. -/
theorem Laid.disjoint (h : r.Laid) (hnatural : r.Natural) {v w : Variable α} (hv : v ∈ r.entries)
    (hw : w ∈ r.entries) (hne : v.index ≠ w.index) : v.Disjoint w := by
  obtain ⟨earlier, later, hr⟩ := List.append_of_mem hv
  rw [hr] at hw
  rcases List.mem_append.1 hw with hw | hw
  · obtain ⟨first, between, rfl⟩ := List.append_of_mem hw
    have hr' : r.entries = first ++ w :: (between ++ v :: later) := by simp [hr]
    exact .inr (h.le_offset hnatural hr')
  · rcases List.mem_cons.1 hw with rfl | hw
    · exact absurd rfl hne
    · obtain ⟨between, last, rfl⟩ := List.append_of_mem hw
      exact .inl (h.le_offset hnatural hr)

end Registry

end Summand
