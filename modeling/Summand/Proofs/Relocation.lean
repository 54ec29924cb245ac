import Summand.Proofs.Counterparts
import Summand.Proofs.Registrations

/-!
# Slices in other places

Two registries of the same variables, registered in different orders, place the slices differently
(`Registry.Permuted`). A relocation takes each position of a slice in the one to the same position
of that slice in the other (`Registry.Relocation`). There is one, and since slices tile the flat
vector it is a permutation of the positions (`Registry.Relocation.bijOn`).

If the entries of two vectors correspond under a relocation (`Relocates`), every variable has the
same slice of both, and they keep corresponding when that slice is replaced.
-/

namespace Summand

variable {α β γ : Type}

/-! ### Vectors -/

/-- Two lists of a length have the same entries, each at a position and where that is moved to. -/
structure Relocates (σ : ℕ → ℕ) (n : ℕ) (x x' : List β) : Prop where
  length : x.length = n
  length' : x'.length = n
  entry : ∀ i < n, x'[σ i]? = x[i]?

/-- Two square matrices have the same entries, with rows and columns moved alike. -/
structure RelocatesRows (σ : ℕ → ℕ) (n : ℕ) (m m' : List (List α)) : Prop where
  shaped : Buffer.Shaped n n m
  shaped' : Buffer.Shaped n n m'
  entry : ∀ i < n, ∀ j < n, (m'[σ i]?.bind fun row ↦ row[σ j]?) = m[i]?.bind fun row ↦ row[j]?

namespace Relocates

variable {σ : ℕ → ℕ} {n : ℕ}

theorem zeros [Zero α] (hσ : Set.MapsTo σ (Set.Iio n) (Set.Iio n)) :
    Relocates σ n (Buffer.zeros n : List α) (Buffer.zeros n) where
  length := Buffer.length_zeros n
  length' := Buffer.length_zeros n
  entry i hi := by
    have hσi : σ i < n := hσ hi
    rw [Buffer.getElem?_zeros, Buffer.getElem?_zeros, if_pos hσi, if_pos hi]

/-- Whole vectors that are added entry by entry keep corresponding. -/
theorem combinePart {x x' y y' : List α} (h : Relocates σ n x x') (hy : Relocates σ n y y')
    (f : α → α → α) :
    Relocates σ n (Buffer.combinePart f 0 y x) (Buffer.combinePart f 0 y' x') where
  length := by rw [Buffer.length_combinePart, h.length]
  length' := by rw [Buffer.length_combinePart, h.length']
  entry i hi := by
    simp only [getElem?_combinePart, placedAt, Nat.zero_le, if_true, Nat.sub_zero, h.entry i hi,
      hy.entry i hi]

/-- If the positions are permuted, both lists have the same items. -/
theorem mem_iff {x x' : List β} (hσ : Set.BijOn σ (Set.Iio n) (Set.Iio n)) (h : Relocates σ n x x')
    {b : β} : b ∈ x ↔ b ∈ x' := by
  simp only [List.mem_iff_getElem?]
  constructor
  · rintro ⟨i, hi⟩
    have hlt := (List.getElem?_eq_some_iff.1 hi).1
    exact ⟨σ i, by rw [h.entry i (by rwa [h.length] at hlt), hi]⟩
  · rintro ⟨p, hp⟩
    have hlt := (List.getElem?_eq_some_iff.1 hp).1
    rw [h.length'] at hlt
    obtain ⟨i, hi, rfl⟩ := hσ.surjOn hlt
    exact ⟨i, by rw [← h.entry i hi, hp]⟩

/-- Then computations for the items of the one succeed if those for the items of the other do, and
their results correspond. -/
theorem mapM {x x' : List β} (hσ : Set.BijOn σ (Set.Iio n) (Set.Iio n)) (h : Relocates σ n x x')
    {ε : Type} (f : β → Except ε γ) : Together (Relocates σ n) (x.mapM f) (x'.mapM f) := by
  have hiff : (∃ y, x.mapM f = .ok y) ↔ ∃ y', x'.mapM f = .ok y' := by
    rw [exists_mapM_iff, exists_mapM_iff]
    exact forall_congr' fun b ↦ imp_congr_left (h.mem_iff hσ)
  rcases hy : x.mapM f with e | y <;> rcases hy' : x'.mapM f with e' | y'
  · exact .error
  · obtain ⟨y, hy⟩ := hiff.2 ⟨y', hy'⟩
    simp_all
  · obtain ⟨y', hy'⟩ := hiff.1 ⟨y, hy⟩
    simp_all
  · refine .ok ⟨(length_of_mapM hy).trans h.length, (length_of_mapM hy').trans h.length', ?_⟩
    intro i hi
    have hentry := getElem?_of_mapM hy' (σ i)
    rw [h.entry i hi, ← getElem?_of_mapM hy i] at hentry
    exact Option.map_injective (fun _ _ ↦ Except.ok.inj) hentry

end Relocates

/-- A matrix of entries that correspond. -/
theorem relocatesRows_square {σ : ℕ → ℕ} {n : ℕ} (hσ : Set.MapsTo σ (Set.Iio n) (Set.Iio n))
    {f f' : ℕ → ℕ → α} (h : ∀ i < n, ∀ j < n, f' (σ i) (σ j) = f i j) :
    RelocatesRows σ n (square n f) (square n f') where
  shaped := shaped_square n f
  shaped' := shaped_square n f'
  entry i hi j hj := by
    have hi' : σ i < n := hσ hi
    have hj' : σ j < n := hσ hj
    simp [square, hi, hi', hj, hj', h i hi j hj]

/-! ### Sparse matrices -/

namespace SparseMatrix

/-- Two sparse matrices store the same, with rows and columns moved alike. -/
structure Relocated (σ : ℕ → ℕ) (n : ℕ) (m m' : SparseMatrix α) : Prop where
  size : m.size = n
  size' : m'.size = n
  wellFormed : m.WellFormed
  wellFormed' : m'.WellFormed
  stores : ∀ i < n, ∀ j < n, ∀ v, m'.Stores (σ i) (σ j) v ↔ m.Stores i j v

/-- A matrix of a size stores at each place the sum of the values that are given for it, in some
order, and nothing if there are none. -/
structure AddsUp [Add α] (n : ℕ) (given : ℕ → ℕ → List α) (m : SparseMatrix α) : Prop where
  size : m.size = n
  wellFormed : m.WellFormed
  stores : ∀ i < n, ∀ j < n, ∃ values : List α, values.Perm (given i j) ∧
    ∀ v, m.Stores i j v ↔ v ∈ addedUp values

/-- The number of values that are given in a column. -/
def givenIn (n : ℕ) (given : ℕ → ℕ → List α) (j : ℕ) : ℕ :=
  ((List.range n).map fun i ↦ (given i j).length).sum

/-- Two sparse matrices are sums of the same values, given in the same order, with rows and columns
moved alike. They store the same in columns for which no more than so many values are given. -/
structure RelocatesSums [Add α] (σ : ℕ → ℕ) (n short : ℕ) (given given' : ℕ → ℕ → List α)
    (m m' : SparseMatrix α) : Prop where
  addsUp : m.AddsUp n given
  addsUp' : m'.AddsUp n given'
  given_eq : ∀ i < n, ∀ j < n, given' (σ i) (σ j) = given i j
  stores : ∀ i < n, ∀ j < n, givenIn n given j ≤ short →
    ∀ v, m'.Stores (σ i) (σ j) v ↔ m.Stores i j v

section Assemble

variable [Add α] {arrangement arrangement' : List (List (ℕ × α)) → List (List (ℕ × α))} {σ : ℕ → ℕ}
  {n : ℕ} {places places' : List (ℕ × ℕ)}

/-- Patterns correspond if places do so as often as they occur. -/
theorem relocated_ones [OfNat α 1] (hσ : Set.MapsTo σ (Set.Iio n) (Set.Iio n))
    (h : Permutes arrangement) (h' : Permutes arrangement')
    (hlt : ∀ p ∈ places, p.1 < n ∧ p.2 < n) (hlt' : ∀ p ∈ places', p.1 < n ∧ p.2 < n)
    (hcount : ∀ i < n, ∀ j < n, places'.count (σ i, σ j) = places.count (i, j)) :
    Relocated σ n (assemble arrangement n places (List.replicate places.length (1 : α)))
      (assemble arrangement' n places' (List.replicate places'.length 1)) where
  size := h.size_assemble _ _
  size' := h'.size_assemble _ _
  wellFormed := h.wellFormed (by simp) hlt
  wellFormed' := h'.wellFormed (by simp) hlt'
  stores i hi j hj v := by
    have hj' : σ j < n := hσ hj
    obtain ⟨given, hperm, hstores⟩ := h.stores_iff places (List.replicate places.length 1) i hj
    obtain ⟨given', hperm', hstores'⟩ :=
      h'.stores_iff places' (List.replicate places'.length 1) (σ i) hj'
    rw [valuesAt_zip_ones, List.perm_replicate] at hperm hperm'
    rw [hstores, hstores', hperm, hperm', hcount i hi j hj]

theorem addsUp_assemble (h : Permutes arrangement) (hlt : ∀ p ∈ places, p.1 < n ∧ p.2 < n)
    {values : List α} (hlength : places.length = values.length) {given : ℕ → ℕ → List α}
    (hgiven : ∀ i j, valuesAt (i, j) (places.zip values) = given i j) :
    (assemble arrangement n places values).AddsUp n given where
  size := h.size_assemble _ _
  wellFormed := h.wellFormed hlength.le hlt
  stores i _ j hj := by
    rw [← hgiven]
    exact h.stores_iff places values i hj

theorem relocatesSums_assemble (hσ : Set.BijOn σ (Set.Iio n) (Set.Iio n)) {short : ℕ}
    (h : Permutes arrangement) (h' : Permutes arrangement') (hshort : KeepsUpTo short arrangement)
    (hshort' : KeepsUpTo short arrangement') (hlt : ∀ p ∈ places, p.1 < n ∧ p.2 < n)
    (hlt' : ∀ p ∈ places', p.1 < n ∧ p.2 < n) {values values' : List α}
    (hlength : places.length = values.length) (hlength' : places'.length = values'.length)
    {given given' : ℕ → ℕ → List α}
    (hgiven : ∀ i j, valuesAt (i, j) (places.zip values) = given i j)
    (hgiven' : ∀ i j, valuesAt (i, j) (places'.zip values') = given' i j)
    (hsame : ∀ i < n, ∀ j < n, given' (σ i) (σ j) = given i j) :
    RelocatesSums σ n short given given' (assemble arrangement n places values)
      (assemble arrangement' n places' values') where
  addsUp := addsUp_assemble h hlt hlength hgiven
  addsUp' := addsUp_assemble h' hlt' hlength' hgiven'
  given_eq := hsame
  stores i hi j hj hcolumn v := by
    have hj' : σ j < n := hσ.mapsTo hj
    have hrows {places : List (ℕ × ℕ)} (hlt : ∀ p ∈ places, p.1 < n ∧ p.2 < n) (values : List α) :
        ∀ e ∈ places.zip values, e.1.1 < n := fun e he ↦ (hlt e.1 (List.of_mem_zip he).1).1
    -- A column is moved with all that is given for it, so both columns are short.
    have hperm : ((List.range n).map σ).Perm (List.range n) := by
      refine (List.perm_ext_iff_of_nodup ?_ List.nodup_range).2 fun i ↦ ?_
      · refine List.Nodup.map_on (fun a ha b hb heq ↦ ?_) List.nodup_range
        exact hσ.injOn (List.mem_range.1 ha) (List.mem_range.1 hb) heq
      · simp only [List.mem_map, List.mem_range]
        exact ⟨fun ⟨a, ha, heq⟩ ↦ heq ▸ hσ.mapsTo ha, fun hi ↦ hσ.surjOn hi⟩
    have hcolumn' : givenIn n given' (σ j) = givenIn n given j := by
      rw [givenIn, ← (hperm.map fun i ↦ (given' i (σ j)).length).sum_eq, List.map_map, givenIn]
      refine congrArg List.sum (List.map_congr_left fun i hi ↦ ?_)
      rw [Function.comp_apply, hsame i (List.mem_range.1 hi) j hj]
    rw [hshort.stores_iff places values i hj, hshort'.stores_iff places' values' (σ i) hj', hgiven,
      hgiven', hsame i hi j hj]
    · rw [length_columnAt _ (hrows hlt' values')]
      rw [← hcolumn'] at hcolumn
      simpa only [hgiven', givenIn] using hcolumn
    · rw [length_columnAt _ (hrows hlt values)]
      simpa only [hgiven, givenIn] using hcolumn

end Assemble

end SparseMatrix

/-- Entries, rows and columns are moved. -/
def Likeness.relocating [Add α] (σ : ℕ → ℕ) (n short : ℕ) : Likeness α where
  vector := Relocates σ n
  matrix := RelocatesRows σ n
  hessian := SparseMatrix.RelocatesSums σ n short
  pattern := SparseMatrix.Relocated σ n
  box := Relocates σ n

/-! ### Registries -/

/-- What of a variable does not depend on the order of registration. -/
def Variable.unplaced (v : Variable α) : Block × ℕ × ℤ × Option (Transform α) :=
  (v.block, v.userDimension, v.solverDimension, v.transform)

namespace Registry

/-- Two registries have the same variables, in any order. -/
structure Permuted (r r' : Registry α) : Prop where
  laid : r.Laid
  laid' : r'.Laid
  natural : r.Natural
  natural' : r'.Natural
  perm : (r.entries.map Variable.unplaced).Perm (r'.entries.map Variable.unplaced)

/-- The variables of one block in two registries. -/
structure Twin (r r' : Registry α) (v v' : Variable α) : Prop where
  left : v ∈ r.entries
  right : v' ∈ r'.entries
  block : v.block = v'.block

theorem Twin.symm {r r' : Registry α} {v v' : Variable α} (h : Twin r r' v v') : Twin r' r v' v :=
  ⟨h.right, h.left, h.block.symm⟩

/-- A map of positions takes every slice in one registry to that of the same block in another. -/
def Relocation (r r' : Registry α) (σ : ℕ → ℕ) : Prop :=
  ∀ v v', Twin r r' v v' →
    ∀ k < v.solverDimension.toNat, σ (v.offset.toNat + k) = v'.offset.toNat + k

/-- A block has one variable. -/
theorem Laid.eq_of_block {r : Registry α} (h : r.Laid) {v w : Variable α} (hv : v ∈ r.entries)
    (hw : w ∈ r.entries) (hblock : v.block = w.block) : v = w :=
  List.inj_on_of_nodup_map h.ids hv hw (congrArg Block.id hblock)

/-- A position lies in the slice of one variable. -/
theorem Laid.eq_of_position {r : Registry α} (h : r.Laid) (hnatural : r.Natural) {v w : Variable α}
    (hv : v ∈ r.entries) (hw : w ∈ r.entries) {k l : ℕ} (hk : k < v.solverDimension.toNat)
    (hl : l < w.solverDimension.toNat) (heq : v.offset.toNat + k = w.offset.toNat + l) :
    v = w := by
  have hv' := h.liesIn hnatural hv
  have hw' := h.liesIn hnatural hw
  have hv0 := hv'.offset
  have hw0 := hw'.offset
  have hle := hv'.le
  have htotal := hv'.dimension
  obtain ⟨u, -, hunique⟩ :=
    h.existsUnique_covering hnatural (p := v.offset + k) (by omega) (by omega)
  rw [hunique v ⟨hv, by omega, by omega⟩, hunique w ⟨hw, by omega, by omega⟩]

namespace Permuted

variable {r r' : Registry α} (h : Permuted r r')

include h

theorem symm : Permuted r' r := ⟨h.laid', h.laid, h.natural', h.natural, h.perm.symm⟩

theorem totalScalars_eq : r.totalScalars = r'.totalScalars := by
  have hsum := (h.perm.map fun u ↦ u.2.2.1).sum_eq
  rw [List.map_map, List.map_map] at hsum
  rw [h.laid.total, h.laid'.total]
  exact hsum

theorem exists_twin {v : Variable α} (hv : v ∈ r.entries) : ∃ v', Twin r r' v v' := by
  obtain ⟨v', hv', heq⟩ := List.mem_map.1 (h.perm.mem_iff.1 (List.mem_map_of_mem hv))
  exact ⟨v', hv, hv', (congrArg Prod.fst heq).symm⟩

variable {v v' : Variable α}

theorem unplaced_eq (htwin : Twin r r' v v') : v.unplaced = v'.unplaced := by
  obtain ⟨w, hw, heq⟩ := List.mem_map.1 (h.perm.mem_iff.1 (List.mem_map_of_mem htwin.left))
  have hblock : w.block = v.block := congrArg Prod.fst heq
  rw [← heq, h.laid'.eq_of_block hw htwin.right (hblock.trans htwin.block)]

theorem userDimension_eq (htwin : Twin r r' v v') : v.userDimension = v'.userDimension :=
  congrArg (fun u ↦ u.2.1) (h.unplaced_eq htwin)

theorem solverDimension_eq (htwin : Twin r r' v v') : v.solverDimension = v'.solverDimension :=
  congrArg (fun u ↦ u.2.2.1) (h.unplaced_eq htwin)

theorem transform_eq (htwin : Twin r r' v v') : v.transform = v'.transform :=
  congrArg (fun u ↦ u.2.2.2) (h.unplaced_eq htwin)

theorem liesIn (htwin : Twin r r' v v') : v.LiesIn r.totalScalars.toNat :=
  h.laid.liesIn h.natural htwin.left

theorem liesIn' (htwin : Twin r r' v v') : v'.LiesIn r.totalScalars.toNat := by
  rw [h.totalScalars_eq]
  exact h.laid'.liesIn h.natural' htwin.right

/-- A position in a slice can be moved in one way only. -/
theorem exists_relocation : ∃ σ, Relocation r r' σ := by
  have key (i : ℕ) : ∃ j, ∀ v v', Twin r r' v v' →
      ∀ k < v.solverDimension.toNat, v.offset.toNat + k = i → v'.offset.toNat + k = j := by
    by_cases hi : ∃ v v', Twin r r' v v' ∧ ∃ k < v.solverDimension.toNat, v.offset.toNat + k = i
    · obtain ⟨v, v', htwin, k, hk, rfl⟩ := hi
      refine ⟨v'.offset.toNat + k, ?_⟩
      intro w w' htwin' l hl heq
      obtain rfl := h.laid.eq_of_position h.natural htwin'.left htwin.left hl hk heq
      obtain rfl := h.laid'.eq_of_block htwin'.right htwin.right
        (htwin'.block.symm.trans htwin.block)
      omega
    · exact ⟨0, fun v v' htwin k hk heq ↦ absurd ⟨v, v', htwin, k, hk, heq⟩ hi⟩
  choose σ hσ using key
  exact ⟨σ, fun v v' htwin k hk ↦ (hσ _ v v' htwin k hk rfl).symm⟩

end Permuted

namespace Relocation

variable {r r' : Registry α} {σ : ℕ → ℕ} (hσ : Relocation r r' σ) (h : Permuted r r')

include hσ h

/-- Every position lies in a slice, which says where it is moved to. -/
theorem exists_place {i : ℕ} (hi : i < r.totalScalars.toNat) :
    ∃ v v', Twin r r' v v' ∧ ∃ k < v.solverDimension.toNat,
      i = v.offset.toNat + k ∧ σ i = v'.offset.toNat + k := by
  obtain ⟨v, ⟨hv, hle, hlt⟩, -⟩ := h.laid.existsUnique_covering h.natural (p := i) (by omega)
    (by omega)
  obtain ⟨v', htwin⟩ := h.exists_twin hv
  have h0 := (h.liesIn htwin).offset
  have hk : i - v.offset.toNat < v.solverDimension.toNat := by omega
  have hi' : i = v.offset.toNat + (i - v.offset.toNat) := by omega
  refine ⟨v, v', htwin, i - v.offset.toNat, hk, hi', ?_⟩
  have hmoved := hσ v v' htwin _ hk
  rwa [← hi'] at hmoved

/-- A relocation is a permutation of the positions. -/
theorem bijOn : Set.BijOn σ (Set.Iio r.totalScalars.toNat) (Set.Iio r.totalScalars.toNat) := by
  refine ⟨?_, ?_, ?_⟩
  · intro i hi
    obtain ⟨v, v', htwin, k, hk, -, heq⟩ := hσ.exists_place h hi
    have hle := (h.liesIn' htwin).le
    have h0 := (h.liesIn' htwin).offset
    have hdim := h.solverDimension_eq htwin
    rw [Set.mem_Iio]
    omega
  · intro i hi j hj heq
    obtain ⟨v, v', htwin, k, hk, rfl, hi'⟩ := hσ.exists_place h hi
    obtain ⟨w, w', htwin', l, hl, rfl, hj'⟩ := hσ.exists_place h hj
    rw [hi', hj'] at heq
    have hsame : v' = w' := by
      apply h.laid'.eq_of_position h.natural' htwin.right htwin'.right ?_ ?_ heq
      · rwa [← h.solverDimension_eq htwin]
      · rwa [← h.solverDimension_eq htwin']
    subst hsame
    obtain rfl := h.laid.eq_of_block htwin.left htwin'.left (htwin.block.trans htwin'.block.symm)
    omega
  · intro p hp
    have hp' : p < r.totalScalars.toNat := hp
    have htotal := h.totalScalars_eq
    obtain ⟨v', ⟨hv', hle, hlt⟩, -⟩ := h.laid'.existsUnique_covering h.natural' (p := p)
      (by omega) (by omega)
    obtain ⟨v, htwin⟩ := h.symm.exists_twin hv'
    have htwin := htwin.symm
    have hdim := h.solverDimension_eq htwin
    have h0 := (h.liesIn htwin).offset
    have h0' := (h.liesIn' htwin).offset
    have hle' := (h.liesIn htwin).le
    have hk : p - v'.offset.toNat < v.solverDimension.toNat := by omega
    refine ⟨v.offset.toNat + (p - v'.offset.toNat), ?_, ?_⟩
    · rw [Set.mem_Iio]
      omega
    · rw [hσ v v' htwin _ hk]
      omega

variable {v v' : Variable α} (htwin : Twin r r' v v')

include htwin

/-- A position and what it is moved to lie at the same place of the slices of a variable, or outside
of both. -/
theorem place_cases {i : ℕ} (hi : i < r.totalScalars.toNat) :
    (∃ k < v.solverDimension.toNat, i = v.offset.toNat + k ∧ σ i = v'.offset.toNat + k) ∨
      (i < v.offset.toNat ∨ v.offset.toNat + v.solverDimension.toNat ≤ i) ∧
        (σ i < v'.offset.toNat ∨ v'.offset.toNat + v.solverDimension.toNat ≤ σ i) := by
  by_cases hmem : v.offset.toNat ≤ i ∧ i < v.offset.toNat + v.solverDimension.toNat
  · have hk : i - v.offset.toNat < v.solverDimension.toNat := by omega
    have hmoved := hσ v v' htwin _ hk
    have heq : v.offset.toNat + (i - v.offset.toNat) = i := by omega
    rw [heq] at hmoved
    exact .inl ⟨_, hk, heq.symm, hmoved⟩
  · refine .inr ⟨by omega, ?_⟩
    -- Another position is moved to each place of the other slice.
    by_contra hmem'
    have hk : σ i - v'.offset.toNat < v.solverDimension.toNat := by omega
    have hmoved := hσ v v' htwin _ hk
    have h0 := (h.liesIn htwin).offset
    have hle := (h.liesIn htwin).le
    have heq : v.offset.toNat + (σ i - v'.offset.toNat) = i := by
      apply (hσ.bijOn h).injOn ?_ hi (by omega)
      rw [Set.mem_Iio]
      omega
    omega

/-- A variable covers a position if its twin covers what that is moved to. -/
theorem covers_iff {i : ℕ} (hi : i < r.totalScalars.toNat) : v'.Covers (σ i) ↔ v.Covers i := by
  have h0 := (h.liesIn htwin).offset
  have h0' := (h.liesIn' htwin).offset
  have hdim := h.solverDimension_eq htwin
  rw [Variable.Covers, Variable.Covers]
  obtain ⟨k, hk, rfl, hmoved⟩ | ⟨hi, hi'⟩ := hσ.place_cases h htwin hi <;> omega

/-- Twins have the same slice of vectors that correspond. -/
theorem slice_eq {x x' : List β} (hx : Relocates σ r.totalScalars.toNat x x') :
    v.slice x = v'.slice x' := by
  apply List.ext_getElem?
  intro k
  rw [(h.liesIn htwin).getElem?_slice hx.length, (h.liesIn' htwin).getElem?_slice hx.length',
    ← h.solverDimension_eq htwin]
  split
  case isTrue hk =>
    rw [← hσ v v' htwin k hk, hx.entry]
    have h0 := (h.liesIn htwin).offset
    have hle := (h.liesIn htwin).le
    omega
  case isFalse => rfl

/-- Vectors keep corresponding if the slices of twins are replaced. -/
theorem setSlice {x x' c : List α} (hx : Relocates σ r.totalScalars.toNat x x')
    (hc : c.length = v.solverDimension.toNat) :
    Relocates σ r.totalScalars.toNat (v.setSlice c x) (v'.setSlice c x') where
  length := by rw [Variable.length_setSlice, hx.length]
  length' := by rw [Variable.length_setSlice, hx.length']
  entry i hi := by
    have hdim := h.solverDimension_eq htwin
    rw [(h.liesIn htwin).getElem?_setSlice hx.length hc,
      (h.liesIn' htwin).getElem?_setSlice hx.length' (hdim ▸ hc), ← hdim, hx.entry i hi]
    obtain ⟨k, hk, rfl, hmoved⟩ | ⟨hi, hi'⟩ := hσ.place_cases h htwin hi
    · rw [hmoved, if_pos (by omega), if_pos (by omega), Nat.add_sub_cancel_left,
        Nat.add_sub_cancel_left]
    · rw [if_neg (by omega), if_neg (by omega)]

/-- What is placed at the slices of twins is the same at positions that correspond. -/
theorem placedAt_eq {w : List β} (hw : w.length = v.solverDimension.toNat) {i : ℕ}
    (hi : i < r.totalScalars.toNat) :
    placedAt v'.offset.toNat w (σ i) = placedAt v.offset.toNat w i := by
  rw [placedAt, placedAt]
  obtain ⟨k, hk, rfl, hmoved⟩ | ⟨hi, hi'⟩ := hσ.place_cases h htwin hi
  · rw [hmoved, if_pos (by omega), if_pos (by omega), Nat.add_sub_cancel_left,
      Nat.add_sub_cancel_left]
  · have hnone {offset p : ℕ} (hp : p < offset ∨ offset + v.solverDimension.toNat ≤ p) :
        (if offset ≤ p then w[p - offset]? else none) = none := by
      split
      · exact List.getElem?_eq_none (by omega)
      · rfl
    rw [hnone hi, hnone hi']

end Relocation

end Registry

end Summand
