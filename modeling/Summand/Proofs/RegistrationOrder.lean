import Summand.Proofs.Twins

/-!
# Another order of registration

Two objectives may differ in the order in which their variables have been registered
(`Objective.Reordered`). A relocation says where each entry of a point for the one stands in a point
for the other. Evaluations at corresponding points come to the same value, and to gradients, dense
Hessians and patterns whose entries correspond; so they do in floating-point numbers, since every
entry is the result of the same additions in the same order. Boxes that correspond have the same
enclosure. All queries follow (`Scene.Renumbered.counterparts`).

Sparse Hessians are an exception. They are converted to compressed columns by a platform that sorts
the entries of a column, and a sort that does not keep the order of equal rows may add up the values
of one place in another order. What is kept then are the values that are added up, and the results
in columns that are short enough for the sort to keep the order.
-/

namespace Summand

variable {α : Type}

open Registry

/-! ### Checks -/

/-- The greatest arity does not depend on the order of the bindings. -/
theorem Graph.maxArity_congr {g g' : Graph α}
    (h : (g.bindings.map Binding.arity).Perm (g'.bindings.map Binding.arity)) :
    g.maxArity = g'.maxArity := by
  have key (g : Graph α) : g.maxArity =
      if (g.bindings.map Binding.arity).length = 0 then 1
      else (g.bindings.map Binding.arity).foldl max 0 := by
    rw [maxArity]
    rcases g.bindings with - | ⟨b, rest⟩
    · rfl
    · simp [List.foldl_map]
  rw [key g, key g', h.length_eq, h.foldl_eq]

namespace Registry

/-- The greatest dimension does not depend on the order of the variables. -/
theorem maxUserDimension_congr {r r' : Registry α}
    (h : (r.entries.map Variable.userDimension).Perm (r'.entries.map Variable.userDimension)) :
    r.maxUserDimension = r'.maxUserDimension := by
  have key (r : Registry α) : r.maxUserDimension =
      if (r.entries.map Variable.userDimension).length = 0 then 1
      else (r.entries.map Variable.userDimension).foldl max 0 := by
    rw [maxUserDimension]
    rcases r.entries with - | ⟨v, rest⟩
    · rfl
    · simp [List.foldl_map]
  rw [key r, key r', h.length_eq, h.foldl_eq]

/-- Neither does it whether there is a variable with a transform. -/
theorem firstTransformed_eq_none_congr {vars vars' : List (Variable α)}
    (h : (vars.map Variable.transform).Perm (vars'.map Variable.transform)) :
    firstTransformed vars = none ↔ firstTransformed vars' = none := by
  have key (vars : List (Variable α)) : firstTransformed vars = none ↔
      ∀ t ∈ vars.map Variable.transform, t = none := by
    simp [firstTransformed]
  rw [key, key]
  exact forall_congr' fun t ↦ imp_congr_left h.mem_iff

end Registry

namespace Objective

/-- Entries have been placed only if there is room for the starts of the columns. -/
theorem check_of_placement {o : Objective α} {places : List (ℕ × ℕ)}
    (h : o.placement = .ok places) : Allocation.check .integer [o.totalScalars + 1] = .ok () := by
  rw [placement] at h
  obtain ⟨coordinates, -, h⟩ := bind_eq_ok_iff.1 h
  split at h
  · cases h
  split at h
  · cases h
  obtain ⟨places, -, h⟩ := bind_eq_ok_iff.1 h
  obtain ⟨⟨⟩, hcheck, -⟩ := bind_eq_ok_iff.1 h
  exact hcheck

/-- Plain variables can be placed in one way only. -/
theorem Plain.eq_places {o : Objective α} (h : o.Plain) (hnonneg : 0 ≤ o.totalScalars)
    {places : List (ℕ × ℕ)} (hplaces : o.placement = .ok places) : places = o.places := by
  rw [h.placement_eq hnonneg (check_of_placement hplaces)] at hplaces
  exact (Except.ok.inj hplaces).symm

theorem checkStorage_together {o o' : Objective α} (htotal : o.totalScalars = o'.totalScalars)
    (harity : (o.graph.bindings.map Binding.arity).Perm (o'.graph.bindings.map Binding.arity))
    (hdimension : (o.registry.entries.map Variable.userDimension).Perm
      (o'.registry.entries.map Variable.userDimension)) :
    Together (fun _ _ ↦ True) (checkStorage o) (checkStorage o') := by
  refine .of_iff ?_
  rw [checkStorage_eq_ok_iff, checkStorage_eq_ok_iff, htotal, Graph.maxArity_congr harity,
    Registry.maxUserDimension_congr hdimension]

theorem hessianAllowed_together {o o' : Objective α}
    (hallows : o.settings.allowsHessian = o'.settings.allowsHessian)
    (htransforms : ((o.graph.boundVariables o.registry).map Variable.transform).Perm
      ((o'.graph.boundVariables o'.registry).map Variable.transform)) :
    Together (fun _ _ ↦ True) o.hessianAllowed o'.hessianAllowed := by
  refine .of_iff ?_
  rw [hessianAllowed_eq_ok_iff, hessianAllowed_eq_ok_iff, hallows,
    Registry.firstTransformed_eq_none_congr htransforms]

theorem patternAllowed_together {o o' : Objective α}
    (htransforms : ((o.graph.boundVariables o.registry).map Variable.transform).Perm
      ((o'.graph.boundVariables o'.registry).map Variable.transform)) :
    Together (fun _ _ ↦ True) o.patternAllowed o'.patternAllowed := by
  refine .of_iff ?_
  rw [patternAllowed_eq_ok_iff, patternAllowed_eq_ok_iff,
    Registry.firstTransformed_eq_none_congr htransforms]

/-- Whether entries can be placed among plain variables is a matter of the size. -/
theorem Plain.placement_together {o o' : Objective α} (h : o.Plain) (h' : o'.Plain)
    (htotal : o.totalScalars = o'.totalScalars) (hnonneg : 0 ≤ o.totalScalars) :
    Together (fun places places' ↦ places = o.places ∧ places' = o'.places) o.placement
      o'.placement := by
  rcases hroom : Allocation.check .integer [o.totalScalars + 1] with failure | ⟨⟨⟩⟩
  · rcases hp : o.placement with e | places
    · rcases hp' : o'.placement with e' | places'
      · exact .error
      · rw [htotal, check_of_placement hp'] at hroom
        cases hroom
    · rw [check_of_placement hp] at hroom
      cases hroom
  · rw [h.placement_eq hnonneg hroom, h'.placement_eq (htotal ▸ hnonneg) (htotal ▸ hroom)]
    exact .ok ⟨rfl, rfl⟩

section Evaluated

variable [Zero α] {s t : Scene α}

/-- There is a Hessian to assemble if Hessians are allowed. -/
theorem assemblable_of_allowed (h : Evaluated s t) (hsound : s.objective.Sound)
    (hnatural : s.objective.registry.Natural) (hallowed : s.objective.hessianAllowed = .ok ()) :
    t.objective.Assemblable := by
  obtain ⟨hallows, hnone⟩ := hessianAllowed_eq_ok_iff.1 hallowed
  exact assemblable_of_evaluated h hsound (hsound.laid.sized hnatural) hallows hnone

/-- Its entries stand where they have been placed before. -/
theorem Assemblable.eq_places (h : t.objective.Assemblable) (hevaluated : Evaluated s t)
    (hnonneg : 0 ≤ s.objective.totalScalars) {places : List (ℕ × ℕ)}
    (hplaces : s.objective.placement = .ok places) : places = t.objective.places := by
  rw [placement_eq_of_bare hevaluated.bare] at hplaces
  exact Plain.eq_places h.plain (totalScalars_eq_of_bare hevaluated.bare ▸ hnonneg) hplaces

/-- With derivatives, results are alike if what is added up at the places of the Hessians comes to
Hessians that are alike. -/
theorem computed_of_assemblable [Add α] [Storable α] {L : Likeness α} {mode : Mode}
    {s' t' : Scene α} {r r' : α × List (List α)} {n : ℕ} (hn : s.objective.totalScalars = n)
    (hn' : s'.objective.totalScalars = n) (h : Evaluated s t) (h' : Evaluated s' t')
    (hassemblable : mode = .hessian → t.objective.Assemblable ∧ t'.objective.Assemblable)
    (hvalue : r.1 = r'.1)
    (hgradient : ∀ element, L.vector (sumGradients element n r.2) (sumGradients element n r'.2))
    (hdense : mode = .hessian → ∀ element,
      L.matrix (square n fun i j ↦ (t.objective.contributions i j).foldl (storedSum element) 0)
        (square n fun i j ↦ (t'.objective.contributions i j).foldl (storedSum element) 0))
    (hcount : mode = .hessian → t.objective.blockValues.length = t'.objective.blockValues.length)
    (hsparse : mode = .hessian →
      L.hessian t.objective.contributions t'.objective.contributions
        (.assemble s.platform.arrangement n t.objective.places t.objective.blockValues)
        (.assemble s'.platform.arrangement n t'.objective.places t'.objective.blockValues)) :
    L.Computed mode s s' r r' t t' := by
  have hnonneg : 0 ≤ s.objective.totalScalars := hn ▸ Int.natCast_nonneg n
  have hnonneg' : 0 ≤ s'.objective.totalScalars := hn' ▸ Int.natCast_nonneg n
  have hlength : s.objective.totalScalars.toNat = n := by rw [hn, Int.toNat_natCast]
  have hlength' : s'.objective.totalScalars.toNat = n := by rw [hn', Int.toNat_natCast]
  refine ⟨h, h', hvalue, ?_, fun hmode element ↦ ?_, hcount, fun hmode places places' hp hp' ↦ ?_⟩
  · rw [hlength]
    exact hgradient
  · obtain ⟨hplain, hplain'⟩ := hassemblable hmode
    rw [assembleDense_eq_square element fun b hb v hv ↦ (hplain.plain b hb v hv).liesIn,
      assembleDense_eq_square element fun b hb v hv ↦ (hplain'.plain b hb v hv).liesIn,
      ← totalScalars_eq_of_bare h.bare, ← totalScalars_eq_of_bare h'.bare, hlength, hlength']
    exact hdense hmode element
  · obtain ⟨hplain, hplain'⟩ := hassemblable hmode
    obtain rfl := hplain.eq_places h hnonneg hp
    obtain rfl := hplain'.eq_places h' hnonneg' hp'
    rw [hlength]
    exact hsparse hmode

/-- Values are the same if the sums that they are put together from come to the same. -/
theorem related_evaluateValue [Add α] [Storable α] {s' : Scene α} (h : s.objective.Sound)
    (h' : s'.objective.Sound) {x x' : Option (GivenPoint α)}
    {C : Registry α × List (α × List α) → Registry α × List (α × List α) → Prop}
    (hdirect : Together C (s.objective.directValue s.memory x)
      (s'.objective.directValue s'.memory x'))
    (htotal : ∀ d d', C d d' → total d.2 = total d'.2) :
    Related (fun _ _ _ _ ↦ True) (fun r r' t t' ↦ r = r' ∧ Evaluated s t ∧ Evaluated s' t')
      ((evaluateValue x).run s) ((evaluateValue x').run s') := by
  refine .of_together (realizes_evaluateValue h x) (realizes_evaluateValue h' x') hdirect ?_
  rintro d d' r r' t t' - - hd ⟨ht, rfl⟩ ⟨ht', rfl⟩
  exact ⟨htotal d d' hd, ht, ht'⟩

end Evaluated

end Objective

/-! ### Objectives -/

/-- Two objectives have the same variables, registered in any order, and the same terms on the same
blocks in one order. They differ in nothing else that an evaluation depends on. -/
structure Objective.Reordered (o o' : Objective α) : Prop where
  allowsHessian : o.settings.allowsHessian = o'.settings.allowsHessian
  workerCount : o.workerCount = o'.workerCount
  perm : (o.registry.entries.map Variable.unplaced).Perm
    (o'.registry.entries.map Variable.unplaced)
  refilled : Refilled o.registry o'.registry
  bindings : List.Forall₂ (Binding.SameBlocks o.registry o'.registry) o.graph.bindings
    o'.graph.bindings

namespace Objective

section Renumbered

variable [Zero α]

/-- Two sound objectives of which one has its variables in another order. -/
structure Renumbered (o o' : Objective α) : Prop extends Reordered o o' where
  sound : o.Sound
  sound' : o'.Sound
  natural : o.registry.Natural
  natural' : o'.registry.Natural

namespace Renumbered

variable {o o' : Objective α} (h : Renumbered o o')

include h

theorem permuted : Permuted o.registry o'.registry :=
  ⟨h.sound.laid, h.sound'.laid, h.natural, h.natural', h.perm⟩

theorem totalScalars_eq : o.totalScalars = o'.totalScalars :=
  h.permuted.totalScalars_eq

theorem totalScalars_nonneg : 0 ≤ o.totalScalars :=
  h.sound.laid.totalScalars_nonneg h.natural

theorem forall₂_bound : List.Forall₂
    (fun b b' ↦ b.Bound o.registry o.settings.allowsHessian ∧
      b'.Bound o'.registry o.settings.allowsHessian ∧ b.SameBlocks o.registry o'.registry b')
    o.graph.bindings o'.graph.bindings := by
  have hbound := (List.forall₂_and_left _ _).2 ⟨h.sound.bound, h.bindings⟩
  refine ((List.forall₂_and_left _ _).2 ⟨h.sound'.bound, hbound.flip⟩).flip.imp ?_
  rintro b b' ⟨hb', hb, hsame⟩
  exact ⟨hb, h.allowsHessian ▸ hb', hsame⟩

/-- The bindings are alike in registries that differ from those of the objectives in values. -/
theorem alike {r r' : Registry α}
    (hr : o.registry.entries.map Variable.bare = r.entries.map Variable.bare)
    (hr' : o'.registry.entries.map Variable.bare = r'.entries.map Variable.bare) :
    List.Forall₂ (Binding.Alike r r') o.graph.bindings o'.graph.bindings := by
  refine h.forall₂_bound.imp ?_
  rintro b b' ⟨hb, hb', hsame⟩
  exact (hsame.of_bare hr hr').alike (hb.extend (extends_of_bare hr))
    (hb'.extend (extends_of_bare hr'))

theorem forall₂_boundVariables : List.Forall₂ (Twin o.registry o'.registry)
    (o.graph.boundVariables o.registry) (o'.graph.boundVariables o'.registry) :=
  List.rel_flatMap (h.alike rfl rfl) fun _ _ hb ↦ hb.vars

theorem map_transform_boundVariables :
    (o.graph.boundVariables o.registry).map Variable.transform =
      (o'.graph.boundVariables o'.registry).map Variable.transform :=
  map_eq_of_forall₂ h.forall₂_boundVariables fun _ _ ↦ h.permuted.transform_eq

theorem checkStorage : Together (fun _ _ ↦ True) (checkStorage o) (Objective.checkStorage o') := by
  refine checkStorage_together h.totalScalars_eq (.of_eq ?_) ?_
  · refine map_eq_of_forall₂ h.forall₂_bound ?_
    rintro b b' ⟨hb, hb', hsame⟩
    rw [← hb.length_argumentVariables, ← hb'.length_argumentVariables,
      ← List.length_map (f := Variable.block), hsame.blocks, List.length_map]
  · have hperm := h.perm.map fun u ↦ u.2.1
    rwa [List.map_map, List.map_map] at hperm

theorem hessianAllowed : Together (fun _ _ ↦ True) o.hessianAllowed o'.hessianAllowed :=
  hessianAllowed_together h.allowsHessian (.of_eq h.map_transform_boundVariables)

theorem patternAllowed : Together (fun _ _ ↦ True) o.patternAllowed o'.patternAllowed :=
  patternAllowed_together (.of_eq h.map_transform_boundVariables)

end Renumbered

end Renumbered

/-! ### Evaluations -/

section Evaluations

variable [Zero α] [Add α] [Storable α] {o o' : Objective α} {σ : ℕ → ℕ} {mode : Mode}
  {x x' : List α}

/-- Evaluations have come to the same values of the variables, and to sums that correspond. -/
structure Renumbered.Corresponds (o o' : Objective α) (σ : ℕ → ℕ)
    (d d' : Registry α × List (α × List α)) : Prop where
  twins : Twins d.1 d'.1
  relocation : Relocation d.1 d'.1 σ
  alike : List.Forall₂ (Binding.Alike d.1 d'.1) o.graph.bindings o'.graph.bindings
  sums : List.Forall₂ (Binding.SumsRelocate σ o.totalScalars.toNat) d.2 d'.2

namespace Renumbered

variable (h : Renumbered o o') (hσ : Relocation o.registry o'.registry σ)

include h hσ

theorem evaluated_of_twins {r r' : Registry α}
    (hr : o.registry.entries.map Variable.bare = r.entries.map Variable.bare ∧
      o.registry.totalScalars = r.totalScalars)
    (hr' : o'.registry.entries.map Variable.bare = r'.entries.map Variable.bare)
    (twins : Twins r r')
    (hx : mode ≠ .value → Relocates σ o.totalScalars.toNat x x') :
    Together (Corresponds o o' σ)
      (do
        let sums ← (o.chunkSums mode r x).mapError o.termFailure
        return (r, sums))
      (do
        let sums ← (o'.chunkSums mode r' x').mapError o'.termFailure
        return (r', sums)) := by
  have hrelocation := hσ.of_bare hr.1 hr'
  have halike := h.alike hr.1 hr'
  have htotal : o.totalScalars = r.totalScalars := hr.2
  rw [htotal] at hx
  have hsums : Together (List.Forall₂ (Binding.SumsRelocate σ r.totalScalars.toNat))
      (o.chunkSums mode r x) (o'.chunkSums mode r' x') := by
    rw [chunkSums, chunkSums, Graph.size, Graph.size, ← halike.length_eq, ← h.workerCount]
    refine .mapM (List.forall₂_same.2 fun c _ ↦ ?_)
    refine Binding.accumulateFrom_relocates twins hrelocation hx _
      (List.forall₂_take _ (List.forall₂_drop _ halike)) ⟨rfl, ?_⟩
    rw [← h.totalScalars_eq, htotal]
    exact .zeros (hrelocation.bijOn twins.toPermuted).mapsTo
  refine (hsums.mapError o.termFailure o'.termFailure).bind fun sums sums' _ _ hs ↦ .ok ?_
  exact ⟨twins, hrelocation, halike, htotal ▸ hs⟩

/-- Evaluations at corresponding points come to results that correspond, or fail together. -/
theorem direct (hx : Relocates σ o.totalScalars.toNat x x') :
    Together (Corresponds o o' σ) (o.direct mode x) (o'.direct mode x') := by
  rw [Objective.direct, Objective.direct]
  refine h.checkStorage.bind fun _ _ _ _ _ ↦ ?_
  refine (h.permuted.valued h.refilled hσ hx).bind fun r r' hr hr' twins ↦ ?_
  exact h.evaluated_of_twins hσ (map_bare_valued hr) (map_bare_valued hr').1 twins fun _ ↦ hx

/-- The same holds of values alone, at corresponding points or at those of the caller's blocks. -/
theorem directValue {m m' : Memory α} {y y' : Option (GivenPoint α)} (hm : y = none → m = m')
    (hy : (y = none ∧ y' = none) ∨ ∃ p p', y = some p ∧ y' = some p' ∧
      Together (Relocates σ o.totalScalars.toNat) (pointOf o.totalScalars p)
        (pointOf o.totalScalars p')) :
    Together (Corresponds o o' σ) (o.directValue m y) (o'.directValue m' y') := by
  have hvalued : Together Twins (o.valuedAt m y) (o'.valuedAt m' y') := by
    obtain ⟨rfl, rfl⟩ | ⟨p, p', rfl, rfl, hp⟩ := hy
    · obtain rfl := hm rfl
      refine .ok { h.permuted.of_bare (map_bare_blockValued h.sound m).symm
        (map_bare_blockValued h.sound' m).symm rfl rfl with scratch := ?_ }
      rintro w w' ⟨hw, hw', hblock⟩
      obtain ⟨v, hv, rfl⟩ := List.mem_map.1 hw
      obtain ⟨v', hv', rfl⟩ := List.mem_map.1 hw'
      have hdimension := h.permuted.userDimension_eq ⟨hv, hv', hblock⟩
      have hblock : v.block = v'.block := hblock
      simp only [Variable.userBlock, hblock, hdimension]
    · rw [valuedAt, valuedAt, ← h.totalScalars_eq]
      exact hp.bind fun x x' _ _ hx ↦ h.permuted.valued h.refilled hσ hx
  rw [Objective.directValue, Objective.directValue]
  refine h.checkStorage.bind fun _ _ _ _ _ ↦ hvalued.bind fun r r' hr hr' twins ↦ ?_
  have hbare := map_bare_valuedAt h.sound hr
  have hbare' := map_bare_valuedAt h.sound' hr'
  exact h.evaluated_of_twins hσ hbare hbare'.1 twins (absurd rfl ·)

end Renumbered

/-! ### Values and gradients -/

omit [Storable α] in
theorem Renumbered.Corresponds.total_eq {d d' : Registry α × List (α × List α)}
    (hd : Renumbered.Corresponds o o' σ d d') : total d.2 = total d'.2 := by
  have key (sums : List (α × List α)) : total sums = (sums.map Prod.fst).foldl (· + ·) 0 := by
    rw [total, List.foldl_map]
  rw [key, key, map_eq_of_forall₂ hd.sums fun _ _ hs ↦ hs.1]

theorem sumGradients_relocates {n : ℕ} (hσ : Set.MapsTo σ (Set.Iio n) (Set.Iio n))
    (element : ElementType) {gradients gradients' : List (List α)}
    (h : List.Forall₂ (Relocates σ n) gradients gradients') :
    Relocates σ n (sumGradients element n gradients) (sumGradients element n gradients') := by
  rw [sumGradients, sumGradients]
  have key {sum sum' : List α} (hsum : Relocates σ n sum sum') :
      Relocates σ n
        (gradients.foldl (fun sum g ↦
          Buffer.combinePart (fun a b ↦ Storable.narrow element (a + b)) 0 g sum) sum)
        (gradients'.foldl (fun sum g ↦
          Buffer.combinePart (fun a b ↦ Storable.narrow element (a + b)) 0 g sum) sum') := by
    induction h generalizing sum sum' with
    | nil => exact hsum
    | cons hg _ ih => exact ih (hsum.combinePart hg _)
  exact key (.zeros hσ)

/-- The gradients of all workers correspond, those of workers without a chunk included. -/
theorem Renumbered.Corresponds.gradient {d d' : Registry α × List (α × List α)}
    (hd : Renumbered.Corresponds o o' σ d d') {n : ℕ} (hn : n = o.totalScalars.toNat)
    (hσ : Set.MapsTo σ (Set.Iio n) (Set.Iio n)) (element : ElementType) (workers : ℕ) :
    Relocates σ n
      (sumGradients element n
        (d.2.map Prod.snd ++ List.replicate (workers - d.2.length) (Buffer.zeros n)))
      (sumGradients element n
        (d'.2.map Prod.snd ++ List.replicate (workers - d'.2.length) (Buffer.zeros n))) := by
  refine sumGradients_relocates hσ element (List.rel_append ?_ ?_)
  · rw [List.forall₂_map_left_iff, List.forall₂_map_right_iff, hn]
    exact hd.sums.imp fun _ _ hs ↦ hs.2
  · rw [hd.sums.length_eq]
    generalize workers - d'.2.length = idle
    induction idle with
    | zero => exact .nil
    | succ idle ih => exact .cons (.zeros hσ) ih

/-! ### Enclosures -/

omit [Add α] [Storable α] in
theorem Renumbered.encloseTerms_eq (h : Renumbered o o')
    (hσ : Relocation o.registry o'.registry σ) {box box' : List Interval}
    (hbox : Relocates σ o.totalScalars.toNat box box') :
    o.encloseTerms box = o'.encloseTerms box' := by
  have hnext {b b' : Binding α} (hb : b.Alike o.registry o'.registry b') (sum : Interval)
      (index : ℕ) : o.encloseNext box sum (b, index) = o'.encloseNext box' sum (b', index) := by
    have hslices : (Graph.argumentVariables o.registry b).map (·.slice box) =
        (Graph.argumentVariables o'.registry b').map (·.slice box') :=
      map_eq_of_forall₂ hb.vars fun v v' htwin ↦ hσ.slice_eq h.permuted htwin hbox
    rw [encloseNext, encloseNext, addEnclosure, addEnclosure, hb.term, hslices]
  have key {bindings bindings' : List (Binding α)}
      (halike : List.Forall₂ (Binding.Alike o.registry o'.registry) bindings bindings')
      (sum : Interval) (index : ℕ) :
      (bindings.zipIdx index).foldlM (o.encloseNext box) sum =
        (bindings'.zipIdx index).foldlM (o'.encloseNext box') sum := by
    induction halike generalizing sum index with
    | nil => rfl
    | cons hb _ ih =>
      rw [List.zipIdx_cons, List.zipIdx_cons, List.foldlM_cons, List.foldlM_cons, hnext hb]
      exact congrArg (_ >>= ·) (funext fun next ↦ ih next (index + 1))
  exact key (h.alike rfl rfl) _ 0

omit [Add α] [Storable α] in
/-- Boxes that correspond have the same enclosure. -/
theorem Renumbered.enclosed (h : Renumbered o o') (hσ : Relocation o.registry o'.registry σ)
    {sides sides' : List BoxSide} (hsides : Relocates σ o.totalScalars.toNat sides sides') :
    Together Eq (o.enclosed sides) (o'.enclosed sides') := by
  have hnonneg := h.totalScalars_nonneg
  have hlength : (sides.length : ℤ) = o.totalScalars := by rw [hsides.length]; omega
  have hlength' : (sides'.length : ℤ) = o.totalScalars := by rw [hsides.length']; omega
  rw [Objective.enclosed, Objective.enclosed, ← h.totalScalars_eq, hlength, hlength',
    if_neg (not_not_intro rfl), if_neg (not_not_intro rfl)]
  have hnone := Registry.firstTransformed_eq_none_congr (.of_eq h.map_transform_boundVariables)
  rcases hv : Registry.firstTransformed (o.graph.boundVariables o.registry) with - | v
  · rw [hnone.1 hv]
    refine Together.bind (hsides.mapM (hσ.bijOn h.permuted) BoxSide.toInterval)
      fun box box' _ _ hbox ↦ ?_
    rw [h.encloseTerms_eq hσ hbox]
    exact .same fun _ _ ↦ rfl
  · rcases hv' : Registry.firstTransformed (o'.graph.boundVariables o'.registry) with - | v'
    · rw [hnone.2 hv'] at hv
      cases hv
    · exact .error

/-! ### Hessians -/

omit [Zero α] [Add α] [Storable α] in
/-- The blocks have the same at coordinates that correspond, in the same order. -/
theorem contributions_eq {o o' : Objective α} {σ : ℕ → ℕ} (h : Permuted o.registry o'.registry)
    (hσ : Relocation o.registry o'.registry σ) (hassemblable : o.Assemblable)
    (hsame : List.Forall₂ (Binding.SameHessian o.registry o'.registry) o.graph.bindings
      o'.graph.bindings) {i j : ℕ} (hi : i < o.totalScalars.toNat)
    (hj : j < o.totalScalars.toNat) : o'.contributions (σ i) (σ j) = o.contributions i j := by
  have hblocks := (List.forall₂_and_left _ _).2 ⟨fun b hb ↦
    And.intro (fun v hv ↦ (hassemblable.plain b hb v hv).dimension) (hassemblable.conforms b hb),
    hsame⟩
  rw [contributions, contributions, List.flatMap_def, List.flatMap_def]
  refine congrArg List.flatten (map_eq_of_forall₂ hblocks ?_).symm
  rintro b b' ⟨⟨hplain, blocks, hb, hconforms⟩, hbb'⟩
  exact (hbb'.contributions_eq h hσ hplain hb hconforms hi hj).symm

omit [Zero α] [Add α] [Storable α] in
theorem blockValues_eq {o o' : Objective α} {r r' : Registry α}
    (hsame : List.Forall₂ (Binding.SameHessian r r') o.graph.bindings o'.graph.bindings) :
    o.blockValues = o'.blockValues := by
  rw [blockValues, blockValues, List.flatMap_def, List.flatMap_def]
  exact congrArg List.flatten (map_eq_of_forall₂ hsame fun b b' hb ↦ by rw [hb.blocks])

end Evaluations

namespace Renumbered

variable [Zero α] {o o' : Objective α} {σ : ℕ → ℕ} (h : Renumbered o o')
  (hσ : Relocation o.registry o'.registry σ)

include h

/-- There are as many entries of blocks. -/
theorem length_places_eq : o.places.length = o'.places.length := by
  rw [length_places, length_places, entryCount, entryCount]
  refine congrArg List.sum (map_eq_of_forall₂ (h.alike rfl rfl) fun b b' hb ↦ ?_)
  rw [hb.map_eq fun _ _ ↦ h.permuted.userDimension_eq]

include hσ

/-- Places that correspond are covered by as many pairs of arguments. -/
theorem coverings_eq {i j : ℕ} (hi : i < o.totalScalars.toNat) (hj : j < o.totalScalars.toNat) :
    o'.coverings (σ i) (σ j) = o.coverings i j := by
  have hpairs : List.Forall₂ (fun p p' ↦ Twin o.registry o'.registry p.1 p'.1 ∧
      Twin o.registry o'.registry p.2 p'.2) o.pairs o'.pairs := by
    refine List.rel_flatMap (h.alike rfl rfl) fun b b' hb ↦ ?_
    refine List.rel_flatMap hb.vars fun v v' hv ↦ ?_
    exact List.rel_map (fun w w' hw ↦ ⟨hv, hw⟩) hb.vars
  have key (o : Objective α) (i j : ℕ) : o.coverings i j =
      (o.pairs.map fun p ↦ if p.1.Covers i ∧ p.2.Covers j then 1 else 0).sum := by
    rw [coverings, SparseMatrix.countP_eq_sum]
  rw [key, key]
  refine congrArg List.sum (map_eq_of_forall₂ hpairs fun p p' hp ↦ ?_).symm
  simp only [hσ.covers_iff h.permuted hp.1 hi, hσ.covers_iff h.permuted hp.2 hj]

/-- Entries can be placed in both objectives or in none, and their patterns correspond. -/
theorem placement [Add α] [OfNat α 1]
    {arrangement arrangement' : List (List (ℕ × α)) → List (List (ℕ × α))}
    (harrangement : SparseMatrix.Permutes arrangement)
    (harrangement' : SparseMatrix.Permutes arrangement')
    (hallowed : o.patternAllowed = .ok ()) (hallowed' : o'.patternAllowed = .ok ()) :
    Together (fun places places' ↦ places.length = places'.length ∧
      SparseMatrix.Relocated σ o.totalScalars.toNat
        (.assemble arrangement o.totalScalars.toNat places (List.replicate places.length (1 : α)))
        (.assemble arrangement' o.totalScalars.toNat places' (List.replicate places.length 1)))
      o.placement o'.placement := by
  have hplain := h.sound.plain h.natural (patternAllowed_eq_ok_iff.1 hallowed)
  have hplain' := h.sound'.plain h.natural' (patternAllowed_eq_ok_iff.1 hallowed')
  have htotal := h.totalScalars_eq
  refine (hplain.placement_together hplain' htotal h.totalScalars_nonneg).mono ?_
  rintro _ _ - - ⟨rfl, rfl⟩
  refine ⟨h.length_places_eq, ?_⟩
  nth_rewrite 2 [h.length_places_eq]
  refine SparseMatrix.relocated_ones (hσ.bijOn h.permuted).mapsTo harrangement harrangement'
    (fun p hp ↦ hplain.lt_of_mem_places hp)
    (fun p hp ↦ htotal ▸ hplain'.lt_of_mem_places hp) fun i hi j hj ↦ ?_
  rw [hplain.count_places, hplain'.count_places, h.coverings_eq hσ hi hj]

end Renumbered

end Objective

/-! ### Queries -/

section Queries

open Objective

variable [Zero α] [Add α] [OfNat α 1] [Storable α] {s s' : Scene α} {σ : ℕ → ℕ} {short : ℕ}

/-- Two objectives of which one has its variables in another order, on platforms that may sort long
columns in any way. -/
structure Scene.Renumbered (short : ℕ) (s s' : Scene α) : Prop
    extends s.objective.Renumbered s'.objective where
  permutes : SparseMatrix.Permutes s.platform.arrangement
  permutes' : SparseMatrix.Permutes s'.platform.arrangement
  keepsUpTo : SparseMatrix.KeepsUpTo short s.platform.arrangement
  keepsUpTo' : SparseMatrix.KeepsUpTo short s'.platform.arrangement

namespace Scene.Renumbered

variable (h : Renumbered short s s') (hσ : Relocation s.objective.registry s'.objective.registry σ)

include h hσ

omit [OfNat α 1] in
theorem computed {mode : Mode} {d d' : Registry α × List (α × List α)}
    {r r' : α × List (List α)} {t t' : Scene α}
    (hallowed : mode = .hessian → s.objective.hessianAllowed = .ok () ∧
      s'.objective.hessianAllowed = .ok ())
    (hd : Objective.Renumbered.Corresponds s.objective s'.objective σ d d')
    (ht : Collected mode s d r t) (ht' : Collected mode s' d' r' t') :
    (Likeness.relocating σ s.objective.totalScalars.toNat short).Computed mode s s' r r' t t' := by
  have hbijOn : Set.BijOn σ (Set.Iio s.objective.totalScalars.toNat)
      (Set.Iio s.objective.totalScalars.toNat) := hσ.bijOn h.permuted
  have hn := (Int.toNat_of_nonneg h.totalScalars_nonneg).symm
  have htotal := totalScalars_eq_of_bare ht.evaluated.bare
  have htotal' := totalScalars_eq_of_bare ht'.evaluated.bare
  have hassemblable (hmode : mode = .hessian) : t.objective.Assemblable ∧
      t'.objective.Assemblable :=
    ⟨assemblable_of_allowed ht.evaluated h.sound h.natural (hallowed hmode).1,
      assemblable_of_allowed ht'.evaluated h.sound' h.natural' (hallowed hmode).2⟩
  have hsame (hmode : mode = .hessian) :
      List.Forall₂ (Binding.SameHessian t.objective.registry t'.objective.registry)
        t.objective.graph.bindings t'.objective.graph.bindings := by
    subst hmode
    rw [ht.bindings, ht'.bindings, ht.registry, ht'.registry, List.forall₂_map_left_iff,
      List.forall₂_map_right_iff]
    exact hd.alike.imp fun b b' hb ↦ hb.sameHessian hd.twins
  have hgiven (hmode : mode = .hessian) : ∀ i < s.objective.totalScalars.toNat,
      ∀ j < s.objective.totalScalars.toNat, t'.objective.contributions (σ i) (σ j) =
        t.objective.contributions i j := by
    intro i hi j hj
    rw [htotal] at hi hj
    refine contributions_eq ?_ ?_ (hassemblable hmode).1 (hsame hmode) hi hj
    · rw [ht.registry, ht'.registry]
      exact hd.twins.toPermuted
    · rw [ht.registry, ht'.registry]
      exact hd.relocation
  refine computed_of_assemblable hn (h.totalScalars_eq ▸ hn) ht.evaluated ht'.evaluated hassemblable
    ?_ (fun element ↦ ?_) (fun hmode element ↦ ?_) (fun hmode ↦ ?_) fun hmode ↦ ?_
  · rw [ht.value, ht'.value, hd.total_eq]
  · rw [ht.gradients, ht'.gradients, ← h.totalScalars_eq, ← h.workerCount]
    exact hd.gradient rfl hbijOn.mapsTo element _
  · refine relocatesRows_square hbijOn.mapsTo fun i hi j hj ↦ ?_
    rw [hgiven hmode i hi j hj]
  · rw [blockValues_eq (hsame hmode)]
  · obtain ⟨hplain, hplain'⟩ := hassemblable hmode
    refine SparseMatrix.relocatesSums_assemble hbijOn h.permutes h.permutes' h.keepsUpTo
      h.keepsUpTo' ?_ ?_ hplain.length_places hplain'.length_places hplain.valuesAt_zip_places
      hplain'.valuesAt_zip_places (hgiven hmode)
    · rw [htotal]
      exact fun p hp ↦ Plain.lt_of_mem_places hplain.plain hp
    · rw [h.totalScalars_eq, htotal']
      exact fun p hp ↦ Plain.lt_of_mem_places hplain'.plain hp

theorem counterparts (hopen : s.objective.closed = false) (hopen' : s'.objective.closed = false) :
    Counterparts (Likeness.relocating σ s.objective.totalScalars.toNat short) s s' where
  sound := h.sound
  sound' := h.sound'
  isOpen := hopen
  isOpen' := hopen'
  total := h.totalScalars_eq
  allowed := h.hessianAllowed
  patternAllowed := h.patternAllowed
  placement := h.placement hσ h.permutes h.permutes'
  value x x' hx := related_evaluateValue h.sound h.sound'
    (h.directValue hσ nofun (.inr ⟨x, x', rfl, rfl, hx⟩)) fun _ _ hd ↦ hd.total_eq
  user hm := related_evaluateValue h.sound h.sound'
    (h.directValue hσ (fun _ ↦ hm) (.inl ⟨rfl, rfl⟩)) fun _ _ hd ↦ hd.total_eq
  workers _ hmode hallowed x x' hx :=
    .of_together (realizes_evaluateWorkers h.sound hmode x)
      (realizes_evaluateWorkers h.sound' hmode x') (h.direct hσ hx)
      fun _ _ _ _ _ _ _ _ hd ht ht' ↦ h.computed hσ hallowed hd ht ht'
  enclosed _ _ hsides := h.enclosed hσ hsides

end Scene.Renumbered

end Queries

end Summand
