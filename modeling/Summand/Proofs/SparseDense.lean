import Summand.Proofs.FailedQueries
import Summand.Proofs.History
import Summand.Proofs.Memory
import Summand.Proofs.Placement

/-!
# Sparse and dense Hessians

An evaluation with a dense Hessian and one with a sparse Hessian fail with the same failure, or
return the same value, write the same gradient and come to the same matrix
(`Scene.Reached.sparse_eq_dense`). They share all checks and the workers' evaluation. What only the
sparse one does afterwards, that is, to take positions for machine words and to allocate the column
starts, cannot fail if the caller has an array for the dense matrix and no slice begins before the
flat vector (`Small.sparse_unlike_dense` has one that does).

The arithmetic need not be exact. Both add the same values at each place in the same order, and the
one thing to be known about addition is that zero can be left out on the left.
-/

namespace Summand

variable {α : Type}

/-! ### Results -/

/-- An array takes results of a shape: it is a writeable array of doubles with cells of its own. -/
structure Block.Takes (m : Memory α) (sizes : List Int) (b : Block) : Prop where
  proper : b.Proper m
  sizes : b.sizes = sizes
  element : b.element = .float64
  writeable : b.writeable = true

theorem Block.Takes.checkOutput {m : Memory α} {sizes : List Int} {b : Block} (h : b.Takes m sizes)
    (name : String) : Objective.checkOutput name sizes (.array b) = .ok b :=
  Objective.checkOutput_eq_ok_iff.2 ⟨rfl, h.sizes, by rw [h.element]; rfl, h.writeable⟩

theorem Block.Takes.store [Storable α] {m : Memory α} {sizes : List Int} {b c : Block}
    (h : b.Takes m sizes) {values : List α} : b.Takes (m.store c values) sizes :=
  ⟨Memory.proper_store h.proper, h.sizes, h.element, h.writeable⟩

/-- What is stored in an array of doubles is read from it again. -/
theorem Block.Takes.read_store [Zero α] [Storable α] {m : Memory α} {sizes : List Int} {b : Block}
    (h : b.Takes m sizes) {values : List α}
    (hlength : values.length = Grid.volume (sizes.map Int.toNat)) :
    (m.store b values).read b = values := by
  rw [← h.sizes, ← h.proper.length_eq_volume] at hlength
  rw [Memory.read_store h.proper hlength, h.element]
  exact List.map_id'' Storable.narrow_float64 _

/-- An array for a square matrix has a natural number of rows. -/
theorem Block.Takes.exists_shape {m : Memory α} {n : Int} {b : Block} (h : b.Takes m [n, n]) :
    ∃ k : Nat, b.shape = [k, k] ∧ n = k := by
  have hsizes := h.sizes
  rw [Block.sizes] at hsizes
  obtain ⟨k, rest, hshape, rfl, hrest⟩ := List.map_eq_cons_iff.1 hsizes
  obtain ⟨l, rfl, hl⟩ := List.map_eq_singleton_iff.1 hrest
  cases hl
  exact ⟨k, hshape, rfl⟩

namespace Objective

open Summand.Action

variable [Zero α] [Add α] [Storable α]

/-- The sum of gradients has the length of the flat vector. -/
theorem length_sumGradients (element : ElementType) (n : Nat) (gradients : List (List α)) :
    (sumGradients element n gradients).length = n := by
  have key (sum : List α) : (gradients.foldl (fun sum g ↦
      Buffer.combinePart (fun a b ↦ Storable.narrow element (a + b)) 0 g sum) sum).length =
        sum.length := by
    induction gradients generalizing sum with
    | nil => rfl
    | cons g gradients ih => rw [List.foldl_cons, ih, Buffer.length_combinePart]
  rw [sumGradients, key, Buffer.length_zeros]

omit [Zero α] [Add α] [Storable α] in
/-- There is room for a sparse matrix if there is an array for a dense one. -/
theorem Assemblable.placement_eq {o : Objective α} (h : o.Assemblable) {m : Memory α} {b : Block}
    (hb : b.Takes m [o.totalScalars, o.totalScalars])
    (hbytes : Allocation.spannedBytes b.shape ≤ Allocation.wordLimit) :
    o.placement = .ok o.places := by
  obtain ⟨n, hshape, hn⟩ := hb.exists_shape
  have hlt := Allocation.lt_of_spannedBytes (hshape ▸ hbytes)
  have hroom : Allocation.check .integer [(n : Int) + 1] = .ok () :=
    Allocation.check_row (n := n + 1) (by rw [Allocation.byteLimit_eq]; omega)
  exact Plain.placement_eq h.plain (hn ▸ Int.natCast_nonneg n) (hn ▸ hroom)

/-- The results of the two evaluations agree: the values, the gradients that are written, and the
matrices. -/
structure SameHessian (s : Scene α) (gradient gradient' hessian : Block) (position : Nat)
    (value value' : α) (t t' : Scene α) : Prop where
  value : value = value'
  /-- The dense Hessian is written after the gradient. -/
  written : ∃ (sum : List α) (matrix : SparseMatrix α) (count : Nat),
    sum.length = s.objective.totalScalars.toNat ∧
    Buffer.Shaped s.objective.totalScalars.toNat s.objective.totalScalars.toNat matrix.toRows ∧
    t.memory = (s.memory.store gradient sum).store hessian matrix.toRows.flatten ∧
    t'.memory = (s.memory.store gradient' sum).setTarget position ⟨some matrix, count⟩

/-- The two evaluations fail together or agree. -/
theorem related_evaluate_evaluateSparse {s : Scene α} (h : s.objective.Kept)
    (hzero : ∀ v : α, 0 + v = v) (harrangement : SparseMatrix.KeepsOrder s.platform.arrangement)
    (hsizes : ∀ v ∈ s.objective.registry.entries, ∀ t, v.transform = some t → 0 ≤ t.inputDimension)
    {gradient gradient' hessian : Block}
    (hgradient : gradient.Takes s.memory [s.objective.totalScalars])
    (hgradient' : gradient'.Takes s.memory [s.objective.totalScalars])
    (hhessian : hessian.Takes s.memory [s.objective.totalScalars, s.objective.totalScalars])
    (hbytes : Allocation.spannedBytes hessian.shape ≤ Allocation.wordLimit) (position : Nat)
    (x : GivenPoint α) :
    Related (fun failure failure' _ _ ↦ failure = failure')
      (SameHessian s gradient gradient' hessian position)
      ((evaluate x (some (.array gradient)) (some (.array hessian))).run s)
      ((evaluateSparse x (.array gradient') (some position)).run s) := by
  have hself {β : Type} (m : Except Failure β × Scene α) := Related.self (E := fun failure failure'
    (_ _ : Scene α) ↦ failure = failure') m fun _ _ ↦ rfl
  unfold evaluate evaluateSparse
  -- Both check the same things in the same order.
  refine (hself _).bind fun _ _ t _ ⟨_, ht, hrun⟩ ↦ ?_
  obtain ⟨rfl, hopen⟩ := run_checkOpen_eq_ok hrun
  subst ht
  dsimp only
  rw [evaluateInto_some]
  refine (hself _).bind fun _ _ t _ ⟨_, ht, hrun⟩ ↦ ?_
  rw [run_checkHessianAllowed, Prod.mk.injEq] at hrun
  obtain ⟨hallowed, rfl⟩ := hrun
  obtain ⟨hallowed, huntransformed⟩ := hessianAllowed_eq_ok_iff.1 hallowed
  subst ht
  rw [run_objective_bind, run_objective_bind]
  refine (hself _).bind fun point _ t _ ⟨hpoint, ht, hrun⟩ ↦ ?_
  subst hpoint ht
  rw [run_checkPoint, Prod.mk.injEq] at hrun
  obtain ⟨-, rfl⟩ := hrun
  rw [hgradient.checkOutput, hgradient'.checkOutput, hhessian.checkOutput, run_liftM_ok_bind,
    run_liftM_ok_bind, run_liftM_ok_bind]
  -- Both let the workers do the same, which they do in the same scene.
  refine (hself _).bind fun results _ t _ ⟨hresults, ht, hrun⟩ ↦ ?_
  subst hresults ht
  have hsound := h.sound hopen
  have hrealizes := realizes_evaluateWorkers hsound (show Mode.hessian ≠ .value by simp) point
  rw [hrun] at hrealizes
  obtain ⟨⟨r, sums⟩, -, hcollected⟩ := hrealizes.of_ok
  have hevaluated := hcollected.evaluated
  have hassemblable := assemblable_of_evaluated hevaluated hsound hsizes hallowed huntransformed
  have htotal := totalScalars_eq_of_bare hevaluated.bare
  obtain ⟨value, gradients⟩ := results
  dsimp only
  rw [run_writeGradient_bind, run_writeGradient_bind, run_objective_bind, run_objective_bind,
    run_modifyMemory_bind, hgradient.element, hgradient'.element]
  have hlength := length_sumGradients .float64 t.objective.totalScalars.toNat gradients
  generalize sumGradients .float64 t.objective.totalScalars.toNat gradients = sum at hlength ⊢
  set u : Scene α := { t with memory := t.memory.write (.store gradient' sum) } with hu
  have hplacement : u.objective.placement = .ok t.objective.places :=
    hassemblable.placement_eq (htotal ▸ hhessian) hbytes
  have hassembled := realizes_assembleTarget (s := u) hevaluated.sound t.objective.blockValues
  rw [hplacement] at hassembled
  obtain ⟨target, v, hrun, hv, rfl⟩ := hassembled.succeeds
  have hrows := hassemblable.toRows_assemble hzero (hevaluated.platform.symm ▸ harrangement)
  dsimp only
  rw [run_bind_of_ok hrun, run_modifyMemory_bind]
  refine .ok ⟨rfl, sum, .assemble u.platform.arrangement u.objective.totalScalars.toNat
    t.objective.places t.objective.blockValues, t.objective.blockValues.length,
    htotal ▸ hlength, ?_, ?_, ?_⟩
  · rw [hrows, assembleDense_eq fun b hb v hv ↦ (hassemblable.plain b hb v hv).liesIn, htotal]
    exact shaped_square _ _
  · dsimp only
    rw [hhessian.element, hrows, ← hevaluated.memory]
    rfl
  · rw [hv.memory, hu, ← hevaluated.memory]
    rfl

end Objective

open Objective

/-- An evaluation with a dense Hessian and one with a sparse Hessian fail together with the same
failure, or they return the same value, write the same gradient, and come to the same matrix, entry
by entry, whatever has been done with the objective and whatever the arrays held. All that is asked
of addition is that zero can be left out on the left. The arrangement of columns has to keep the
order of the entries of each row, sizes that transforms tell are not negative, and the bytes of the
array for the Hessian can be counted by a machine word. -/
theorem Scene.Reached.sparse_eq_dense [Zero α] [Add α] [OfNat α 1] [Storable α] {s : Scene α}
    (h : s.Reached) (hzero : ∀ v : α, 0 + v = v)
    (harrangement : SparseMatrix.KeepsOrder s.platform.arrangement)
    (hsizes : ∀ v ∈ s.objective.registry.entries, ∀ t, v.transform = some t → 0 ≤ t.inputDimension)
    {gradient gradient' hessian : Block}
    (hgradient : gradient.Takes s.memory [s.objective.totalScalars])
    (hgradient' : gradient'.Takes s.memory [s.objective.totalScalars])
    (hhessian : hessian.Takes s.memory [s.objective.totalScalars, s.objective.totalScalars])
    (hbytes : Allocation.spannedBytes hessian.shape ≤ Allocation.wordLimit)
    {position : Nat} (hposition : position < s.memory.targets.size) (x : GivenPoint α) :
    Related (fun failure failure' _ _ ↦ failure = failure')
      (fun value value' t t' ↦ value = value' ∧
        (gradient.Disjoint hessian → t.memory.read gradient = t'.memory.read gradient') ∧
        ∃ rows, Buffer.Shaped s.objective.totalScalars.toNat s.objective.totalScalars.toNat rows ∧
          t.memory.read hessian = rows.flatten ∧
          (t'.memory.target position).toRows = .ok rows)
      ((evaluate x (some (.array gradient)) (some (.array hessian))).run s)
      ((evaluateSparse x (.array gradient') (some position)).run s) := by
  have hrelated := related_evaluate_evaluateSparse h.kept hzero harrangement hsizes hgradient
    hgradient' hhessian hbytes position x
  refine hrelated.mono (fun _ _ _ _ h ↦ h) ?_
  intro value value' t t' hsame
  obtain ⟨sum, matrix, count, hsum, hshaped, ht, ht'⟩ := hsame.written
  refine ⟨hsame.value, ?_, matrix.toRows, hshaped, ?_, ?_⟩
  · -- The dense Hessian is written to other cells than the gradient.
    intro hdisjoint
    rw [ht, ht', Memory.read_store_of_disjoint hdisjoint]
    have hvolume : sum.length = Grid.volume ([s.objective.totalScalars].map Int.toNat) := by
      simpa [Grid.volume] using hsum
    exact (hgradient.read_store hvolume).trans (hgradient'.read_store hvolume).symm
  · rw [ht]
    apply hhessian.store.read_store
    rw [hshaped.length_flatten]
    simp [Grid.volume]
  · have htarget := Memory.target_setTarget (m := s.memory.store gradient' sum) hposition
      ⟨some matrix, count⟩
    rw [ht', htarget]
    rfl

namespace Small

/-- In the small history without a transform on a bound variable, the sparse Hessian has the rows of
the dense one. -/
theorem sparse_hessian_eq :
    ∃ (t t' : Scene Int) (rows : List (List Int)),
      (evaluate (.ok (.vector [1, 2, 3, 4])) (some (.array gradient)) (some (.array hessian))).run
        (scene none) = (.ok 11, t) ∧
      (evaluateSparse (.ok (.vector [1, 2, 3, 4])) (.array gradient') (some 0)).run (scene none) =
        (.ok 11, t') ∧
      t.memory.read gradient = t'.memory.read gradient' ∧
      (t'.memory.target 0).toRows = .ok rows ∧
      rows.flatten = [2, 3, 2, 0, 3, 2, 1, 0, 2, 1, 0, 0, 0, 0, 0, 0] := by
  have hgradient : gradient.Takes (scene none).memory [(scene none).objective.totalScalars] :=
    ⟨⟨by decide, by decide, by decide⟩, rfl, rfl, rfl⟩
  have hgradient' : gradient'.Takes (scene none).memory [(scene none).objective.totalScalars] :=
    ⟨⟨by decide, by decide, by decide⟩, rfl, rfl, rfl⟩
  have hhessian : hessian.Takes (scene none).memory
      [(scene none).objective.totalScalars, (scene none).objective.totalScalars] :=
    ⟨⟨by decide, by decide, by decide⟩, rfl, rfl, rfl⟩
  have harrangement : SparseMatrix.KeepsOrder (scene none).platform.arrangement :=
    fun columns ↦ List.forall₂_same.2 fun _ _ _ ↦ rfl
  have hposition : 0 < (scene none).memory.targets.size := by decide
  have hsizes := of_transform (P := fun t ↦ 0 ≤ t.inputDimension) (by decide) (.inl rfl)
  have h := (reached_scene none).sparse_eq_dense Int.zero_add harrangement hsizes hgradient
    hgradient' hhessian (by decide) hposition (.ok (.vector [1, 2, 3, 4]))
  obtain ⟨t, hrun, hread⟩ : ∃ t, (evaluate (.ok (.vector [1, 2, 3, 4])) (some (.array gradient))
      (some (.array hessian))).run (scene none) = (.ok 11, t) ∧
        t.memory.read hessian = [2, 3, 2, 0, 3, 2, 1, 0, 2, 1, 0, 0, 0, 0, 0, 0] := by
    set_option maxRecDepth 2000 in exact ⟨_, Prod.ext rfl rfl, rfl⟩
  rw [hrun] at h
  generalize hsparse : (evaluateSparse (.ok (.vector [1, 2, 3, 4])) (.array gradient')
    (some 0)).run (scene none) = run at h
  cases h with
  | ok h =>
    obtain ⟨rfl, hgradients, rows, -, hrows, htarget⟩ := h
    exact ⟨t, _, rows, hrun, rfl, hgradients (by decide), htarget, hrows.symm.trans hread⟩

/-- The first row of the array for the Hessian, as an array for the gradient. -/
def firstRow : Block := { id := 8, shape := [4], cells := List.range' 12 4 }

/-- In an open objective that allows Hessians, the arrays are such that both evaluations can be
asked for. -/
structure Comparable (s : Scene Int) (gradient gradient' hessian : Block) : Prop where
  reached : s.Reached
  isOpen : s.objective.closed = false
  allowed : s.objective.hessianAllowed = .ok ()
  keepsOrder : SparseMatrix.KeepsOrder s.platform.arrangement
  gradient : gradient.Takes s.memory [s.objective.totalScalars]
  gradient' : gradient'.Takes s.memory [s.objective.totalScalars]
  hessian : hessian.Takes s.memory [s.objective.totalScalars, s.objective.totalScalars]
  position : 0 < s.memory.targets.size

theorem comparable_shrunkScene : Comparable shrunkScene gradient gradient' hessian where
  reached := reached_shrunkScene
  isOpen := rfl
  allowed := hessianAllowed_eq_ok_iff.2 ⟨rfl, rfl⟩
  keepsOrder := fun _ ↦ List.forall₂_same.2 fun _ _ _ ↦ rfl
  gradient := ⟨⟨by decide, by decide, by decide⟩, rfl, rfl, rfl⟩
  gradient' := ⟨⟨by decide, by decide, by decide⟩, rfl, rfl, rfl⟩
  hessian := ⟨⟨by decide, by decide, by decide⟩, rfl, rfl, rfl⟩
  position := by decide

theorem comparable_firstRow : Comparable (scene none) firstRow gradient' hessian where
  reached := reached_scene none
  isOpen := rfl
  allowed := rfl
  keepsOrder := fun _ ↦ List.forall₂_same.2 fun _ _ _ ↦ rfl
  gradient := ⟨⟨by decide, by decide, by decide⟩, rfl, rfl, rfl⟩
  gradient' := ⟨⟨by decide, by decide, by decide⟩, rfl, rfl, rfl⟩
  hessian := ⟨⟨by decide, by decide, by decide⟩, rfl, rfl, rfl⟩
  position := by decide

/-- If a transform asks for a negative dimension, the evaluation with the sparse Hessian may fail
where the dense one succeeds. A gradient that is a part of the dense Hessian is overwritten with
it. -/
theorem sparse_unlike_dense :
    (Comparable shrunkScene gradient gradient' hessian ∧
      ((evaluate (.ok (.vector [1, 2, 3, 4])) (some (.array gradient))
        (some (.array hessian))).run shrunkScene).1.toOption = some 9 ∧
      ((evaluateSparse (.ok (.vector [1, 2, 3, 4])) (.array gradient') (some 0)).run
        shrunkScene).1.isOk = false) ∧
    Comparable (scene none) firstRow gradient' hessian ∧
      ∃ t t', (evaluate (.ok (.vector [1, 2, 3, 4])) (some (.array firstRow))
          (some (.array hessian))).run (scene none) = (.ok 11, t) ∧
        (evaluateSparse (.ok (.vector [1, 2, 3, 4])) (.array gradient') (some 0)).run (scene none) =
          (.ok 11, t') ∧
        t.memory.read firstRow = [2, 3, 2, 0] ∧ t'.memory.read gradient' = [8, 7, 2, 0] := by
  refine ⟨⟨comparable_shrunkScene, by decide +kernel, by decide +kernel⟩, comparable_firstRow, ?_⟩
  set_option maxRecDepth 2000 in exact ⟨_, _, Prod.ext rfl rfl, Prod.ext rfl rfl, rfl, rfl⟩

end Small

end Summand
