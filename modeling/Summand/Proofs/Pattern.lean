import Mathlib.Algebra.BigOperators.Ring.List
import Mathlib.Algebra.Ring.Nat
import Mathlib.Data.List.Nodup
import Mathlib.Data.List.ProdSigma
import Summand.Proofs.Arrangement
import Summand.Proofs.FailedQueries

/-!
# The pattern of the Hessian

A term that is bound to two variables, or to one, has second derivatives wherever their slices meet.
The pattern of the Hessian stores an entry at just these places, and its value is the number of
pairs of arguments that cover the place (`SparseMatrix.IsPattern`). Every sparse Hessian that is
evaluated has the same columns and rows, whatever its values are: entries that are zero stay stored
(`Scene.Reached.pattern_structure`).

The pattern of an objective can be made unless a transform asks for a negative dimension or there is
no room for the starts of the columns. Both do happen, beside variables that no term is bound to
(`Small.unplaced_pattern`).
-/

namespace Summand

variable {α : Type}

/-! ### What slices cover -/

/-- A position of the flat vector lies within the slice of a variable. -/
def Variable.Covers (v : Variable α) (i : Nat) : Prop :=
  v.offset ≤ i ∧ (i : Int) < v.offset + v.solverDimension

instance (v : Variable α) (i : Nat) : Decidable (v.Covers i) :=
  inferInstanceAs (Decidable (_ ∧ _))

/-- The variables of each two arguments of all bindings. -/
def Objective.pairs (o : Objective α) : List (Variable α × Variable α) :=
  o.graph.bindings.flatMap fun b ↦
    Graph.argumentVariables o.registry b ×ˢ Graph.argumentVariables o.registry b

/-- The number of pairs of arguments that cover a row and a column. -/
def Objective.coverings (o : Objective α) (i j : Nat) : Nat :=
  o.pairs.countP fun p ↦ p.1.Covers i ∧ p.2.Covers j

/-- The number of entries of all Hessian blocks. -/
def Objective.entryCount (o : Objective α) : Nat :=
  (o.graph.bindings.map fun b ↦
    ((Graph.argumentVariables o.registry b).map Variable.userDimension).sum ^ 2).sum

/-- A matrix is the pattern of an objective: it stores an entry where the slices of two arguments of
a binding meet, with the number of pairs of arguments that cover the place. -/
structure SparseMatrix.IsPattern (m : SparseMatrix α) (o : Objective α) (number : Nat → α) :
    Prop where
  size : (m.size : Int) = o.totalScalars
  wellFormed : m.WellFormed
  stored : ∀ i j, (∃ v, m.Stores i j v) ↔
    ∃ b ∈ o.graph.bindings, ∃ v ∈ Graph.argumentVariables o.registry b,
      ∃ w ∈ Graph.argumentVariables o.registry b, v.Covers i ∧ w.Covers j
  counted : ∀ i j v, m.Stores i j v → v = number (o.coverings i j)

/-! ### Places and slices -/

namespace Variable

variable {n : Nat} {v w : Variable α}

/-- The positions that a plain variable covers are those of its slice. -/
theorem Plain.covers_iff (h : v.Plain n) {i : Nat} :
    v.Covers i ↔ i ∈ List.range' v.offset.toNat v.userDimension := by
  have := h.liesIn.offset
  have := h.dimension
  rw [Covers, List.mem_range'_1]
  omega

theorem places_eq_product (v w : Variable α) : v.places w =
    List.range' v.offset.toNat v.userDimension ×ˢ List.range' w.offset.toNat w.userDimension := rfl

/-- The block of two variables has one entry at each place that they cover. -/
theorem Plain.count_places (hv : v.Plain n) (hw : w.Plain n) (i j : Nat) :
    (v.places w).count (i, j) = if v.Covers i ∧ w.Covers j then 1 else 0 := by
  have hnodup : (v.places w).Nodup := List.Nodup.product List.nodup_range' List.nodup_range'
  have hmem : (i, j) ∈ v.places w ↔ v.Covers i ∧ w.Covers j := by
    rw [places_eq_product, List.mem_product, hv.covers_iff, hw.covers_iff]
  split
  · next hcovers => exact List.count_eq_one_of_mem hnodup (hmem.2 hcovers)
  · next hcovers => exact List.count_eq_zero.2 fun h ↦ hcovers (hmem.1 h)

end Variable

namespace Objective

variable {o : Objective α}

theorem places_eq_flatMap (o : Objective α) :
    o.places = o.pairs.flatMap fun p ↦ p.1.places p.2 := by
  rw [places, pairs, List.flatMap_assoc]
  refine List.flatMap_congr fun b _ ↦ ?_
  show _ = List.flatMap _ (List.flatMap _ _)
  rw [Binding.places, List.flatMap_assoc]
  refine List.flatMap_congr fun v _ ↦ ?_
  rw [List.flatMap_map]

/-- The Hessian blocks of a binding have as many entries as a square matrix of all its arguments. -/
theorem length_places (o : Objective α) : o.places.length = o.entryCount := by
  rw [places, entryCount, List.length_flatMap]
  refine congrArg List.sum (List.map_congr_left fun b _ ↦ ?_)
  have hplaces (v w : Variable α) : (v.places w).length = v.userDimension * w.userDimension := by
    rw [Variable.places_eq_product, List.length_product, List.length_range', List.length_range']
  simp only [Binding.places, List.length_flatMap, hplaces]
  rw [sq, ← List.sum_map_mul_right]
  exact congrArg List.sum (List.map_congr_left fun v _ ↦ List.sum_map_mul_left _ _ _)

namespace Plain

/-- A place occurs as often as pairs of arguments cover it. -/
theorem count_places (h : o.Plain) (i j : Nat) : o.places.count (i, j) = o.coverings i j := by
  rw [places_eq_flatMap, List.count_flatMap, coverings, SparseMatrix.countP_eq_sum]
  refine congrArg List.sum (List.map_congr_left fun p hp ↦ ?_)
  obtain ⟨b, hb, hp⟩ := List.mem_flatMap.1 hp
  obtain ⟨hv, hw⟩ := List.mem_product.1 hp
  exact (h b hb _ hv).count_places (h b hb _ hw) i j

/-- The places are those that two arguments of a binding cover. -/
theorem mem_places_iff (h : o.Plain) (i j : Nat) : (i, j) ∈ o.places ↔
    ∃ b ∈ o.graph.bindings, ∃ v ∈ Graph.argumentVariables o.registry b,
      ∃ w ∈ Graph.argumentVariables o.registry b, v.Covers i ∧ w.Covers j := by
  rw [places, List.mem_flatMap]
  refine exists_congr fun b ↦ and_congr_right fun hb ↦ ?_
  rw [Binding.places, List.mem_flatMap]
  refine exists_congr fun v ↦ and_congr_right fun hv ↦ ?_
  rw [List.mem_flatMap]
  refine exists_congr fun w ↦ and_congr_right fun hw ↦ ?_
  rw [Variable.places_eq_product, List.mem_product, (h b hb v hv).covers_iff,
    (h b hb w hw).covers_iff]

/-- Ones at all places make the pattern. -/
theorem isPattern [Add α] [OfNat α 1] (h : o.Plain) (hnonneg : 0 ≤ o.totalScalars)
    {arrangement : List (List (Nat × α)) → List (List (Nat × α))}
    (harrangement : SparseMatrix.Permutes arrangement) {number : Nat → α} (hone : number 1 = 1)
    (hnumber : ∀ i j k, 0 < k → k < o.coverings i j → number k + 1 = number (k + 1)) :
    (SparseMatrix.assemble arrangement o.totalScalars.toNat o.places
      (List.replicate o.places.length 1)).IsPattern o number where
  size := by
    rw [harrangement.size_assemble]
    exact Int.toNat_of_nonneg hnonneg
  wellFormed := harrangement.wellFormed (by simp) fun p hp ↦ h.lt_of_mem_places hp
  stored i j := by
    rw [harrangement.exists_stores_iff (by simp) fun p hp ↦ (h.lt_of_mem_places hp).2]
    exact h.mem_places_iff i j
  counted i j v hv := by
    rw [← h.count_places]
    refine harrangement.eq_number_of_stores hone (fun k hk hlt ↦ hnumber i j k hk ?_) hv
    rwa [← h.count_places]

end Plain

end Objective

/-! ### The structure of all sparse Hessians -/

section Structure

open Summand.Action Objective

variable [Zero α] {s t : Scene α}

/-- The blocks of an objective that has been evaluated have an entry for each place. -/
theorem Objective.Placeable.length_blockValues (h : s.objective.Placeable)
    (hsound : s.objective.Sound) (ht : Evaluated s t)
    (hallowed : s.objective.hessianAllowed = .ok ()) :
    t.objective.blockValues.length = s.objective.places.length := by
  obtain ⟨hhessian, huntransformed⟩ := hessianAllowed_eq_ok_iff.1 hallowed
  have hassemblable := assemblable_of_evaluated ht hsound h.sizes hhessian huntransformed
  have hplacement := h.placement_eq hsound huntransformed
  rw [placement_eq_of_bare ht.bare, (h.of_bare ht.bare).placement_eq ht.sound
    (firstTransformed_eq_none_of_bare ht.bare huntransformed)] at hplacement
  rw [← hassemblable.length_places, Except.ok.inj hplacement]

variable [Add α] [OfNat α 1]

/-- The matrix that has ones for the entries of all Hessian blocks. -/
def Scene.pattern (s : Scene α) : SparseMatrix α :=
  .assemble s.platform.arrangement s.objective.totalScalars.toNat s.objective.places
    (List.replicate s.objective.places.length 1)

namespace Scene

/-- The pattern is made if its entries can be placed. -/
theorem run_sparsityPattern (hsound : s.objective.Sound) (hopen : s.objective.closed = false)
    (hplaceable : s.objective.Placeable)
    (huntransformed : Registry.firstTransformed
      (s.objective.graph.boundVariables s.objective.registry) = none) (target : Option Nat) :
    ∃ t, (sparsityPattern target).run s = (.ok s.pattern, t) ∧
      t.memory = target.elim s.memory fun position ↦
        s.memory.setTarget position ⟨some s.pattern, s.objective.entryCount⟩ := by
  have hrealizes := realizes_sparsityPattern hsound hopen target
  rw [patternAllowed_eq_ok_iff.2 huntransformed, hplaceable.placement_eq hsound huntransformed]
    at hrealizes
  obtain ⟨matrix, t, hrun, rfl, hmemory⟩ := hrealizes.succeeds
  exact ⟨t, hrun, by rw [hmemory, ← length_places]; rfl⟩

/-- A matrix that has been made after an evaluation has the structure of the pattern. -/
theorem sameStructure_pattern (hsound : s.objective.Sound) (hplaceable : s.objective.Placeable)
    (harrangement : SparseMatrix.Permutes s.platform.arrangement) (ht : Evaluated s t)
    (hallowed : s.objective.hessianAllowed = .ok ()) {places : List (Nat × Nat)}
    (hplaces : s.objective.placement = .ok places) :
    (SparseMatrix.assemble s.platform.arrangement s.objective.totalScalars.toNat places
        t.objective.blockValues).SameStructure s.pattern ∧
      t.objective.blockValues.length = s.objective.entryCount := by
  have hplacement := hplaceable.placement_eq hsound (hessianAllowed_eq_ok_iff.1 hallowed).2
  obtain rfl := Except.ok.inj (hplacement.symm.trans hplaces)
  have hlength := hplaceable.length_blockValues hsound ht hallowed
  exact ⟨harrangement.sameStructure_assemble hlength.ge (by simp), by rw [hlength, length_places]⟩

variable [Storable α]

/-- An evaluation that writes a sparse Hessian writes a matrix of the structure of the pattern. -/
theorem sameStructure_evaluateSparse (hsound : s.objective.Sound)
    (hopen : s.objective.closed = false) (hplaceable : s.objective.Placeable)
    (harrangement : SparseMatrix.Permutes s.platform.arrangement) {x : GivenPoint α}
    {gradient : Handle} {position : Nat} {value : α}
    (hrun : (evaluateSparse x gradient (some position)).run s = (.ok value, t)) :
    ∃ block sum matrix, gradient = .array block ∧ matrix.SameStructure s.pattern ∧
      t.memory = (s.memory.store block sum).setTarget position
        ⟨some matrix, s.objective.entryCount⟩ := by
  have hrealizes := realizes_evaluateSparse hsound hopen x gradient position
  rw [hrun] at hrealizes
  obtain ⟨places, hexpected, hassembled⟩ := hrealizes.of_ok
  obtain ⟨r, hsettled, hplaces⟩ := bind_eq_ok_iff.1 hexpected
  obtain ⟨block, sum, u, rfl, hu, hmemory⟩ := hassembled.written
  obtain ⟨hsame, hcount⟩ := sameStructure_pattern hsound hplaceable harrangement hu
    (allowed_of_sparseWork (eq_ok_of_settled hsettled)) hplaces
  exact ⟨block, sum, _, rfl, hsame, by rw [hmemory, hcount]⟩

/-- A new sparse Hessian has the structure of the pattern. -/
theorem sameStructure_valueGradientSparse (hsound : s.objective.Sound)
    (hopen : s.objective.closed = false) (hplaceable : s.objective.Placeable)
    (harrangement : SparseMatrix.Permutes s.platform.arrangement) {x : GivenPoint α} {value : α}
    {gradient : List α} {matrix : SparseMatrix α}
    (hrun : (valueGradientSparse x).run s = (.ok (value, gradient, matrix), t)) :
    matrix.SameStructure s.pattern := by
  have hrealizes := realizes_valueGradientSparse hsound hopen x
  rw [hrun] at hrealizes
  obtain ⟨places, hexpected, ⟨u, hu, hmatrix⟩, -⟩ := hrealizes.of_ok
  obtain ⟨r, hsettled, hplaces⟩ := bind_eq_ok_iff.1 hexpected
  obtain ⟨⟨⟩, -, hwork⟩ := bind_eq_ok_iff.1 (eq_ok_of_settled hsettled)
  dsimp only at hmatrix
  rw [hmatrix]
  exact (sameStructure_pattern hsound hplaceable harrangement hu (allowed_of_freshWork hwork)
    hplaces).1

/-- An open objective without a transform on a bound variable has a pattern, a well-formed matrix
with an entry just where the slices of two arguments of a binding meet, and the number of such pairs
of arguments as its value. It is put into the target, if there is one, together with the number of
the entries of all Hessian blocks. An evaluation with a sparse Hessian returns if the workers come
to an end, and whatever the point, its matrix has the structure of the pattern: no entry is left out
because it is zero.

Transforms of other variables must not ask for negative dimensions, there has to be room for the
starts of the columns, and adding one to the number of pairs of arguments that cover a place comes
to the next number. -/
theorem Reached.pattern_structure (h : s.Reached) (hopen : s.objective.closed = false)
    (huntransformed : ∀ v ∈ s.objective.graph.boundVariables s.objective.registry,
      v.transform = none)
    (hplaceable : s.objective.Placeable)
    (harrangement : SparseMatrix.Permutes s.platform.arrangement) {number : Nat → α}
    (hone : number 1 = 1)
    (hnumber : ∀ i j k, 0 < k → k < s.objective.coverings i j →
      number k + 1 = number (k + 1)) :
    ∃ m : SparseMatrix α, m.IsPattern s.objective number ∧
      (∀ target, ∃ t, (sparsityPattern target).run s = (.ok m, t) ∧
        t.memory = target.elim s.memory fun position ↦
          s.memory.setTarget position ⟨some m, s.objective.entryCount⟩) ∧
      (∀ x gradient position,
        ((∃ r, s.objective.settled (s.objective.sparseWork x gradient) = .ok r) →
          ∃ value t, (evaluateSparse x gradient (some position)).run s = (.ok value, t)) ∧
        ∀ value t, (evaluateSparse x gradient (some position)).run s = (.ok value, t) →
          ∃ block sum matrix, gradient = .array block ∧ matrix.SameStructure m ∧
            t.memory = (s.memory.store block sum).setTarget position
              ⟨some matrix, s.objective.entryCount⟩) ∧
      ∀ x value gradient matrix t,
        (valueGradientSparse x).run s = (.ok (value, gradient, matrix), t) →
          matrix.SameStructure m := by
  have hsound := h.sound hopen
  have hnone : Registry.firstTransformed
      (s.objective.graph.boundVariables s.objective.registry) = none :=
    List.find?_eq_none.2 fun v hv ↦ by simp [huntransformed v hv]
  have hplain := hsound.plain (hsound.laid.natural hplaceable.sizes) hnone
  refine ⟨s.pattern,
    hplain.isPattern (hplaceable.totalScalars_nonneg hsound) harrangement hone hnumber,
    run_sparsityPattern hsound hopen hplaceable hnone, fun x gradient position ↦ ⟨?_, ?_⟩, ?_⟩
  · rintro ⟨r, hr⟩
    have hrealizes := realizes_evaluateSparse hsound hopen x gradient position
    rw [hr, hplaceable.placement_eq hsound hnone] at hrealizes
    obtain ⟨value, t, hrun, -⟩ := hrealizes.succeeds
    exact ⟨value, t, hrun⟩
  · intro value t hrun
    exact sameStructure_evaluateSparse hsound hopen hplaceable harrangement hrun
  · intro x value gradient matrix t hrun
    exact sameStructure_valueGradientSparse hsound hopen hplaceable harrangement hrun

end Scene

end Structure

namespace Small

open Objective

/-- No bound variable has a transform if the list of their transforms says so. -/
theorem untransformed_of_map {s : Scene Int} {n : Nat} (h : (s.objective.graph.boundVariables
    s.objective.registry).map Variable.transform = List.replicate n none) :
    ∀ v ∈ s.objective.graph.boundVariables s.objective.registry, v.transform = none := by
  intro v hv
  have hmem := List.mem_map_of_mem (f := Variable.transform) hv
  rw [h] at hmem
  exact List.eq_of_mem_replicate hmem

/-- In the small history without a transform on a bound variable, the first place of the pattern is
covered by five pairs of arguments, and the last one by none. The sparse Hessian has the structure
of the pattern, and has been made of the 29 entries of the blocks. -/
theorem pattern_of_scene : ∃ m t t' block sum matrix,
    (sparsityPattern none).run (scene none) = (.ok m, t) ∧
    m.WellFormed ∧ m.Stores 0 0 5 ∧ (∀ v, ¬ m.Stores 3 3 v) ∧
    (evaluateSparse (.ok (.vector [1, 2, 3, 4])) (.array gradient) (some 0)).run (scene none) =
      (.ok 11, t') ∧
    t'.memory = ((scene none).memory.store block sum).setTarget 0 ⟨some matrix, 29⟩ ∧
    matrix.SameStructure m := by
  have huntransformed := untransformed_of_map (s := scene none) (n := 4) rfl
  have hplaceable : (scene none).objective.Placeable :=
    ⟨of_transform (P := fun t ↦ 0 ≤ t.inputDimension) (by decide) (.inl rfl),
      Allocation.check_row (n := 5) (by decide)⟩
  obtain ⟨m, hm, hpattern, hsparse, -⟩ := (reached_scene none).pattern_structure rfl huntransformed
    hplaceable SparseMatrix.permutes_id (Nat.cast_one : ((1 : Nat) : Int) = 1) fun _ _ _ _ _ ↦ rfl
  obtain ⟨t, hrun, -⟩ := hpattern none
  obtain ⟨t', hrun'⟩ : ∃ t', (evaluateSparse (.ok (.vector [1, 2, 3, 4])) (.array gradient)
      (some 0)).run (scene none) = (.ok 11, t') := by
    set_option maxRecDepth 2000 in exact ⟨_, Prod.ext rfl rfl⟩
  obtain ⟨block, sum, matrix, -, hmatrix, ht'⟩ := (hsparse _ _ _).2 _ _ hrun'
  refine ⟨m, t, t', block, sum, matrix, hrun, hm.wellFormed, ?_, ?_, hrun', ht', hmatrix⟩
  · obtain ⟨v, hv⟩ := (hm.stored 0 0).2 (by decide)
    have hcount : (scene none).objective.coverings 0 0 = 5 := by decide
    rwa [hm.counted 0 0 v hv, hcount] at hv
  · intro v hv
    exact absurd ((hm.stored 3 3).1 ⟨v, hv⟩) (by decide)

/-- A transform that asks for more numbers than there is room for. -/
def vast : Transform Int := { tripled with inputDimension := 2000000000000000000 }

/-- A scene with a variable that no term is bound to. -/
def vastScene : Scene Int :=
  Scene.after { objective, memory, events := [], platform }
    [.register (.array single) .null (some vast), .register (.array pair) .null none,
      .addTerm squares [.array pair]]

/-- An open objective has no pattern, although no bound variable has a transform. -/
structure Patternless (s : Scene Int) : Prop where
  reached : s.Reached
  isOpen : s.objective.closed = false
  untransformed : ∀ v ∈ s.objective.graph.boundVariables s.objective.registry, v.transform = none
  fails : ∃ failure t, (sparsityPattern none).run s = (.error failure, t)

theorem Patternless.of_isOk {s : Scene Int} {n : Nat} (reached : s.Reached)
    (isOpen : s.objective.closed = false)
    (htransforms : (s.objective.graph.boundVariables s.objective.registry).map
      Variable.transform = List.replicate n none)
    (hrun : ((sparsityPattern none).run s).1.isOk = false) : Patternless s := by
  refine ⟨reached, isOpen, untransformed_of_map htransforms, ?_⟩
  generalize (sparsityPattern none).run s = ending at hrun
  obtain ⟨failure | m, t⟩ := ending
  · exact ⟨failure, t, rfl⟩
  · cases hrun

/-- A slice may begin before the flat vector, and the flat vector may be too long for its
columns. -/
theorem unplaced_pattern : Patternless shrunkScene ∧ Patternless vastScene :=
  ⟨.of_isOk (n := 1) reached_shrunkScene rfl rfl (by decide +kernel),
    .of_isOk (n := 1) (reached_after _) rfl rfl (by decide +kernel)⟩

end Small

end Summand
