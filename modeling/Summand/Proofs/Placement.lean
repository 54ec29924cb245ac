import Summand.Proofs.Assembly
import Summand.Proofs.Query

/-!
# Placing the entries of the Hessian

Whether a sparse matrix can be assembled is a matter of the objective alone, not of the values that
are put into it: the coordinates have to lie within the matrix, and there has to be room for the
starts of its columns (`Objective.placement`). Evaluations leave it as it is. Assembling values
realizes it (`Objective.realizes_assembleSparse`).

It succeeds if all bound variables are plain and there is room (`Objective.Plain.placement_eq`).
-/

namespace Summand

variable {α : Type}

namespace Objective

open Summand.Action

/-! ### The check of Hessians -/

/-- Hessians can be evaluated if they are enabled and no bound variable has a transform. -/
def hessianAllowed (o : Objective α) : Except Failure Unit := do
  if !o.settings.allowsHessian then throw .hessianDisabled
  if let some v := Registry.firstTransformed (o.graph.boundVariables o.registry) then
    throw (.unsupportedTransform "Hessian" v.index)

theorem run_checkHessianAllowed (s : Scene α) :
    checkHessianAllowed.run s = (s.objective.hessianAllowed, s) := by
  rw [checkHessianAllowed, run_objective_bind, hessianAllowed]
  dsimp only
  split
  · rfl
  · rcases Registry.firstTransformed
      (s.objective.graph.boundVariables s.objective.registry) with - | v <;> rfl

theorem hessianAllowed_eq_ok_iff {o : Objective α} : o.hessianAllowed = .ok () ↔
    o.settings.allowsHessian = true ∧
      Registry.firstTransformed (o.graph.boundVariables o.registry) = none := by
  rw [hessianAllowed]
  rcases o.settings.allowsHessian with - | -
  · exact ⟨fun h ↦ (nomatch h), fun h ↦ (nomatch h.1)⟩
  · rcases Registry.firstTransformed (o.graph.boundVariables o.registry) with - | v
    · exact ⟨fun _ ↦ ⟨rfl, rfl⟩, fun _ ↦ rfl⟩
    · exact ⟨fun h ↦ (nomatch h), fun h ↦ (nomatch h.2)⟩

/-- Patterns can be told if no bound variable has a transform. -/
def patternAllowed (o : Objective α) : Except Failure Unit :=
  match Registry.firstTransformed (o.graph.boundVariables o.registry) with
  | some v => .error (.unsupportedTransform "Hessian sparsity pattern" v.index)
  | none => .ok ()

theorem patternAllowed_eq_ok_iff {o : Objective α} : o.patternAllowed = .ok () ↔
    Registry.firstTransformed (o.graph.boundVariables o.registry) = none := by
  rw [patternAllowed]
  split <;> simp_all

/-! ### Placement -/

/-- The places of the entries of all Hessian blocks, if a sparse matrix can be made of them. -/
def placement (o : Objective α) : Except Failure (List (Nat × Nat)) := do
  let coordinates ← enumerateCoordinates o
  if Allocation.wordLimit < o.totalScalars then .error Allocation.noWord
  else if o.totalScalars < 0 then .error negativeSize
  else do
    let places ← SparseMatrix.placed o.totalScalars.toNat coordinates
    Allocation.check .integer [o.totalScalars + 1]
    return places

variable {o o' : Objective α}

/-- Placing fails for causes of its own, of which a failed term is none. -/
theorem ne_termFailed_of_placement {failure : Failure} (h : o.placement = .error failure)
    (index : Int) (name : String) (cause : Failure) : failure ≠ .termFailed index name cause := by
  rintro rfl
  have hindices {axis size : Nat} {indices : List Int} :
      SparseMatrix.checkIndices axis size indices ≠ .error (.termFailed index name cause) := by
    intro h
    unfold SparseMatrix.checkIndices at h
    split at h
    · split at h
      · cases h
      split at h <;> cases h
    · cases h
  have hcheck {kind : Allocation.Kind} {shape : List Int} :
      Allocation.check kind shape ≠ .error (.termFailed index name cause) := by
    intro h
    unfold Allocation.check at h
    split at h
    · cases h
    · rename_i fault _
      cases fault <;> cases h
  obtain h | ⟨coordinates, -, h⟩ := bind_eq_error_iff.1 h
  · rw [enumerateCoordinates] at h
    split at h <;> cases h
  split at h
  · cases h
  split at h
  · cases h
  obtain h | ⟨places, -, h⟩ := bind_eq_error_iff.1 h
  · obtain h | ⟨-, -, h⟩ := bind_eq_error_iff.1 h
    · exact hindices h
    obtain h | ⟨-, -, h⟩ := bind_eq_error_iff.1 h
    · exact hindices h
    · cases h
  · obtain h | ⟨-, -, h⟩ := bind_eq_error_iff.1 h
    · exact hcheck h
    · cases h

/-- Every coordinate has its place. -/
theorem length_of_placement {coordinates : List (Int × Int)} {places : List (Nat × Nat)}
    (hcoordinates : enumerateCoordinates o = .ok coordinates) (h : o.placement = .ok places) :
    places.length = coordinates.length := by
  obtain ⟨c, hc, h⟩ := bind_eq_ok_iff.1 h
  obtain rfl := Except.ok.inj (hcoordinates.symm.trans hc)
  split at h
  · cases h
  split at h
  · cases h
  obtain ⟨placed, hplaced, h⟩ := bind_eq_ok_iff.1 h
  obtain ⟨-, -, h⟩ := bind_eq_ok_iff.1 h
  cases h
  obtain ⟨-, -, hplaced⟩ := bind_eq_ok_iff.1 hplaced
  obtain ⟨-, -, hplaced⟩ := bind_eq_ok_iff.1 hplaced
  cases hplaced
  exact List.length_map _

/-- Plain variables can be placed if there is room for the starts of the columns. -/
theorem Plain.placement_eq (h : o.Plain) (hnonneg : 0 ≤ o.totalScalars)
    (hroom : Allocation.check .integer [o.totalScalars + 1] = .ok ()) :
    o.placement = .ok o.places := by
  have hplaced := SparseMatrix.placed_eq_ok o.totalScalars.toNat fun p hp ↦ h.lt_of_mem_places hp
  have hbytes := (Allocation.le_of_check_row hroom).2
  rw [Allocation.byteLimit_eq] at hbytes
  have hword : ¬ (Allocation.wordLimit : Int) < o.totalScalars := by
    rw [Allocation.wordLimit_eq]
    omega
  rw [placement, h.enumerateCoordinates_eq (by omega)]
  dsimp only [bind, Except.bind]
  rw [if_neg hword, if_neg (Int.not_lt.2 hnonneg), hplaced, hroom]
  rfl

section Bare

variable [Zero α]

/-- Buffers do not matter for where the entries are placed. -/
theorem placement_eq_of_bare (h : o.bare = o'.bare) : o.placement = o'.placement := by
  rw [placement, placement, enumerateCoordinates_eq_of_bare h, totalScalars_eq_of_bare h]

/-- After an evaluation with derivatives there is a Hessian to assemble, if Hessians are allowed. -/
theorem assemblable_of_evaluated {s t : Scene α} (h : Evaluated s t) (hsound : s.objective.Sound)
    (hsizes : ∀ v ∈ s.objective.registry.entries, ∀ t, v.transform = some t → 0 ≤ t.inputDimension)
    (hallowed : s.objective.settings.allowsHessian = true)
    (huntransformed : Registry.firstTransformed
      (s.objective.graph.boundVariables s.objective.registry) = none) :
    t.objective.Assemblable :=
  h.sound.assemblable ((hsound.laid.natural hsizes).of_bare (entries_eq_of_bare h.bare))
    (allowsHessian_eq_of_bare h.bare ▸ hallowed)
    (firstTransformed_eq_none_of_bare h.bare huntransformed)

/-- Enumerating the coordinates changes nothing but that they are kept. -/
theorem realizes_ensureCoordinates {s : Scene α} (h : s.objective.Sound) :
    Realizes (Evaluated s) (fun c c' t ↦ c = c' ∧ Evaluated s t)
      (enumerateCoordinates s.objective) (ensureCoordinates.run s) := by
  rw [run_ensureCoordinates h]
  rcases hc : enumerateCoordinates s.objective with failure | coordinates
  · exact .error (.refl h)
  · exact .ok ⟨rfl, rfl, rfl, sound_coordinates h hc, rfl, rfl⟩

/-- Assembling values realizes the placement. -/
theorem realizes_assembleSparse [Add α] {s : Scene α} (h : s.objective.Sound) (values : List α) :
    Realizes (Evaluated s)
      (fun places matrix t ↦ Evaluated s t ∧ matrix =
        .assemble s.platform.arrangement s.objective.totalScalars.toNat places values)
      s.objective.placement ((assembleSparse values).run s) := by
  rw [assembleSparse, placement]
  refine (realizes_ensureCoordinates h).bind ?_
  rintro coordinates _ t ⟨rfl, ht⟩
  rw [run_objective_bind, ← totalScalars_eq_of_bare ht.bare]
  dsimp only
  split
  · exact .error ht
  split
  · exact .error ht
  refine
    (Realizes.liftM (SparseMatrix.placed s.objective.totalScalars.toNat coordinates) ht).bind ?_
  rintro places _ _ ⟨rfl, rfl⟩
  refine (Realizes.liftM (Allocation.check .integer [s.objective.totalScalars + 1]) ht).bind ?_
  rintro _ _ _ ⟨-, rfl⟩
  rw [run_platform_bind, ht.platform]
  exact .ok ⟨ht, rfl⟩

theorem realizes_assembleTarget [Add α] {s : Scene α} (h : s.objective.Sound) (values : List α) :
    Realizes (Evaluated s)
      (fun places target t ↦ Evaluated s t ∧ target = ⟨some (.assemble s.platform.arrangement
        s.objective.totalScalars.toNat places values), values.length⟩)
      s.objective.placement ((assembleTarget values).run s) := by
  rw [assembleTarget, ← bind_pure s.objective.placement]
  refine (realizes_assembleSparse h values).bind ?_
  rintro places _ t ⟨ht, rfl⟩
  exact .ok ⟨ht, rfl⟩

end Bare

end Objective

end Summand
