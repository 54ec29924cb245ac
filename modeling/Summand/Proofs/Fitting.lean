import Summand.Proofs.FailedQueries
import Summand.Proofs.QuerySteps

/-!
# What is kept for reuse fits

Between evaluations an objective keeps the storage of its workers, the coordinates of its Hessian
and a pool of threads. Some operations drop them and others make them anew, so that they always fit
(`Objective.Fitting`): there are buffers for as many workers as there are, of the sizes of what has
been registered and added by now; there is a pool of just these threads if there is more than one
worker; and the coordinates are those of the graph as it is.

An evaluation makes what it needs and then lets the workers begin (`Scene.Begins`). By then there
is storage for every chunk, and whatever turns the workers take, the buffers that they take for a
binding are those of its arguments (`Crew.Fits`).

All of that is put together in `Scene.Reached.storage_fits`. There is one exception: if a transform
asks for a negative dimension, the slices of variables need not lie within the flat vector, and then
they are shorter than the variables (`Small.short_slice`).
-/

namespace Summand

variable {α : Type}

namespace Objective

open Summand.Action

/-! ### The two parts of an evaluation -/

section Parts

variable [Zero α]

/-- An evaluation without derivatives, up to where its workers begin. -/
def prepareValue (x : Option (GivenPoint α)) : Action α Unit := do
  let _ ← ensureStorage
  match x with
  | none => copyBlocksToScratch
  | some x => copyPointToScratch (← checkPoint x)
  modifyObjective countPlain

/-- An evaluation with derivatives, up to where its workers begin. -/
def prepareWorkers (x : List α) : Action α Unit := do
  let _ ← ensureStorage
  copyPointToScratch x
  modifyObjective countWithGradient
  modifyObjective zeroGradients

variable [Add α] [Storable α]

theorem evaluateValue_eq (x : Option (GivenPoint α)) :
    evaluateValue x = (do prepareValue x; runWorkers .value []) := by
  cases x <;> simp only [evaluateValue, prepareValue, bind_assoc]

theorem evaluateWorkers_eq (mode : Mode) (x : List α) :
    evaluateWorkers mode x = (do
      prepareWorkers x
      let value ← runWorkers mode x
      return (value, ((← objective).storage.getD []).map WorkerStorage.gradient)) := by
  simp only [evaluateWorkers, prepareWorkers, bind_assoc]

end Parts

/-! ### Threads -/

/-- The pool that the workers need: none if there is one worker. -/
def staff (o : Objective α) : Option Nat := if 1 < o.workerCount then some o.workerCount else none

/-- The pool is the one that the workers need, or neither it nor storage has been made so far. -/
def Staffed (o : Objective α) : Prop := o.pool = o.staff ∨ o.pool = none ∧ o.storage = none

theorem Staffed.invalidate {o : Objective α} (h : o.Staffed) : o.invalidate.Staffed :=
  h.imp id fun h ↦ ⟨h.1, rfl⟩

theorem Staffed.pool_eq {o : Objective α} (h : o.Staffed) (hstorage : o.storage.isSome) :
    o.pool = o.staff := by
  rcases h with h | ⟨-, h⟩
  · exact h
  · rw [h] at hstorage
    cases hstorage

/-- An operation leaves the pool as the workers need it. -/
abbrev KeepsStaff {β : Type} (a : Action α β) : Prop :=
  Keeps (fun s ↦ s.objective.pool = s.objective.staff) a

/-- An operation keeps an objective staffed. -/
abbrev KeepsStaffed {β : Type} (a : Action α β) : Prop := Keeps (fun s ↦ s.objective.Staffed) a

section Storage

variable [Zero α]

/-- Storage is there, cannot be made, or is made, together with a pool if one is needed and has not
been started. -/
theorem ensureStorage_cases (s : Scene α) :
    (∃ storage, s.objective.storage = some storage ∧ ensureStorage.run s = (.ok storage, s)) ∨
      (∃ failure, ensureStorage.run s = (.error failure, s)) ∨
      ∃ events, ensureStorage.run s = (.ok (newStorage s.objective),
        { s with
          objective := { s.objective with
            storage := some (newStorage s.objective)
            pool := if 1 < s.objective.workerCount && s.objective.pool.isNone then
              some s.objective.workerCount else s.objective.pool }
          events }) := by
  rw [ensureStorage, run_objective_bind]
  rcases hstorage : s.objective.storage with - | storage
  · dsimp only
    rw [run_bind, run_liftM]
    rcases checkStorage s.objective with failure | ⟨⟩
    · exact .inr (.inl ⟨failure, rfl⟩)
    · exact .inr (.inr ⟨_, rfl⟩)
  · exact .inl ⟨storage, rfl, rfl⟩

/-- Once there is storage, there is the pool that the workers need. -/
theorem staffed_ensureStorage {s t : Scene α} {storage : List (WorkerStorage α)}
    (h : s.objective.Staffed) (hrun : ensureStorage.run s = (.ok storage, t)) :
    t.objective.storage = some storage ∧ t.objective.pool = t.objective.staff := by
  obtain ⟨held, hheld, heq⟩ | ⟨failure, heq⟩ | ⟨events, heq⟩ := ensureStorage_cases s <;>
    rw [heq] at hrun <;> cases hrun
  · exact ⟨hheld, h.pool_eq (by rw [hheld]; rfl)⟩
  · refine ⟨rfl, ?_⟩
    show (if _ then _ else _) = staff s.objective
    rcases h with h | ⟨h, -⟩
    · rw [h, staff]
      split <;> simp_all
    · simp [h, staff]

/-- What begins with storage keeps an objective staffed if it goes on with the pool there is. -/
theorem keepsStaffed_of_storage {β : Type} {f : List (WorkerStorage α) → Action α β}
    (hf : ∀ storage, KeepsStaff (f storage)) : KeepsStaffed (ensureStorage >>= f) := by
  constructor
  intro s hs
  rw [run_bind]
  rcases hrun : (ensureStorage : Action α _).run s with ⟨failure | storage, t⟩
  · obtain ⟨held, -, heq⟩ | ⟨failure, heq⟩ | ⟨events, heq⟩ := ensureStorage_cases s <;>
      rw [heq] at hrun <;> cases hrun
    exact hs
  · exact .inl ((hf storage).of_run t (staffed_ensureStorage hs hrun).2)

end Storage

theorem keepsStaff_copyPointToScratch (x : List α) : KeepsStaff (copyPointToScratch x) := by
  rw [copyPointToScratch]
  refine .bind .objective fun o ↦ .bind ⟨fun s hs ↦ hs⟩ fun _ ↦ ?_
  split
  · exact .throw _
  · exact .pure _

section Evaluations

variable [Zero α]

theorem keepsStaffed_prepareValue (x : Option (GivenPoint α)) :
    KeepsStaffed (prepareValue x) := by
  rw [prepareValue]
  refine keepsStaffed_of_storage fun _ ↦ ?_
  have hcount : KeepsStaff (modifyObjective (countPlain : Objective α → _)) := ⟨fun s hs ↦ hs⟩
  rcases x with - | x
  · exact .bind ⟨fun s hs ↦ hs⟩ fun _ ↦ hcount
  · exact .bind (keeps_checkPoint x) fun point ↦
      .bind (keepsStaff_copyPointToScratch point) fun _ ↦ hcount

theorem keepsStaffed_prepareWorkers (x : List α) : KeepsStaffed (prepareWorkers x) := by
  rw [prepareWorkers]
  refine keepsStaffed_of_storage fun _ ↦ .bind (keepsStaff_copyPointToScratch x) fun _ ↦ ?_
  exact .bind ⟨fun s hs ↦ hs⟩ fun _ ↦ ⟨fun s hs ↦ hs⟩

variable [Add α] [Storable α]

theorem keepsStaffed_runWorkers (mode : Mode) (x : List α) : KeepsStaffed (runWorkers mode x) := by
  rw [runWorkers]
  refine keepsStaffed_of_storage fun storage ↦ .bind .objective fun o ↦
    .bind ⟨fun s hs ↦ hs⟩ fun p ↦ .bind ⟨fun s hs ↦ hs⟩ fun _ ↦ ?_
  split
  · exact .pure _
  · exact .bind ⟨fun s hs ↦ hs⟩ fun _ ↦ .throw _

/-- Evaluations keep an objective staffed, and nothing else that queries change is a matter of
that. -/
theorem lasting_staffed : Lasting fun s : Scene α ↦ s.objective.Staffed where
  memory _ _ hs := hs
  coordinates _ _ hs := hs
  statistics _ _ hs := hs
  logged _ _ _ _ hs := hs
  value x := by
    rw [evaluateValue_eq]
    exact .bind (keepsStaffed_prepareValue x) fun _ ↦ keepsStaffed_runWorkers .value []
  workers mode x := by
    rw [evaluateWorkers_eq]
    exact .bind (keepsStaffed_prepareWorkers x) fun _ ↦
      .bind (keepsStaffed_runWorkers mode x) fun _ ↦ .bind .objective fun _ ↦ .pure _

variable [OfNat α 1]

/-- All calls keep an objective staffed, whether they fail or not. -/
theorem keepsStaffed_perform (call : Call α) : KeepsStaffed call.perform := by
  cases call with
  | register handle dimension transform =>
    refine .bind (.checkOpen _) fun _ ↦ .bind ⟨fun s hs ↦ hs.invalidate⟩ fun _ ↦
      .bind .objective fun o ↦ .bind ⟨fun s hs ↦ ?_⟩ fun _ ↦ ⟨fun s hs ↦ hs⟩
    rw [run_ofTraced]
    exact hs
  | addTerm term handles =>
    refine .bind (.checkOpen _) fun _ ↦ .bind ⟨fun s hs ↦ hs.invalidate⟩ fun _ ↦
      .bind .objective fun o ↦ .bind (.liftM _) fun _ ↦ ⟨fun s hs ↦ hs⟩
  | setWorkerCount given =>
    refine .bind (.checkOpen _) fun _ ↦ .bind (.liftM _) fun workerCount ↦
      .bind .objective fun o ↦ ?_
    dsimp only
    split
    · exact .bind ⟨fun s hs ↦ hs⟩ fun _ ↦ ⟨fun s hs ↦ .inr ⟨rfl, rfl⟩⟩
    · exact .pure _
  | copyPointToBlocks x => exact keeps_copyPointToBlocks (fun _ _ h ↦ h) x
  | copyBlocksToPoint => exact .bind keeps_copyBlocksToPoint fun _ ↦ .pure _
  | query q => exact .bind (lasting_staffed.perform q) fun _ ↦ .pure _
  | timingReport => exact ⟨fun s hs ↦ hs⟩
  | resetStatistics => exact ⟨fun s hs ↦ hs⟩
  | close =>
    have hterms : KeepsStaffed (releaseTerms : Action α Unit) := by
      rw [releaseTerms]
      refine .bind .objective fun o ↦ .bind ⟨fun s hs ↦ hs⟩ fun _ ↦ .bind ⟨fun s hs ↦ hs⟩ fun _ ↦ ?_
      split
      · exact .throw _
      · exact .pure _
    have htransforms : KeepsStaffed (releaseTransforms : Action α Unit) := by
      rw [releaseTransforms]
      refine .bind .objective fun o ↦ .bind ⟨fun s hs ↦ hs⟩ fun _ ↦ .bind ⟨fun s hs ↦ hs⟩ fun _ ↦ ?_
      split
      · exact .throw _
      · exact .pure _
    refine .bind .objective fun o ↦ ?_
    split
    · exact .pure _
    refine .bind ⟨fun s hs ↦ .inr ⟨rfl, rfl⟩⟩ fun _ ↦ .bind .objective fun o ↦ ?_
    split
    · exact .bind hterms fun _ ↦ htransforms
    · exact htransforms

end Evaluations

end Objective

section Reached

variable [Zero α] [Add α] [OfNat α 1] [Storable α] {s : Scene α}

/-- Whatever has been done with an objective, it is staffed. -/
theorem Scene.Reached.staffed (h : s.Reached) : s.objective.Staffed := by
  induction h with
  | created h =>
    obtain ⟨workers, -, h⟩ := bind_eq_ok_iff.1 h
    cases h
    exact .inr ⟨rfl, rfl⟩
  | called _ call ih => exact (Objective.keepsStaffed_perform call).of_run _ ih
  | moved _ _ _ ih => exact ih

/-! ### What is kept -/

/-- What an objective keeps for reuse fits what has been registered and added. -/
structure Objective.Fitting (o : Objective α) : Prop where
  count : ∀ storage, o.storage = some storage → storage.length = o.workerCount
  gradient : ∀ storage, o.storage = some storage → ∀ w ∈ storage,
    (w.gradient.length : Int) = o.totalScalars
  scratch : ∀ storage, o.storage = some storage → ∀ w ∈ storage,
    Buffer.Shaped o.graph.maxArity o.registry.maxUserDimension w.scratch
  pool : o.storage.isSome → o.pool = o.staff
  coordinates : ∀ coordinates, o.coordinates = some coordinates →
    enumerateCoordinates o = .ok coordinates

omit [Zero α] [Add α] [OfNat α 1] [Storable α] in
/-- Storage is not made unless the length of the flat vector is that of a vector. -/
theorem Objective.totalScalars_nonneg_of_room {o : Objective α} (h : checkStorage o = .ok ()) :
    0 ≤ o.totalScalars := by
  obtain ⟨h, -⟩ := checkStorage_eq_ok_iff.1 h
  by_contra hneg
  have hany : [o.totalScalars].any (· < 0) = true := by simpa using hneg
  rw [Allocation.fault?, hany] at h
  split at h <;> simp at h

omit [Add α] [OfNat α 1] [Storable α] in
theorem Objective.Sound.fitting_of_pool {o : Objective α} (h : o.Sound)
    (hpool : o.storage.isSome → o.pool = o.staff) : o.Fitting where
  count storage hs := (h.storage storage hs).count
  gradient storage hs w hw := by
    have hstored := h.storage storage hs
    rw [hstored.gradient w hw, Int.toNat_of_nonneg (totalScalars_nonneg_of_room hstored.room)]
  scratch storage hs := (h.storage storage hs).scratch
  pool := hpool
  coordinates := h.coordinates

end Reached

/-! ### Workers at their bindings -/

section Workers

variable [Zero α] [Add α] [Storable α]

/-- What a worker of a crew takes for a binding of its own or of another's has the sizes of the
arguments: the gradient buffers that it hands to the term, and the slices of the gradient that it
accumulates, even if part of what is to be added has been added. -/
structure Crew.Fits (registry : Registry α) (crew : Crew α) : Prop where
  buffers : ∀ w ∈ crew.workers, ∀ b ∈ crew.bindings,
    (Binding.zeroedBuffers (Graph.argumentVariables registry b)
      (Binding.zeroedScratch b.arity w.scratch)).map List.length =
        (Graph.argumentVariables registry b).map Variable.userDimension
  slices : registry.Natural → ∀ w ∈ crew.workers, ∀ b ∈ crew.bindings,
    ∀ v ∈ Graph.argumentVariables registry b, ∀ x vars gradients,
      ((v.slice (Binding.scatter x vars gradients w.gradient).state).length : Int) =
        v.solverDimension

namespace Objective

/-- Whatever turns workers take, their buffers fit. -/
theorem fits_crew {s : Scene α} (h : s.objective.Sound) {storage : List (WorkerStorage α)}
    (hstorage : s.objective.storage = some storage) (mode : Mode) (x : List α) (turns : List Nat) :
    ((s.objective.crew storage).run mode s.objective.registry x turns).Fits
      s.objective.registry := by
  -- The objective would be sound if the workers ended now.
  have hsound := (evaluated_crew mode x h hstorage turns []).sound
  have hstored := hsound.storage _ rfl
  dsimp only at hsound hstored
  set crew := (s.objective.crew storage).run mode s.objective.registry x turns
  have hmem {w : Worker α} (hw : w ∈ crew.workers) :
      (⟨w.gradient, w.scratch⟩ : WorkerStorage α) ∈ crew.storageAfter storage :=
    List.mem_append_left _ (List.mem_map_of_mem hw)
  constructor
  · intro w hw b hb
    have hwithin := (hsound.bound b hb).within
      (g := { s.objective.graph with bindings := crew.bindings }) hb
    have hshaped := Binding.shaped_zeroedScratch (hstored.scratch _ (hmem hw)) b.arity
    rw [Binding.zeroedBuffers_eq hshaped hwithin.rows hwithin.columns, Binding.cleanBuffers,
      List.map_map]
    exact List.map_congr_left fun v _ ↦ Buffer.length_zeros v.userDimension
  · intro hnatural w hw b hb v hv x vars gradients
    have hlies := hsound.laid.liesIn hnatural (Graph.mem_of_mem_argumentVariables hv)
    have hlength := hlies.length_slice (x := (Binding.scatter x vars gradients w.gradient).state)
      (by rw [Binding.length_scatter]; exact hstored.gradient _ (hmem hw))
    rw [hlength, Int.toNat_of_nonneg hlies.dimension]

/-! ### Where workers begin -/

open Summand.Action

omit [Add α] [Storable α] in
theorem run_ensureStorage_eq_ok {s t : Scene α} {storage : List (WorkerStorage α)}
    (h : s.objective.Sound) (hrun : ensureStorage.run s = (.ok storage, t)) :
    Evaluated s t ∧ t.objective.storage = some storage := by
  have hrealizes := realizes_ensureStorage h
  rw [hrun] at hrealizes
  obtain ⟨-, -, ht, hstorage, -, -⟩ := hrealizes.of_ok
  exact ⟨ht, hstorage⟩

omit [Add α] [Storable α] in
theorem run_copyPointToScratch_eq_ok {s t : Scene α} {x : List α} {u : Unit}
    (h : s.objective.Sound) (hrun : (copyPointToScratch x).run s = (.ok u, t)) :
    Evaluated s t ∧ t.objective.storage = s.objective.storage := by
  have hrealizes := realizes_copyPointToScratch h x
  rw [hrun] at hrealizes
  obtain ⟨registry, -, ht, heq⟩ := hrealizes.of_ok
  exact ⟨ht, by rw [heq]⟩

omit [Add α] [Storable α] in
theorem run_copyBlocksToScratch_eq_ok {s t : Scene α} {u : Unit} (h : s.objective.Sound)
    (hrun : copyBlocksToScratch.run s = (.ok u, t)) :
    Evaluated s t ∧ t.objective.storage = s.objective.storage := by
  have hrealizes := realizes_copyBlocksToScratch h
  rw [hrun] at hrealizes
  obtain ⟨registry, -, ht, heq⟩ := hrealizes.of_ok
  exact ⟨ht, by rw [heq]⟩

end Objective

/-- An evaluation in one scene lets its workers begin in another one, with what they are asked for
and the point that they take. -/
inductive Scene.Begins (s : Scene α) : Mode → List α → Scene α → Prop
  | value {x : Option (GivenPoint α)} {t : Scene α}
      (h : (Objective.prepareValue x).run s = (.ok (), t)) : Begins s .value [] t
  | derivatives (mode : Mode) {x : List α} {t : Scene α}
      (h : (Objective.prepareWorkers x).run s = (.ok (), t)) : Begins s mode x t

omit [Add α] [Storable α] in
theorem Scene.Begins.staffed {s t : Scene α} {mode : Mode} {x : List α} (h : s.Begins mode x t)
    (hs : s.objective.Staffed) : t.objective.Staffed := by
  cases h with
  | @value x _ h =>
    have ht := (Objective.keepsStaffed_prepareValue x).of_run s hs
    rwa [h] at ht
  | derivatives mode h =>
    have ht := (Objective.keepsStaffed_prepareWorkers x).of_run s hs
    rwa [h] at ht

open Summand.Action Objective in
omit [Add α] [Storable α] in
/-- Workers begin in a sound objective that has storage. -/
theorem Scene.Begins.evaluated {s t : Scene α} {mode : Mode} {x : List α}
    (h : s.Begins mode x t) (hsound : s.objective.Sound) :
    Evaluated s t ∧ ∃ storage, t.objective.storage = some storage := by
  cases h with
  | @value x _ h =>
    obtain ⟨storage, u, hensure, h⟩ := run_bind_eq_ok.1 h
    obtain ⟨hsu, hstorage⟩ := run_ensureStorage_eq_ok hsound hensure
    -- Whichever values are taken, storage stays as it is, and the evaluation is counted.
    have hcount {v : Scene α} (huv : Evaluated u v)
        (hv : v.objective.storage = u.objective.storage)
        (h : (modifyObjective countPlain).run v = (.ok (), t)) :
        Evaluated s t ∧ ∃ storage, t.objective.storage = some storage := by
      have hsv := hsu.trans huv
      cases h
      exact ⟨⟨hsv.bare, hsv.workerCount,
        hsv.sound.of_bare rfl rfl hsv.sound.storage hsv.sound.coordinates, hsv.memory,
        hsv.platform⟩, storage, hv.trans hstorage⟩
    cases x with
    | none =>
      obtain ⟨⟨⟩, v, hcopy, h⟩ := run_bind_eq_ok.1 h
      obtain ⟨huv, hv⟩ := run_copyBlocksToScratch_eq_ok hsu.sound hcopy
      exact hcount huv hv h
    | some x =>
      obtain ⟨point, -, h⟩ := run_bind_eq_ok_of_run_eq (run_checkPoint x u) h
      obtain ⟨⟨⟩, v, hcopy, h⟩ := run_bind_eq_ok.1 h
      obtain ⟨huv, hv⟩ := run_copyPointToScratch_eq_ok hsu.sound hcopy
      exact hcount huv hv h
  | derivatives mode h =>
    obtain ⟨storage, u, hensure, h⟩ := run_bind_eq_ok.1 h
    obtain ⟨hsu, hstorage⟩ := run_ensureStorage_eq_ok hsound hensure
    obtain ⟨⟨⟩, v, hcopy, h⟩ := run_bind_eq_ok.1 h
    obtain ⟨huv, hstorage'⟩ := run_copyPointToScratch_eq_ok hsu.sound hcopy
    rw [hstorage] at hstorage'
    obtain ⟨hvt, cleared, hcleared, -⟩ := evaluated_zeroGradients mode huv.sound hstorage'
    cases h
    exact ⟨(hsu.trans huv).trans hvt, cleared, hcleared⟩

end Workers

/-! ### Assembly -/

namespace Objective

theorem length_blockCoordinates (v w : Variable α) :
    (blockCoordinates v w).length = (v.places w).length := by
  simp [blockCoordinates, Variable.places, List.length_flatMap]

/-- There are as many coordinates as places. -/
theorem length_coordinates {o : Objective α} {coordinates : List (Int × Int)}
    (h : enumerateCoordinates o = .ok coordinates) : coordinates.length = o.places.length := by
  rw [enumerateCoordinates] at h
  split at h
  · cases h
  cases h
  simp only [places, Binding.places, List.length_flatMap, length_blockCoordinates]

/-- The Hessian blocks of a sound objective have an entry for each coordinate. -/
theorem Sound.length_blockValues [Zero α] {o : Objective α} (h : o.Sound)
    (hhessian : o.settings.allowsHessian = true) {coordinates : List (Int × Int)}
    (hc : enumerateCoordinates o = .ok coordinates) :
    o.blockValues.length = coordinates.length := by
  rw [length_coordinates hc, places, blockValues]
  refine (length_flatMap_congr (List.forall₂_same.2 fun b hb ↦ ?_)).symm
  obtain ⟨blocks, hblocks, hconforms⟩ := (hhessian ▸ h.bound b hb).conforms
  rw [hblocks]
  exact Binding.length_places hconforms

end Objective

/-! ### All of it -/

section Fitting

open Summand.Action Objective

variable [Zero α] [Add α] [OfNat α 1] [Storable α] {s : Scene α}

/-- What an open objective keeps for reuse fits, whatever has been done with it. In an evaluation
there are buffers for as many workers as there are chunks when they begin, and whatever turns they
take, the buffers of each have the sizes of what they are used for; slices do if no transform asks
for a negative dimension. A sparse Hessian is assembled of as many values as there are coordinates,
whether the values are those of an evaluation or the ones of a pattern. -/
theorem Scene.Reached.storage_fits (h : s.Reached) (hopen : s.objective.closed = false) :
    s.objective.Fitting ∧
      (∀ mode x t, s.Begins mode x t → t.objective.Fitting ∧
        ∃ storage, t.objective.storage = some storage ∧
          t.objective.chunks.length ≤ storage.length ∧
          ∀ turns, ((t.objective.crew storage).run mode t.objective.registry x turns).Fits
            t.objective.registry) ∧
      (s.objective.settings.allowsHessian = true → ∀ x r t,
        (evaluateWorkers .hessian x).run s = (.ok r, t) → ∀ memory coordinates u,
          ensureCoordinates.run { t with memory } = (.ok coordinates, u) →
            t.objective.blockValues.length = coordinates.length) ∧
      ∀ coordinates t, ensureCoordinates.run s = (.ok coordinates, t) → ∀ coordinates' u,
        ensureCoordinates.run t = (.ok coordinates', u) →
          (List.replicate coordinates.length (1 : α)).length = coordinates'.length := by
  have hsound := h.sound hopen
  refine ⟨hsound.fitting_of_pool h.staffed.pool_eq, fun mode x t hbegins ↦ ?_,
    fun hhessian x r t hrun memory coordinates u hensure ↦ ?_,
    fun coordinates t hrun coordinates' u hrun' ↦ ?_⟩
  · obtain ⟨ht, storage, hstorage⟩ := hbegins.evaluated hsound
    have hstored := ht.sound.storage storage hstorage
    refine ⟨ht.sound.fitting_of_pool (hbegins.staffed h.staffed).pool_eq, storage, hstorage, ?_,
      fits_crew ht.sound hstorage mode x⟩
    rw [hstored.count]
    exact length_partition_le _ ht.sound.workers
  · have hrealizes := realizes_evaluateWorkers hsound (show Mode.hessian ≠ .value by simp) x
    rw [hrun] at hrealizes
    obtain ⟨sums, -, hcollected⟩ := hrealizes.of_ok
    have ht := hcollected.evaluated
    rw [run_ensureCoordinates (s := { t with memory }) ht.sound] at hensure
    rcases hc : enumerateCoordinates t.objective with failure | enumerated <;>
      rw [hc] at hensure <;> cases hensure
    exact ht.sound.length_blockValues ((allowsHessian_eq_of_bare ht.bare).symm.trans hhessian) hc
  · rw [List.length_replicate]
    rw [run_ensureCoordinates hsound] at hrun
    rcases hc : enumerateCoordinates s.objective with failure | enumerated <;>
      rw [hc] at hrun <;> cases hrun
    cases hrun'
    rfl

end Fitting

namespace Small

open Objective

/-- The scene in which the workers begin an evaluation with derivatives at a point. -/
def beginning (s : Scene Int) (x : List Int) : Scene Int := ((prepareWorkers x).run s).2

theorem begins_beginning {s : Scene Int} {x : List Int}
    (h : ((prepareWorkers x).run s).1.isOk = true) (mode : Mode) :
    s.Begins mode x (beginning s x) := by
  refine .derivatives mode ?_
  rw [beginning]
  rcases hrun : (prepareWorkers x).run s with ⟨failure | ⟨⟩, t⟩
  · rw [hrun] at h
    cases h
  · rfl

/-- The two workers of the small history have a chunk each, and buffers that fit. -/
theorem fitting_of_scene :
    (scene (some tripled)).Reached ∧ (scene (some tripled)).objective.closed = false ∧
      (beginning (scene (some tripled)) [1, 2, 3, 4]).objective.chunks.length = 2 ∧
      ∃ storage, (beginning (scene (some tripled)) [1, 2, 3, 4]).objective.storage = some storage ∧
        2 ≤ storage.length := by
  obtain ⟨-, hevaluations, -⟩ := (reached_scene (some tripled)).storage_fits rfl
  obtain ⟨-, storage, hstorage, hle, -⟩ := hevaluations .gradient [1, 2, 3, 4] _
    (begins_beginning (by decide +kernel) .gradient)
  have hchunks : (beginning (scene (some tripled)) [1, 2, 3, 4]).objective.chunks.length = 2 := by
    decide +kernel
  exact ⟨reached_scene _, rfl, hchunks, storage, hstorage, hchunks ▸ hle⟩

/-- The sum of the squares of five numbers. -/
def fiveSquares : Term Int :=
  .total 4 "FiveSquares" [5] (fun arguments ↦ (arguments.flatten.map fun t ↦ t * t).sum)
    (fun arguments ↦ arguments.map fun argument ↦ argument.map fun t ↦ 2 * t)
    (fun _ ↦ []) fun _ ↦ Term.noEnclosure "FiveSquares"

/-- A term of the last one of three variables, whose slice begins with the last entry of the flat
vector, since the first variable has a negative dimension. -/
def wideScene : Scene Int :=
  Scene.after { objective, memory, events := [], platform }
    [.register (.array pair) .null (some shrunk), .register (.array single) .null none,
      .register (.array five) .null none, .addTerm fiveSquares [.array five]]

/-- A slice of five entries has room for one, and so an evaluation fails that adds five to it. -/
theorem short_slice :
    ¬(∀ s : Scene Int, s.Reached → s.objective.closed = false → ∀ mode x t, s.Begins mode x t →
        ∀ storage, t.objective.storage = some storage →
          ∀ w ∈ (t.objective.crew storage).workers, ∀ b ∈ t.objective.graph.bindings,
            ∀ v ∈ Graph.argumentVariables t.objective.registry b,
              ((v.slice w.gradient).length : Int) = v.solverDimension) ∧
      ((evaluate (.ok (.vector [1, 2, 3, 4])) (some (.array gradient)) none).run wideScene).1.isOk =
        false := by
  refine ⟨fun h ↦ ?_, by decide +kernel⟩
  have hstorage : (beginning wideScene [1, 2, 3, 4]).objective.storage.isSome := by decide +kernel
  have hall := h wideScene (reached_after _) rfl .gradient [1, 2, 3, 4]
    _ (begins_beginning (by decide +kernel) .gradient) _
    (Option.some_get hstorage).symm
  revert hall
  decide +kernel +revert

end Small

end Summand
