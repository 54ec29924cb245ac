import Summand.Objective.Building
import Summand.Objective.Evaluation
import Summand.Proofs.Allocation
import Summand.Proofs.Graph

/-!
# Sound objectives

What an objective keeps for reuse is dropped whenever it could go stale. In a sound objective
(`Objective.Sound`) the variables lie side by side and the arguments of all terms are bound; the
storage, if there is any, has the sizes that new storage would have; and the coordinates, if they
have been enumerated, are the ones that an enumeration would give. An open objective is sound
whatever has been done with it (`Objective.Kept`).

An objective is `bare` once it has forgotten all that evaluations leave behind. Sizes, coordinates
and checks are read off the bare objective.
-/

namespace Summand

variable {α : Type}

namespace Objective

theorem checkStorage_eq_ok_iff {o : Objective α} :
    checkStorage o = .ok () ↔ Allocation.fault? .real [o.totalScalars] = none ∧
      Allocation.fault? .real [(o.graph.maxArity : Int), (o.registry.maxUserDimension : Int)] =
        none := by
  rw [checkStorage, bind_eq_ok_iff]
  constructor
  · rintro ⟨⟨⟩, h₁, h₂⟩
    exact ⟨Allocation.checkOr_eq_ok_iff.1 h₁, Allocation.checkOr_eq_ok_iff.1 h₂⟩
  · rintro ⟨h₁, h₂⟩
    exact ⟨(), Allocation.checkOr_eq_ok_iff.2 h₁, Allocation.checkOr_eq_ok_iff.2 h₂⟩

/-! ### Bare objectives -/

section Bare

variable [Zero α]

/-- An objective that has forgotten its storage, its coordinates, its statistics, the number of its
workers, and whatever evaluations have put into the scratch of variables and into Hessian blocks. -/
def bare (o : Objective α) : Objective α where
  settings := { hessianEnabled := .bool o.settings.allowsHessian }
  workerCount := 1
  registry := { o.registry with entries := o.registry.entries.map Variable.bare }
  graph := { bindings := o.graph.bindings.map Binding.bare }
  closed := o.closed

variable {o o' : Objective α}

theorem allowsHessian_eq_of_bare (h : o.bare = o'.bare) :
    o.settings.allowsHessian = o'.settings.allowsHessian :=
  (congrArg (fun o : Objective α ↦ o.settings.allowsHessian) h :)

theorem totalScalars_eq_of_bare (h : o.bare = o'.bare) : o.totalScalars = o'.totalScalars :=
  (congrArg (fun o : Objective α ↦ o.totalScalars) h :)

theorem closed_eq_of_bare (h : o.bare = o'.bare) : o.closed = o'.closed :=
  (congrArg (fun o : Objective α ↦ o.closed) h :)

theorem entries_eq_of_bare (h : o.bare = o'.bare) :
    o.registry.entries.map Variable.bare = o'.registry.entries.map Variable.bare :=
  (congrArg (fun o : Objective α ↦ o.registry.entries) h :)

theorem bindings_eq_of_bare (h : o.bare = o'.bare) :
    o.graph.bindings.map Binding.bare = o'.graph.bindings.map Binding.bare :=
  (congrArg (fun o : Objective α ↦ o.graph.bindings) h :)

theorem bare_eq_of (hsettings : o.settings.allowsHessian = o'.settings.allowsHessian)
    (htotal : o.totalScalars = o'.totalScalars)
    (hentries : o.registry.entries.map Variable.bare = o'.registry.entries.map Variable.bare)
    (hbindings : o.graph.bindings.map Binding.bare = o'.graph.bindings.map Binding.bare)
    (hclosed : o.closed = o'.closed) : o.bare = o'.bare := by
  have htotal : o.registry.totalScalars = o'.registry.totalScalars := htotal
  simp only [bare, hsettings, htotal, hentries, hbindings, hclosed]

theorem size_eq_of_bare (h : o.bare = o'.bare) : o.graph.size = o'.graph.size := by
  simpa [Graph.size] using congrArg List.length (bindings_eq_of_bare h)

theorem maxArity_eq_of_bare (h : o.bare = o'.bare) : o.graph.maxArity = o'.graph.maxArity := by
  have key (g : Graph α) : g.maxArity = Graph.maxArity ⟨g.bindings.map Binding.bare, []⟩ := by
    obtain ⟨- | ⟨b, rest⟩, terms⟩ := g
    · rfl
    · simp only [Graph.maxArity, List.map_cons, List.foldl_map]
      rfl
  rw [key o.graph, key o'.graph, bindings_eq_of_bare h]

theorem maxUserDimension_eq_of_bare (h : o.bare = o'.bare) :
    o.registry.maxUserDimension = o'.registry.maxUserDimension := by
  have key (r : Registry α) :
      r.maxUserDimension = Registry.maxUserDimension ⟨r.entries.map Variable.bare, 0⟩ := by
    obtain ⟨- | ⟨v, rest⟩, total⟩ := r
    · rfl
    · simp only [Registry.maxUserDimension, List.map_cons, List.foldl_map]
      rfl
  rw [key o.registry, key o'.registry, entries_eq_of_bare h]

/-- Arguments refer to variables by their place. -/
theorem map_bare_argumentVariables (r : Registry α) (b : Binding α) :
    (Graph.argumentVariables r b).map Variable.bare =
      Graph.argumentVariables { r with entries := r.entries.map Variable.bare } b.bare := by
  simp only [Graph.argumentVariables, List.map_filterMap, List.getElem?_map]
  rfl

/-- An argument is the argument of a registry that differs in scratch values, but for its own. -/
theorem exists_argument_of_bare {r s : Registry α}
    (hentries : r.entries.map Variable.bare = s.entries.map Variable.bare) {b : Binding α}
    {v : Variable α} (hv : v ∈ Graph.argumentVariables s b) :
    ∃ w ∈ Graph.argumentVariables r b, w.bare = v.bare := by
  have hvars : (Graph.argumentVariables r b).map Variable.bare =
      (Graph.argumentVariables s b).map Variable.bare := by
    rw [map_bare_argumentVariables, map_bare_argumentVariables, hentries]
    rfl
  exact List.mem_map.1 (hvars ▸ List.mem_map_of_mem hv)

theorem map_bare_boundVariables (o : Objective α) :
    (o.graph.boundVariables o.registry).map Variable.bare =
      o.bare.graph.boundVariables o.bare.registry := by
  simp only [Graph.boundVariables, bare, List.map_flatMap, List.flatMap_map,
    map_bare_argumentVariables]

/-- The first transformed variable is at the same place. -/
theorem firstTransformed_index (o : Objective α) :
    (Registry.firstTransformed (o.graph.boundVariables o.registry)).map Variable.index =
      (Registry.firstTransformed (o.bare.graph.boundVariables o.bare.registry)).map
        Variable.index := by
  rw [← map_bare_boundVariables, Registry.firstTransformed, Registry.firstTransformed,
    List.find?_map, Option.map_map]
  rfl

theorem firstTransformed_eq_none_of_bare (h : o.bare = o'.bare)
    (hnone : Registry.firstTransformed (o.graph.boundVariables o.registry) = none) :
    Registry.firstTransformed (o'.graph.boundVariables o'.registry) = none := by
  have hindex := firstTransformed_index o
  rwa [h, ← firstTransformed_index o', hnone, Option.map_none, eq_comm, Option.map_eq_none_iff]
    at hindex

/-- Coordinates are enumerated from the places of the variables alone. -/
theorem enumerateCoordinates_bare (o : Objective α) :
    enumerateCoordinates o.bare = enumerateCoordinates o := by
  have hany : (o.bare.graph.boundVariables o.bare.registry).any
      (fun v ↦ !Number.fitsWord v.offset) =
        (o.graph.boundVariables o.registry).any fun v ↦ !Number.fitsWord v.offset := by
    rw [← map_bare_boundVariables, List.any_map]
    rfl
  have hall : o.bare.graph.bindings.flatMap (fun b ↦
        (Graph.argumentVariables o.bare.registry b).flatMap fun v ↦
          (Graph.argumentVariables o.bare.registry b).flatMap fun w ↦ blockCoordinates v w) =
      o.graph.bindings.flatMap fun b ↦ (Graph.argumentVariables o.registry b).flatMap fun v ↦
        (Graph.argumentVariables o.registry b).flatMap fun w ↦ blockCoordinates v w := by
    simp only [bare, List.flatMap_map, ← map_bare_argumentVariables]
    rfl
  simp only [enumerateCoordinates, hany, hall]

theorem enumerateCoordinates_eq_of_bare (h : o.bare = o'.bare) :
    enumerateCoordinates o = enumerateCoordinates o' := by
  rw [← enumerateCoordinates_bare o, h, enumerateCoordinates_bare]

/-- Storage is checked by its sizes. -/
theorem checkStorage_eq_of_bare (h : o.bare = o'.bare) (hworkers : o.workerCount = o'.workerCount) :
    checkStorage o = checkStorage o' := by
  simp only [checkStorage, totalScalars_eq_of_bare h, maxArity_eq_of_bare h,
    maxUserDimension_eq_of_bare h, hworkers]

/-- The number of workers counts for the message only. -/
theorem checkStorage_eq_ok_of_bare (h : o.bare = o'.bare) (hok : checkStorage o = .ok ()) :
    checkStorage o' = .ok () := by
  rw [checkStorage_eq_ok_iff] at hok ⊢
  rwa [← totalScalars_eq_of_bare h, ← maxArity_eq_of_bare h, ← maxUserDimension_eq_of_bare h]

end Bare

/-! ### Soundness -/

variable [Zero α] {o o' : Objective α}

/-- Storage has the sizes that new storage would have. -/
structure Stored (o : Objective α) (storage : List (WorkerStorage α)) : Prop where
  count : storage.length = o.workerCount
  room : checkStorage o = .ok ()
  gradient : ∀ w ∈ storage, w.gradient.length = o.totalScalars.toNat
  scratch : ∀ w ∈ storage,
    Buffer.Shaped o.graph.maxArity o.registry.maxUserDimension w.scratch

theorem stored_newStorage (h : checkStorage o = .ok ()) : o.Stored (newStorage o) := by
  refine ⟨List.length_replicate, h, ?_, ?_⟩
  · intro w hw
    rw [List.eq_of_mem_replicate hw, Buffer.length_zeros]
  · intro w hw
    rw [List.eq_of_mem_replicate hw]
    exact Buffer.shaped_zeroMatrix _ _

/-- Storage is no matter of what the buffers of variables and bindings hold. -/
theorem Stored.of_bare {storage : List (WorkerStorage α)} (h : o.Stored storage)
    (hbare : o.bare = o'.bare) (hworkers : o.workerCount = o'.workerCount) :
    o'.Stored storage where
  count := h.count.trans hworkers
  room := checkStorage_eq_ok_of_bare hbare h.room
  gradient := totalScalars_eq_of_bare hbare ▸ h.gradient
  scratch := maxArity_eq_of_bare hbare ▸ maxUserDimension_eq_of_bare hbare ▸ h.scratch

/-- Nothing that the objective keeps for reuse is stale. -/
structure Sound (o : Objective α) : Prop where
  workers : 1 ≤ o.workerCount
  laid : o.registry.Laid
  bound : ∀ b ∈ o.graph.bindings, b.Bound o.registry o.settings.allowsHessian
  storage : ∀ storage, o.storage = some storage → o.Stored storage
  coordinates : ∀ coordinates, o.coordinates = some coordinates →
    enumerateCoordinates o = .ok coordinates

/-- An objective is sound as long as it is open. -/
def Kept (o : Objective α) : Prop := o.closed = true ∨ o.Sound

theorem Kept.sound (h : o.Kept) (hopen : o.closed = false) : o.Sound := by
  rcases h with h | h
  · rw [hopen] at h
    cases h
  · exact h

theorem extends_of_bare {r s : Registry α}
    (h : r.entries.map Variable.bare = s.entries.map Variable.bare) : r.Extends s := by
  intro i v hv
  have hi := congrArg (fun l : List (Variable α) ↦ l[i]?) h
  simp only [List.getElem?_map, hv, Option.map_some] at hi
  obtain ⟨w, hw, hbare⟩ := Option.map_eq_some_iff.1 hi.symm
  exact ⟨w, hw, (congrArg Variable.userDimension hbare :)⟩

/-- What evaluations leave behind in buffers, and storage of the right sizes, cannot spoil a sound
objective. -/
theorem Sound.of_bare (h : o.Sound) (hbare : o.bare = o'.bare)
    (hworkers : o.workerCount = o'.workerCount)
    (hstorage : ∀ storage, o'.storage = some storage → o.Stored storage)
    (hcoordinates : ∀ coordinates, o'.coordinates = some coordinates →
      enumerateCoordinates o = .ok coordinates) : o'.Sound where
  workers := hworkers ▸ h.workers
  laid := h.laid.of_bare (entries_eq_of_bare hbare) (totalScalars_eq_of_bare hbare)
  bound b hb := by
    have hb : b.bare ∈ o.graph.bindings.map Binding.bare :=
      bindings_eq_of_bare hbare ▸ List.mem_map_of_mem hb
    -- The binding need not be one of `o`, but one of `o` forgets to the same bare binding.
    obtain ⟨c, hc, heq⟩ := List.mem_map.1 hb
    rw [← Binding.bound_bare_iff, ← heq, Binding.bound_bare_iff,
      ← allowsHessian_eq_of_bare hbare]
    exact (h.bound c hc).extend (extends_of_bare (entries_eq_of_bare hbare))
  storage storage hs := (hstorage storage hs).of_bare hbare hworkers
  coordinates coordinates hc := by
    rw [← enumerateCoordinates_eq_of_bare hbare]
    exact hcoordinates coordinates hc

theorem Sound.invalidate (h : o.Sound) : o.invalidate.Sound :=
  h.of_bare rfl rfl (fun _ hs ↦ nomatch hs) (fun _ hc ↦ nomatch hc)

theorem one_le_of_validateWorkerCount {given : Json} {workerCount : Nat}
    (h : validateWorkerCount given = .ok workerCount) : 1 ≤ workerCount := by
  unfold validateWorkerCount at h
  split at h
  · split at h
    · cases h
    · cases h
      omega
  · cases h

theorem sound_create {processors : Nat} {settings : Settings}
    (h : create processors settings = .ok o) : o.Sound := by
  obtain ⟨workers, hworkers, h⟩ := bind_eq_ok_iff.1 h
  cases h
  -- Only the number of workers is a matter of the settings; there is nothing else yet.
  refine ⟨?_, Registry.Laid.empty, by simp, fun _ h ↦ (nomatch h), fun _ h ↦ nomatch h⟩
  unfold Settings.resolvedWorkerCount at hworkers
  split at hworkers
  · cases hworkers
    exact Nat.le_max_left _ _
  · exact one_le_of_validateWorkerCount hworkers

end Objective

end Summand
