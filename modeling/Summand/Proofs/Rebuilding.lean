import Summand.Proofs.History

/-!
# Building an objective anew

An objective has grown in some history. The same blocks, registered in the order of their first
registration with the transforms that they have now, and the same bindings, added in their order,
make a fresh objective (`Objective.building`). All of these calls succeed, and the fresh objective
is the former one without what evaluations leave behind (`Objective.run_building`).
-/

namespace Summand

open Summand.Action

variable {α : Type} [Zero α] [Add α] [OfNat α 1] [Storable α]

/-- Carries calls out, up to the first one that fails. -/
def Call.performAll : List (Call α) → Action α Unit
  | [] => pure ()
  | call :: calls => do
    call.perform
    performAll calls

theorem Call.run_performAll_append {calls calls' : List (Call α)} {s t : Scene α}
    (h : (performAll calls).run s = (.ok (), t)) :
    (performAll (calls ++ calls')).run s = (performAll calls').run t := by
  induction calls generalizing s with
  | nil =>
    cases h
    rfl
  | cons call calls ih =>
    rw [performAll, run_bind] at h
    rw [List.cons_append, performAll, run_bind]
    rcases hrun : call.perform.run s with ⟨failure | ⟨⟩, u⟩ <;> rw [hrun] at h
    · cases h
    · exact ih h

/-- What calls lead to is reached. -/
theorem Scene.Reached.performAll {s : Scene α} (h : s.Reached) (calls : List (Call α)) :
    ((Call.performAll calls).run s).2.Reached := by
  induction calls generalizing s with
  | nil => exact h
  | cons call calls ih =>
    have hcalled := h.called call
    rw [Call.performAll, run_bind]
    rcases hrun : call.perform.run s with ⟨failure | ⟨⟩, t⟩ <;> rw [hrun] at hcalled
    · exact hcalled
    · exact ih hcalled

namespace Objective

/-- The call that registers the block of a variable. -/
def registration (v : Variable α) : Call α :=
  .register (.array v.block) (.int v.userDimension) v.transform

/-- The call that adds the term of a binding. -/
def addition (r : Registry α) (b : Binding α) : Call α :=
  .addTerm b.term ((Graph.argumentVariables r b).map fun v ↦ .array v.block)

/-- The calls that build an objective. -/
def building (o : Objective α) : List (Call α) :=
  o.registry.entries.map registration ++ o.graph.bindings.map (addition o.registry)

variable {o : Objective α} {s : Scene α}

/-! ### Registering -/

omit [Zero α] [Add α] [OfNat α 1] [Storable α] in
/-- Nothing is dropped where nothing has been kept. -/
theorem invalidate_eq_self (h : o.storage = none ∧ o.coordinates = none) : o.invalidate = o := by
  obtain ⟨hstorage, hcoordinates⟩ := h
  rw [invalidate, ← hstorage, ← hcoordinates]

/-- The next block is registered, and its variable is the bare form of the former one. -/
theorem run_registration {r : Registry α} (h : r.Laid) {v : Variable α}
    {earlier later : List (Variable α)} (hr : r.entries = earlier ++ v :: later)
    (hopen : s.objective.closed = false)
    (hdropped : s.objective.storage = none ∧ s.objective.coordinates = none)
    (hs : s.objective.registry =
      ⟨earlier.map Variable.bare, (earlier.map Variable.solverDimension).sum⟩) :
    ∃ events, (registration v).perform.run s =
      (.ok (), { s with
        objective := { s.objective with
          registry := ⟨(earlier ++ [v]).map Variable.bare,
            ((earlier ++ [v]).map Variable.solverDimension).sum⟩ }
        events }) := by
  obtain ⟨hindex, hoffset, hid⟩ := h.split hr
  have hfits := h.fits v (by simp [hr])
  have hnone : s.objective.registry.find? v.block.id = none := by
    rw [Registry.find?_eq_none_iff, hs, List.map_map]
    exact hid
  have hsolver :
      v.transform.elim ↑v.userDimension Transform.inputDimension = v.solverDimension := by
    rcases ht : v.transform with - | t
    · exact (hfits.solverDimension_eq ht).symm
    · exact (hfits.transform_dimensions ht).2
  have hbare : s.objective.registry.newVariable v.block v.userDimension v.solverDimension
      v.transform = v.bare := by
    simp only [hs, Registry.newVariable, Registry.count, List.length_map, ← hindex, ← hoffset,
      Variable.bare, hfits.scratch]
  have houtput : ∀ t, v.transform = some t → t.outputDimension = v.userDimension :=
    fun t ht ↦ (hfits.transform_dimensions ht).1
  have hnew := Registry.run_register_new hnone hfits.shape hfits.floating hfits.pos hfits.le
    houtput s.events
  rw [hsolver, hbare] at hnew
  have hcall : (registration v).perform.run s =
      (register (.array v.block) (.int v.userDimension) v.transform).run s := rfl
  rw [hcall, run_register hopen, invalidate_eq_self hdropped]
  rcases hrun : (ExceptT.run (s.objective.registry.register (.array v.block)
    (.int v.userDimension) v.transform)).run s.events with ⟨result, events⟩
  rw [hrun] at hnew
  obtain rfl : result = _ := hnew
  exact ⟨events, by simp [hs]⟩

/-- The blocks are registered one after another. -/
theorem run_registrations {r : Registry α} (h : r.Laid) {earlier later : List (Variable α)}
    (hr : r.entries = earlier ++ later) (hopen : s.objective.closed = false)
    (hdropped : s.objective.storage = none ∧ s.objective.coordinates = none)
    (hs : s.objective.registry =
      ⟨earlier.map Variable.bare, (earlier.map Variable.solverDimension).sum⟩) :
    ∃ events, (Call.performAll (later.map registration)).run s =
      (.ok (), { s with
        objective := { s.objective with
          registry := ⟨r.entries.map Variable.bare, r.totalScalars⟩ }
        events }) := by
  induction later generalizing earlier s with
  | nil =>
    refine ⟨s.events, ?_⟩
    rw [h.total, hr, List.append_nil, ← hs]
    rfl
  | cons v later ih =>
    obtain ⟨events, hrun⟩ := run_registration h hr hopen hdropped hs
    rw [List.map_cons, Call.performAll, run_bind_of_ok hrun]
    exact ih (by simp [hr]) hopen hdropped rfl

/-! ### Adding -/

/-- The terms are added one after another. -/
theorem run_additions {r : Registry α} {bindings : List (Binding α)}
    (hbound : ∀ b ∈ bindings, b.Bound r s.objective.settings.allowsHessian)
    (hopen : s.objective.closed = false)
    (hdropped : s.objective.storage = none ∧ s.objective.coordinates = none)
    (hs : s.objective.registry = ⟨r.entries.map Variable.bare, r.totalScalars⟩)
    (hlaid : s.objective.registry.Laid) :
    ∃ terms, (Call.performAll (bindings.map (addition r))).run s =
      (.ok (), { s with
        objective := { s.objective with
          graph := ⟨s.objective.graph.bindings ++ bindings.map Binding.bare, terms⟩ } }) := by
  induction bindings generalizing s with
  | nil =>
    refine ⟨s.objective.graph.terms, ?_⟩
    simp only [List.map_nil, List.append_nil]
    rfl
  | cons b bindings ih =>
    have hextends : r.Extends s.objective.registry := by
      rw [hs]
      exact extends_of_bare (by simp)
    have hb := (hbound b List.mem_cons_self).extend hextends
    have hhandles : (Graph.argumentVariables r b).map (fun v ↦ Handle.array v.block) =
        (Graph.argumentVariables s.objective.registry b).map fun v ↦ .array v.block := by
      have hmap := congrArg (List.map fun v : Variable α ↦ Handle.array v.block)
        (map_bare_argumentVariables r b)
      rw [List.map_map] at hmap
      rw [hs]
      exact hmap
    have hcall : (addition r b).perform.run s =
        (.ok (), { s with
          objective := { s.objective with
            graph := ⟨s.objective.graph.bindings ++ [b.bare],
              Graph.noteTerm s.objective.graph.terms b.term⟩ } }) := by
      show (addTerm b.term ((Graph.argumentVariables r b).map fun v ↦ .array v.block)).run s = _
      rw [run_addTerm hopen, hhandles, Graph.add_of_bound hlaid hb, invalidate_eq_self hdropped]
    rw [List.map_cons, Call.performAll, run_bind_of_ok hcall]
    obtain ⟨terms, hrest⟩ := ih (s := { s with
        objective := { s.objective with
          graph := ⟨s.objective.graph.bindings ++ [b.bare],
            Graph.noteTerm s.objective.graph.terms b.term⟩ } })
      (fun c hc ↦ hbound c (List.mem_cons_of_mem b hc)) hopen hdropped hs hlaid
    exact ⟨terms, by rw [hrest]; simp⟩

/-! ### Building -/

/-- Whatever history has led to a sound objective, it can be built anew, on any machine and beside
any memory: the fresh objective has the same number of workers, and is the former one but for what
evaluations leave behind. -/
theorem run_building (h : o.Sound) (hopen : o.closed = false) (processors : Nat) (m : Memory α)
    (events : List (Event α)) (platform : Platform α) :
    ∃ (fresh : Objective α) (built : Scene α),
      create processors { o.settings with workerCount := .int o.workerCount } = .ok fresh ∧
        (Call.performAll o.building).run ⟨fresh, m, events, platform⟩ = (.ok (), built) ∧
          built.objective.bare = o.bare ∧ built.objective.workerCount = o.workerCount ∧
            built.memory = m ∧ built.platform = platform := by
  have hworkers := h.workers
  let fresh : Objective α :=
    { settings := { o.settings with workerCount := .int o.workerCount }
      workerCount := o.workerCount }
  have hcreate :
      create processors { o.settings with workerCount := .int o.workerCount } = .ok fresh := by
    have hvalid : Settings.resolvedWorkerCount processors
        { o.settings with workerCount := .int o.workerCount } = .ok o.workerCount := by
      show validateWorkerCount (.int o.workerCount) = _
      rw [validateWorkerCount, if_neg (by omega), Int.toNat_natCast]
    rw [create, hvalid]
    rfl
  -- First the variables are registered, from none on, and then the terms are added to them.
  have hnil : o.registry.entries = [] ++ o.registry.entries := rfl
  obtain ⟨events', hregistered⟩ := run_registrations (s := ⟨fresh, m, events, platform⟩) h.laid
    hnil rfl ⟨rfl, rfl⟩ rfl
  have hlaid : Registry.Laid ⟨o.registry.entries.map Variable.bare, o.registry.totalScalars⟩ :=
    h.laid.of_bare (by simp) rfl
  obtain ⟨terms, hadded⟩ := run_additions (s := ⟨{ fresh with
      registry := ⟨o.registry.entries.map Variable.bare, o.registry.totalScalars⟩ }, m, events',
      platform⟩) h.bound rfl ⟨rfl, rfl⟩ rfl hlaid
  refine ⟨fresh, _, hcreate, (Call.run_performAll_append hregistered).trans hadded, ?_, rfl, rfl,
    rfl⟩
  exact bare_eq_of rfl rfl (by simp [Function.comp_def]) (by simp [fresh, Function.comp_def])
    hopen.symm

end Objective

end Summand
