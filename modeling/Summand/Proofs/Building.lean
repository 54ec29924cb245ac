import Summand.Proofs.Soundness

/-!
# Building keeps objectives sound

Registering variables, adding terms, changing the number of workers, copying, closing, and what
else there is besides evaluations: none of these operations leaves an open objective unsound,
whether it succeeds or fails. Those that change the graph or the sizes drop what has been kept for
reuse before they change anything.
-/

namespace Summand.Objective

open Summand.Action

variable {α : Type} {s : Scene α}

/-- The scene's objective is sound as long as it is open. -/
abbrev KeptIn [Zero α] (s : Scene α) : Prop := s.objective.Kept

section Runs

variable [Zero α]

theorem run_register (hopen : s.objective.closed = false) (handle : Handle) (dimension : Json)
    (transform : Option (Transform α)) :
    (register handle dimension transform).run s =
      match (ExceptT.run (s.objective.registry.register handle dimension transform)).run
        s.events with
      | (.ok (registry, _), events) =>
        (.ok (), { s with objective := { s.objective.invalidate with registry }, events })
      | (.error failure, events) =>
        (.error failure, { s with objective := s.objective.invalidate, events }) := by
  rw [register, run_bind_of_ok (run_checkOpen_of_open _ hopen), run_modifyObjective_bind,
    run_objective_bind, run_bind, run_ofTraced]
  dsimp only [invalidate]
  rcases (ExceptT.run (s.objective.registry.register handle dimension transform)).run
    s.events with ⟨- | ⟨registry, index⟩, events⟩ <;> rfl

theorem run_addTerm (hopen : s.objective.closed = false) (term : Term α) (handles : List Handle) :
    (addTerm term handles).run s =
      match s.objective.graph.add s.objective.registry term handles
        s.objective.settings.allowsHessian with
      | .ok graph => (.ok (), { s with objective := { s.objective.invalidate with graph } })
      | .error failure => (.error failure, { s with objective := s.objective.invalidate }) := by
  rw [addTerm, run_bind_of_ok (run_checkOpen_of_open _ hopen), run_modifyObjective_bind,
    run_objective_bind, run_bind, run_liftM]
  dsimp only [invalidate]
  cases s.objective.graph.add s.objective.registry term handles
    s.objective.settings.allowsHessian <;> rfl

omit [Zero α] in
theorem run_setWorkerCount_of_closed (hclosed : s.objective.closed = true) (given : Json) :
    (setWorkerCount given).run s = (.error (.closed "change the worker count"), s) := by
  rw [setWorkerCount, run_bind_of_error (run_checkOpen_of_closed _ hclosed)]

omit [Zero α] in
/-- The number of workers is changed if it is a new one, and then storage and coordinates are
dropped. -/
theorem run_setWorkerCount (hopen : s.objective.closed = false) {given : Json} {workerCount : Nat}
    (h : validateWorkerCount given = .ok workerCount) :
    (setWorkerCount given).run s = (.ok (), s) ∧ workerCount = s.objective.workerCount ∨
      ∃ text, (setWorkerCount given).run s =
        (.ok (), { s with
          objective := { s.objective.invalidate with workerCount, pool := none }
          events := s.events ++ [.logged .debug .engine text] }) := by
  rw [setWorkerCount, run_bind_of_ok (run_checkOpen_of_open _ hopen), run_bind, run_liftM, h]
  dsimp only
  rw [run_objective_bind]
  by_cases hsame : workerCount = s.objective.workerCount
  · simp only [hsame, ne_eq, not_true, if_false, and_true]
    exact .inl rfl
  · simp only [hsame, ne_eq, not_false_eq_true, if_true]
    exact .inr ⟨_, rfl⟩

end Runs

/-! ### Building -/

section Building

variable [Zero α]

/-- An operation on an open objective keeps it sound if it leaves a sound one. -/
theorem keeps_of_open {β : Type} {a : Action α β} {operation : String}
    {rest : Action α β} (ha : a = checkOpen operation >>= fun _ ↦ rest)
    (h : ∀ s : Scene α, s.objective.closed = false → s.objective.Sound →
      (a.run s).2.objective.Kept) : Keeps KeptIn a := by
  constructor
  intro s hs
  rcases hclosed : s.objective.closed with - | -
  · exact h s hclosed (hs.sound hclosed)
  · rw [ha, run_bind_of_error (run_checkOpen_of_closed operation hclosed)]
    exact hs

theorem keeps_register (handle : Handle) (dimension : Json) (transform : Option (Transform α)) :
    Keeps KeptIn (register handle dimension transform) := by
  refine keeps_of_open rfl ?_
  intro s hopen hs
  right
  rw [run_register hopen]
  obtain ⟨result, added, hrun, hregistering⟩ :=
    (Registry.ends_register s.objective.registry handle dimension transform).of_run s.events
  rw [hrun]
  rcases result with - | ⟨registry, index⟩
  · exact hs.invalidate
  · obtain ⟨hlaid, hextends⟩ := hregistering.laid hs.laid
    exact ⟨hs.workers, hlaid, fun b hb ↦ (hs.bound b hb).extend hextends,
      fun _ h ↦ (nomatch h), fun _ h ↦ nomatch h⟩

theorem keeps_addTerm (term : Term α) (handles : List Handle) :
    Keeps KeptIn (addTerm term handles) := by
  refine keeps_of_open rfl ?_
  intro s hopen hs
  right
  rw [run_addTerm hopen]
  rcases hadd : s.objective.graph.add s.objective.registry term handles
    s.objective.settings.allowsHessian with - | graph
  · exact hs.invalidate
  · obtain ⟨b, hbound, rfl⟩ := Graph.add_eq_ok hs.laid hadd
    refine ⟨hs.workers, hs.laid, ?_, fun _ h ↦ (nomatch h), fun _ h ↦ nomatch h⟩
    intro c hc
    rcases List.mem_append.1 hc with hc | hc
    · exact hs.bound c hc
    · rw [List.mem_singleton.1 hc]
      exact hbound

theorem keeps_setWorkerCount (given : Json) :
    Keeps KeptIn (setWorkerCount given : Action α Unit) := by
  refine keeps_of_open rfl ?_
  intro s hopen hs
  right
  rcases h : validateWorkerCount given with failure | workerCount
  · rw [setWorkerCount, run_bind_of_ok (run_checkOpen_of_open _ hopen), run_bind, run_liftM, h]
    exact hs
  · rcases run_setWorkerCount hopen h with ⟨hrun, -⟩ | ⟨events, hrun⟩
    · rw [hrun]
      exact hs
    · rw [hrun]
      exact ⟨one_le_of_validateWorkerCount h, hs.laid, hs.bound, fun _ h ↦ (nomatch h),
        fun _ h ↦ nomatch h⟩

end Building

/-! ### Copying -/

section Copying

variable {I : Scene α → Prop}

theorem keeps_modifyMemory (hI : ∀ s m, I s → I { s with memory := m })
    (f : Memory α → Memory α) : Keeps I (modifyMemory f) := ⟨fun s hs ↦ hI s _ hs⟩

theorem keeps_checkPoint (x : GivenPoint α) : Keeps I (checkPoint x) := by
  rw [checkPoint]
  refine .bind (.liftM _) fun x ↦ .bind .objective fun o ↦ ?_
  dsimp only
  split
  · exact .pure _
  · exact .throw _

/-- Writing a variable's block changes nothing but the memory. -/
theorem keeps_writeBlock [Zero α] [Storable α] (hI : ∀ s m, I s → I { s with memory := m })
    (v : Variable α) (x : List α) : Keeps I (writeBlock v x) := by
  rw [writeBlock]
  dsimp only
  split
  · split
    · exact .bind (.throw _) fun _ ↦ .bind (.liftM _) fun _ ↦ keeps_modifyMemory hI _
    · exact .bind (.liftM _) fun _ ↦ keeps_modifyMemory hI _
  · refine .bind .memory fun m ↦ ?_
    split
    · refine .bind (keeps_modifyMemory hI _) fun _ ↦ ?_
      split
      · exact .throw _
      · exact .pure _
    split
    · refine .bind (.throw _) fun _ ↦ ?_
      split
      · exact .throw _
      · exact .pure _
    split
    · exact .throw _
    · exact .pure _

theorem keeps_copyPointToBlocks [Zero α] [Storable α] (hI : ∀ s m, I s → I { s with memory := m })
    (x : GivenPoint α) : Keeps I (copyPointToBlocks x) := by
  rw [copyPointToBlocks]
  refine .bind (.checkOpen _) fun _ ↦ .bind (keeps_checkPoint x) fun x ↦
    .bind .objective fun o ↦ .bind (.forIn fun v _ ↦ ?_) fun _ ↦ .pure _
  exact .bind (keeps_writeBlock hI v x) fun _ ↦ .pure _

theorem keeps_copyBlocksToPoint [Zero α] : Keeps I (copyBlocksToPoint : Action α (List α)) := by
  rw [copyBlocksToPoint]
  refine .bind (.checkOpen _) fun _ ↦ .bind .objective fun o ↦ .bind .memory fun m ↦
    .bind (.liftM _) fun _ ↦ .bind (.forIn fun v x ↦ ?_) fun _ ↦ .pure _
  dsimp only
  split
  · exact .bind (.liftM _) fun _ ↦ .pure _
  · split
    · exact .bind (.throw _) fun _ ↦ .pure _
    · exact .pure _

end Copying

/-! ### Closing -/

section Closing

variable {I : Scene α → Prop}

theorem keeps_closed_releaseTerms :
    Keeps (fun s : Scene α ↦ s.objective.closed = true) (releaseTerms : Action α Unit) := by
  rw [releaseTerms]
  refine .bind .objective fun o ↦ ?_
  dsimp only
  refine .bind ⟨fun s hs ↦ hs⟩ fun _ ↦ .bind ⟨fun s hs ↦ hs⟩ fun _ ↦ ?_
  split
  · exact .throw _
  · exact .pure _

theorem keeps_closed_releaseTransforms :
    Keeps (fun s : Scene α ↦ s.objective.closed = true) (releaseTransforms : Action α Unit) := by
  rw [releaseTransforms]
  refine .bind .objective fun o ↦ ?_
  dsimp only
  refine .bind ⟨fun s hs ↦ hs⟩ fun _ ↦ .bind ⟨fun s hs ↦ hs⟩ fun _ ↦ ?_
  split
  · exact .throw _
  · exact .pure _

theorem keeps_close [Zero α] : Keeps KeptIn (close : Action α Unit) := by
  constructor
  intro s hs
  rw [close, run_objective_bind]
  rcases hclosed : s.objective.closed with - | -
  · simp only [Bool.false_eq_true, if_false]
    rw [run_modifyObjective_bind, run_objective_bind]
    -- The objective is closed by now, and releasing what it held leaves it closed.
    left
    split
    · have hrelease := Keeps.bind (keeps_closed_releaseTerms (α := α)) fun _ ↦
        keeps_closed_releaseTransforms
      exact hrelease.of_run _ rfl
    · exact keeps_closed_releaseTransforms.of_run _ rfl
  · simp only [if_true]
    exact hs

end Closing

end Summand.Objective
