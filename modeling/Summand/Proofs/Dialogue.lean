import Summand.Objective.Minimize
import Summand.Proofs.History
import Summand.Proofs.Outcome

/-!
# The dialogue with a minimizer

A minimizer may ask any number of questions at any points, in whatever order, and may handle
failures or end with them. Questions lead no further than evaluations do (`Asked.evaluated`), so the
blocks hold what they held before until the dialogue has ended with a result. Then they are written
once, if they are to be written at all.

`Scene.Reached.concluded_solve` says how a minimization ends, given how the dialogue does: with a
solution in which a failure of the library is told, with any other failure, or with the result.
-/

namespace Summand

open Summand.Action Objective

variable {α : Type}

/-! ### Answers -/

section Evaluations

variable [Zero α] [Add α] [Storable α] {s : Scene α}

theorem keeps_evaluateFresh {mode : Mode} (hmode : mode ≠ .value) (x : GivenPoint α) :
    Keeps (Evaluated s) (evaluateFresh mode x) :=
  ⟨fun _ ht ↦ ht.trans <|
    (realizes_evaluateFresh ht.sound hmode x).ends (fun _ h ↦ h) fun _ _ _ h ↦ h.1⟩

/-- Asking for the value and the gradient is a mere evaluation. -/
theorem keeps_valueAndGradient (x : GivenPoint α) : Keeps (Evaluated s) (valueAndGradient x) := by
  rw [valueAndGradient]
  exact .bind (.checkOpen _) fun _ ↦ .bind .objective fun o ↦ .bind (.liftM _) fun _ ↦
    keeps_evaluateFresh (by simp) _

omit [Storable α] in
theorem keeps_assembleTarget (values : List α) : Keeps (Evaluated s) (assembleTarget values) :=
  ⟨fun _ ht ↦ ht.trans <|
    (realizes_assembleTarget ht.sound values).ends (fun _ h ↦ h) fun _ _ _ h ↦ h.1⟩

omit [Add α] [Storable α] in
theorem keeps_emit (events : List (Event α)) : Keeps (Evaluated s) (emit events) :=
  ⟨fun _ ht ↦ ⟨ht.bare, ht.workerCount, ht.sound, ht.memory, ht.platform⟩⟩

end Evaluations

variable {s t : Scene Float} {form : Option HessianForm}

/-- An answer with a value and a gradient is a mere evaluation. -/
theorem keeps_answerValue (point : Grid Number) : Keeps (Evaluated s) (answerValue point) := by
  rw [answerValue]
  exact .bind (keeps_valueAndGradient _) fun _ ↦ .bind (keeps_emit _) fun _ ↦ .pure _

/-- So is an answer with a Hessian, dense or sparse. -/
theorem keeps_answerHessian (form : HessianForm) (point : Grid Number) :
    Keeps (Evaluated s) (answerHessian form point) := by
  have hrest {f : Objective Float → Action Float (Hessian Float)}
      (hf : ∀ o, Keeps (Evaluated s) (f o)) : Keeps (Evaluated s) (do
        checkOpen "evaluate"
        let _ ← evaluateFresh .hessian point.doubles
        f (← objective)) :=
    .bind (.checkOpen _) fun _ ↦ .bind (keeps_evaluateFresh (by simp) _) fun _ ↦ .bind .objective hf
  have hhessian : Keeps (Evaluated s) (hessianAt form point) := by
    rw [hessianAt]
    refine .bind .objective fun o ↦ ?_
    cases form with
    | dense => exact .bind (.liftM _) fun _ ↦ hrest fun _ ↦ .pure _
    | sparse => exact hrest fun _ ↦ .bind (keeps_assembleTarget _) fun _ ↦ .pure _
  rw [answerHessian]
  exact .bind hhessian fun _ ↦ .bind (keeps_emit _) fun _ ↦ .pure _

/-! ### Dialogues -/

/-- A scene to which some questions lead, whatever their answers are. -/
inductive Asked (form : Option HessianForm) (s : Scene Float) : Scene Float → Prop
  | begin : Asked form s s
  | value {t : Scene Float} (h : Asked form s t) (point : Grid Number) :
    Asked form s ((answerValue point).run t).2
  | hessian {t : Scene Float} (h : Asked form s t) {offered : HessianForm}
    (hoffered : form = some offered) (point : Grid Number) :
    Asked form s ((answerHessian offered point).run t).2

/-- Questions lead no further than evaluations do. -/
theorem Asked.evaluated (h : Asked form s t) (hs : s.objective.Sound) : Evaluated s t := by
  induction h with
  | begin => exact .refl hs
  | value _ point ih => exact (keeps_answerValue point).of_run _ ih
  | hessian _ _ point ih => exact (keeps_answerHessian _ point).of_run _ ih

/-- A dialogue ends in a scene to which its questions lead. -/
theorem asked_converse (h : Asked form s t) (minimizer : Minimizer) :
    Asked form s ((converse form minimizer).run t).2 := by
  induction minimizer generalizing t with
  | finish result => exact h
  | fail failure => exact h
  | askValue point next ih =>
    rw [converse, run_observe_bind]
    exact ih _ (h.value point)
  | askHessian point next ih =>
    rcases form with - | offered <;> rw [converse, run_observe_bind]
    · exact ih _ h
    · exact ih _ (h.hessian rfl point)

/-! ### What the blocks are given -/

section Copies

variable [Zero α] [Storable α] {s t : Scene α}

/-- What is written to a block depends neither on the values of variables nor on anything else than
what the memory holds. -/
theorem related_writeBlock {v w : Variable α} (hbare : v.bare = w.bare) (x : List α)
    (hmemory : s.memory = t.memory) :
    Related (fun failure failure' s t ↦ failure = failure' ∧ s.memory = t.memory)
      (fun _ _ s t ↦ s.memory = t.memory) ((writeBlock v x).run s) ((writeBlock w x).run t) := by
  have hsame : writeBlock w x = writeBlock v x :=
    show writeBlock w.bare x = writeBlock v.bare x by rw [hbare]
  obtain ⟨o, m, events, platform⟩ := s
  obtain ⟨o', m', events', platform'⟩ := t
  obtain rfl : m = m' := hmemory
  rw [hsame, writeBlock]
  dsimp only
  split
  · split
    · exact .error ⟨rfl, rfl⟩
    · rcases (Grid.vector (v.slice x)).stretchTo [v.userBlock.size] with failure | point
      · exact .error ⟨rfl, rfl⟩
      · exact .ok rfl
  · rw [run_memory_bind, run_memory_bind]
    dsimp only
    split
    · rw [run_modifyMemory_bind, run_modifyMemory_bind]
      split
      · exact .error ⟨rfl, rfl⟩
      · exact .ok rfl
    · split
      · exact .error ⟨rfl, rfl⟩
      · split
        · exact .error ⟨rfl, rfl⟩
        · exact .ok rfl

/-- Evaluations play no part in what is written to the blocks. -/
theorem related_copyPointToBlocks (h : Evaluated s t) (x : GivenPoint α) :
    Related (fun failure failure' s t ↦ failure = failure' ∧ s.memory = t.memory)
      (fun _ _ s t ↦ s.memory = t.memory) ((copyPointToBlocks x).run s)
      ((copyPointToBlocks x).run t) := by
  have hsame {β : Type} (result : Except Failure β) :=
    Related.same (E := fun failure failure' s t ↦ failure = failure' ∧ s.memory = t.memory)
      (s := s) (t := t) result fun _ ↦ ⟨rfl, h.memory.symm⟩
  rw [copyPointToBlocks]
  refine Related.bind (Q := fun _ _ s' t' ↦ s = s' ∧ t = t') ?_ ?_
  · rw [run_checkOpen, run_checkOpen, closed_eq_of_bare h.bare]
    exact (hsame _).mono (fun _ _ _ _ h ↦ h) fun _ _ _ _ h ↦ h.2
  rintro - - _ _ ⟨rfl, rfl⟩
  refine Related.bind (Q := fun x x' s' t' ↦ x = x' ∧ s = s' ∧ t = t') ?_ ?_
  · rw [run_checkPoint, run_checkPoint, totalScalars_eq_of_bare h.bare]
    exact hsame _
  rintro x _ _ _ ⟨rfl, rfl, rfl⟩
  rw [run_objective_bind, run_objective_bind]
  have hentries : List.Forall₂ (fun v w : Variable α ↦ v.bare = w.bare)
      s.objective.registry.entries t.objective.registry.entries := by
    rw [← List.forall₂_map_right_iff (R := fun v w ↦ Variable.bare v = w),
      ← List.forall₂_map_left_iff (R := Eq), entries_eq_of_bare h.bare]
    exact List.forall₂_same.2 fun _ _ ↦ rfl
  refine Related.bind (Q := fun r r' s t ↦ r = r' ∧ s.memory = t.memory) ?_ fun _ _ _ _ h ↦ .ok h.2
  refine Related.forIn (R := fun s t ↦ s.memory = t.memory) hentries ?_ h.memory.symm
  intro v w _ s t hbare hmemory
  exact (related_writeBlock hbare x hmemory).bind fun _ _ _ _ hmemory ↦ .ok ⟨rfl, hmemory⟩

end Copies

/-! ### Minimizations -/

namespace Objective

/-- The request that a minimizer gets. -/
def requested (options : MinimizeOptions) : Action Float (MinimizeRequest Float) := do
  options.checkExtra MinimizeOptions.ownNames
  let o ← objective
  let start ← options.start.getDM startFromBlocks
  let methodName ← options.methodName
  let form := options.hessianForm methodName o.settings.allowsHessian
  if form.isSome then Allocation.check .real [o.totalScalars]
  options.checkExtra MinimizeOptions.requestNames
  let request := options.request methodName start form
  emit [.minimizeStarted request]
  return request

/-- The solution that a result stands for. -/
def solutionOf (result : MinimizerResult) (duration : Float) : Action Float Solution := do
  log .debug .solver ("Solve finished: " ++ (statusOf result).name)
  let value ← result.value.double
  return {
    status := statusOf result
    objectiveValue := .real value
    x := (← result.x).map .real
    iterations := result.iterations
    message := .text result.message.plain
    solveTime := .real duration }

/-- The end of a minimization, given how the dialogue ended. -/
def conclude (options : MinimizeOptions) (duration : Float) :
    Except Failure MinimizerResult → Action Float Solution
  | .error failure => do
    if !failure.isOwn then throw failure
    log .warning .solver ("Solve failed: " ++ failure.message)
    return { status := .failed, message := .text failure.message, solveTime := .real duration }
  | .ok result => do
    if options.writeBack then copyPointToBlocks result.x
    solutionOf result duration

/-- Where there are variables, a minimization is a dialogue between a request and a conclusion. -/
theorem run_solve (hn : s.objective.totalScalars ≠ 0) (options : MinimizeOptions)
    (minimizer : MinimizeRequest Float → Minimizer) (duration : Float) :
    (solve options minimizer duration).run s = (do
      let request ← requested options
      conclude options duration
        (← observe (converse request.hessianForm (minimizer request)))).run s := by
  rw [solve, requested]
  simp only [bind_assoc]
  rcases options.checkExtra MinimizeOptions.ownNames with failure | ⟨⟩
  · rfl
  rw [run_liftM_ok_bind, run_liftM_ok_bind, run_objective_bind, run_objective_bind, if_neg hn]
  refine congrArg (fun a : Action Float Solution ↦ a.run s) ?_
  refine bind_congr fun start ↦ bind_congr fun name ↦ ?_
  unfold conclude solutionOf
  split
  · simp only [bind_assoc, pure_bind]
    rfl
  · simp only [bind_assoc, pure_bind]
    rfl

/-- A request is made without a change to anything but the trace. -/
theorem keeps_requested (options : MinimizeOptions) :
    Keeps (Evaluated s) (requested options) := by
  have hstart : Keeps (Evaluated s) (options.start.getDM startFromBlocks) := by
    rcases options.start with - | start
    · exact .bind keeps_copyBlocksToPoint fun _ ↦ .pure _
    · exact .pure _
  rw [requested]
  refine .bind (.liftM _) fun _ ↦ .bind .objective fun o ↦ .bind hstart fun start ↦
    .bind (.liftM _) fun name ↦ ?_
  have hsend {request : MinimizeRequest Float} : Keeps (Evaluated s) (do
      options.checkExtra MinimizeOptions.requestNames
      emit [.minimizeStarted request]
      return request) :=
    .bind (.liftM _) fun _ ↦ .bind (keeps_emit _) fun _ ↦ .pure _
  dsimp only
  split
  · exact .bind (.liftM _) fun _ ↦ hsend
  · exact hsend

end Objective

/-- A solution tells of a result. -/
structure Solution.Tells (found : MinimizerResult) (solution : Solution) : Prop where
  x : ∃ x, found.x = .ok x ∧ solution.x = x.map .real
  value : ∃ value, found.value.double = .ok value ∧ solution.objectiveValue = .real value
  status : solution.status = .optimal ↔ found.success = true

/-- How a minimization ends, given how the dialogue with the minimizer does. A failure of the
library is told in a solution, and any other failure is passed on; in both cases the memory is as it
was. If there is a result, then the blocks become what its point makes of them, or they stay as they
were if they are not to be written, and there is a solution that tells of it. Only the failure of
writing the blocks is passed on, or that of reading the value or the point as doubles. -/
def Concluded (s : Scene Float) (writeBack : Bool) (outcome : Except Failure MinimizerResult)
    (run : Except Failure Solution × Scene Float) : Prop :=
  match outcome with
  | .error failure =>
    if failure.isOwn then ∃ solution t, run = (.ok solution, t) ∧ t.memory = s.memory ∧
      solution.status = .failed ∧ solution.message = .text failure.message
    else ∃ t, run = (.error failure, t) ∧ t.memory = s.memory
  | .ok found =>
    let written := if writeBack then (copyPointToBlocks found.x).run s else (.ok (), s)
    Realizes (fun t ↦ t.memory = written.2.memory)
      (fun _ solution t ↦ t.memory = written.2.memory ∧ solution.Tells found)
      (do written.1; let _ ← found.value.double; let _ ← found.x) run

theorem realizes_solutionOf (found : MinimizerResult) (duration : Float) :
    Realizes (fun t ↦ t.memory = s.memory)
      (fun _ solution t ↦ t.memory = s.memory ∧ solution.Tells found)
      (do let _ ← found.value.double; let _ ← found.x) ((solutionOf found duration).run s) := by
  rw [solutionOf]
  rcases hvalue : found.value.double with failure | value
  · exact .error rfl
  rcases hx : found.x with failure | x
  · exact .error rfl
  refine .ok ⟨rfl, ⟨x, hx, rfl⟩, ⟨value, hvalue, rfl⟩, ?_⟩
  dsimp only
  rw [statusOf]
  split
  · simp [*]
  · split <;> simp [*]

theorem concluded_conclude (h : Evaluated s t) (options : MinimizeOptions) (duration : Float)
    (outcome : Except Failure MinimizerResult) :
    Concluded s options.writeBack outcome ((conclude options duration outcome).run t) := by
  rcases outcome with failure | found
  · rw [conclude, Concluded]
    rcases hown : failure.isOwn with - | -
    · exact ⟨_, rfl, h.memory⟩
    · exact ⟨_, _, rfl, h.memory, rfl, rfl⟩
  rw [conclude, Concluded]
  rcases options.writeBack with - | -
  · exact h.memory ▸ realizes_solutionOf found duration
  · have hcopied := related_copyPointToBlocks h found.x
    rw [if_pos rfl, if_pos rfl, run_bind]
    generalize (copyPointToBlocks found.x).run s = written at hcopied ⊢
    generalize (copyPointToBlocks found.x).run t = written' at hcopied ⊢
    cases hcopied with
    | error h =>
      obtain ⟨rfl, hmemory⟩ := h
      exact .error hmemory.symm
    | ok hmemory =>
      dsimp only
      exact hmemory ▸ realizes_solutionOf found duration

/-- However a minimizer asks and whatever it does with the answers, no answer changes the memory,
and the minimization ends as the dialogue does. If there is no request to begin it with, the memory
is not changed either. -/
theorem Scene.Reached.concluded_solve (h : s.Reached) (hopen : s.objective.closed = false)
    (hn : s.objective.totalScalars ≠ 0) (options : MinimizeOptions)
    (minimizer : MinimizeRequest Float → Minimizer) (duration : Float) :
    match (requested options).run s with
    | (.error failure, _) => ∃ t, (solve options minimizer duration).run s = (.error failure, t) ∧
        t.memory = s.memory
    | (.ok request, t) => (∀ u, Asked request.hessianForm t u → u.memory = s.memory) ∧
        Concluded s options.writeBack ((converse request.hessianForm (minimizer request)).run t).1
          ((solve options minimizer duration).run s) := by
  rw [run_solve hn]
  have hrequested := (keeps_requested (s := s) options).of_run s (.refl (h.sound hopen))
  rcases hrun : (requested options).run s with ⟨failure | request, t⟩ <;> rw [hrun] at hrequested
  · exact ⟨t, run_bind_of_error hrun, hrequested.memory⟩
  rw [run_bind_of_ok hrun, run_observe_bind]
  have hasked {u : Scene Float} (hu : Asked request.hessianForm t u) : Evaluated s u :=
    hrequested.trans (hu.evaluated hrequested.sound)
  exact ⟨fun u hu ↦ (hasked hu).memory,
    concluded_conclude (hasked (asked_converse .begin _)) options duration _⟩

namespace Small

/-! ### A bold minimizer -/

/-- The block of a single number. -/
def cell : Block := { id := 1, shape := [1], cells := [0] }

/-- The double of a number. -/
def double : Term Float :=
  .total 0 "Double" [1] (fun arguments ↦ 2 * Term.first arguments 0) (fun _ ↦ [[2]])
    (fun _ ↦ [[[[0]]]]) fun _ ↦ Term.noEnclosure "Double"

/-- The scene after the double of a number, which is one, has been added. -/
def doubled : Scene Float :=
  Scene.after { objective := { settings := { workerCount := .int 1 }, workerCount := 1 },
                memory := { cells := #[1] } }
    [.register (.array cell) .null none, .addTerm double [.array cell]]

theorem reached_doubled : doubled.Reached :=
  have hcreate : Objective.create 1 { workerCount := .int 1 } =
      .ok ({ settings := { workerCount := .int 1 }, workerCount := 1 } : Objective Float) := rfl
  (Scene.Reached.created hcreate _ [] {}).after _

/-- What the minimizer ends with. -/
def found : MinimizerResult := { success := true, x := .ok (.vector [-3]), value := .real (-6) }

/-- A minimizer that asks once and does not listen. -/
def bold : Minimizer := .askValue (.vector [.real 5]) fun _ ↦ .finish found

/-- The block holds the point that the minimizer has ended with. -/
theorem read_of_bold : ∃ solution t, (solve {} (fun _ ↦ bold) 0).run doubled = (.ok solution, t) ∧
    solution.status = .optimal ∧ solution.x = .vector [.real (-3)] ∧
    t.memory.read cell = [-3] := by
  have h := reached_doubled.concluded_solve rfl (by decide) {} (fun _ ↦ bold) 0
  have hok : ((requested {}).run doubled).1.isOk = true := by decide +kernel
  have hwritten : ((copyPointToBlocks found.x).run doubled).1.toOption = some () ∧
      ((copyPointToBlocks found.x).run doubled).2.memory.read cell = [-3] := by
    exact ⟨by decide +kernel, by decide +kernel⟩
  rcases hrun : (requested {}).run doubled with ⟨failure | request, t⟩ <;> rw [hrun] at h hok
  · cases hok
  obtain ⟨-, h⟩ := h
  change Concluded doubled true (.ok found) _ at h
  rw [Concluded, if_pos rfl] at h
  generalize (copyPointToBlocks found.x).run doubled = written at h hwritten
  obtain ⟨failure | ⟨⟩, u⟩ := written
  · cases hwritten.1
  obtain ⟨solution, t, hrun, hmemory, htells⟩ := h.succeeds
  obtain ⟨x, hx, hsolution⟩ := htells.x
  cases hx
  refine ⟨solution, t, hrun, htells.status.2 rfl, hsolution, ?_⟩
  rw [hmemory]
  exact hwritten.2

end Small

end Summand
