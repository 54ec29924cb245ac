import Summand.Proofs.GraphFrame
import Summand.Proofs.History

/-!
# Failed queries

A query may fail at any of its stages: the objective is closed, Hessians are disabled, a point or an
array does not fit, a transform or a term fails. The arrays of the caller are written when nothing
is left to fail, with one exception: the gradient beside a sparse Hessian is written before the
entries of the Hessian are placed.

`Scene.Reached.unwritten_of_error` says what every failed query leaves behind. The exception is
real: `Small.changed_of_failed` has a transform that asks for a negative dimension, so that the
slice of another variable begins before the flat vector.
-/

namespace Summand

variable {α : Type}

/-! ### What failed queries leave -/

/-- The variables of two scenes are the same but for their scratch values, and the bindings are the
same but for the entries of their Hessian blocks. -/
structure Scene.SameRecords [Zero α] (s t : Scene α) : Prop where
  entries : t.objective.registry.entries.map Variable.bare =
    s.objective.registry.entries.map Variable.bare
  total : t.objective.totalScalars = s.objective.totalScalars
  bindings : t.objective.graph.bindings.map Binding.bare =
    s.objective.graph.bindings.map Binding.bare

/-- Sparse matrices can be made unless a transform asks for a negative dimension or there is no room
for the starts of the columns. -/
structure Objective.Placeable (o : Objective α) : Prop where
  sizes : ∀ v ∈ o.registry.entries, ∀ t, v.transform = some t → 0 ≤ t.inputDimension
  room : Allocation.check .integer [o.totalScalars + 1] = .ok ()

section Failed

open Summand.Action Objective

variable [Zero α] {s t : Scene α} {q : Query α} {failure : Failure}

theorem Scene.SameRecords.of_bare (h : s.objective.bare = t.objective.bare) : s.SameRecords t :=
  ⟨(entries_eq_of_bare h).symm, (totalScalars_eq_of_bare h).symm, (bindings_eq_of_bare h).symm⟩

namespace Objective.Placeable

variable {o o' : Objective α}

theorem totalScalars_nonneg (h : o.Placeable) (hsound : o.Sound) : 0 ≤ o.totalScalars :=
  hsound.laid.totalScalars_nonneg (hsound.laid.natural h.sizes)

theorem placement_eq (h : o.Placeable) (hsound : o.Sound)
    (huntransformed : Registry.firstTransformed (o.graph.boundVariables o.registry) = none) :
    o.placement = .ok o.places :=
  (hsound.plain (hsound.laid.natural h.sizes) huntransformed).placement_eq
    (h.totalScalars_nonneg hsound) h.room

/-- Scratch values and the entries of Hessian blocks have no part in it. -/
theorem of_bare (h : o.Placeable) (hbare : o.bare = o'.bare) : o'.Placeable where
  sizes := Registry.transforms_of_bare (entries_eq_of_bare hbare) h.sizes
  room := totalScalars_eq_of_bare hbare ▸ h.room

end Objective.Placeable

/-- A query gives the workers work, or it is about the pattern or an enclosure. -/
theorem Query.prepared_cases (q : Query α) (s : Scene α) :
    (∃ prepared, q.prepared s = some <$> prepared) ∨
      (∃ target, q = .sparsityPattern target) ∨ ∃ sides, q = .evaluateEnclosure sides := by
  cases q with
  | evaluate x gradient hessian =>
    rcases gradient with - | gradient <;> rcases hessian with - | hessian <;> exact .inl ⟨_, rfl⟩
  | evaluateUser => exact .inl ⟨_, rfl⟩
  | valueAndGradient x => exact .inl ⟨_, rfl⟩
  | evaluateSparse x gradient target =>
    rcases target with - | position
    · exact .inl ⟨.error .missingTarget, rfl⟩
    · exact .inl ⟨_, rfl⟩
  | valueGradientSparse x => exact .inl ⟨_, rfl⟩
  | valueGradientDense x => exact .inl ⟨_, rfl⟩
  | sparsityPattern target => exact .inr (.inl ⟨target, rfl⟩)
  | evaluateEnclosure sides => exact .inr (.inr ⟨sides, rfl⟩)

variable [Add α] [Storable α]

theorem Query.Left.cases (h : q.Left s t) : Evaluated s t ∨ ∃ x gradient position,
    q = .evaluateSparse x gradient (some position) ∧ Unplaced s x gradient t := by
  cases q with
  | evaluateSparse x gradient target =>
    rcases target with - | position
    · exact .inl h
    · exact h.imp id fun h ↦ ⟨x, gradient, position, rfl, h⟩
  | _ => exact .inl h

variable [OfNat α 1]

/-- A closed objective fails every query and stays as it is. -/
theorem run_perform_of_closed (q : Query α) (h : s.objective.closed = true) :
    ∃ operation, q.perform.run s = (.error (.closed operation), s) := by
  have hfails {β γ : Type} (operation : String) (f : Unit → Action α β) (g : β → Action α γ) :
      ((checkOpen operation >>= f) >>= g).run s = (.error (.closed operation), s) :=
    run_bind_of_error (run_bind_of_error (run_checkOpen_of_closed operation h))
  cases q with
  | evaluate x gradient hessian => exact ⟨_, hfails "evaluate" _ _⟩
  | evaluateUser => exact ⟨_, hfails "evaluate" _ _⟩
  | valueAndGradient x => exact ⟨_, hfails "evaluate" _ _⟩
  | evaluateSparse x gradient target => exact ⟨_, hfails "evaluate" _ _⟩
  | valueGradientSparse x => exact ⟨_, hfails "evaluate" _ _⟩
  | valueGradientDense x => exact ⟨_, hfails "evaluate" _ _⟩
  | sparsityPattern target => exact ⟨_, hfails "build the Hessian sparsity pattern" _ _⟩
  | evaluateEnclosure sides => exact ⟨_, hfails "evaluate" _ _⟩

/-- A query that fails has changed nothing but buffers, unless it has written the gradient before it
could not place the entries of the sparse Hessian. -/
theorem left_of_error (h : s.objective.Sound) (hopen : s.objective.closed = false)
    (hrun : q.perform.run s = (.error failure, t)) : q.Left s t := by
  rcases q.prepared_cases s with ⟨prepared, hq⟩ | ⟨target, rfl⟩ | ⟨sides, rfl⟩
  · have hrealizes := realizes_perform h hopen hq
    rw [hrun] at hrealizes
    exact hrealizes.of_error.2
  · have hrealizes := realizes_sparsityPattern h hopen target
    rw [run_eq_error_of_bind_pure hrun] at hrealizes
    exact hrealizes.of_error.2
  · have hevaluated := evaluated_evaluateEnclosure h sides
    rwa [run_eq_error_of_bind_pure hrun] at hevaluated

/-- If the gradient has been written, the entries of the sparse Hessian could not be placed. -/
theorem placement_of_unplaced (h : s.objective.Sound) (hopen : s.objective.closed = false)
    {x : GivenPoint α} {gradient : Handle} {position : Nat}
    (hrun : (Query.evaluateSparse x gradient (some position)).perform.run s = (.error failure, t))
    (hunplaced : Unplaced s x gradient t) :
    s.objective.hessianAllowed = .ok () ∧ s.objective.placement = .error failure := by
  obtain ⟨r, hsettled⟩ := hunplaced.settled
  have hrealizes := realizes_perform h hopen (q := .evaluateSparse x gradient (some position)) rfl
  rw [hrun, hsettled] at hrealizes
  constructor
  · exact allowed_of_sparseWork (eq_ok_of_settled hsettled)
  · have herror : (do let _ ← s.objective.placement) = .error failure := hrealizes.of_error.1
    obtain hplacement | ⟨-, -, hok⟩ := bind_eq_error_iff.1 herror
    · exact hplacement
    · cases hok

/-- A query that fails, in an open objective or a closed one, leaves all records as they were, but
for scratch values and for the entries of Hessian blocks if it asks for a Hessian. It writes nothing
to the caller's memory. Only an evaluation with a sparse Hessian may have written the gradient when
it fails for the sole reason that no matrix can be made of the Hessian's coordinates; this does not
happen as long as transforms ask for no negative dimensions and there is room for the starts of the
columns. -/
theorem Scene.Reached.unwritten_of_error (h : s.Reached)
    (hrun : q.perform.run s = (.error failure, t)) :
    s.SameRecords t ∧
      (q.asksHessian = false → t.objective.graph = s.objective.graph) ∧
      (t.memory = s.memory ∨ ∃ x block position sum,
        q = .evaluateSparse x (.array block) (some position) ∧
        s.objective.placement = .error failure ∧ t.memory = s.memory.store block sum) ∧
      (s.objective.Placeable → t.memory = s.memory) := by
  have hgraph (hq : q.asksHessian = false) : t.objective.graph = s.objective.graph := by
    have hkeeps := (keepsGraph_perform hq).of_run s rfl
    rwa [hrun] at hkeeps
  rcases hopen : s.objective.closed with - | -
  swap
  · obtain ⟨operation, hclosed⟩ := run_perform_of_closed q hopen
    obtain ⟨-, rfl⟩ := Prod.ext_iff.1 (hclosed.symm.trans hrun)
    exact ⟨.of_bare rfl, fun _ ↦ rfl, .inl rfl, fun _ ↦ rfl⟩
  have hsound := h.sound hopen
  rcases (left_of_error hsound hopen hrun).cases with ht | ⟨x, gradient, position, rfl, hunplaced⟩
  · exact ⟨.of_bare ht.bare, hgraph, .inl ht.memory, fun _ ↦ ht.memory⟩
  · obtain ⟨hallowed, hplacement⟩ := placement_of_unplaced hsound hopen hrun hunplaced
    obtain ⟨block, sum, rfl, ht⟩ := hunplaced.written
    refine ⟨.of_bare ht.bare, hgraph,
      .inr ⟨x, block, position, sum, rfl, hplacement, ht.memory⟩, ?_⟩
    intro hplaceable
    -- What can be placed has not failed to be.
    rw [hplaceable.placement_eq hsound (hessianAllowed_eq_ok_iff.1 hallowed).2] at hplacement
    cases hplacement

end Failed

namespace Small

open Objective

/-! ### What may be left behind -/

/-- A term that fails after it has written its second derivatives. -/
def stubborn : Term Int :=
  { squares with
    name := "Stubborn"
    secondOrder := fun arguments gradient hessian ↦
      { squares.secondOrder arguments gradient hessian with
        value := .error (.raised "ValueError" "boom") } }

/-- A pair with a stubborn term. -/
def stubbornScene : Scene Int :=
  Scene.after { objective, memory, events := [], platform }
    [.register (.array pair) .null none, .addTerm stubborn [.array pair]]

theorem reached_stubbornScene : stubbornScene.Reached := reached_after _

/-- A query with a stubborn term writes nothing to the caller's memory. -/
theorem unwritten_of_stubborn :
    ∃ failure t, (Query.valueGradientDense (.ok (.vector [1, 2]))).perform.run stubbornScene =
      (.error failure, t) ∧ t.memory = stubbornScene.memory ∧ stubbornScene.SameRecords t := by
  obtain ⟨failure, t, hrun⟩ : ∃ failure t,
      (Query.valueGradientDense (.ok (.vector [1, 2]))).perform.run stubbornScene =
        (.error failure, t) := ⟨_, _, Prod.ext rfl rfl⟩
  have htransforms : stubbornScene.objective.registry.entries.map Variable.transform = [none] := rfl
  have hplaceable : stubbornScene.objective.Placeable := by
    refine ⟨?_, Allocation.check_row (n := 3) (by decide)⟩
    intro v hv t ht
    simpa using Registry.some_mem_of_map_transform htransforms v hv t ht
  obtain ⟨hrecords, -, -, hmemory⟩ := reached_stubbornScene.unwritten_of_error hrun
  exact ⟨failure, t, hrun, hmemory hplaceable, hrecords⟩

/-- A transform that asks for a negative dimension. -/
def shrunk : Transform Int := { tripled with inputDimension := -2, outputDimension := 2 }

/-- The square of a single number. -/
def square : Term Int :=
  .total 3 "Square" [1] (fun arguments ↦ (arguments.flatten.map fun t ↦ t * t).sum)
    (fun arguments ↦ arguments.map fun argument ↦ argument.map fun t ↦ 2 * t)
    (fun _ ↦ [[[[2]]]]) fun _ ↦ Term.noEnclosure "Square"

/-- A block of five numbers. -/
def five : Block := { id := 7, shape := [5], cells := List.range' 0 5 }

/-- A term of a variable whose slice begins before the flat vector. -/
def shrunkScene : Scene Int :=
  Scene.after { objective, memory, events := [], platform }
    [.register (.array pair) .null (some shrunk), .register (.array single) .null none,
      .register (.array five) .null none, .addTerm square [.array single]]

theorem reached_shrunkScene : shrunkScene.Reached := reached_after _

/-- An evaluation with a sparse Hessian. -/
def sparseQuery : Query Int :=
  .evaluateSparse (.ok (.vector [1, 2, 3, 4])) (.array gradient) (some 0)

/-- A failed query with a Hessian changes the Hessian blocks of bindings, and one with a sparse
Hessian may change the gradient. -/
theorem changed_of_failed :
    stubbornScene.Reached ∧ shrunkScene.Reached ∧
      (∃ failure t, (Query.valueGradientDense (.ok (.vector [1, 2]))).perform.run stubbornScene =
        (.error failure, t) ∧
        stubbornScene.objective.graph.bindings.map Binding.hessianBlocks =
          [some [[[[0, 0], [0, 0]]]]] ∧
        t.objective.graph.bindings.map Binding.hessianBlocks = [some [[[[2, 0], [0, 2]]]]]) ∧
      ∃ failure t, sparseQuery.perform.run shrunkScene = (.error failure, t) ∧
        shrunkScene.memory.read gradient = [7, 7, 7, 7] ∧
        t.memory.read gradient = [0, 0, 6, 0] := by
  refine ⟨reached_stubbornScene, reached_shrunkScene, ?_, ?_⟩
  · exact ⟨_, _, Prod.ext rfl rfl, rfl, rfl⟩
  · have hread : (sparseQuery.perform.run shrunkScene).2.memory.read gradient = [0, 0, 6, 0] := by
      decide +kernel
    have hfailed : (sparseQuery.perform.run shrunkScene).1.isOk = false := by decide +kernel
    generalize sparseQuery.perform.run shrunkScene = ending at hread hfailed ⊢
    obtain ⟨failure | answer, t⟩ := ending
    · exact ⟨failure, t, rfl, rfl, hread⟩
    · cases hfailed

end Small

end Summand
