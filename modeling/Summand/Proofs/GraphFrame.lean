import Summand.Proofs.Outcome

/-!
# Queries that leave the bindings alone

The blocks of second derivatives are stored with the bindings. An evaluation that computes none
leaves the graph exactly as it is, with all that is stored in it, whether it fails or not
(`keepsGraph_perform`). The operations it is made of are gone through one after another; only a
worker's step writes to a binding (`Worker.step_binding_eq`).
-/

namespace Summand

variable {α : Type}

/-! ### Workers -/

section Workers

variable [Zero α] [Add α] [Storable α]

/-- A step that computes no Hessian leaves the binding as it is. -/
theorem Worker.step_binding_eq {mode : Mode} (hmode : mode ≠ .hessian) (registry : Registry α)
    (x : List α) (b : Binding α) (w : Worker α) : (w.step mode registry x b).2 = b := by
  cases mode with
  | value => rfl
  | gradient =>
    have hblocks (arguments buffers : List (List α)) :
        { b with hessianBlocks := (b.derivatives .gradient arguments buffers).2.1 } = b := by
      obtain ⟨term, indices, - | blocks⟩ := b <;> rfl
    show (w.derivativeStep .gradient registry x b).2 = b
    unfold derivativeStep
    dsimp only
    split
    · exact hblocks _ _
    split
    · exact hblocks _ _
    · exact hblocks _ _
  | hessian => exact absurd rfl hmode

/-- Workers that compute no Hessians leave all bindings as they are. -/
theorem Crew.bindings_run_eq {mode : Mode} (hmode : mode ≠ .hessian) (registry : Registry α)
    (x : List α) (turns : List Nat) (crew : Crew α) :
    (crew.run mode registry x turns).bindings = crew.bindings := by
  have hstep (crew : Crew α) (position : Nat) :
      (crew.step mode registry x position).bindings = crew.bindings := by
    unfold step
    split
    · rfl
    split
    · rfl
    split
    · rfl
    rename_i w _ _ _ b hb
    obtain ⟨hlt, rfl⟩ := List.getElem?_eq_some_iff.1 hb
    show crew.bindings.set w.next (w.step mode registry x crew.bindings[w.next]).2 = _
    rw [Worker.step_binding_eq hmode, List.set_getElem_self]
  induction turns generalizing crew with
  | nil => rfl
  | cons position turns ih => exact (ih _).trans (hstep crew position)

end Workers

/-! ### Operations -/

namespace Objective

open Summand.Action

variable {g : Graph α}

/-- The graph is as it was. -/
abbrev KeepsGraph {β : Type} (g : Graph α) (a : Action α β) : Prop :=
  Keeps (fun s ↦ s.objective.graph = g) a

theorem keepsGraph_modifyObjective {f : Objective α → Objective α}
    (h : ∀ o, (f o).graph = o.graph) :
    KeepsGraph g (modifyObjective f) := ⟨fun s hs ↦ (h s.objective).trans hs⟩

theorem keepsGraph_checkPoint (x : GivenPoint α) : KeepsGraph g (checkPoint x) :=
  ⟨fun s hs ↦ by rw [run_checkPoint]; exact hs⟩

theorem keepsGraph_copyPointToScratch (x : List α) : KeepsGraph g (copyPointToScratch x) := by
  rw [copyPointToScratch]
  refine .bind .objective fun o ↦ .bind (keepsGraph_modifyObjective fun _ ↦ rfl) fun _ ↦ ?_
  split
  · exact .throw _
  · exact .pure _

theorem keepsGraph_ensureCoordinates : KeepsGraph g (ensureCoordinates : Action α _) := by
  rw [ensureCoordinates]
  refine .bind .objective fun o ↦ ?_
  split
  · exact .pure _
  · refine .bind (.liftM _) fun _ ↦ ?_
    exact .bind (keepsGraph_modifyObjective fun _ ↦ rfl) fun _ ↦ .pure _

section Storage

variable [Zero α]

theorem keepsGraph_ensureStorage : KeepsGraph g (ensureStorage : Action α _) := by
  rw [ensureStorage]
  refine .bind .objective fun o ↦ ?_
  split
  · exact .pure _
  · refine .bind (.liftM _) fun _ ↦ ?_
    exact .bind ⟨fun s hs ↦ hs⟩ fun _ ↦
      .bind (keepsGraph_modifyObjective fun _ ↦ rfl) fun _ ↦ .pure _

variable [Add α] [Storable α]

theorem keepsGraph_runWorkers {mode : Mode} (hmode : mode ≠ .hessian) (x : List α) :
    KeepsGraph g (runWorkers mode x) := by
  rw [runWorkers]
  refine .bind keepsGraph_ensureStorage fun storage ↦ ?_
  constructor
  intro s hs
  rw [run_objective_bind, run_platform_bind, run_modifyObjective_bind]
  refine (show KeepsGraph g _ from ?_).of_run _ ?_
  · split
    · exact .pure _
    · exact .bind ⟨fun s hs ↦ hs⟩ fun _ ↦ .throw _
  · dsimp only
    rw [Crew.bindings_run_eq hmode]
    exact hs

theorem keepsGraph_evaluateValue (x : Option (GivenPoint α)) :
    KeepsGraph g (evaluateValue x) := by
  rw [evaluateValue]
  refine .bind keepsGraph_ensureStorage fun _ ↦ ?_
  have hrest : KeepsGraph g (do
      modifyObjective (countPlain : Objective α → _); runWorkers .value []) :=
    .bind (keepsGraph_modifyObjective fun _ ↦ rfl) fun _ ↦ keepsGraph_runWorkers (by simp) []
  rcases x with - | x
  · refine .bind ?_ fun _ ↦ hrest
    exact .bind .memory fun _ ↦ .bind .objective fun _ ↦ keepsGraph_modifyObjective fun _ ↦ rfl
  · refine .bind (keepsGraph_checkPoint x) fun point ↦ ?_
    exact .bind (keepsGraph_copyPointToScratch point) fun _ ↦ hrest

theorem keepsGraph_evaluateWorkers (x : List α) : KeepsGraph g (evaluateWorkers .gradient x) := by
  rw [evaluateWorkers]
  refine .bind keepsGraph_ensureStorage fun _ ↦ .bind (keepsGraph_copyPointToScratch x) fun _ ↦ ?_
  refine .bind (keepsGraph_modifyObjective fun _ ↦ rfl) fun _ ↦ ?_
  refine .bind (keepsGraph_modifyObjective fun _ ↦ rfl) fun _ ↦ ?_
  exact .bind (keepsGraph_runWorkers (by simp) x) fun _ ↦ .bind .objective fun _ ↦ .pure _

end Storage

theorem keepsGraph_sparsityPattern [Add α] [OfNat α 1] (target : Option Nat) :
    KeepsGraph g (sparsityPattern target : Action α _) := by
  have hassemble (values : List α) : KeepsGraph g (assembleTarget values) := by
    rw [assembleTarget, assembleSparse]
    refine .bind (.bind keepsGraph_ensureCoordinates fun c ↦ .bind .objective fun o ↦ ?_)
      fun _ ↦ .pure _
    dsimp only
    split
    · exact .throw_bind _ _
    split
    · exact .throw_bind _ _
    exact .bind (.liftM _) fun _ ↦ .bind (.liftM _) fun _ ↦ .bind ⟨fun s hs ↦ hs⟩ fun _ ↦ .pure _
  rw [sparsityPattern]
  refine .bind (.checkOpen _) fun _ ↦ .bind .objective fun o ↦ ?_
  dsimp only
  split
  · exact .throw_bind _ _
  refine .bind keepsGraph_ensureCoordinates fun c ↦ .bind (hassemble _) fun assembled ↦ ?_
  split
  · exact .bind ⟨fun s hs ↦ hs⟩ fun _ ↦ .pure _
  · exact .pure _

end Objective

/-! ### Queries -/

/-- Whether a query asks for a Hessian. -/
def Query.asksHessian : Query α → Bool
  | .evaluate _ _ hessian => hessian.isSome
  | .evaluateSparse _ _ _ | .valueGradientSparse _ | .valueGradientDense _ => true
  | _ => false

open Summand.Action Objective in
/-- A query that asks for no Hessian leaves all bindings as they are. -/
theorem keepsGraph_perform [Zero α] [Add α] [OfNat α 1] [Storable α] {g : Graph α} {q : Query α}
    (h : q.asksHessian = false) :
    KeepsGraph g q.perform := by
  cases q with
  | evaluate x gradient hessian =>
    obtain rfl : hessian = none := by simpa [Query.asksHessian] using h
    refine .bind ?_ fun _ ↦ .pure _
    unfold evaluate
    refine .bind (.checkOpen _) fun _ ↦ ?_
    rcases gradient with - | gradient
    · exact keepsGraph_evaluateValue (some x)
    · dsimp only
      rw [evaluateInto_none]
      refine .bind .objective fun o ↦ .bind (keepsGraph_checkPoint x) fun point ↦ ?_
      refine .bind (.liftM _) fun block ↦ .bind (keepsGraph_evaluateWorkers point) fun r ↦ ?_
      exact .bind ⟨fun s hs ↦ hs⟩ fun _ ↦ .pure _
  | evaluateUser =>
    exact .bind (.bind (.checkOpen _) fun _ ↦ keepsGraph_evaluateValue none) fun _ ↦ .pure _
  | valueAndGradient x =>
    refine .bind (.bind (.checkOpen _) fun _ ↦ .bind .objective fun o ↦ ?_) fun _ ↦ .pure _
    refine .bind (.liftM _) fun _ ↦ .bind .objective fun o ↦ ?_
    refine .bind (keepsGraph_checkPoint x) fun point ↦ ?_
    exact .bind (keepsGraph_evaluateWorkers point) fun _ ↦ .pure _
  | sparsityPattern target => exact .bind (keepsGraph_sparsityPattern target) fun _ ↦ .pure _
  | evaluateEnclosure sides =>
    exact .bind (keeps_evaluateEnclosure (fun _ _ h ↦ h) (fun _ _ _ _ h ↦ h) sides) fun _ ↦ .pure _
  | evaluateSparse x gradient target => cases h
  | valueGradientSparse x => cases h
  | valueGradientDense x => cases h

end Summand
