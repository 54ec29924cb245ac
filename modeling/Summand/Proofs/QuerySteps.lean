import Summand.Proofs.Building
import Summand.Proofs.Outcome

/-!
# What queries keep

A query is made of checks, of one evaluation at most, of the assembly of a matrix, and of writes to
the caller's memory. So an invariant outlasts every query (`Objective.Lasting.perform`) if
evaluations keep it, and if it is no matter of the other things that queries change: the memory, the
coordinates that are kept, the statistics, and the log (`Objective.Lasting`).
-/

namespace Summand.Objective

open Summand.Action

variable {α : Type} {I : Scene α → Prop}

/-! ### Assembly -/

section Assembly

variable (hcoordinates : ∀ s coordinates, I s →
  I { s with objective := { s.objective with coordinates } })

include hcoordinates

theorem keeps_ensureCoordinates : Keeps I (ensureCoordinates : Action α (List (Int × Int))) := by
  rw [ensureCoordinates]
  refine .bind .objective fun o ↦ ?_
  split
  · exact .pure _
  refine .bind (.liftM _) fun coordinates ↦ .bind ⟨?_⟩ fun _ ↦ .pure _
  exact fun s h ↦ hcoordinates s (some coordinates) h

/-- Assembling a matrix changes nothing but the coordinates that are kept. -/
theorem keeps_assembleSparse [Add α] (values : List α) : Keeps I (assembleSparse values) := by
  rw [assembleSparse]
  refine .bind (keeps_ensureCoordinates hcoordinates) fun coordinates ↦ .bind .objective fun o ↦ ?_
  dsimp only
  split
  · exact .throw_bind _ _
  split
  · exact .throw_bind _ _
  refine .bind (.liftM _) fun places ↦ .bind (.liftM _) fun _ ↦ .bind ⟨fun s h ↦ h⟩ fun _ ↦ .pure _

end Assembly

/-! ### Queries -/

theorem keeps_checkHessianAllowed : Keeps I (checkHessianAllowed : Action α Unit) :=
  ⟨fun s hs ↦ by rw [run_checkHessianAllowed]; exact hs⟩

variable [Zero α] [Add α] [Storable α]

/-- An invariant that evaluations keep, and that is no matter of the memory, of the coordinates, of
the statistics and of the log. -/
structure Lasting (I : Scene α → Prop) : Prop where
  memory : ∀ s memory, I s → I { s with memory }
  coordinates : ∀ s coordinates, I s → I { s with objective := { s.objective with coordinates } }
  statistics : ∀ s statistics, I s → I { s with objective := { s.objective with statistics } }
  logged : ∀ s level topic text, I s → I { s with events := s.events ++ [.logged level topic text] }
  value : ∀ x, Keeps I (evaluateValue x)
  workers : ∀ mode x, Keeps I (evaluateWorkers mode x)

namespace Lasting

variable (h : Lasting I)

include h

theorem modifyMemory (f : Memory α → Memory α) : Keeps I (modifyMemory f) :=
  keeps_modifyMemory h.memory f

theorem writeGradient (block : Block) (gradients : List (List α)) :
    Keeps I (writeGradient block gradients) :=
  .bind .objective fun _ ↦ h.modifyMemory _

theorem assembleTarget (values : List α) : Keeps I (assembleTarget values) :=
  .bind (keeps_assembleSparse h.coordinates values) fun _ ↦ .pure _

theorem sparsityPattern [OfNat α 1] (target : Option Nat) :
    Keeps I (sparsityPattern target : Action α _) := by
  rw [Objective.sparsityPattern]
  refine .bind (.checkOpen _) fun _ ↦ .bind .objective fun o ↦ ?_
  dsimp only
  split
  · exact .throw_bind _ _
  refine .bind (keeps_ensureCoordinates h.coordinates) fun c ↦
    .bind (h.assembleTarget _) fun assembled ↦ ?_
  split
  · exact .bind (h.modifyMemory _) fun _ ↦ .pure _
  · exact .pure _

theorem evaluateFresh (mode : Mode) (x : GivenPoint α) : Keeps I (evaluateFresh mode x) := by
  rw [Objective.evaluateFresh]
  refine .bind .objective fun o ↦ ?_
  have hrest : Keeps I (do
      let x ← checkPoint x
      let r ← evaluateWorkers mode x
      return (r.1, sumGradients .float64 o.totalScalars.toNat r.2)) :=
    .bind (keeps_checkPoint x) fun point ↦ .bind (h.workers mode point) fun _ ↦ .pure _
  split
  · exact .bind keeps_checkHessianAllowed fun _ ↦ hrest
  · exact hrest

theorem evaluateInto (x : GivenPoint α) (gradient : Handle) (hessian : Option Handle) :
    Keeps I (evaluateInto x gradient hessian) := by
  rcases hessian with - | hessian
  · rw [evaluateInto_none]
    refine .bind .objective fun o ↦ .bind (keeps_checkPoint x) fun point ↦ ?_
    refine .bind (.liftM _) fun block ↦ .bind (h.workers _ point) fun r ↦ ?_
    exact .bind (h.writeGradient _ _) fun _ ↦ .pure _
  · rw [evaluateInto_some]
    refine .bind keeps_checkHessianAllowed fun _ ↦ .bind .objective fun o ↦ ?_
    refine .bind (keeps_checkPoint x) fun point ↦ .bind (.liftM _) fun block ↦ ?_
    refine .bind (.liftM _) fun hessianBlock ↦ .bind (h.workers _ point) fun r ↦ ?_
    exact .bind (h.writeGradient _ _) fun _ ↦ .bind .objective fun _ ↦
      .bind (h.modifyMemory _) fun _ ↦ .pure _

theorem evaluate (x : GivenPoint α) (gradient hessian : Option Handle) :
    Keeps I (evaluate x gradient hessian) := by
  unfold Objective.evaluate
  refine .bind (.checkOpen _) fun _ ↦ ?_
  split
  · exact h.value _
  · exact h.evaluateInto _ _ _
  · refine .bind .objective fun o ↦ .bind (.liftM _) fun _ ↦ ?_
    refine .bind keeps_checkHessianAllowed fun _ ↦ .bind (keeps_checkPoint x) fun point ↦ ?_
    refine .bind (.liftM _) fun block ↦ .bind (h.workers _ _) fun r ↦ ?_
    exact .bind .objective fun _ ↦ .bind (h.modifyMemory _) fun _ ↦ .pure _

/-- An invariant that evaluations keep outlasts queries, whether they fail or not. -/
theorem perform [OfNat α 1] (q : Query α) : Keeps I q.perform := by
  cases q with
  | evaluate x gradient hessian => exact .bind (h.evaluate x gradient hessian) fun _ ↦ .pure _
  | evaluateUser => exact .bind (.bind (.checkOpen _) fun _ ↦ h.value none) fun _ ↦ .pure _
  | valueAndGradient x =>
    refine .bind (.bind (.checkOpen _) fun _ ↦ .bind .objective fun o ↦ ?_) fun _ ↦ .pure _
    exact .bind (.liftM _) fun _ ↦ h.evaluateFresh _ _
  | evaluateSparse x gradient target =>
    refine .bind (.bind (.checkOpen _) fun _ ↦ ?_) fun _ ↦ .pure _
    rcases target with - | position
    · exact .throw _
    refine .bind keeps_checkHessianAllowed fun _ ↦ .bind .objective fun o ↦ ?_
    refine .bind (keeps_checkPoint x) fun point ↦ .bind (.liftM _) fun block ↦ ?_
    refine .bind (h.workers _ _) fun r ↦ .bind (h.writeGradient _ _) fun _ ↦ ?_
    exact .bind .objective fun _ ↦ .bind (h.assembleTarget _) fun _ ↦
      .bind (h.modifyMemory _) fun _ ↦ .pure _
  | valueGradientSparse x =>
    refine .bind (.bind (.checkOpen _) fun _ ↦ .bind .objective fun o ↦ ?_) fun _ ↦ .pure _
    refine .bind (.liftM _) fun _ ↦ .bind (h.evaluateFresh _ _) fun _ ↦ ?_
    exact .bind .objective fun _ ↦ .bind (keeps_assembleSparse h.coordinates _) fun _ ↦ .pure _
  | valueGradientDense x =>
    refine .bind (.bind (.checkOpen _) fun _ ↦ .bind .objective fun o ↦ ?_) fun _ ↦ .pure _
    refine .bind (.liftM _) fun _ ↦ .bind (.liftM _) fun _ ↦ ?_
    exact .bind (h.evaluateFresh _ _) fun _ ↦ .bind .objective fun _ ↦ .pure _
  | sparsityPattern target => exact .bind (h.sparsityPattern target) fun _ ↦ .pure _
  | evaluateEnclosure sides =>
    exact .bind (keeps_evaluateEnclosure h.statistics h.logged sides) fun _ ↦ .pure _

end Lasting

end Summand.Objective
