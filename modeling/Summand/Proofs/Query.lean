import Summand.Objective.Enclosure
import Summand.Proofs.Direct

/-!
# Queries

A query asks an open objective for values, derivatives, patterns or enclosures (`Query`). Two scenes
are alike if their objectives are the same but for what evaluations leave behind and for the number
of workers, and if the same has been written to their memories (`Scene.Alike`).

A query can tell two such scenes apart by nothing but its evaluation. If the evaluations agree
(`Scene.Agree`), the query gets the same answer in both, writes the same, and leaves alike scenes
(`Scene.Alike.related_perform`).
-/

namespace Summand

variable {α : Type}

/-! ### Queries and answers -/

/-- What a caller can ask of an objective. -/
inductive Query (α : Type) where
  | evaluate (x : GivenPoint α) (gradient hessian : Option Handle)
  | evaluateUser
  | valueAndGradient (x : GivenPoint α)
  | evaluateSparse (x : GivenPoint α) (gradient : Handle) (target : Option Nat)
  | valueGradientSparse (x : GivenPoint α)
  | valueGradientDense (x : GivenPoint α)
  | sparsityPattern (target : Option Nat)
  | evaluateEnclosure (sides : List BoxSide)

/-- What an objective answers. -/
inductive Answer (α : Type) where
  | value (value : α)
  | valueGradient (value : α) (gradient : List α)
  | sparse (value : α) (gradient : List α) (hessian : SparseMatrix α)
  | dense (value : α) (gradient : List α) (hessian : List (List α))
  | pattern (matrix : SparseMatrix α)
  | enclosure (interval : Interval)

section Perform

variable [Zero α] [Add α] [OfNat α 1] [Storable α]

/-- Puts a query to the objective. -/
def Query.perform : Query α → Action α (Answer α)
  | .evaluate x gradient hessian => return .value (← Objective.evaluate x gradient hessian)
  | .evaluateUser => return .value (← Objective.evaluateUser)
  | .valueAndGradient x => do
    let (value, gradient) ← Objective.valueAndGradient x
    return .valueGradient value gradient
  | .evaluateSparse x gradient target =>
    return .value (← Objective.evaluateSparse x gradient target)
  | .valueGradientSparse x => do
    let (value, gradient, hessian) ← Objective.valueGradientSparse x
    return .sparse value gradient hessian
  | .valueGradientDense x => do
    let (value, gradient, hessian) ← Objective.valueGradientDense x
    return .dense value gradient hessian
  | .sparsityPattern target => return .pattern (← Objective.sparsityPattern target)
  | .evaluateEnclosure sides => return .enclosure (← Objective.evaluateEnclosure sides)

end Perform

/-! ### Writes -/

namespace Memory

/-- A write to the caller's memory. -/
inductive Write (α : Type) where
  | store (block : Block) (values : List α)
  | setTarget (position : Nat) (target : HessianTarget α)

variable [Storable α]

/-- The memory after a write. -/
def write (m : Memory α) : Write α → Memory α
  | .store block values => m.store block values
  | .setTarget position target => m.setTarget position target

/-- The memory after one write after another. -/
def writeAll (m : Memory α) (writes : List (Write α)) : Memory α := writes.foldl write m

/-- The same writes have led from each of two memories to another. -/
def SameWrites (m m' : Memory α) (n n' : Memory α) : Prop :=
  ∃ writes : List (Write α), n = m.writeAll writes ∧ n' = m'.writeAll writes

variable {m m' n n' : Memory α}

theorem SameWrites.refl (m m' : Memory α) : SameWrites m m' m m' := ⟨[], rfl, rfl⟩

theorem SameWrites.write (h : SameWrites m m' n n') (w : Write α) :
    SameWrites m m' (n.write w) (n'.write w) := by
  obtain ⟨writes, rfl, rfl⟩ := h
  exact ⟨writes ++ [w], by simp [writeAll], by simp [writeAll]⟩

/-- The same writes to the same memory lead to the same memory. -/
theorem SameWrites.eq (h : SameWrites m m n n') : n = n' := by
  obtain ⟨writes, rfl, rfl⟩ := h
  rfl

end Memory

/-! ### What the steps of a query read -/

namespace Objective

open Summand.Action

variable [Zero α] [Add α] [Storable α]

theorem evaluateInto_none (x : GivenPoint α) (gradient : Handle) :
    evaluateInto x gradient none = (do
      let o ← objective
      let point ← checkPoint x
      let block ← checkOutput "gradient" [o.totalScalars] gradient
      let (value, gradients) ← evaluateWorkers .gradient point
      writeGradient block gradients
      return value : Action α α) := rfl

theorem evaluateInto_some (x : GivenPoint α) (gradient hessian : Handle) :
    evaluateInto x gradient (some hessian) = (do
      checkHessianAllowed
      let o ← objective
      let point ← checkPoint x
      let block ← checkOutput "gradient" [o.totalScalars] gradient
      let hessianBlock ← checkOutput "hessian" [o.totalScalars, o.totalScalars] hessian
      let (value, gradients) ← evaluateWorkers .hessian point
      writeGradient block gradients
      let o ← objective
      modifyMemory (·.store hessianBlock (assembleDense hessianBlock.element o).flatten)
      return value : Action α α) := by
  simp only [evaluateInto, Option.isSome_some, if_true, Option.mapM_some, bind_map_left]

theorem run_writeGradient_bind {β : Type} (block : Block) (gradients : List (List α))
    (f : Unit → Action α β) (s : Scene α) :
    (writeGradient block gradients >>= f).run s =
      (f ()).run { s with memory := s.memory.write (.store block
        (sumGradients block.element s.objective.totalScalars.toNat gradients)) } := rfl

omit [Zero α] [Add α] [Storable α] in
/-- Results can be written to a writeable array of floating-point numbers of the right shape. -/
theorem checkOutput_eq_ok_iff {name : String} {expected : List Int} {handle : Handle}
    {block : Block} : checkOutput name expected handle = .ok block ↔ handle = .array block ∧
      block.sizes = expected ∧ block.element.isFloating = true ∧ block.writeable = true := by
  cases handle with
  | object typeName => simp [checkOutput]
  | array given =>
    rw [checkOutput]
    constructor
    · intro h
      split at h
      · cases h
      split at h
      · cases h
      split at h
      · cases h
      cases h
      simp_all
    · rintro ⟨h, hsizes, hfloating, hwriteable⟩
      cases h
      simp [hsizes, hfloating, hwriteable]

/-- The dense Hessian is read off the blocks of the bindings and the places of the variables. -/
theorem assembleDense_congr {o o' : Objective α} (hregistry : o.registry = o'.registry)
    (hbindings : o.graph.bindings = o'.graph.bindings) (element : ElementType) :
    assembleDense element o = assembleDense element o' := by
  rw [assembleDense, assembleDense, hbindings, hregistry, totalScalars, totalScalars, hregistry]

omit [Zero α] [Add α] [Storable α] in
theorem blockValues_congr {o o' : Objective α} (h : o.graph.bindings = o'.graph.bindings) :
    blockValues o = blockValues o' := by
  rw [blockValues, blockValues, h]

omit [Add α] [Storable α] in
/-- An enclosure reads the places of the variables and the terms. -/
theorem addEnclosure_congr {registry registry' : Registry α} {b b' : Binding α}
    (hvars : (Graph.argumentVariables registry b).map Variable.bare =
      (Graph.argumentVariables registry' b').map Variable.bare)
    (hterm : b.term = b'.term) (box : List Interval) (sum : Interval) :
    addEnclosure registry box sum b = addEnclosure registry' box sum b' := by
  have hslice (vars : List (Variable α)) :
      vars.map (Variable.slice · box) = (vars.map Variable.bare).map (Variable.slice · box) := by
    rw [List.map_map]
    rfl
  rw [addEnclosure, addEnclosure, hterm, hslice, hvars, ← hslice]

/-! ### Coordinates -/

omit [Add α] [Storable α] in
/-- The coordinates are those of an enumeration, whether they have been kept or not. -/
theorem run_ensureCoordinates {s : Scene α} (h : s.objective.Sound) :
    ensureCoordinates.run s =
      match enumerateCoordinates s.objective with
      | .ok coordinates =>
        (.ok coordinates,
          { s with objective := { s.objective with coordinates := some coordinates } })
      | .error failure => (.error failure, s) := by
  rw [ensureCoordinates, run_objective_bind]
  rcases hc : s.objective.coordinates with - | coordinates
  · dsimp only
    rw [run_bind, run_liftM]
    cases enumerateCoordinates s.objective <;> rfl
  · have hsame : ({ s.objective with coordinates := some coordinates } : Objective α) =
        s.objective := by rw [← hc]
    rw [h.coordinates coordinates hc]
    dsimp only
    rw [hsame]
    rfl

omit [Add α] [Storable α] in
/-- Keeping the coordinates of an enumeration keeps an objective sound. -/
theorem sound_coordinates {s : Scene α} (h : s.objective.Sound) {coordinates : List (Int × Int)}
    (hc : enumerateCoordinates s.objective = .ok coordinates) :
    ({ s.objective with coordinates := some coordinates } : Objective α).Sound :=
  h.of_bare rfl rfl h.storage fun c h ↦ by cases h; exact hc

end Objective

/-! ### Alike scenes -/

variable [Zero α] [Storable α]

/-- Two scenes differ in what evaluations leave behind, in the number of workers and in the order of
their turns, and the same has been written to their memories. -/
structure Scene.Alike (m m' : Memory α) (s t : Scene α) : Prop where
  bare : s.objective.bare = t.objective.bare
  kept : s.objective.Kept
  kept' : t.objective.Kept
  arrangement : s.platform.arrangement = t.platform.arrangement
  memory : Memory.SameWrites m m' s.memory t.memory

/-- The results of two evaluations with derivatives agree: the values and the sums of the gradients
are the same, and so are the Hessian blocks if they have been computed. -/
structure SameResult [Add α] (mode : Mode) (n : Int) (m m' : Memory α) (r r' : α × List (List α))
    (s t : Scene α) : Prop where
  value : r.1 = r'.1
  total : s.objective.totalScalars = n
  gradient : ∀ element, Objective.sumGradients element n.toNat r.2 =
    Objective.sumGradients element n.toNat r'.2
  registry : s.objective.registry = t.objective.registry
  bindings : mode = .hessian → s.objective.graph.bindings = t.objective.graph.bindings
  alike : Scene.Alike m m' s t
  isOpen : s.objective.closed = false

/-- The evaluations in two scenes agree. Those at the values of the caller's blocks do so if the
memories are the same. -/
structure Scene.Agree [Add α] (E : Failure → Failure → Scene α → Scene α → Prop) (m m' : Memory α)
    (s t : Scene α) : Prop where
  workers : ∀ {mode : Mode}, mode ≠ .value → ∀ x : List α,
    Related E (SameResult mode s.objective.totalScalars m m')
      ((Objective.evaluateWorkers mode x).run s) ((Objective.evaluateWorkers mode x).run t)
  value : ∀ x : Option (GivenPoint α), (x = none → m = m') →
    Related E (fun r r' s t ↦ r = r' ∧ Scene.Alike m m' s t)
      ((Objective.evaluateValue x).run s) ((Objective.evaluateValue x).run t)

namespace Scene.Alike

open Summand.Action Objective

variable {m m' : Memory α} {s t : Scene α} {E : Failure → Failure → Scene α → Scene α → Prop}

theorem totalScalars (h : Alike m m' s t) : s.objective.totalScalars = t.objective.totalScalars :=
  totalScalars_eq_of_bare h.bare

/-! ### Checks -/

/-- The same variable is the first one with a transform, if there is one. -/
theorem firstTransformed_cases (h : Alike m m' s t) :
    (Registry.firstTransformed (s.objective.graph.boundVariables s.objective.registry) = none ∧
        Registry.firstTransformed (t.objective.graph.boundVariables t.objective.registry) = none) ∨
      ∃ v w, Registry.firstTransformed
          (s.objective.graph.boundVariables s.objective.registry) = some v ∧
        Registry.firstTransformed
          (t.objective.graph.boundVariables t.objective.registry) = some w ∧ v.index = w.index := by
  have hindex := firstTransformed_index s.objective
  rw [h.bare, ← firstTransformed_index t.objective] at hindex
  rcases hs : Registry.firstTransformed
    (s.objective.graph.boundVariables s.objective.registry) with - | v <;>
  rcases ht : Registry.firstTransformed
    (t.objective.graph.boundVariables t.objective.registry) with - | w <;> rw [hs, ht] at hindex
  · exact .inl ⟨rfl, rfl⟩
  · cases hindex
  · cases hindex
  · exact .inr ⟨v, w, rfl, rfl, Option.some.inj hindex⟩

variable (hE : ∀ failure s t, Alike m m' s t → E failure failure s t)

include hE

/-- An operation starts in two open, sound objectives, or fails in two closed ones. -/
theorem related_checkOpen (h : Alike m m' s t) (operation : String) :
    Related E (fun _ _ s' t' ↦ s = s' ∧ t = t' ∧ s.objective.closed = false)
      ((checkOpen operation).run s) ((checkOpen operation).run t) := by
  have hclosed := closed_eq_of_bare h.bare
  rcases hs : s.objective.closed with - | -
  · rw [run_checkOpen_of_open _ hs, run_checkOpen_of_open _ (hclosed ▸ hs)]
    exact .ok ⟨rfl, rfl, rfl⟩
  · rw [run_checkOpen_of_closed _ hs, run_checkOpen_of_closed _ (hclosed ▸ hs)]
    exact .error (hE _ _ _ h)

theorem related_checkHessianAllowed (h : Alike m m' s t) :
    Related E (fun _ _ s' t' ↦ s = s' ∧ t = t') (checkHessianAllowed.run s)
      (checkHessianAllowed.run t) := by
  rw [checkHessianAllowed, run_objective_bind, run_objective_bind, allowsHessian_eq_of_bare h.bare]
  dsimp only
  split
  · exact .error (hE _ _ _ h)
  · obtain ⟨hs, ht⟩ | ⟨v, w, hs, ht, hindex⟩ := h.firstTransformed_cases
    · rw [hs, ht]
      exact .ok ⟨rfl, rfl⟩
    · rw [hs, ht]
      dsimp only
      rw [hindex]
      exact .error (hE _ _ _ h)

theorem related_checkPoint (h : Alike m m' s t) (x : GivenPoint α) :
    Related E (fun r r' s' t' ↦ r = r' ∧ s = s' ∧ t = t') ((checkPoint x).run s)
      ((checkPoint x).run t) := by
  rw [run_checkPoint, run_checkPoint, h.totalScalars]
  exact .same _ fun failure ↦ hE failure s t h

theorem related_liftM {β : Type} (h : Alike m m' s t) (result : Except Failure β) :
    Related E (fun r r' s' t' ↦ r = r' ∧ s = s' ∧ t = t') ((liftM result : Action α β).run s)
      ((liftM result : Action α β).run t) :=
  .same result fun failure ↦ hE failure s t h

/-! ### Assembly -/

theorem related_ensureCoordinates (h : Alike m m' s t) (hopen : s.objective.closed = false) :
    Related E (fun r r' s' t' ↦ r = r' ∧ Alike m m' s' t' ∧ s'.objective.closed = false)
      (ensureCoordinates.run s) (ensureCoordinates.run t) := by
  have hsound := h.kept.sound hopen
  have hsound' := h.kept'.sound (closed_eq_of_bare h.bare ▸ hopen)
  have heq := enumerateCoordinates_eq_of_bare h.bare
  rw [run_ensureCoordinates hsound, run_ensureCoordinates hsound', ← heq]
  rcases hc : enumerateCoordinates s.objective with failure | coordinates
  · exact .error (hE _ _ _ h)
  · exact .ok ⟨rfl, ⟨h.bare, .inr (sound_coordinates hsound hc),
      .inr (sound_coordinates hsound' (heq ▸ hc)), h.arrangement, h.memory⟩, hopen⟩

theorem related_assembleSparse [Add α] (h : Alike m m' s t) (hopen : s.objective.closed = false)
    (values : List α) :
    Related E (fun r r' s' t' ↦ r = r' ∧ Alike m m' s' t') ((assembleSparse values).run s)
      ((assembleSparse values).run t) := by
  rw [assembleSparse]
  refine (h.related_ensureCoordinates hE hopen).bind fun coordinates _ s t ⟨rfl, h, hopen⟩ ↦ ?_
  rw [run_objective_bind, run_objective_bind, h.totalScalars]
  dsimp only
  split
  · exact .error (hE _ _ _ h)
  split
  · exact .error (hE _ _ _ h)
  refine (h.related_liftM hE _).bind fun placed _ s' t' ⟨hp, hs', ht'⟩ ↦ ?_
  subst hp hs' ht'
  refine (h.related_liftM hE _).bind fun _ _ s' t' ⟨_, hs', ht'⟩ ↦ ?_
  subst hs' ht'
  rw [run_platform_bind, run_platform_bind, h.arrangement]
  exact .ok ⟨rfl, h⟩

theorem related_assembleTarget [Add α] (h : Alike m m' s t) (hopen : s.objective.closed = false)
    (values : List α) :
    Related E (fun r r' s' t' ↦ r = r' ∧ Alike m m' s' t') ((assembleTarget values).run s)
      ((assembleTarget values).run t) := by
  rw [assembleTarget]
  refine (h.related_assembleSparse hE hopen values).bind fun matrix _ s t ⟨rfl, h⟩ ↦ ?_
  exact .ok ⟨rfl, h⟩

omit hE in
theorem write (h : Alike m m' s t) (w : Memory.Write α) :
    Alike m m' { s with memory := s.memory.write w } { t with memory := t.memory.write w } :=
  ⟨h.bare, h.kept, h.kept', h.arrangement, h.memory.write w⟩

end Scene.Alike

/-! ### Evaluations -/

namespace SameResult

variable [Add α]

open Summand.Action Objective

variable {m m' : Memory α} {s t : Scene α} {mode : Mode} {n : Int} {r r' : α × List (List α)}

theorem write (h : SameResult mode n m m' r r' s t) (w : Memory.Write α) :
    SameResult mode n m m' r r' { s with memory := s.memory.write w }
      { t with memory := t.memory.write w } :=
  ⟨h.value, h.total, h.gradient, h.registry, h.bindings, h.alike.write w, h.isOpen⟩

/-- The same gradient is written in both scenes. -/
theorem related_writeGradient {E : Failure → Failure → Scene α → Scene α → Prop} {β : Type}
    {Q : β → β → Scene α → Scene α → Prop} {f g : Unit → Action α β}
    (h : SameResult mode n m m' r r' s t) (block : Block)
    (hnext : ∀ s t, SameResult mode n m m' r r' s t → Related E Q ((f ()).run s) ((g ()).run t)) :
    Related E Q ((writeGradient block r.2 >>= f).run s)
      ((writeGradient block r'.2 >>= g).run t) := by
  rw [run_writeGradient_bind, run_writeGradient_bind, ← h.alike.totalScalars, h.total,
    ← h.gradient]
  exact hnext _ _ (h.write _)

end SameResult

namespace Scene.Alike

open Summand.Action Objective

variable {m m' : Memory α} {s t : Scene α} {E : Failure → Failure → Scene α → Scene α → Prop}
  [Add α] (hE : ∀ failure s t, Alike m m' s t → E failure failure s t)

include hE

/-- The value and the gradient are written alike. -/
theorem related_evaluateInto (h : Alike m m' s t) (agree : Agree E m m' s t) (x : GivenPoint α)
    (gradient : Handle) (hessian : Option Handle) :
    Related E (fun r r' s' t' ↦ r = r' ∧ Alike m m' s' t')
      ((evaluateInto x gradient hessian).run s) ((evaluateInto x gradient hessian).run t) := by
  cases hessian with
  | none =>
    rw [evaluateInto_none, run_objective_bind, run_objective_bind, h.totalScalars]
    refine (h.related_checkPoint hE x).bind fun point _ _ _ ⟨rfl, rfl, rfl⟩ ↦ ?_
    refine (h.related_liftM hE _).bind fun block _ _ _ ⟨rfl, rfl, rfl⟩ ↦ ?_
    refine (agree.workers (by simp) point).bind fun r r' s t hr ↦ ?_
    exact hr.related_writeGradient block fun s t hr ↦ .ok ⟨hr.value, hr.alike⟩
  | some hessian =>
    rw [evaluateInto_some]
    refine (h.related_checkHessianAllowed hE).bind fun _ _ _ _ ⟨rfl, rfl⟩ ↦ ?_
    rw [run_objective_bind, run_objective_bind, h.totalScalars]
    refine (h.related_checkPoint hE x).bind fun point _ _ _ ⟨rfl, rfl, rfl⟩ ↦ ?_
    refine (h.related_liftM hE _).bind fun block _ _ _ ⟨rfl, rfl, rfl⟩ ↦ ?_
    refine (h.related_liftM hE _).bind fun hessianBlock _ _ _ ⟨rfl, rfl, rfl⟩ ↦ ?_
    refine (agree.workers (by simp) point).bind fun r r' s t hr ↦ ?_
    refine hr.related_writeGradient block fun s t hr ↦ ?_
    rw [run_objective_bind, run_objective_bind, run_modifyMemory_bind, run_modifyMemory_bind,
      assembleDense_congr hr.registry (hr.bindings rfl)]
    exact .ok ⟨hr.value, hr.alike.write (.store hessianBlock _)⟩

/-- The same value and the same new gradient are returned. -/
theorem related_evaluateFresh (h : Alike m m' s t) (agree : Agree E m m' s t) {mode : Mode}
    (hmode : mode ≠ .value) (x : GivenPoint α) :
    Related E (fun r r' s' t' ↦ r = r' ∧ Alike m m' s' t' ∧ s'.objective.closed = false ∧
        s'.objective.registry = t'.objective.registry ∧
        (mode = .hessian → s'.objective.graph.bindings = t'.objective.graph.bindings))
      ((evaluateFresh mode x).run s) ((evaluateFresh mode x).run t) := by
  have hrest : Related E (fun r r' s' t' ↦ r = r' ∧ Alike m m' s' t' ∧
        s'.objective.closed = false ∧ s'.objective.registry = t'.objective.registry ∧
        (mode = .hessian → s'.objective.graph.bindings = t'.objective.graph.bindings))
      ((do
        let x ← checkPoint x
        let (value, gradients) ← evaluateWorkers mode x
        return (value, sumGradients .float64 s.objective.totalScalars.toNat gradients)).run s)
      ((do
        let x ← checkPoint x
        let (value, gradients) ← evaluateWorkers mode x
        return (value, sumGradients .float64 s.objective.totalScalars.toNat gradients)).run t) := by
    refine (h.related_checkPoint hE x).bind fun point _ _ _ ⟨rfl, rfl, rfl⟩ ↦ ?_
    refine (agree.workers hmode point).bind fun r r' s t hr ↦ ?_
    exact .ok ⟨Prod.ext hr.value (hr.gradient _), hr.alike, hr.isOpen, hr.registry, hr.bindings⟩
  rw [evaluateFresh, run_objective_bind, run_objective_bind, ← h.totalScalars]
  dsimp only
  split
  · refine (h.related_checkHessianAllowed hE).bind fun _ _ _ _ ⟨rfl, rfl⟩ ↦ ?_
    exact hrest
  · exact hrest

theorem related_evaluate (h : Alike m m' s t)
    (agree : s.objective.closed = false → Agree E m m' s t) (x : GivenPoint α)
    (gradient hessian : Option Handle) :
    Related E (fun r r' s' t' ↦ r = r' ∧ Alike m m' s' t')
      ((evaluate x gradient hessian).run s) ((evaluate x gradient hessian).run t) := by
  unfold evaluate
  refine (h.related_checkOpen hE _).bind fun _ _ _ _ ⟨rfl, rfl, hopen⟩ ↦ ?_
  rcases gradient with - | gradient
  · rcases hessian with - | hessian
    · exact (agree hopen).value (some x) (by simp)
    · dsimp only
      rw [run_objective_bind, run_objective_bind, h.totalScalars]
      refine (h.related_liftM hE _).bind fun _ _ _ _ ⟨_, rfl, rfl⟩ ↦ ?_
      refine (h.related_checkHessianAllowed hE).bind fun _ _ _ _ ⟨rfl, rfl⟩ ↦ ?_
      refine (h.related_checkPoint hE x).bind fun point _ _ _ ⟨rfl, rfl, rfl⟩ ↦ ?_
      refine (h.related_liftM hE _).bind fun block _ _ _ ⟨rfl, rfl, rfl⟩ ↦ ?_
      refine ((agree hopen).workers (by simp) point).bind fun r r' s t hr ↦ ?_
      obtain ⟨value, gradients⟩ := r
      obtain ⟨value', gradients'⟩ := r'
      dsimp only
      rw [run_objective_bind, run_objective_bind, run_modifyMemory_bind, run_modifyMemory_bind,
        assembleDense_congr hr.registry (hr.bindings rfl)]
      exact .ok ⟨hr.value, hr.alike.write (.store block _)⟩
  · exact h.related_evaluateInto hE (agree hopen) x gradient hessian

theorem related_evaluateUser (h : Alike m m' s t)
    (agree : s.objective.closed = false → Agree E m m' s t) (hm : m = m') :
    Related E (fun r r' s' t' ↦ r = r' ∧ Alike m m' s' t') (evaluateUser.run s)
      (evaluateUser.run t) := by
  rw [evaluateUser]
  refine (h.related_checkOpen hE _).bind fun _ _ _ _ ⟨rfl, rfl, hopen⟩ ↦ ?_
  exact (agree hopen).value none fun _ ↦ hm

theorem related_valueAndGradient (h : Alike m m' s t)
    (agree : s.objective.closed = false → Agree E m m' s t) (x : GivenPoint α) :
    Related E (fun r r' s' t' ↦ r = r' ∧ Alike m m' s' t') ((valueAndGradient x).run s)
      ((valueAndGradient x).run t) := by
  rw [valueAndGradient]
  refine (h.related_checkOpen hE _).bind fun _ _ _ _ ⟨rfl, rfl, hopen⟩ ↦ ?_
  rw [run_objective_bind, run_objective_bind, h.totalScalars]
  refine (h.related_liftM hE _).bind fun _ _ _ _ ⟨_, rfl, rfl⟩ ↦ ?_
  exact (h.related_evaluateFresh hE (agree hopen) (by simp) x).mono (fun _ _ _ _ h ↦ h)
    fun _ _ _ _ ⟨hr, h, _⟩ ↦ ⟨hr, h⟩

theorem related_evaluateSparse (h : Alike m m' s t)
    (agree : s.objective.closed = false → Agree E m m' s t) (x : GivenPoint α) (gradient : Handle)
    (target : Option Nat) :
    Related E (fun r r' s' t' ↦ r = r' ∧ Alike m m' s' t')
      ((evaluateSparse x gradient target).run s) ((evaluateSparse x gradient target).run t) := by
  unfold evaluateSparse
  refine (h.related_checkOpen hE _).bind fun _ _ _ _ ⟨rfl, rfl, hopen⟩ ↦ ?_
  rcases target with - | position
  · exact .error (hE _ _ _ h)
  refine (h.related_checkHessianAllowed hE).bind fun _ _ _ _ ⟨rfl, rfl⟩ ↦ ?_
  rw [run_objective_bind, run_objective_bind, h.totalScalars]
  refine (h.related_checkPoint hE x).bind fun point _ _ _ ⟨rfl, rfl, rfl⟩ ↦ ?_
  refine (h.related_liftM hE _).bind fun block _ _ _ ⟨rfl, rfl, rfl⟩ ↦ ?_
  refine ((agree hopen).workers (by simp) point).bind fun r r' s t hr ↦ ?_
  refine hr.related_writeGradient block fun s t hr ↦ ?_
  rw [run_objective_bind, run_objective_bind, blockValues_congr (hr.bindings rfl)]
  refine (hr.alike.related_assembleTarget hE hr.isOpen _).bind fun target _ s t ⟨rfl, h⟩ ↦ ?_
  exact .ok ⟨hr.value, h.write (.setTarget position target)⟩

theorem related_valueGradientSparse (h : Alike m m' s t)
    (agree : s.objective.closed = false → Agree E m m' s t) (x : GivenPoint α) :
    Related E (fun r r' s' t' ↦ r = r' ∧ Alike m m' s' t') ((valueGradientSparse x).run s)
      ((valueGradientSparse x).run t) := by
  rw [valueGradientSparse]
  refine (h.related_checkOpen hE _).bind fun _ _ _ _ ⟨rfl, rfl, hopen⟩ ↦ ?_
  rw [run_objective_bind, run_objective_bind, h.totalScalars]
  refine (h.related_liftM hE _).bind fun _ _ _ _ ⟨_, rfl, rfl⟩ ↦ ?_
  refine (h.related_evaluateFresh hE (agree hopen) (by simp) x).bind
    fun r _ s t ⟨rfl, h, hopen, hregistry, hbindings⟩ ↦ ?_
  obtain ⟨value, gradient⟩ := r
  dsimp only
  rw [run_objective_bind, run_objective_bind, blockValues_congr (hbindings rfl)]
  refine (h.related_assembleSparse hE hopen _).bind fun matrix _ s t ⟨rfl, h⟩ ↦ ?_
  exact .ok ⟨rfl, h⟩

theorem related_valueGradientDense (h : Alike m m' s t)
    (agree : s.objective.closed = false → Agree E m m' s t) (x : GivenPoint α) :
    Related E (fun r r' s' t' ↦ r = r' ∧ Alike m m' s' t') ((valueGradientDense x).run s)
      ((valueGradientDense x).run t) := by
  rw [valueGradientDense]
  refine (h.related_checkOpen hE _).bind fun _ _ _ _ ⟨rfl, rfl, hopen⟩ ↦ ?_
  rw [run_objective_bind, run_objective_bind, h.totalScalars]
  refine (h.related_liftM hE _).bind fun _ _ _ _ ⟨_, rfl, rfl⟩ ↦ ?_
  refine (h.related_liftM hE _).bind fun _ _ _ _ ⟨_, rfl, rfl⟩ ↦ ?_
  refine (h.related_evaluateFresh hE (agree hopen) (by simp) x).bind
    fun r _ s t ⟨rfl, h, hopen, hregistry, hbindings⟩ ↦ ?_
  obtain ⟨value, gradient⟩ := r
  dsimp only
  rw [run_objective_bind, run_objective_bind, assembleDense_congr hregistry (hbindings rfl)]
  exact .ok ⟨rfl, h⟩

/-! ### Patterns and enclosures -/

theorem related_sparsityPattern [OfNat α 1] (h : Alike m m' s t) (target : Option Nat) :
    Related E (fun r r' s' t' ↦ r = r' ∧ Alike m m' s' t') ((sparsityPattern target).run s)
      ((sparsityPattern target).run t) := by
  rw [sparsityPattern]
  refine (h.related_checkOpen hE _).bind fun _ _ _ _ ⟨rfl, rfl, hopen⟩ ↦ ?_
  rw [run_objective_bind, run_objective_bind]
  dsimp only
  obtain ⟨hs, ht⟩ | ⟨v, w, hs, ht, hindex⟩ := h.firstTransformed_cases
  · rw [hs, ht]
    refine (h.related_ensureCoordinates hE hopen).bind fun coordinates _ s t ⟨rfl, h, hopen⟩ ↦ ?_
    refine (h.related_assembleTarget hE hopen _).bind fun assembled _ s t ⟨rfl, h⟩ ↦ ?_
    cases target with
    | none => exact .ok ⟨rfl, h⟩
    | some position => exact .ok ⟨rfl, h.write (.setTarget position assembled)⟩
  · rw [hs, ht]
    dsimp only
    rw [hindex]
    exact .error (hE _ _ _ h)

omit [Add α] in
theorem related_evaluateEnclosure (h : Alike m m' s t) (sides : List BoxSide) :
    Related E (fun r r' s' t' ↦ r = r' ∧ Alike m m' s' t') ((evaluateEnclosure sides).run s)
      ((evaluateEnclosure sides).run t) := by
  rw [evaluateEnclosure]
  refine (h.related_checkOpen hE _).bind fun _ _ _ _ ⟨rfl, rfl, hopen⟩ ↦ ?_
  rw [run_objective_bind, run_objective_bind, h.totalScalars]
  dsimp only
  split
  · exact .error (hE _ _ _ h)
  obtain ⟨hs, ht⟩ | ⟨v, w, hs, ht, hindex⟩ := h.firstTransformed_cases
  swap
  · rw [hs, ht]
    dsimp only
    rw [hindex]
    exact .error (hE _ _ _ h)
  rw [hs, ht]
  dsimp only
  have hsides : Related E (fun r r' s' t' ↦ r = r' ∧ s = s' ∧ t = t')
      ((sides.mapM fun side ↦ (liftM side.toInterval : Action α Interval)).run s)
      ((sides.mapM fun side ↦ (liftM side.toInterval : Action α Interval)).run t) := by
    rw [run_mapM_liftM BoxSide.toInterval, run_mapM_liftM BoxSide.toInterval]
    exact .same _ fun failure ↦ hE failure s t h
  refine hsides.bind fun box _ _ _ hsame ↦ ?_
  obtain ⟨rfl, rfl, rfl⟩ := hsame
  rw [run_modifyObjective_bind, run_modifyObjective_bind]
  have hbindings : List.Forall₂
      (fun d d' : Binding α × Nat ↦ Prod.map Binding.bare id d = Prod.map Binding.bare id d')
      s.objective.graph.bindings.zipIdx t.objective.graph.bindings.zipIdx := by
    have hbare := congrArg List.zipIdx (bindings_eq_of_bare h.bare)
    rw [List.zipIdx_map, List.zipIdx_map] at hbare
    exact List.forall₂_map_left_iff.1 (List.forall₂_map_right_iff.1 (List.forall₂_eq_eq_eq ▸ hbare))
  have hvars (b b' : Binding α) (hb : b.bare = b'.bare) :
      (Graph.argumentVariables s.objective.registry b).map Variable.bare =
        (Graph.argumentVariables t.objective.registry b').map Variable.bare := by
    rw [map_bare_argumentVariables, map_bare_argumentVariables, hb, Graph.argumentVariables,
      Graph.argumentVariables, entries_eq_of_bare h.bare]
  have hcounted (statistics statistics' : Statistics) : Alike m m'
      { s with objective := { s.objective with statistics } }
      { t with objective := { t.objective with statistics := statistics' } } := by
    have hsound := h.kept.sound hopen
    have hsound' := h.kept'.sound (closed_eq_of_bare h.bare ▸ hopen)
    exact ⟨h.bare, .inr (hsound.of_bare rfl rfl hsound.storage hsound.coordinates),
      .inr (hsound'.of_bare rfl rfl hsound'.storage hsound'.coordinates), h.arrangement, h.memory⟩
  -- Term after term both scenes come to the same sum, or to the same failure.
  refine (Related.forIn (R := Alike m m') hbindings
    (fun d d' sum u v hd hR ↦ ?_) (hcounted _ _)).bind fun sum _ s t h ↦ .ok h
  obtain ⟨b, index⟩ := d
  obtain ⟨b', index'⟩ := d'
  obtain ⟨hb, rfl⟩ : b.bare = b'.bare ∧ index = index' := by simpa using hd
  have hterm : b.term = b'.term := (congrArg Binding.term hb :)
  dsimp only
  rw [addEnclosure_congr (hvars b b' hb) hterm, hterm]
  rcases addEnclosure t.objective.registry box sum b' with failure | next
  · exact .error (hE _ _ _ ⟨hR.bare, hR.kept, hR.kept', hR.arrangement, hR.memory⟩)
  · exact .ok ⟨rfl, hR⟩

/-! ### All queries -/

/-- Alike scenes whose evaluations agree give the same answer to every query, write the same, and
stay alike. -/
theorem related_perform [OfNat α 1] (h : Alike m m' s t)
    (agree : s.objective.closed = false → Agree E m m' s t) (q : Query α)
    (hblocks : q = .evaluateUser → m = m') :
    Related E (fun r r' s' t' ↦ r = r' ∧ Alike m m' s' t') (q.perform.run s) (q.perform.run t) := by
  cases q with
  | evaluate x gradient hessian =>
    exact (h.related_evaluate hE agree x gradient hessian).bind
      fun r r' s t ⟨hr, h⟩ ↦ .ok ⟨congrArg Answer.value hr, h⟩
  | evaluateUser =>
    exact (h.related_evaluateUser hE agree (hblocks rfl)).bind
      fun r r' s t ⟨hr, h⟩ ↦ .ok ⟨congrArg Answer.value hr, h⟩
  | valueAndGradient x =>
    exact (h.related_valueAndGradient hE agree x).bind fun r r' s t ⟨hr, h⟩ ↦ .ok ⟨by rw [hr], h⟩
  | evaluateSparse x gradient target =>
    exact (h.related_evaluateSparse hE agree x gradient target).bind
      fun r r' s t ⟨hr, h⟩ ↦ .ok ⟨congrArg Answer.value hr, h⟩
  | valueGradientSparse x =>
    exact (h.related_valueGradientSparse hE agree x).bind
      fun r r' s t ⟨hr, h⟩ ↦ .ok ⟨by rw [hr], h⟩
  | valueGradientDense x =>
    exact (h.related_valueGradientDense hE agree x).bind
      fun r r' s t ⟨hr, h⟩ ↦ .ok ⟨by rw [hr], h⟩
  | sparsityPattern target =>
    exact (h.related_sparsityPattern hE target).bind
      fun r r' s t ⟨hr, h⟩ ↦ .ok ⟨congrArg Answer.pattern hr, h⟩
  | evaluateEnclosure sides =>
    exact (h.related_evaluateEnclosure hE sides).bind
      fun r r' s t ⟨hr, h⟩ ↦ .ok ⟨congrArg Answer.enclosure hr, h⟩

end Scene.Alike

end Summand
