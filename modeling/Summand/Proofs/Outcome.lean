import Summand.Proofs.Placement

/-!
# How evaluations end

A query that evaluates makes its checks, gives the workers their work, and may assemble a sparse
matrix of what they leave. What it checks, and what the workers get if all checks pass, is said here
without a run (`Query.prepared`), and so is what the workers come to (`Objective.settle`).

The run of the query realizes these computations (`realizes_perform`). If it fails, nothing but
buffers has changed, unless the entries of a sparse Hessian could not be placed after the gradient
had been written (`Query.Left`).
-/

namespace Summand

variable {α : Type}

/-- What the workers of an evaluation get: what to compute, the point at which gradients are pulled
back, and the variables with their values. -/
structure Work (α : Type) where
  mode : Mode
  point : List α
  registry : Registry α

namespace Objective

section Work

variable [Zero α]

/-- The work of an evaluation with derivatives at a point. -/
def workAt (o : Objective α) (mode : Mode) (x : List α) : Except Failure (Work α) := do
  checkStorage o
  return ⟨mode, x, ← o.registry.valued x⟩

/-- The work of an evaluation without derivatives, at a point or at the values that the caller's
blocks hold. -/
def valueWork (o : Objective α) (m : Memory α) (x : Option (GivenPoint α)) :
    Except Failure (Work α) := do
  checkStorage o
  return ⟨.value, [], ← o.valuedAt m x⟩

/-- The work of an evaluation that makes a new gradient. -/
def freshWork (o : Objective α) (mode : Mode) (x : GivenPoint α) : Except Failure (Work α) := do
  if mode = .hessian then o.hessianAllowed
  let x ← pointOf o.totalScalars x
  o.workAt mode x

/-- The work of an evaluation with a sparse Hessian. -/
def sparseWork (o : Objective α) (x : GivenPoint α) (gradient : Handle) :
    Except Failure (Work α) := do
  o.hessianAllowed
  let x ← pointOf o.totalScalars x
  let _ ← checkOutput "gradient" [o.totalScalars] gradient
  o.workAt .hessian x

variable [Add α] [Storable α]

/-- The sums that the workers come to, or the failure of a binding. -/
def settle (o : Objective α) (work : Work α) : Except Failure (List (α × List α)) :=
  (o.chunkSums work.mode work.registry work.point).mapError o.termFailure

/-- The gradient in cells of an element type, given the sums that the workers come to. Workers
without a chunk add zeros. -/
def gradientOf (o : Objective α) (element : ElementType) (sums : List (α × List α)) : List α :=
  sumGradients element o.totalScalars.toNat (sums.map Prod.snd ++
    List.replicate (o.workerCount - sums.length) (Buffer.zeros o.totalScalars.toNat))

/-- The work and what the workers come to. -/
def settled (o : Objective α) (prepared : Except Failure (Work α)) :
    Except Failure (Work α × List (α × List α)) := do
  let work ← prepared
  return (work, ← o.settle work)

theorem direct_eq_map (o : Objective α) (mode : Mode) (x : List α) :
    o.direct mode x = (o.settled (o.workAt mode x)).map fun r ↦ (r.1.registry, r.2) := by
  rw [direct, settled, workAt]
  rcases checkStorage o with failure | ⟨⟩
  · rfl
  rcases o.registry.valued x with failure | registry
  · rfl
  show (do return (registry, ← (o.chunkSums mode registry x).mapError o.termFailure)) =
    Except.map (fun r : Work α × _ ↦ (r.1.registry, r.2))
      (do return (⟨mode, x, registry⟩, ← (o.chunkSums mode registry x).mapError o.termFailure))
  rcases o.chunkSums mode registry x with failure | sums <;> rfl

theorem directValue_eq_map (o : Objective α) (m : Memory α) (x : Option (GivenPoint α)) :
    o.directValue m x = (o.settled (o.valueWork m x)).map fun r ↦ (r.1.registry, r.2) := by
  rw [directValue, settled, valueWork]
  rcases checkStorage o with failure | ⟨⟩
  · rfl
  rcases o.valuedAt m x with failure | registry
  · rfl
  show (do return (registry, ← (o.chunkSums .value registry []).mapError o.termFailure)) =
    Except.map (fun r : Work α × _ ↦ (r.1.registry, r.2))
      (do
        return (⟨.value, [], registry⟩, ← (o.chunkSums .value registry []).mapError o.termFailure))
  rcases o.chunkSums .value registry [] with failure | sums <;> rfl

end Work

end Objective

/-! ### What queries check -/

namespace Query

open Objective

variable [Zero α]

/-- The work that a query gives the workers if all of its checks pass. The workers take no part in
patterns and enclosures. -/
def prepared (q : Query α) (s : Scene α) : Except Failure (Option (Work α)) :=
  let o := s.objective
  let n := o.totalScalars
  match q with
  | .evaluate x none none => some <$> o.valueWork s.memory (some x)
  | .evaluate x (some gradient) none => some <$> do
    let x ← pointOf n x
    let _ ← checkOutput "gradient" [n] gradient
    o.workAt .gradient x
  | .evaluate x (some gradient) (some hessian) => some <$> do
    o.hessianAllowed
    let x ← pointOf n x
    let _ ← checkOutput "gradient" [n] gradient
    let _ ← checkOutput "hessian" [n, n] hessian
    o.workAt .hessian x
  | .evaluate x none (some hessian) => some <$> do
    Allocation.check .real [n]
    o.hessianAllowed
    let x ← pointOf n x
    let _ ← checkOutput "hessian" [n, n] hessian
    o.workAt .hessian x
  | .evaluateUser => some <$> o.valueWork s.memory none
  | .valueAndGradient x => some <$> do
    Allocation.check .real [n]
    o.freshWork .gradient x
  | .evaluateSparse _ _ none => throw .missingTarget
  | .evaluateSparse x gradient (some _) => some <$> o.sparseWork x gradient
  | .valueGradientSparse x => some <$> do
    Allocation.check .real [n]
    o.freshWork .hessian x
  | .valueGradientDense x => some <$> do
    Allocation.check .real [n]
    Allocation.check .real [n, n]
    o.freshWork .hessian x
  | .sparsityPattern _ | .evaluateEnclosure _ => return none

/-- What is left to fail when the workers have come to an end: a sparse matrix has to be made. -/
def assembly (q : Query α) (o : Objective α) : Except Failure Unit :=
  match q with
  | .evaluateSparse _ _ _ | .valueGradientSparse _ => do let _ ← o.placement
  | _ => return ()

end Query

/-! ### What runs come to -/

namespace Objective

open Summand.Action

variable [Zero α] [Add α] [Storable α] {s : Scene α}

theorem settled_bind {β : Type} (o : Objective α) (c : Except Failure β)
    (next : β → Except Failure (Work α)) :
    o.settled (c >>= next) = c >>= fun r ↦ o.settled (next r) := bind_assoc _ _ _

/-- Workers that come to an end have got work. -/
theorem eq_ok_of_settled {o : Objective α} {prepared : Except Failure (Work α)}
    {r : Work α × List (α × List α)} (h : o.settled prepared = .ok r) : prepared = .ok r.1 := by
  obtain ⟨work, hwork, h⟩ := bind_eq_ok_iff.1 h
  obtain ⟨sums, -, h⟩ := bind_eq_ok_iff.1 h
  cases h
  exact hwork

omit [Zero α] [Add α] [Storable α] in
theorem allowed_of_sparseWork {o : Objective α} {x : GivenPoint α} {gradient : Handle}
    {work : Work α} (h : o.sparseWork x gradient = .ok work) : o.hessianAllowed = .ok () := by
  obtain ⟨⟨⟩, hallowed, -⟩ := bind_eq_ok_iff.1 h
  exact hallowed

omit [Zero α] [Add α] [Storable α] in
theorem allowed_of_freshWork {o : Objective α} {x : GivenPoint α} {work : Work α}
    (h : o.freshWork .hessian x = .ok work) : o.hessianAllowed = .ok () := by
  obtain ⟨⟨⟩, hallowed, -⟩ := bind_eq_ok_iff.1 h
  exact hallowed

/-- Workers come to the sums of their work. -/
theorem realizes_settled (h : s.objective.Sound) {mode : Mode} (hmode : mode ≠ .value)
    (x : List α) :
    Realizes (Evaluated s) (fun r result t ↦ Collected mode s (r.1.registry, r.2) result t)
      (s.objective.settled (s.objective.workAt mode x)) ((evaluateWorkers mode x).run s) :=
  .of_map (direct_eq_map s.objective mode x ▸ realizes_evaluateWorkers h hmode x)

theorem realizes_settled_value (h : s.objective.Sound) (x : Option (GivenPoint α)) :
    Realizes (Evaluated s) (fun r value _ ↦ value = total r.2)
      (s.objective.settled (s.objective.valueWork s.memory x)) ((evaluateValue x).run s) :=
  (Realizes.of_map (directValue_eq_map s.objective s.memory x ▸ realizes_evaluateValue h x)).mono
    (fun _ h ↦ h) fun _ _ _ h ↦ h.2

/-- The gradient that is put together of those of the workers. -/
theorem sumGradients_of_collected {mode : Mode} {r : Registry α × List (α × List α)}
    {result : α × List (List α)} {t : Scene α} (h : Collected mode s r result t)
    (element : ElementType) :
    sumGradients element s.objective.totalScalars.toNat result.2 =
      s.objective.gradientOf element r.2 := by
  rw [h.gradients, gradientOf]

/-! ### Arrays of the caller -/

theorem realizes_evaluateInto_none (h : s.objective.Sound) (x : GivenPoint α) (gradient : Handle) :
    Realizes (Evaluated s)
      (fun r value t ↦ value = total r.2 ∧ ∃ block, gradient = .array block ∧
        t.memory = s.memory.store block (s.objective.gradientOf block.element r.2))
      (s.objective.settled do
        let x ← pointOf s.objective.totalScalars x
        let _ ← checkOutput "gradient" [s.objective.totalScalars] gradient
        s.objective.workAt .gradient x)
      ((evaluateInto x gradient none).run s) := by
  rw [evaluateInto_none, run_objective_bind, settled_bind]
  refine .check (run_checkPoint x s) (.refl h) fun point _ ↦ ?_
  rw [settled_bind]
  refine .check rfl (.refl h) fun block hblock ↦ ?_
  refine (realizes_settled h (by simp) point).andThen fun r result t ht ↦ ?_
  rw [run_writeGradient_bind, ← totalScalars_eq_of_bare ht.evaluated.bare,
    sumGradients_of_collected ht, ht.evaluated.memory]
  exact .ok ⟨ht.value, block, (checkOutput_eq_ok_iff.1 hblock).1, rfl⟩

theorem realizes_evaluateInto_some (h : s.objective.Sound) (x : GivenPoint α)
    (gradient hessian : Handle) :
    Realizes (Evaluated s)
      (fun r value t ↦ value = total r.2 ∧ ∃ block hessianBlock entries,
        gradient = .array block ∧ hessian = .array hessianBlock ∧
        t.memory = (s.memory.store block (s.objective.gradientOf block.element r.2)).store
          hessianBlock entries)
      (s.objective.settled do
        s.objective.hessianAllowed
        let x ← pointOf s.objective.totalScalars x
        let _ ← checkOutput "gradient" [s.objective.totalScalars] gradient
        let _ ← checkOutput "hessian" [s.objective.totalScalars, s.objective.totalScalars] hessian
        s.objective.workAt .hessian x)
      ((evaluateInto x gradient (some hessian)).run s) := by
  rw [evaluateInto_some, settled_bind]
  refine .check (run_checkHessianAllowed s) (.refl h) fun _ _ ↦ ?_
  rw [run_objective_bind, settled_bind]
  refine .check (run_checkPoint x s) (.refl h) fun point _ ↦ ?_
  rw [settled_bind]
  refine .check rfl (.refl h) fun block hblock ↦ ?_
  rw [settled_bind]
  refine .check rfl (.refl h) fun hessianBlock hhessian ↦ ?_
  refine (realizes_settled h (by simp) point).andThen fun r result t ht ↦ ?_
  rw [run_writeGradient_bind, ← totalScalars_eq_of_bare ht.evaluated.bare,
    sumGradients_of_collected ht, ht.evaluated.memory]
  exact .ok ⟨ht.value, block, hessianBlock, _, (checkOutput_eq_ok_iff.1 hblock).1,
    (checkOutput_eq_ok_iff.1 hhessian).1, rfl⟩

/-- A dense Hessian can be asked for without a gradient. -/
theorem realizes_evaluate_hessian (h : s.objective.Sound) (hopen : s.objective.closed = false)
    (x : GivenPoint α) (hessian : Handle) :
    Realizes (Evaluated s) (fun r value _ ↦ value = total r.2)
      (s.objective.settled do
        Allocation.check .real [s.objective.totalScalars]
        s.objective.hessianAllowed
        let x ← pointOf s.objective.totalScalars x
        let _ ← checkOutput "hessian" [s.objective.totalScalars, s.objective.totalScalars] hessian
        s.objective.workAt .hessian x)
      ((evaluate x none (some hessian)).run s) := by
  rw [evaluate, run_bind_of_ok (run_checkOpen_of_open _ hopen), run_objective_bind, settled_bind]
  refine .check rfl (.refl h) fun _ _ ↦ ?_
  rw [settled_bind]
  refine .check (run_checkHessianAllowed s) (.refl h) fun _ _ ↦ ?_
  rw [settled_bind]
  refine .check (run_checkPoint x s) (.refl h) fun point _ ↦ ?_
  rw [settled_bind]
  refine .check rfl (.refl h) fun block _ ↦ ?_
  exact (realizes_settled h (by simp) point).andThen fun _ _ t ht ↦ .ok ht.value

/-! ### New gradients -/

theorem realizes_evaluateFresh (h : s.objective.Sound) {mode : Mode} (hmode : mode ≠ .value)
    (x : GivenPoint α) :
    Realizes (Evaluated s)
      (fun r result t ↦ Evaluated s t ∧ result = (total r.2, s.objective.gradientOf .float64 r.2))
      (s.objective.settled (s.objective.freshWork mode x)) ((evaluateFresh mode x).run s) := by
  have hrest : Realizes (Evaluated s)
      (fun r result t ↦ Evaluated s t ∧ result = (total r.2, s.objective.gradientOf .float64 r.2))
      (s.objective.settled do
        let x ← pointOf s.objective.totalScalars x
        s.objective.workAt mode x)
      ((do
        let x ← checkPoint x
        let r ← evaluateWorkers mode x
        return (r.1, sumGradients .float64 s.objective.totalScalars.toNat r.2)).run s) := by
    rw [settled_bind]
    refine .check (run_checkPoint x s) (.refl h) fun point _ ↦ ?_
    exact (realizes_settled h hmode point).andThen fun _ _ t ht ↦
      .ok ⟨ht.evaluated, Prod.ext ht.value (sumGradients_of_collected ht _)⟩
  rw [evaluateFresh, run_objective_bind, freshWork]
  dsimp only
  split
  · rw [settled_bind]
    exact .check (run_checkHessianAllowed s) (.refl h) fun _ _ ↦ hrest
  · exact hrest

theorem realizes_valueAndGradient (h : s.objective.Sound) (hopen : s.objective.closed = false)
    (x : GivenPoint α) :
    Realizes (Evaluated s)
      (fun r result _ ↦ result = (total r.2, s.objective.gradientOf .float64 r.2))
      (s.objective.settled do
        Allocation.check .real [s.objective.totalScalars]
        s.objective.freshWork .gradient x)
      ((valueAndGradient x).run s) := by
  rw [valueAndGradient, run_bind_of_ok (run_checkOpen_of_open _ hopen), run_objective_bind,
    settled_bind]
  refine .check rfl (.refl h) fun _ _ ↦ ?_
  exact (realizes_evaluateFresh h (by simp) x).mono (fun _ h ↦ h) fun _ _ _ h ↦ h.2

theorem realizes_valueGradientDense (h : s.objective.Sound) (hopen : s.objective.closed = false)
    (x : GivenPoint α) :
    Realizes (Evaluated s)
      (fun r result _ ↦ (result.1, result.2.1) = (total r.2, s.objective.gradientOf .float64 r.2))
      (s.objective.settled do
        Allocation.check .real [s.objective.totalScalars]
        Allocation.check .real [s.objective.totalScalars, s.objective.totalScalars]
        s.objective.freshWork .hessian x)
      ((valueGradientDense x).run s) := by
  rw [valueGradientDense, run_bind_of_ok (run_checkOpen_of_open _ hopen), run_objective_bind,
    settled_bind]
  refine .check rfl (.refl h) fun _ _ ↦ ?_
  rw [settled_bind]
  refine .check rfl (.refl h) fun _ _ ↦ ?_
  exact (realizes_evaluateFresh h (by simp) x).andThen fun _ _ _ h ↦ .ok h.2

/-! ### Sparse Hessians -/

/-- A new sparse Hessian is made of what the workers leave in the blocks. -/
theorem realizes_valueGradientSparse (h : s.objective.Sound) (hopen : s.objective.closed = false)
    (x : GivenPoint α) :
    Realizes (Evaluated s)
      (fun places result _ ↦
        (∃ u, Evaluated s u ∧ result.2.2 = .assemble s.platform.arrangement
          s.objective.totalScalars.toNat places u.objective.blockValues) ∧
        ∃ r, s.objective.settled (do
            Allocation.check .real [s.objective.totalScalars]
            s.objective.freshWork .hessian x) = .ok r ∧
          (result.1, result.2.1) = (total r.2, s.objective.gradientOf .float64 r.2))
      (s.objective.settled (do
        Allocation.check .real [s.objective.totalScalars]
        s.objective.freshWork .hessian x) >>= fun _ ↦ s.objective.placement)
      ((valueGradientSparse x).run s) := by
  rw [valueGradientSparse, run_bind_of_ok (run_checkOpen_of_open _ hopen), run_objective_bind,
    settled_bind, bind_assoc]
  refine .check rfl (.refl h) fun _ hroom ↦ ?_
  refine (realizes_evaluateFresh h (by simp) x).with_eq.bind ?_
  rintro r result t ⟨hr, ht, hresult⟩
  rw [run_objective_bind, placement_eq_of_bare ht.bare]
  have hmatrix := (realizes_assembleSparse ht.sound t.objective.blockValues).mono
    (fun u hu ↦ ht.trans hu) fun _ _ _ h ↦ h
  refine hmatrix.andThen ?_
  rintro places _ u ⟨-, rfl⟩
  refine .ok ⟨⟨t, ht, ?_⟩, r, ?_, hresult⟩
  · dsimp only
    rw [ht.platform, totalScalars_eq_of_bare ht.bare]
  · rw [hroom]
    exact hr

/-- The gradient has been written, but the entries of the Hessian could not be placed. -/
structure Unplaced (s : Scene α) (x : GivenPoint α) (gradient : Handle) (t : Scene α) : Prop where
  settled : ∃ r, s.objective.settled (s.objective.sparseWork x gradient) = .ok r
  written : ∃ block sum, gradient = .array block ∧
    Evaluated { s with memory := s.memory.store block sum } t

/-- The gradient and the target of the sparse Hessian have been written. -/
structure Assembled (s : Scene α) (x : GivenPoint α) (gradient : Handle) (position : Nat)
    (places : List (Nat × Nat)) (value : α) (t : Scene α) : Prop where
  returned : ∃ r block target, s.objective.settled (s.objective.sparseWork x gradient) = .ok r ∧
    value = total r.2 ∧ gradient = .array block ∧
    t.memory = (s.memory.store block (s.objective.gradientOf block.element r.2)).setTarget position
      target
  written : ∃ block sum u, gradient = .array block ∧ Evaluated s u ∧
    t.memory = (s.memory.store block sum).setTarget position
      ⟨some (.assemble s.platform.arrangement s.objective.totalScalars.toNat places
        u.objective.blockValues), u.objective.blockValues.length⟩

theorem realizes_evaluateSparse (h : s.objective.Sound) (hopen : s.objective.closed = false)
    (x : GivenPoint α) (gradient : Handle) (position : Nat) :
    Realizes (fun t ↦ Evaluated s t ∨ Unplaced s x gradient t)
      (Assembled s x gradient position)
      (s.objective.settled (s.objective.sparseWork x gradient) >>= fun _ ↦ s.objective.placement)
      ((evaluateSparse x gradient (some position)).run s) := by
  rw [evaluateSparse, run_bind_of_ok (run_checkOpen_of_open _ hopen)]
  rw [sparseWork, settled_bind, bind_assoc]
  refine .check (run_checkHessianAllowed s) (.inl (.refl h)) fun _ hallowed ↦ ?_
  rw [run_objective_bind, settled_bind, bind_assoc]
  refine .check (run_checkPoint x s) (.inl (.refl h)) fun point hpoint ↦ ?_
  rw [settled_bind, bind_assoc]
  refine .check rfl (.inl (.refl h)) fun block hblock ↦ ?_
  have hwork : s.objective.sparseWork x gradient = s.objective.workAt .hessian point := by
    rw [sparseWork, hallowed, hpoint, hblock]
    rfl
  have hfailed (t : Scene α) (ht : Evaluated s t) : Evaluated s t ∨ Unplaced s x gradient t :=
    .inl ht
  have hworkers := (realizes_settled h (show Mode.hessian ≠ .value by simp) point).with_eq.mono
    hfailed fun _ _ _ h ↦ h
  refine hworkers.bind fun r result t ⟨hr, hresult⟩ ↦ ?_
  have ht := hresult.evaluated
  obtain ⟨value, gradients⟩ := result
  have hsum := sumGradients_of_collected hresult block.element
  dsimp only at hsum ⊢
  rw [run_writeGradient_bind, run_objective_bind, ← totalScalars_eq_of_bare ht.bare, hsum]
  -- From here on the gradient is written.
  generalize hgiven : s.objective.gradientOf block.element r.2 = sum
  have hwritten := ht.withMemory (s.memory.store block sum)
  have hgradient := (checkOutput_eq_ok_iff.1 hblock).1
  have htarget := realizes_assembleTarget
    (s := { t with memory := t.memory.write (.store block sum) }) ht.sound t.objective.blockValues
  rw [← placement_eq_of_bare (o := s.objective) ht.bare] at htarget
  dsimp only at htarget
  refine (htarget.mono ?_ fun _ _ _ h ↦ h).andThen ?_
  · intro u hu
    rw [ht.memory] at hu
    exact .inr ⟨⟨r, hwork ▸ hr⟩, block, sum, hgradient, hwritten.trans hu⟩
  · rintro places target u ⟨hu, rfl⟩
    rw [run_modifyMemory_bind]
    have hmemory : u.memory = s.memory.store block sum := by
      rw [hu.memory, ← ht.memory]
      rfl
    rw [hmemory]
    refine .ok ⟨⟨r, block, _, hwork ▸ hr, hresult.value, hgradient, by rw [hgiven]⟩, block, sum, t,
      hgradient, ht, ?_⟩
    rw [ht.platform, totalScalars_eq_of_bare ht.bare]

/-! ### Patterns -/

/-- A pattern has ones at the places of all blocks, and is put into the target if there is one. -/
structure Outlined [OfNat α 1] (s : Scene α) (target : Option Nat) (places : List (Nat × Nat))
    (matrix : SparseMatrix α) (t : Scene α) : Prop where
  ones : matrix = .assemble s.platform.arrangement s.objective.totalScalars.toNat places
    (List.replicate places.length 1)
  memory : t.memory = target.elim s.memory fun position ↦
    s.memory.setTarget position ⟨some matrix, places.length⟩

omit [Storable α] in
theorem realizes_sparsityPattern [OfNat α 1] (h : s.objective.Sound)
    (hopen : s.objective.closed = false) (target : Option Nat) :
    Realizes (Evaluated s) (fun places matrix t ↦ Outlined s target places matrix t)
      (s.objective.patternAllowed >>= fun _ ↦ s.objective.placement)
      ((sparsityPattern target).run s) := by
  rw [sparsityPattern, run_bind_of_ok (run_checkOpen_of_open _ hopen), run_objective_bind,
    patternAllowed]
  dsimp only
  rcases Registry.firstTransformed
    (s.objective.graph.boundVariables s.objective.registry) with - | v
  swap
  · exact .error (.refl h)
  show Realizes _ _ s.objective.placement _
  have hcoordinates := realizes_ensureCoordinates h
  rcases hc : enumerateCoordinates s.objective with failure | coordinates <;>
    rw [hc] at hcoordinates
  · have hplacement : s.objective.placement = .error failure := by
      rw [placement, hc]
      rfl
    generalize hrun : ensureCoordinates.run s = m at hcoordinates
    cases hcoordinates with
    | error ht =>
      dsimp only
      rw [run_bind_of_error hrun, hplacement]
      exact .error ht
  · obtain ⟨c, t, hrun, rfl, ht⟩ := hcoordinates.succeeds
    dsimp only
    rw [run_bind_of_ok hrun, placement_eq_of_bare ht.bare]
    have htarget := (realizes_assembleTarget ht.sound (List.replicate coordinates.length 1)).with_eq
    refine (htarget.mono (fun u hu ↦ ht.trans hu) fun _ _ _ h ↦ h).andThen ?_
    rintro places assembled u ⟨hplaces, hu, rfl⟩
    have hlength := length_of_placement hc ((placement_eq_of_bare ht.bare).trans hplaces)
    rw [List.length_replicate, ← hlength, ht.platform, ← totalScalars_eq_of_bare ht.bare]
    have hmemory : u.memory = s.memory := hu.memory.trans ht.memory
    rcases target with - | position
    · exact .ok ⟨rfl, hmemory⟩
    · exact .ok ⟨rfl, by rw [← hmemory]; rfl⟩

/-! ### Enclosures -/

omit [Zero α] [Add α] [Storable α] in
/-- Enclosing an objective keeps whatever does not depend on its statistics and on what is
logged. -/
theorem keeps_evaluateEnclosure {I : Scene α → Prop}
    (hstatistics : ∀ t statistics, I t →
      I { t with objective := { t.objective with statistics } })
    (hlogged : ∀ t level topic text, I t →
      I { t with events := t.events ++ [.logged level topic text] })
    [Zero α] (sides : List BoxSide) : Keeps I (evaluateEnclosure sides) := by
  have hcount : Keeps I (modifyObjective fun o : Objective α ↦
      { o with statistics :=
        { o.statistics with withoutGradient := o.statistics.withoutGradient + 1 } }) :=
    ⟨fun t ht ↦ hstatistics t _ ht⟩
  have hlog (text : String) : Keeps I (log .warning .engine text) :=
    ⟨fun t ht ↦ hlogged t _ _ _ ht⟩
  rw [evaluateEnclosure]
  refine .bind (.checkOpen _) fun _ ↦ ?_
  refine .bind .objective fun o ↦ ?_
  dsimp only
  split
  · exact .throw_bind _ _
  split
  · exact .throw_bind _ _
  refine .bind ⟨fun t ht ↦ by rw [run_mapM_liftM BoxSide.toInterval]; exact ht⟩ fun box ↦ ?_
  refine .bind hcount fun _ ↦ .bind (.forIn ?_) fun sum ↦ .pure _
  rintro ⟨b, index⟩ sum
  dsimp only
  split
  · exact .pure _
  · exact .bind (hlog _) fun _ ↦ .throw_bind _ _

omit [Add α] [Storable α] in
theorem evaluated_evaluateEnclosure (h : s.objective.Sound) (sides : List BoxSide) :
    Evaluated s ((evaluateEnclosure sides).run s).2 := by
  refine (keeps_evaluateEnclosure (I := Evaluated s) ?_ ?_ sides).of_run s (.refl h)
  · intro t statistics ht
    exact ⟨ht.bare, ht.workerCount,
      ht.sound.of_bare rfl rfl ht.sound.storage ht.sound.coordinates, ht.memory, ht.platform⟩
  · intro t level topic text ht
    exact ⟨ht.bare, ht.workerCount, ht.sound, ht.memory, ht.platform⟩

end Objective

/-! ### Answers -/

/-- The value in an answer. -/
def Answer.value? : Answer α → Option α
  | .value v | .valueGradient v _ | .sparse v _ _ | .dense v _ _ => some v
  | .pattern _ | .enclosure _ => none

/-- The gradient in an answer. -/
def Answer.gradient? : Answer α → Option (List α)
  | .valueGradient _ g | .sparse _ g _ | .dense _ g _ => some g
  | .value _ | .pattern _ | .enclosure _ => none

namespace Query

/-- The array that a query writes the gradient to. -/
def gradientBlock? : Query α → Option Block
  | .evaluate _ (some (.array block)) _ | .evaluateSparse _ (.array block) _ => some block
  | _ => none

/-- The array that a query writes a dense Hessian to. -/
def hessianBlock? : Query α → Option Block
  | .evaluate _ _ (some (.array block)) => some block
  | _ => none

variable [Zero α] [Add α] [Storable α]

/-- A query has answered with the value and the gradient that go with the sums of the workers. A
gradient that is written is written before the Hessian. -/
structure Answered (q : Query α) (s : Scene α) (sums : List (α × List α)) (answer : Answer α)
    (t : Scene α) : Prop where
  value : answer.value? = some (Objective.total sums)
  returned : ∀ gradient, answer.gradient? = some gradient →
    gradient = s.objective.gradientOf .float64 sums
  written : ∀ block, q.gradientBlock? = some block → ∃ writes : List (Memory.Write α),
    t.memory = (s.memory.store block (s.objective.gradientOf block.element sums)).writeAll writes ∧
      ∀ write ∈ writes, ∀ c values, write = .store c values → q.hessianBlock? = some c

section Answered

variable {q : Query α} {s t : Scene α} {sums : List (α × List α)}

/-- An answer may have no gradient. -/
theorem answered_value {value : α} (hvalue : value = Objective.total sums)
    (hq : q.gradientBlock? = none) : q.Answered s sums (.value value) t where
  value := congrArg some hvalue
  returned _ h := by cases h
  written _ h := by
    rw [hq] at h
    cases h

/-- It may have a new one. -/
theorem answered_gradient {answer : Answer α} (hvalue : answer.value? = some (Objective.total sums))
    (hgradient : answer.gradient? = some (s.objective.gradientOf .float64 sums))
    (hq : q.gradientBlock? = none) : q.Answered s sums answer t where
  value := hvalue
  returned _ h := Option.some.inj (h.symm.trans hgradient)
  written _ h := by
    rw [hq] at h
    cases h

/-- Or the gradient has been written, and maybe a Hessian after it. -/
theorem answered_written {value : α} {block : Block} (hvalue : value = Objective.total sums)
    (hq : q.gradientBlock? = some block) (writes : List (Memory.Write α))
    (hmemory : t.memory =
      (s.memory.store block (s.objective.gradientOf block.element sums)).writeAll writes)
    (hwrites : ∀ write ∈ writes, ∀ c values, write = .store c values → q.hessianBlock? = some c) :
    q.Answered s sums (.value value) t where
  value := congrArg some hvalue
  returned _ h := by cases h
  written b h := by
    rw [Option.some.inj (h.symm.trans hq)]
    exact ⟨writes, hmemory, hwrites⟩

end Answered

end Query

/-! ### All evaluating queries -/

section Perform

open Summand.Action Objective

variable [Zero α] [Add α] [OfNat α 1] [Storable α] {s : Scene α}

/-- A failed query has changed nothing but buffers, or it has got as far as to write the gradient
beside a sparse Hessian. -/
def Query.Left (s : Scene α) : Query α → Scene α → Prop
  | .evaluateSparse x gradient (some _), t => Evaluated s t ∨ Unplaced s x gradient t
  | _, t => Evaluated s t

/-- A query that gives the workers work comes to an end as they do, and as the assembly of a sparse
matrix does, and answers with what the workers come to. -/
theorem realizes_perform (h : s.objective.Sound) (hopen : s.objective.closed = false) {q : Query α}
    {prepared : Except Failure (Work α)} (hq : q.prepared s = some <$> prepared) :
    Realizes (q.Left s)
      (fun _ answer t ↦ ∃ r, s.objective.settled prepared = .ok r ∧ q.Answered s r.2 answer t)
      (s.objective.settled prepared >>= fun _ ↦ q.assembly s.objective) (q.perform.run s) := by
  have hinj {w : Except Failure (Work α)} (hw : some <$> w = some <$> prepared) :
      prepared = w := by
    rcases w with failure | work <;> rcases prepared with failure' | work' <;> cases hw <;> rfl
  -- Answers are put together from the results.
  have hanswer {β δ : Type} {E : Scene α → Prop} {Q : δ → β → Scene α → Prop}
      {R : Answer α → Scene α → Prop} {expected : Except Failure δ} {a : Action α β}
      {f : β → Answer α} (h : Realizes E Q expected (a.run s))
      (hR : ∀ d r t, expected = .ok d → Q d r t → R (f r) t) :
      Realizes E (fun _ ↦ R) (expected >>= fun _ ↦ pure ()) ((do return f (← a)).run s) :=
    h.with_eq.bind fun d r t h ↦ .ok (hR d r t h.1 h.2)
  have hplaced (c : Except Failure (Work α × List (α × List α))) :
      (c >>= fun _ ↦ do let _ ← s.objective.placement) =
        (c >>= fun _ ↦ s.objective.placement) >>= fun _ ↦ pure () := (bind_assoc c _ _).symm
  cases q with
  | evaluate x gradient hessian =>
    have hrun (hessian : Option Handle) (gradient : Handle) :
        (evaluate x (some gradient) hessian).run s = (evaluateInto x gradient hessian).run s := by
      rw [evaluate, run_bind_of_ok (run_checkOpen_of_open _ hopen)]
    rcases gradient with - | gradient <;> rcases hessian with - | hessian <;> rw [hinj hq]
    · have hvalue : (evaluate x none none).run s = (evaluateValue (some x)).run s := by
        rw [evaluate, run_bind_of_ok (run_checkOpen_of_open _ hopen)]
      refine hanswer (hvalue ▸ realizes_settled_value h (some x)) fun r value t hr hvalue ↦ ?_
      exact ⟨r, hr, Query.answered_value hvalue rfl⟩
    · refine hanswer (realizes_evaluate_hessian h hopen x hessian) fun r value t hr hvalue ↦ ?_
      exact ⟨r, hr, Query.answered_value hvalue rfl⟩
    · refine hanswer (hrun none gradient ▸ realizes_evaluateInto_none h x gradient) ?_
      rintro r value t hr ⟨hvalue, block, rfl, hmemory⟩
      exact ⟨r, hr, Query.answered_written hvalue rfl [] hmemory (by simp)⟩
    · refine hanswer
        (hrun (some hessian) gradient ▸ realizes_evaluateInto_some h x gradient hessian) ?_
      rintro r value t hr ⟨hvalue, block, hessianBlock, entries, rfl, rfl, hmemory⟩
      exact ⟨r, hr, Query.answered_written hvalue rfl [.store hessianBlock entries] hmemory
        (by simp [Query.hessianBlock?])⟩
  | evaluateUser =>
    rw [hinj hq]
    have hvalue : evaluateUser.run s = (evaluateValue none).run s := by
      rw [evaluateUser, run_bind_of_ok (run_checkOpen_of_open _ hopen)]
    refine hanswer (hvalue ▸ realizes_settled_value h none) fun r value t hr hvalue ↦ ?_
    exact ⟨r, hr, Query.answered_value hvalue rfl⟩
  | valueAndGradient x =>
    rw [hinj hq]
    refine hanswer (realizes_valueAndGradient h hopen x) ?_
    rintro r _ t hr rfl
    exact ⟨r, hr, Query.answered_gradient rfl rfl rfl⟩
  | evaluateSparse x gradient target =>
    rcases target with - | position
    · rw [hinj (w := .error .missingTarget) hq]
      have hmissing : Realizes (Evaluated s) (fun (_ : Unit) _ _ ↦ False) (.error .missingTarget)
          ((evaluateSparse x gradient none).run s) := by
        rw [evaluateSparse, run_bind_of_ok (run_checkOpen_of_open _ hopen)]
        exact .error (.refl h)
      exact hanswer hmissing fun _ _ _ _ h ↦ h.elim
    · rw [hinj hq]
      rw [Query.assembly, hplaced]
      refine hanswer (realizes_evaluateSparse h hopen x gradient position) ?_
      rintro places value t - hassembled
      obtain ⟨r, block, target, hr, hvalue, rfl, hmemory⟩ := hassembled.returned
      exact ⟨r, hr, Query.answered_written hvalue rfl [.setTarget position target] hmemory
        (by simp)⟩
  | valueGradientSparse x =>
    rw [hinj hq]
    rw [Query.assembly, hplaced]
    refine hanswer (realizes_valueGradientSparse h hopen x) ?_
    rintro places ⟨value, gradient, matrix⟩ t - ⟨-, r, hr, hresult⟩
    cases hresult
    exact ⟨r, hr, Query.answered_gradient rfl rfl rfl⟩
  | valueGradientDense x =>
    rw [hinj hq]
    refine hanswer (realizes_valueGradientDense h hopen x) ?_
    rintro r ⟨value, gradient, rows⟩ t hr hresult
    cases hresult
    exact ⟨r, hr, Query.answered_gradient rfl rfl rfl⟩
  | sparsityPattern target => rcases prepared with failure | work <;> cases hq
  | evaluateEnclosure sides => rcases prepared with failure | work <;> cases hq

end Perform

end Summand
