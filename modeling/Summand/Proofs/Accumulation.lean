import Summand.Objective.Schedule
import Summand.Proofs.Buffer
import Summand.Proofs.Progress

/-!
# What a binding adds

A worker that evaluates a binding adds a value and a gradient to its sums. `Binding.accumulate` says
so without the worker: it takes the sums alone, and hands the term clean buffers of the sizes of its
arguments. A step of a worker does exactly that, whatever its scratch holds, provided that it has
room for the arguments (`Worker.stepped_step`). So nothing of an earlier evaluation is seen by a
later one.
-/

namespace Summand

variable {α : Type}

namespace Binding

/-! ### Lengths -/

section Lengths

variable [Add α]

/-- Adding the gradient of an argument keeps the length of the accumulator. -/
@[simp] theorem length_scatterOne (v : Variable α) (g x accumulator : List α) :
    (scatterOne v g x accumulator).state.length = accumulator.length := by
  unfold scatterOne
  cases v.transform with
  | none =>
    refine Progress.measure_once List.length fun next h ↦ ?_
    obtain ⟨sum, -, h⟩ := bind_eq_ok_iff.1 h
    obtain rfl := Except.ok.inj h
    exact Buffer.length_setPart _ _ _
  | some t => exact Buffer.length_setPart _ _ _

@[simp] theorem length_scatter (x : List α) (vars : List (Variable α)) (gradients : List (List α))
    (accumulator : List α) :
    (scatter x vars gradients accumulator).state.length = accumulator.length := by
  fun_induction scatter x vars gradients accumulator <;> simp_all +zetaDelta

end Lengths

/-! ### Clean buffers -/

section Clean

variable [Zero α]

/-- Gradient buffers of zeros, of the sizes of the arguments. -/
def cleanBuffers (vars : List (Variable α)) : List (List α) :=
  vars.map fun v ↦ Buffer.zeros v.userDimension

/-- A scratch with some numbers of rows and columns has room for the arguments of a binding. -/
structure Within (registry : Registry α) (rows columns : Nat) (b : Binding α) : Prop where
  rows : (Graph.argumentVariables registry b).length ≤ rows
  columns : ∀ v ∈ Graph.argumentVariables registry b, v.userDimension ≤ columns

/-- Zeroing rows keeps the shape of the scratch. -/
theorem shaped_zeroedScratch {rows columns : Nat} {scratch : List (List α)}
    (h : Buffer.Shaped rows columns scratch) (arity : Nat) :
    Buffer.Shaped rows columns (zeroedScratch arity scratch) := by
  constructor
  · rw [zeroedScratch, List.length_append, List.length_map, ← List.length_append,
      List.take_append_drop, h.rows]
  · intro row hrow
    rcases List.mem_append.1 hrow with hrow | hrow
    · obtain ⟨held, hheld, rfl⟩ := List.mem_map.1 hrow
      rw [Buffer.length_zeros]
      exact h.columns held (List.mem_of_mem_take hheld)
    · exact h.columns row (List.mem_of_mem_drop hrow)

/-- The fronts of the zeroed rows are clean buffers, whatever the rows held. -/
theorem zeroedBuffers_eq {rows columns : Nat} {scratch : List (List α)}
    (h : Buffer.Shaped rows columns scratch) {vars : List (Variable α)}
    (hrows : vars.length ≤ rows) (hcolumns : ∀ v ∈ vars, v.userDimension ≤ columns) :
    zeroedBuffers vars scratch = cleanBuffers vars := by
  rw [zeroedBuffers, cleanBuffers]
  obtain ⟨rfl, hlength⟩ := h
  induction vars generalizing scratch with
  | nil => rfl
  | cons v vars ih =>
    obtain - | ⟨row, scratch⟩ := scratch
    · simp at hrows
    have hrow : row.length = columns := hlength row List.mem_cons_self
    have htail := ih (fun w hw ↦ hcolumns w (List.mem_cons_of_mem _ hw))
      (fun r hr ↦ hlength r (List.mem_cons_of_mem _ hr)) (by simpa using hrows)
    rw [List.zipWith_cons_cons, List.map_cons, htail, hrow,
      Buffer.take_zeros (hcolumns v List.mem_cons_self)]

/-- Zeroing blocks forgets what taking a result in has put there. -/
theorem zeroedBlocks_conformBlocks (held result : HessianBlocks α) :
    zeroedBlocks (Buffer.conformBlocks held result) = zeroedBlocks held := by
  apply Buffer.map_conformWith
  intro row row'
  apply Buffer.map_conformWith
  intro block block'
  have h := congrArg (List.map Buffer.zeros (α := Nat) (β := List α))
    (Buffer.map_length_conformAll block block')
  simpa [Function.comp_def] using h

theorem zeroedBlocks_zeroedBlocks (blocks : HessianBlocks α) :
    zeroedBlocks (zeroedBlocks blocks) = zeroedBlocks blocks := by
  simp [zeroedBlocks]

end Clean

/-! ### Sums -/

variable [Zero α] [Add α] [Storable α]

/-- The gradients, the Hessian blocks and the value that a binding's term comes to when it gets
clean buffers and the values of its arguments. -/
def evaluated (mode : Mode) (registry : Registry α) (b : Binding α) :
    List (List α) × Option (HessianBlocks α) × Except Failure (Outcome α) :=
  let vars := Graph.argumentVariables registry b
  b.derivatives mode (vars.map Variable.scratch) (cleanBuffers vars)

/-- The value and the gradient that sums become when a binding is evaluated. -/
def accumulate (mode : Mode) (registry : Registry α) (x : List α) (b : Binding α)
    (sums : α × List α) : Except Failure (α × List α) :=
  let vars := Graph.argumentVariables registry b
  match mode with
  | .value => do
    let value ← b.term.value (vars.map Variable.scratch) >>= Outcome.toScalar
    return (sums.1 + value, sums.2)
  | mode => do
    let (buffers, _, result) := b.evaluated mode registry
    let value ← result >>= Outcome.toScalar
    let gradient ← (scatter x vars buffers sums.2).complete
    return (sums.1 + value, gradient)

/-- A binding with the Hessian blocks of its evaluation. -/
def afterward (mode : Mode) (registry : Registry α) (b : Binding α) : Binding α :=
  match mode with
  | .value => b
  | mode => { b with hessianBlocks := (b.evaluated mode registry).2.1 }

variable {mode : Mode} {registry : Registry α}

/-- Both modes with derivatives come to the same sums. -/
theorem accumulate_of_ne_value (hmode : mode ≠ .value) (x : List α) (b : Binding α)
    (sums : α × List α) :
    b.accumulate mode registry x sums = (do
      let value ← (b.evaluated mode registry).2.2 >>= Outcome.toScalar
      let gradient ← (scatter x (Graph.argumentVariables registry b)
        (b.evaluated mode registry).1 sums.2).complete
      return (sums.1 + value, gradient)) := by
  cases mode with
  | value => exact absurd rfl hmode
  | gradient => rfl
  | hessian => rfl

/-- Sums of a length stay of that length. -/
theorem length_accumulate {x : List α} {b : Binding α} {s t : α × List α}
    (h : b.accumulate mode registry x s = .ok t) : t.2.length = s.2.length := by
  by_cases hmode : mode = .value
  · subst hmode
    obtain ⟨value, -, h⟩ := bind_eq_ok_iff.1 h
    cases h
    rfl
  · rw [accumulate_of_ne_value hmode] at h
    obtain ⟨value, -, h⟩ := bind_eq_ok_iff.1 h
    obtain ⟨gradient, hgradient, h⟩ := bind_eq_ok_iff.1 h
    cases h
    obtain ⟨-, rfl⟩ := Progress.complete_eq_ok_iff.1 hgradient
    exact length_scatter _ _ _ _

omit [Add α] [Storable α] in
/-- Both modes with derivatives keep the blocks of the evaluation. -/
theorem afterward_of_ne_value (hmode : mode ≠ .value) (b : Binding α) :
    b.afterward mode registry = { b with hessianBlocks := (b.evaluated mode registry).2.1 } := by
  cases mode with
  | value => exact absurd rfl hmode
  | gradient => rfl
  | hessian => rfl

end Binding

/-! ### Steps -/

namespace Worker

variable [Zero α] [Add α] [Storable α]

/-- One worker has come from another by a step that was to bring its sums to the given ones. -/
structure Stepped (rows columns : Nat) (sums : Except Failure (α × List α)) (w w' : Worker α) :
    Prop where
  stop : w'.stop = w.stop
  shaped : Buffer.Shaped rows columns w'.scratch
  length : w'.gradient.length = w.gradient.length
  /-- A step that goes well leaves the sums and goes on to the next binding. -/
  ok : ∀ {value gradient}, sums = .ok (value, gradient) →
    w'.next = w.next + 1 ∧ w'.failure = w.failure ∧ w'.value = value ∧ w'.gradient = gradient
  /-- A step that fails notes the binding and stays there. -/
  error : ∀ {failure}, sums = .error failure →
    w'.next = w.next ∧ w'.failure = some (w.next, failure)

variable {registry : Registry α} {x : List α} {rows columns : Nat} {b : Binding α} {w : Worker α}

theorem stepped_valueStep (h : Buffer.Shaped rows columns w.scratch) :
    Stepped rows columns (b.accumulate .value registry x (w.value, w.gradient)) w
      (w.valueStep registry b) := by
  rw [valueStep, Binding.accumulate]
  rcases b.term.value ((Graph.argumentVariables registry b).map Variable.scratch) >>=
    Outcome.toScalar with failure | value
  · exact ⟨rfl, h, rfl, fun h ↦ (nomatch h), fun h ↦ ⟨rfl, by cases h; rfl⟩⟩
  · exact ⟨rfl, h, rfl, fun h ↦ by cases h; exact ⟨rfl, rfl, rfl, rfl⟩, fun h ↦ nomatch h⟩

/-- A step with derivatives hands the term clean buffers only. -/
theorem stepped_derivativeStep {mode : Mode} (hmode : mode ≠ .value)
    (h : Buffer.Shaped rows columns w.scratch) (hb : b.Within registry rows columns) :
    Stepped rows columns (b.accumulate mode registry x (w.value, w.gradient)) w
        (w.derivativeStep mode registry x b).1 ∧
      (w.derivativeStep mode registry x b).2 = b.afterward mode registry := by
  have hshaped := Binding.shaped_zeroedScratch h b.arity
  -- The term gets clean buffers from any scratch, and from here on nothing of the scratch is left.
  rw [derivativeStep, Binding.zeroedBuffers_eq hshaped hb.rows hb.columns,
    Binding.accumulate_of_ne_value hmode, Binding.afterward_of_ne_value hmode, Binding.evaluated]
  obtain ⟨buffers, blocks, result⟩ := b.derivatives mode
    ((Graph.argumentVariables registry b).map Variable.scratch)
    (Binding.cleanBuffers (Graph.argumentVariables registry b))
  have hscratch := hshaped.conformAll buffers
  dsimp only
  rcases result >>= Outcome.toScalar with failure | value
  · exact ⟨⟨rfl, hscratch, rfl, fun h ↦ (nomatch h), fun h ↦ ⟨rfl, by cases h; rfl⟩⟩, rfl⟩
  · have hlength := Binding.length_scatter x (Graph.argumentVariables registry b) buffers w.gradient
    dsimp only [bind, Except.bind]
    cases hfailure : (Binding.scatter x (Graph.argumentVariables registry b) buffers
      w.gradient).failure with
    | none =>
      rw [Progress.complete_of_no_failure hfailure]
      exact ⟨⟨rfl, hscratch, hlength, fun h ↦ by cases h; exact ⟨rfl, rfl, rfl, rfl⟩,
        fun h ↦ nomatch h⟩, rfl⟩
    | some failure =>
      rw [Progress.complete_of_failure hfailure]
      exact ⟨⟨rfl, hscratch, hlength, fun h ↦ (nomatch h), fun h ↦ ⟨rfl, by cases h; rfl⟩⟩, rfl⟩

/-- A step brings the sums of a worker to what the binding adds, and fails with what the binding
fails with. -/
theorem stepped_step (mode : Mode) (h : Buffer.Shaped rows columns w.scratch)
    (hb : b.Within registry rows columns) :
    Stepped rows columns (b.accumulate mode registry x (w.value, w.gradient)) w
        (w.step mode registry x b).1 ∧
      (w.step mode registry x b).2 = b.afterward mode registry := by
  cases mode with
  | value => exact ⟨stepped_valueStep h, rfl⟩
  | gradient => exact stepped_derivativeStep (by simp) h hb
  | hessian => exact stepped_derivativeStep (by simp) h hb

end Worker

end Summand
