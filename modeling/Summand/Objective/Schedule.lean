import Summand.Objective.Basic

/-!
# Workers and their schedule

The bindings are split into one chunk for each worker. A worker goes through its chunk binding by
binding; it has its own gradient and scratch, and writes the Hessian blocks of its own bindings
only. It stops at the first binding that fails. A schedule is a list of workers, each of which does
its next step in turn. Since no step touches what another worker reads, every schedule in which all
workers finish leaves the same crew.
-/

namespace Summand

variable {α : Type}

/-- What an evaluation computes. -/
inductive Mode where
  | value
  | gradient
  | hessian
  deriving Repr, DecidableEq

/-- A worker on its way through a chunk of bindings. -/
structure Worker (α : Type) where
  /-- The binding to evaluate next. -/
  next : Nat
  /-- The end of the chunk. -/
  stop : Nat
  /-- The sum of the values so far. -/
  value : α
  gradient : List α
  scratch : List (List α)
  /-- The binding that failed, and why. -/
  failure : Option (Nat × Failure) := none

/-- The workers of an evaluation and the bindings they share. -/
structure Crew (α : Type) where
  workers : List (Worker α)
  bindings : List (Binding α)

/-! ### One binding -/

namespace Binding

/-- Adds the gradient of one argument to an accumulator, through the variable's transform if it has
one. -/
def scatterOne [Add α] (v : Variable α) (g x accumulator : List α) : Progress (List α) :=
  match v.transform with
  | none =>
    .once (fun accumulator ↦ do
      let sum ← (Grid.vector (v.slice accumulator)).combine (· + ·) (.vector g)
      return v.setSlice sum.entries accumulator) accumulator
  | some t =>
    let out := v.slice accumulator
    let filled := t.projectedVector out (v.slice x) g
    filled.map fun filled ↦ v.setSlice (Buffer.conform out filled) accumulator

/-- Adds the gradients of all arguments to an accumulator, in order, up to the first failure. -/
def scatter [Add α] (x : List α) :
    List (Variable α) → List (List α) → List α → Progress (List α)
  | v :: vars, g :: gradients, accumulator =>
    let filled := scatterOne v g x accumulator
    match filled.failure with
    | some _ => filled
    | none => scatter x vars gradients filled.state
  | _, _, accumulator => { state := accumulator, steps := 0 }

/-- The gradient buffers for a binding's arguments: the fronts of the scratch rows, zeroed. -/
def zeroedBuffers [Zero α] (vars : List (Variable α)) (scratch : List (List α)) :
    List (List α) :=
  List.zipWith (fun v row ↦ (Buffer.zeros row.length).take v.userDimension) vars scratch

/-- The scratch with the rows of the first arguments zeroed. -/
def zeroedScratch [Zero α] (arity : Nat) (scratch : List (List α)) : List (List α) :=
  (scratch.take arity).map (fun row ↦ Buffer.zeros row.length) ++ scratch.drop arity

/-- Hessian blocks of zeros, of the same sizes. -/
def zeroedBlocks [Zero α] (blocks : HessianBlocks α) : HessianBlocks α :=
  blocks.map fun row ↦ row.map fun block ↦ block.map fun line ↦ Buffer.zeros line.length

/-- Evaluates the derivatives of a binding's term: the buffers after the call, the Hessian blocks
after the call, and the value. -/
def derivatives [Zero α] (mode : Mode) (b : Binding α) (arguments buffers : List (List α)) :
    List (List α) × Option (HessianBlocks α) × Except Failure (Outcome α) :=
  match mode, b.hessianBlocks with
  | .hessian, some blocks =>
    let zeroed := zeroedBlocks blocks
    let result := b.term.secondOrder arguments buffers zeroed
    (Buffer.conformAll buffers result.gradient,
      some (Buffer.conformBlocks zeroed result.hessian), result.value)
  | _, blocks =>
    let result := b.term.firstOrder arguments buffers
    (Buffer.conformAll buffers result.gradient, blocks, result.value)

end Binding

/-! ### One step -/

namespace Worker

variable [Zero α] [Add α] [Storable α]

/-- Whether the worker has nothing left to do. -/
def finished (w : Worker α) : Bool := w.failure.isSome || w.stop ≤ w.next

/-- The worker after the binding at hand failed. -/
def fail (w : Worker α) (failure : Failure) : Worker α :=
  { w with failure := some (w.next, failure) }

/-- Evaluates the value of a binding's term and adds it. -/
def valueStep (registry : Registry α) (b : Binding α) (w : Worker α) : Worker α :=
  let arguments := (Graph.argumentVariables registry b).map Variable.scratch
  match b.term.value arguments >>= Outcome.toScalar with
  | .error failure => w.fail failure
  | .ok value => { w with value := w.value + value, next := w.next + 1 }

/-- Evaluates the derivatives of a binding's term, and adds the value and the gradient. -/
def derivativeStep (mode : Mode) (registry : Registry α) (x : List α) (b : Binding α)
    (w : Worker α) : Worker α × Binding α :=
  let vars := Graph.argumentVariables registry b
  let zeroed := Binding.zeroedScratch b.arity w.scratch
  let (buffers, hessianBlocks, result) :=
    b.derivatives mode (vars.map Variable.scratch) (Binding.zeroedBuffers vars zeroed)
  let w := { w with scratch := Buffer.conformAll zeroed buffers }
  let b := { b with hessianBlocks }
  match result >>= Outcome.toScalar with
  | .error failure => (w.fail failure, b)
  | .ok value =>
    let filled := Binding.scatter x vars buffers w.gradient
    let w := { w with value := w.value + value, gradient := filled.state }
    match filled.failure with
    | some failure => (w.fail failure, b)
    | none => ({ w with next := w.next + 1 }, b)

/-- Does one binding. -/
def step (mode : Mode) (registry : Registry α) (x : List α) (b : Binding α) (w : Worker α) :
    Worker α × Binding α :=
  match mode with
  | .value => (w.valueStep registry b, b)
  | mode => w.derivativeStep mode registry x b

end Worker

/-! ### Whole evaluations -/

namespace Crew

variable [Zero α] [Add α] [Storable α]

/-- Lets the worker at a position do its next step, if it has any left. -/
def step (mode : Mode) (registry : Registry α) (x : List α) (crew : Crew α) (position : Nat) :
    Crew α :=
  match crew.workers[position]? with
  | none => crew
  | some w =>
    if w.finished then crew
    else
      match crew.bindings[w.next]? with
      | none => crew
      | some b =>
        let (w', b') := w.step mode registry x b
        ⟨crew.workers.set position w', crew.bindings.set w.next b'⟩

/-- Lets workers do steps in the order of a schedule. -/
def run (mode : Mode) (registry : Registry α) (x : List α) (schedule : List Nat)
    (crew : Crew α) : Crew α :=
  schedule.foldl (step mode registry x) crew

/-- The workers at the start of their chunks. -/
def start (storage : List (WorkerStorage α)) (chunks : List Chunk) (bindings : List (Binding α)) :
    Crew α :=
  ⟨List.zipWith (fun s chunk ↦
    { next := chunk.start.toNat, stop := chunk.stop.toNat, value := 0, gradient := s.gradient,
      scratch := s.scratch }) storage chunks, bindings⟩

/-- The storage after an evaluation; that of workers without a chunk stays as it was. -/
def storageAfter (crew : Crew α) (storage : List (WorkerStorage α)) : List (WorkerStorage α) :=
  crew.workers.map (fun w ↦ ⟨w.gradient, w.scratch⟩) ++ storage.drop crew.workers.length

/-- The failure of the first worker that failed. -/
def failure? (crew : Crew α) : Option (Nat × Failure) := crew.workers.findSome? Worker.failure

/-- The sum of the workers' values. -/
def total (crew : Crew α) : α := crew.workers.foldl (fun sum w ↦ sum + w.value) 0

end Crew

end Summand
