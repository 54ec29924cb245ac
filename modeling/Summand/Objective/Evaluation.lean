import Summand.Objective.Copying
import Summand.Objective.Schedule

/-!
# Evaluating objectives

Every evaluation checks its preconditions before it touches anything, sets the scratch values of
the variables, lets the workers run, and only then writes results. The gradient is the sum of the
workers' gradients in their order. The Hessian is assembled from the blocks of the bindings, in the
order of the bindings and of their arguments: dense, by adding every block to its place, or sparse,
from the list of all coordinates.
-/

namespace Summand.Objective

open Summand.Action

variable {α : Type}

/-! ### Checks -/

/-- Fails unless Hessians are enabled and no bound variable has a transform. -/
def checkHessianAllowed : Action α Unit := do
  let o ← objective
  if !o.settings.allowsHessian then throw .hessianDisabled
  if let some v := Registry.firstTransformed (o.graph.boundVariables o.registry) then
    throw (.unsupportedTransform "Hessian" v.index)

/-- The output array that a caller passes, if results of the given shape can be written to it. -/
def checkOutput (name : String) (expected : List Int) : Handle → Except Failure Block
  | .object _ => .error (.shapeMismatch name expected [])
  | .array block =>
    if block.sizes ≠ expected then .error (.shapeMismatch name expected block.sizes)
    else if !block.element.isFloating then
      .error (.unusableOutput name ("dtype " ++ block.element.name ++ " is not floating point"))
    else if !block.writeable then .error (.unusableOutput name "array is read-only")
    else .ok block

/-! ### Workers -/

/-- Fails unless the buffers of a worker can be allocated. -/
def checkStorage (o : Objective α) : Except Failure Unit := do
  let n := o.totalScalars
  let arity := o.graph.maxArity
  let dimension := o.registry.maxUserDimension
  let noRoom : Failure := .storage "worker storage" [o.workerCount, n + arity * dimension]
  Allocation.checkOr noRoom [n]
  Allocation.checkOr noRoom [arity, dimension]

/-- New buffers for every worker. -/
def newStorage [Zero α] (o : Objective α) : List (WorkerStorage α) :=
  List.replicate o.workerCount
    ⟨Buffer.zeros o.totalScalars.toNat,
      Buffer.zeroMatrix o.graph.maxArity o.registry.maxUserDimension⟩

/-- The storage of the workers, made if there is none. -/
def ensureStorage [Zero α] : Action α (List (WorkerStorage α)) := do
  let o ← objective
  match o.storage with
  | some storage => return storage
  | none =>
    checkStorage o
    let pool := if 1 < o.workerCount && o.pool.isNone then some o.workerCount else o.pool
    log .debug .engine
      ("Allocated storage for " ++ toString o.workerCount ++ " worker(s): " ++
        toString o.totalScalars ++ " scalars, arity " ++ toString o.graph.maxArity ++
        ", dimension " ++ toString o.registry.maxUserDimension)
    modifyObjective fun o ↦ { o with storage := some (newStorage o), pool }
    return newStorage o

/-- Lets the workers evaluate all bindings, and returns the sum of the values. -/
def runWorkers [Zero α] [Add α] [Storable α] (mode : Mode) (x : List α) : Action α α := do
  let storage ← ensureStorage
  let o ← objective
  let chunks := partition o.graph.size o.workerCount
  let turns := (← platform).interleaving.turns chunks
  let crew := (Crew.start storage chunks o.graph.bindings).run mode o.registry x turns
  modifyObjective fun o ↦
    { o with
      storage := some (crew.storageAfter storage)
      graph := { o.graph with bindings := crew.bindings } }
  match crew.failure? with
  | none => return crew.total
  | some (index, failure) =>
    let name := (o.graph.bindings[index]?).elim "" fun b ↦ b.term.name
    log .warning .engine
      ("Term " ++ toString index ++ " (" ++ name ++ ") failed during evaluation: " ++
        failure.message)
    throw (.termFailed index name failure)

/-- Counts an evaluation without a gradient. -/
def countPlain (o : Objective α) : Objective α :=
  { o with statistics :=
    { o.statistics with withoutGradient := o.statistics.withoutGradient + 1 } }

/-- Counts an evaluation with a gradient. -/
def countWithGradient (o : Objective α) : Objective α :=
  { o with statistics := { o.statistics with withGradient := o.statistics.withGradient + 1 } }

/-- Zeroes the gradients that the workers accumulate. -/
def zeroGradients [Zero α] (o : Objective α) : Objective α :=
  { o with storage := o.storage.map fun storage ↦ storage.map fun s ↦
    { s with gradient := Buffer.zeros s.gradient.length } }

/-- The value at a point, or at the values that the caller's blocks hold. -/
def evaluateValue [Zero α] [Add α] [Storable α] (x : Option (GivenPoint α)) : Action α α := do
  let _ ← ensureStorage
  match x with
  | none => copyBlocksToScratch
  | some x => copyPointToScratch (← checkPoint x)
  modifyObjective countPlain
  runWorkers .value []

/-- The value at a point with the gradient of each worker; the Hessian blocks are left with the
bindings. -/
def evaluateWorkers [Zero α] [Add α] [Storable α] (mode : Mode) (x : List α) :
    Action α (α × List (List α)) := do
  let _ ← ensureStorage
  copyPointToScratch x
  modifyObjective countWithGradient
  modifyObjective zeroGradients
  let value ← runWorkers mode x
  return (value, ((← objective).storage.getD []).map WorkerStorage.gradient)

/-! ### Assembly -/

/-- The sum of the workers' gradients in cells of an element type. -/
def sumGradients [Zero α] [Add α] [Storable α] (element : ElementType) (n : Nat)
    (gradients : List (List α)) : List α :=
  gradients.foldl (fun sum g ↦
    Buffer.combinePart (fun a b ↦ Storable.narrow element (a + b)) 0 g sum) (Buffer.zeros n)

/-- Adds a block to its place in a dense matrix. -/
def addBlock [Add α] [Storable α] (element : ElementType) (row column : Nat)
    (block matrix : List (List α)) : List (List α) :=
  Buffer.combinePart
    (Buffer.combinePart (fun a b ↦ Storable.narrow element (a + b)) column |> flip) row block matrix

/-- Adds all blocks of a binding to their places. -/
def addBlocks [Add α] [Storable α] (element : ElementType) (registry : Registry α)
    (matrix : List (List α)) (b : Binding α) : List (List α) :=
  let vars := Graph.argumentVariables registry b
  let place (v : Variable α) : Nat := (v.span matrix.length).1
  (vars.zip (b.hessianBlocks.getD [])).foldl (fun matrix (v, row) ↦
    (vars.zip row).foldl (fun matrix (w, block) ↦
      addBlock element (place v) (place w) block matrix) matrix) matrix

/-- The dense Hessian in cells of an element type. -/
def assembleDense [Zero α] [Add α] [Storable α] (element : ElementType) (o : Objective α) :
    List (List α) :=
  o.graph.bindings.foldl (addBlocks element o.registry)
    (Buffer.zeroMatrix o.totalScalars.toNat o.totalScalars.toNat)

/-- The position a number of entries behind an offset, in a machine word that wraps around. -/
def wordPosition (offset : Int) (k : Nat) : Int := Int.bmod (offset + k) (Nat.pow 2 64)

/-- The coordinates of a block, row by row. They begin at the offsets of its variables, wherever
these are. -/
def blockCoordinates (v w : Variable α) : List (Int × Int) :=
  (List.range v.userDimension).flatMap fun r ↦
    (List.range w.userDimension).map fun c ↦ (wordPosition v.offset r, wordPosition w.offset c)

/-- The coordinates of all blocks of all bindings. The offsets have to fit into machine words. -/
def enumerateCoordinates (o : Objective α) : Except Failure (List (Int × Int)) := do
  if (o.graph.boundVariables o.registry).any fun v ↦ !Number.fitsWord v.offset then
    throw Allocation.noWord
  return o.graph.bindings.flatMap fun b ↦
    let vars := Graph.argumentVariables o.registry b
    vars.flatMap fun v ↦ vars.flatMap fun w ↦ blockCoordinates v w

/-- The coordinates of the Hessian, enumerated if that has not been done. -/
def ensureCoordinates : Action α (List (Int × Int)) := do
  let o ← objective
  match o.coordinates with
  | some coordinates => return coordinates
  | none =>
    let coordinates ← enumerateCoordinates o
    modifyObjective fun o ↦ { o with coordinates := some coordinates }
    return coordinates

/-- The entries of all Hessian blocks, in the order of their coordinates. -/
def blockValues (o : Objective α) : List α :=
  o.graph.bindings.flatMap fun b ↦
    (b.hessianBlocks.getD []).flatMap fun row ↦ row.flatMap List.flatten

/-- The failure of building a matrix with a size below zero. -/
def negativeSize : Failure := .raised "ValueError" "'shape' elements cannot be negative"

/-- The matrix with the given values at the Hessian's coordinates. -/
def assembleSparse [Add α] (values : List α) : Action α (SparseMatrix α) := do
  let coordinates ← ensureCoordinates
  let n := (← objective).totalScalars
  if Allocation.wordLimit < n then throw Allocation.noWord
  if n < 0 then throw negativeSize
  let coordinates ← SparseMatrix.placed n.toNat coordinates
  Allocation.check .integer [n + 1]
  return .assemble (← platform).arrangement n.toNat coordinates values

/-- The target that holds the matrix with the given values at the Hessian's coordinates. -/
def assembleTarget [Add α] (values : List α) : Action α (HessianTarget α) := do
  let matrix ← assembleSparse values
  return ⟨some matrix, values.length⟩

/-! ### Entry points -/

section Entry

variable [Zero α] [Add α] [Storable α]

/-- Writes the sum of the workers' gradients to a block. -/
def writeGradient (block : Block) (gradients : List (List α)) : Action α Unit := do
  let n := (← objective).totalScalars
  modifyMemory (·.store block (sumGradients block.element n.toNat gradients))

/-- Evaluates at a point and writes the gradient, and the dense Hessian if it is asked for, to the
caller's arrays. -/
def evaluateInto (x : GivenPoint α) (gradient : Handle) (hessian : Option Handle) : Action α α := do
  if hessian.isSome then checkHessianAllowed
  let n := (← objective).totalScalars
  let x ← checkPoint x
  let gradientBlock ← checkOutput "gradient" [n] gradient
  let hessianBlock ← hessian.mapM fun h ↦ checkOutput "hessian" [n, n] h
  let mode := if hessian.isSome then .hessian else .gradient
  let (value, gradients) ← evaluateWorkers mode x
  writeGradient gradientBlock gradients
  if let some block := hessianBlock then
    let rows := assembleDense block.element (← objective)
    modifyMemory (·.store block rows.flatten)
  return value

/-- Evaluates at a point and returns a new gradient. -/
def evaluateFresh (mode : Mode) (x : GivenPoint α) : Action α (α × List α) := do
  let n := (← objective).totalScalars
  if mode = .hessian then checkHessianAllowed
  let x ← checkPoint x
  let (value, gradients) ← evaluateWorkers mode x
  return (value, sumGradients .float64 n.toNat gradients)

/-- The value at a point. A gradient and a dense Hessian are written to the arrays passed for
them. -/
def evaluate (x : GivenPoint α) (gradient hessian : Option Handle) : Action α α := do
  checkOpen "evaluate"
  match gradient, hessian with
  | none, none => evaluateValue (some x)
  | some gradient, hessian => evaluateInto x gradient hessian
  | none, some hessian =>
    let n := (← objective).totalScalars
    Allocation.check .real [n]
    checkHessianAllowed
    let x ← checkPoint x
    let block ← checkOutput "hessian" [n, n] hessian
    let (value, _) ← evaluateWorkers .hessian x
    let rows := assembleDense block.element (← objective)
    modifyMemory (·.store block rows.flatten)
    return value

/-- The value at the values that the caller's blocks hold. -/
def evaluateUser : Action α α := do
  checkOpen "evaluate"
  evaluateValue none

/-- The value and the gradient at a point. -/
def valueAndGradient (x : GivenPoint α) : Action α (α × List α) := do
  checkOpen "evaluate"
  Allocation.check .real [(← objective).totalScalars]
  evaluateFresh .gradient x

/-- The value at a point; the gradient is written to an array and the Hessian to a sparse
target. -/
def evaluateSparse (x : GivenPoint α) (gradient : Handle) (target : Option Nat) : Action α α := do
  checkOpen "evaluate"
  match target with
  | none => throw .missingTarget
  | some position =>
    checkHessianAllowed
    let n := (← objective).totalScalars
    let x ← checkPoint x
    let block ← checkOutput "gradient" [n] gradient
    let (value, gradients) ← evaluateWorkers .hessian x
    writeGradient block gradients
    let assembled ← assembleTarget (blockValues (← objective))
    modifyMemory (·.setTarget position assembled)
    return value

/-- The value, the gradient and the sparse Hessian at a point. -/
def valueGradientSparse (x : GivenPoint α) : Action α (α × List α × SparseMatrix α) := do
  checkOpen "evaluate"
  let n := (← objective).totalScalars
  Allocation.check .real [n]
  let (value, gradient) ← evaluateFresh .hessian x
  return (value, gradient, ← assembleSparse (blockValues (← objective)))

/-- The value, the gradient and the dense Hessian at a point. -/
def valueGradientDense (x : GivenPoint α) : Action α (α × List α × List (List α)) := do
  checkOpen "evaluate"
  let n := (← objective).totalScalars
  Allocation.check .real [n]
  Allocation.check .real [n, n]
  let (value, gradient) ← evaluateFresh .hessian x
  return (value, gradient, assembleDense .float64 (← objective))

/-- The structure of the sparse Hessian: every stored entry is the number of blocks that cover it.
No term is evaluated. The pattern is also put into a target, if one is given. -/
def sparsityPattern [OfNat α 1] (target : Option Nat) : Action α (SparseMatrix α) := do
  checkOpen "build the Hessian sparsity pattern"
  let o ← objective
  if let some v := Registry.firstTransformed (o.graph.boundVariables o.registry) then
    throw (.unsupportedTransform "Hessian sparsity pattern" v.index)
  let coordinates ← ensureCoordinates
  let assembled ← assembleTarget (List.replicate coordinates.length 1)
  if let some position := target then modifyMemory (·.setTarget position assembled)
  return assembled.matrix.getD .empty

end Entry

end Summand.Objective
