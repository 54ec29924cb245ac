import Summand.Grid
import Summand.Objective.Basic

/-!
# Copying between spaces

Points of the optimization space are copied to the scratch values of the variables before an
evaluation, and to and from the caller's blocks on request. Variables are treated in registration
order, so that a failure leaves those before it copied.
-/

namespace Summand

/-- A point as a caller gives it: an array, or the failure of making one of what was given, which
counts once the point is read. -/
abbrev GivenPoint (α : Type) := Except Failure (Grid α)

namespace Objective

open Summand.Action

variable {α : Type}

/-- The entries of a point, which has to be a vector of the right length. -/
def checkPoint (x : GivenPoint α) : Action α (List α) := do
  let x ← x
  let n := (← objective).totalScalars
  if x.sizes = [n] then return x.entries
  else throw (.shapeMismatch "x" [n] x.sizes)

/-! ### Scratch values -/

/-- What a variable's scratch becomes at a point. -/
def scratchAt (v : Variable α) (x : List α) : Progress (List α) :=
  let point := v.slice x
  match v.transform with
  | none => .once (fun held ↦ (Grid.vector point).stretchTo [held.length]) v.scratch
  | some t => (t.userVector v.scratch point).map (Buffer.conform v.scratch)

/-- The variables with their scratch values at a point, up to the first one that fails. -/
def scratchedAt (x : List α) : List (Variable α) → List (Variable α) × Option Failure
  | [] => ([], none)
  | v :: rest =>
    let filled := scratchAt v x
    let v := { v with scratch := filled.state }
    match filled.failure with
    | some failure => (v :: rest, some failure)
    | none =>
      let (rest, failure) := scratchedAt x rest
      (v :: rest, failure)

/-- Changes the variables. -/
def setVariables (entries : List (Variable α)) : Action α Unit :=
  modifyObjective fun o ↦ { o with registry := { o.registry with entries } }

/-- Sets the scratch values from a point. -/
def copyPointToScratch (x : List α) : Action α Unit := do
  let (entries, failure) := scratchedAt x (← objective).registry.entries
  setVariables entries
  if let some failure := failure then throw failure

/-- Sets the scratch values from the caller's blocks, which hold user-space values already. -/
def copyBlocksToScratch [Zero α] : Action α Unit := do
  let m ← memory
  let entries := (← objective).registry.entries
  setVariables (entries.map fun v ↦ { v with scratch := m.read v.userBlock })

/-! ### The caller's blocks -/

/-- Writes the user-space value of a variable at a point into its block. -/
def writeBlock [Zero α] [Storable α] (v : Variable α) (x : List α) : Action α Unit := do
  let block := v.userBlock
  let point := v.slice x
  match v.transform with
  | none =>
    if !block.writeable then throw Memory.readOnly
    let point ← (Grid.vector point).stretchTo [block.size]
    modifyMemory (·.store block point)
  | some t =>
    let before := (← memory).read block
    let filled := t.userVector before point
    if block.writeable then
      modifyMemory (·.store block (Buffer.conform before filled.state))
    else if 0 < filled.steps then throw Memory.readOnly
    if let some failure := filled.failure then throw failure

/-- Writes the user-space value of a point into the caller's blocks. -/
def copyPointToBlocks [Zero α] [Storable α] (x : GivenPoint α) : Action α Unit := do
  checkOpen "copy variables"
  let x ← checkPoint x
  for v in (← objective).registry.entries do
    writeBlock v x

/-- The point whose user-space value the caller's blocks hold. -/
def copyBlocksToPoint [Zero α] : Action α (List α) := do
  checkOpen "copy variables"
  let o ← objective
  let m ← memory
  Allocation.check .real [o.totalScalars]
  let mut x : List α := Buffer.zeros o.totalScalars.toNat
  for v in o.registry.entries do
    let value := m.read v.userBlock
    match v.transform with
    | none => x := v.setSlice (← (Grid.vector value).stretchTo [(v.slice x).length]) x
    | some t =>
      let out := v.slice x
      let filled := t.optimizationVector out value
      x := v.setSlice (Buffer.conform out filled.state) x
      if let some failure := filled.failure then throw failure
  return x

end Objective

end Summand
