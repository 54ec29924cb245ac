import Summand.Event
import Summand.Memory
import Summand.Transform.Basic

/-!
# The registry of variables

A variable is a block of the caller with its place in the flat vector of the optimization space.
Variables are kept in the order of their first registration and known by the identity of their
block; each one's slice of the flat vector begins where the slice before it ends. Registering a
known block again changes its transform and nothing else, provided that the dimensions agree.

A caller may give any value as a dimension. It is compared as the number that it stands for, and a
new variable needs an integer. The size of a slice is what a transform tells, right or wrong.
-/

namespace Summand

variable {α : Type}

/-- A registered block. -/
structure Variable (α : Type) where
  block : Block
  /-- The position in registration order. -/
  index : Nat
  /-- The size of the value that terms see. -/
  userDimension : Nat
  /-- The size of the slice of the flat vector. -/
  solverDimension : Int
  /-- Where the slice begins. -/
  offset : Int
  transform : Option (Transform α)
  /-- The user-space value of the evaluation at hand. -/
  scratch : List α

namespace Variable

/-- The place of the variable's slice in a flat vector of a length, and its size there. -/
def span (v : Variable α) (length : Nat) : Nat × Nat :=
  Buffer.span length v.offset (v.offset + v.solverDimension)

/-- The variable's slice of a flat vector. -/
def slice {β : Type} (v : Variable α) (x : List β) : List β :=
  let (offset, count) := v.span x.length
  Buffer.part offset count x

/-- A flat vector with another slice. -/
def setSlice (v : Variable α) (w x : List α) : List α := Buffer.setPart (v.span x.length).1 w x

/-- The part of the caller's block that holds the value. -/
def userBlock (v : Variable α) : Block := v.block.front v.userDimension

end Variable

/-- The registered variables and the size of the flat vector. -/
structure Registry (α : Type) where
  entries : List (Variable α) := []
  totalScalars : Int := 0

namespace Registry

/-! ### Views -/

/-- The variable of the block with the given identity. -/
def find? (r : Registry α) (id : Nat) : Option (Variable α) :=
  r.entries.find? fun v ↦ v.block.id == id

/-- The variable of what a caller passes as a block. -/
def lookup (r : Registry α) : Handle → Option (Variable α)
  | .array block => r.find? block.id
  | .object _ => none

def count (r : Registry α) : Nat := r.entries.length

/-- The greatest user dimension, one if there are no variables. -/
def maxUserDimension (r : Registry α) : Nat :=
  match r.entries with
  | [] => 1
  | v :: rest => rest.foldl (fun d w ↦ max d w.userDimension) v.userDimension

/-- The text of a registry in messages. -/
def shown (r : Registry α) : String :=
  "VariableRegistry(variables=" ++ toString r.count ++ ", scalars=" ++ toString r.totalScalars ++
    ")"

/-- The first variable that carries a transform. -/
def firstTransformed (vars : List (Variable α)) : Option (Variable α) :=
  vars.find? fun v ↦ v.transform.isSome

/-! ### Registration -/

/-- The block that a caller passes, if variables can live in it. -/
def checkBlock : Handle → Except Failure Block
  | .object typeName => .error (.invalidBlock ("expected numpy.ndarray, got " ++ typeName))
  | .array block =>
    if block.shape.length ≠ 1 then
      .error (.invalidBlock ("expected a 1-D array, got shape " ++ Text.shape block.sizes))
    else if !block.element.isFloating then
      .error (.invalidBlock ("expected a floating point dtype, got " ++ block.element.name))
    else .ok block

/-- The dimensions that installing a transform, or none, asks for: those of user and optimization
space. Without a transform both spaces have the variable's user dimension. -/
def installedDimensions (v : Variable α) : Option (Transform α) → Int × Int
  | none => (v.userDimension, v.userDimension)
  | some t => (t.outputDimension, t.inputDimension)

/-- Replaces the variable of the same index. -/
def setVariable (r : Registry α) (v : Variable α) : Registry α :=
  { r with entries := r.entries.set v.index v }

/-- Whether two transforms, or their absence, are the same one. -/
def sameTransform (s t : Option (Transform α)) : Bool :=
  s.map Transform.id == t.map Transform.id

/-- Installs another transform on a known variable. The one before is released, unless it is the
same one. -/
def replaceTransform (r : Registry α) (v : Variable α) (transform : Option (Transform α)) :
    Traced α (Registry α) := do
  let (output, input) := installedDimensions v transform
  if output ≠ v.userDimension || input ≠ v.solverDimension then
    throw (.transformMismatch (.int v.userDimension) (some v.solverDimension) output input)
  if let some previous := v.transform then
    if !sameTransform v.transform transform then
      Traced.emit (.transformReleased previous.id)
      if let some failure := previous.closeFailure then throw failure
  return r.setVariable { v with transform }

/-- The failure of giving something for a dimension that is no integer. -/
def notDimension : Failure := .raised "TypeError" "a dimension is an integer"

/-- Fails unless a dimension is positive and no greater than the size of a block. -/
def checkDimension (given : Json) (size : Nat) : Except Failure Unit :=
  match Number.ofJson? given with
  | none => .error notDimension
  | some n =>
    let atMost (m : Number) (bound : Number) : Bool := m < bound || m == bound
    if atMost n 0 || (Number.int size) < n then
      .error (.invalidBlock ("dimension " ++ given.plain ++ " does not fit a block of size " ++
        toString size))
    else .ok ()

/-- Whether a value stands for an integer. -/
def standsFor (given : Json) (n : Int) : Bool := Number.ofJson? given == some (.int n)

/-- The dimensions of a new variable in user and optimization space, the former of which has been
checked. -/
def newDimensions (dimension : Json) (transform : Option (Transform α)) :
    Except Failure (Nat × Int) := do
  if let some t := transform then
    if !standsFor dimension t.outputDimension then
      throw (.transformMismatch dimension none t.outputDimension t.inputDimension)
  let .int n := dimension | throw notDimension
  return (n.toNat, transform.elim n Transform.inputDimension)

/-- Appends a variable for a block that is not known yet. -/
def append [Zero α] (r : Registry α) (block : Block) (dimension : Json)
    (transform : Option (Transform α)) : Traced α (Registry α × Nat) := do
  let (user, solver) ← newDimensions dimension transform
  let v : Variable α :=
    { block, index := r.count, userDimension := user, solverDimension := solver,
      offset := r.totalScalars, transform, scratch := Buffer.zeros user }
  Traced.log .debug .registry
    ("Registered variable " ++ toString v.index ++ " (dimension " ++ toString user ++
      ", offset " ++ toString v.offset ++ ", transform=" ++
      (transform.elim "None" Transform.shown) ++ ")")
  return (⟨r.entries ++ [v], r.totalScalars + solver⟩, v.index)

/-- Registers a block, or changes the transform of a known one. The dimension is that of the whole
block unless it is given. Returns the registry and the variable's index. -/
def register [Zero α] (r : Registry α) (handle : Handle) (dimension : Json)
    (transform : Option (Transform α)) : Traced α (Registry α × Nat) := do
  let block ← checkBlock handle
  let requested := if dimension.isNull then .int block.size else dimension
  match r.find? block.id with
  | some v =>
    if !standsFor requested v.userDimension then
      throw (.dimensionMismatch v.userDimension requested)
    return (← r.replaceTransform v transform, v.index)
  | none =>
    checkDimension requested block.size
    r.append block requested transform

/-! ### Release -/

/-- Releases the transforms of variables in order and removes them, up to the first one that cannot
be released. -/
def releaseTransforms : List (Variable α) → List (Variable α) × List (Event α) × Option Failure
  | [] => ([], [], none)
  | v :: rest =>
    match v.transform with
    | none =>
      let (rest, events, failure) := releaseTransforms rest
      (v :: rest, events, failure)
    | some t =>
      match t.closeFailure with
      | some failure => (v :: rest, [.transformReleased t.id], some failure)
      | none =>
        let (rest, events, failure) := releaseTransforms rest
        ({ v with transform := none } :: rest, .transformReleased t.id :: events, failure)

/-- A registry after the release of its transforms, the events of that, and its failure. -/
def close (r : Registry α) : Registry α × List (Event α) × Option Failure :=
  let (entries, events, failure) := releaseTransforms r.entries
  ({ r with entries }, events, failure)

end Registry

end Summand
