import Summand.Term.Form
import Summand.Transform.Elementwise

/-!
# Transforms between spaces of different dimensions

Linear maps, given by the matrix of the map and that of its inverse, the unit circle as the image of
an angle, and an identity that fails on request. They read the numbers of vectors one by one. A row
of numbers in the place of a number cannot be read, but it can be filled or added to as a whole.
-/

namespace Summand.Transform

/-! ### Linear maps -/

/-- The product of a row of a matrix with the front of a vector. -/
def imageEntry (row : List Number) (v : Grid Float) : Except Failure Float :=
  row.zipIdx.foldlM (fun sum (c, j) ↦ do
    let x ← v.scalarAt j
    return sum + (← c.double) * x) 0.0

/-- The image of a vector under a matrix, in the front of an array. -/
def linearImage (rows : List (List Number)) (out v : Grid Float) : Progress (Grid Float) :=
  .run (fun out (row, i) ↦ do out.setRow i (← imageEntry row v)) out rows.zipIdx

/-- An array with the image of a gradient under the transposed matrix added, row by row. -/
def linearPullback (rows : List (List Number)) (accumulator gradient : Grid Float) :
    Progress (Grid Float) :=
  .run
    (fun sums (i, j, c) ↦ do
      let _ ← sums.rowShape j
      let g ← gradient.scalarAt i
      let product := (← c.double) * g
      sums.modifyRow j (· + product))
    accumulator (Term.positioned rows)

/-- The linear map with a matrix, of as many inputs as are told. -/
def linear (id : Nat) (rows inverse : List (List Number)) (inputs : Int) : Transform Float where
  id
  name := "LinearTransform"
  inputDimension := inputs
  outputDimension := rows.length
  toUser := linearImage rows
  toOptimization := linearImage inverse
  projectGradient accumulator _ gradient := linearPullback rows accumulator gradient

/-! ### The circle -/

/-- A sine or cosine, which an infinite angle has none of. -/
def wave (f : Float → Float) (angle : Float) : Except Failure Float :=
  if angle.isInf then .error (.number .outOfDomain) else .ok (f angle)

/-- The point of the unit circle at an angle. -/
def circle (id : Nat) : Transform Float where
  id
  name := "CircleTransform"
  inputDimension := 1
  outputDimension := 2
  toUser out point :=
    .run (fun out (f, k) ↦ do out.setRow k (← wave f (← point.scalarAt 0))) out
      [(Elementary.cos, 0), (Elementary.sin, 1)]
  toOptimization out value :=
    .once (fun out ↦ do
      let y ← value.scalarAt 1
      let x ← value.scalarAt 0
      out.setRow 0 (Elementary.atan2 y x)) out
  projectGradient accumulator point gradient :=
    .once (fun sums ↦ do
      let t ← point.scalarAt 0
      let g0 ← gradient.scalarAt 0
      let g1 ← gradient.scalarAt 1
      let _ ← sums.rowShape 0
      let s ← wave Elementary.sin t
      let c ← wave Elementary.cos t
      let slope := -s * g0 + c * g1
      sums.modifyRow 0 (· + slope)) accumulator

/-! ### Failing maps -/

/-- The identity, of which the given maps fail: the maps of points before they write anything, the
map of gradients after it has added. -/
def failing (id : Nat) (dimension : Int) (failure : Failure) (directions : List Direction) :
    Transform Float :=
  let unit := (Term.diagonal dimension.toNat 1.0).map fun row ↦ row.map Number.real
  let identity := linear id unit unit dimension
  let failureOf (d : Direction) : Option Failure :=
    if directions.contains d then some failure else none
  let unlessFailing (d : Direction) (map : Grid Float → Grid Float → Progress (Grid Float))
      (out v : Grid Float) : Progress (Grid Float) :=
    match failureOf d with
    | some failure => { state := out, steps := 0, failure }
    | none => map out v
  { identity with
    name := "FailingTransform"
    toUser := unlessFailing .toUser identity.toUser
    toOptimization := unlessFailing .toOptimization identity.toOptimization
    projectGradient := fun accumulator point gradient ↦
      let filled := identity.projectGradient accumulator point gradient
      { filled with failure := filled.failure.or (failureOf .projectGradient) } }

end Summand.Transform
