import Summand.Progress
import Summand.Term.Polynomial

/-!
# Bilinear and quadratic forms

The forms with a matrix whose rows may differ in length. Sums go over the entries that there are,
row by row; an entry beyond the sizes of the arguments makes the form fail where it is reached, and
second derivatives stay as they were written up to there. Forms have no interval form.
-/

namespace Summand.Term

/-- The length of the first row of a matrix, zero if there is none. -/
def columnCount (a : List (List Number)) : Nat := (a.headD []).length

/-- The entries of a matrix row by row, each with its position. -/
def positioned (a : List (List Number)) : List (Nat × Nat × Number) :=
  a.zipIdx.flatMap fun (row, i) ↦ row.zipIdx.map fun (c, j) ↦ (i, j, c)

/-- The value of the form with a matrix at two vectors. -/
def formValue (a : List (List Number)) (u v : List Float) : Except Failure Float :=
  (positioned a).foldlM (fun sum (i, j, c) ↦ do
    return sum + (← listEntry u i) * (← c.double) * (← listEntry v j)) 0.0

/-- A vector with a number added to one of its entries. -/
def increased (v : List Float) (k : Nat) (x : Float) : List Float := v.modify k (· + x)

/-- A matrix with another number at a position. -/
def setCell (m : List (List Float)) (i j : Nat) (c : Number) :
    Except Failure (List (List Float)) :=
  match m[i]? with
  | none => .error (.outOfBounds i 0 m.length)
  | some row =>
    if j < row.length then do return m.set i (row.set j (← c.double))
    else .error (.outOfBounds j 1 row.length)

/-- A term by its value, its gradient and the second derivatives as far as they can be written,
which are written before all else. -/
def ofForm (id : Nat) (name : String) (sizes : List Nat)
    (value : List (List Float) → Except Failure Float)
    (gradient : List (List Float) → Except Failure (List (List Float)))
    (hessian : Progress (HessianBlocks Float)) : Term Float :=
  let firstOrder (arguments buffers : List (List Float)) : FirstOrder Float :=
    match gradient arguments with
    | .error failure => ⟨buffers, .error failure⟩
    | .ok gradient => ⟨gradient, (value arguments).map .real⟩
  { id
    name
    dimensions := sizes.map Int.ofNat
    value := fun arguments ↦ (value arguments).map .real
    firstOrder
    secondOrder := fun arguments buffers _ ↦
      match hessian.failure with
      | some failure => ⟨buffers, hessian.state, .error failure⟩
      | none =>
        let first := firstOrder arguments buffers
        ⟨first.gradient, hessian.state, first.value⟩
    enclosure := fun _ ↦ noEnclosure name }

/-! ### Bilinear forms -/

/-- The derivatives of the bilinear form with a matrix. -/
def bilinearGradient (a : List (List Number)) (u v : List Float) :
    Except Failure (List (List Float)) := do
  let (g, h) ← (positioned a).foldlM (fun (g, h) (i, j, c) ↦ do
    let y ← listEntry v j
    let c ← c.double
    return (increased g i (c * y), increased h j (c * (← listEntry u i))))
    (Buffer.zeros u.length, Buffer.zeros v.length)
  return [g, h]

/-- The mixed derivatives of the bilinear form with a matrix: the matrix and its transposed. -/
def bilinearHessian (a : List (List Number)) : Progress (HessianBlocks Float) :=
  let rows := a.length
  let columns := columnCount a
  let progress := Progress.run
    (fun (m, transposed) (i, j, c) ↦ do
      return (← setCell m i j c, ← setCell transposed j i c))
    (Buffer.zeroMatrix rows columns, Buffer.zeroMatrix columns rows) (positioned a)
  let (m, transposed) := progress.state
  { progress with state :=
    [[Buffer.zeroMatrix rows rows, m], [transposed, Buffer.zeroMatrix columns columns]] }

/-- The bilinear form with a matrix. Without a row there is no number of columns to tell. -/
def bilinear (id : Nat) (a : List (List Number)) : Term Float :=
  { ofForm id "BilinearTerm" [a.length, columnCount a]
      (fun arguments ↦ formValue a (arguments.getD 0 []) (arguments.getD 1 []))
      (fun arguments ↦ bilinearGradient a (arguments.getD 0 []) (arguments.getD 1 []))
      (bilinearHessian a) with
    tellFailure := if a.isEmpty then some .outOfRange else none }

/-! ### Quadratic forms -/

/-- The sum of an entry and the one that stands opposite to it. -/
def symmetrizedEntry (a : List (List Number)) (i j : Nat) (c : Number) :
    Except Failure Number := do
  (c.add (← listEntry (← listEntry a j) i)).mapError .number

/-- The derivative of the quadratic form with a matrix. -/
def quadraticGradient (a : List (List Number)) (x : List Float) :
    Except Failure (List (List Float)) := do
  let g ← (positioned a).foldlM (fun g (i, j, c) ↦ do
    let c ← symmetrizedEntry a i j c
    let y ← listEntry x j
    return increased g i ((← c.double) * y))
    (Buffer.zeros x.length)
  return [g]

/-- The second derivatives of the quadratic form with a matrix. -/
def quadraticHessian (a : List (List Number)) : Progress (HessianBlocks Float) :=
  let progress := Progress.run
    (fun m (i, j, c) ↦ do setCell m i j (← symmetrizedEntry a i j c))
    (Buffer.zeroMatrix a.length a.length) (positioned a)
  { progress with state := [[progress.state]] }

/-- The quadratic form with a square matrix. -/
def quadratic (id : Nat) (a : List (List Number)) : Term Float :=
  ofForm id "QuadraticTerm" [a.length]
    (fun arguments ↦ formValue a (arguments.headD []) (arguments.headD []))
    (fun arguments ↦ quadraticGradient a (arguments.headD []))
    (quadraticHessian a)

end Summand.Term
