import Summand.Term.Basic

/-!
# Polynomial terms

Terms that are polynomials of their arguments with exact derivatives. All sums begin at zero, or at
the constant of the polynomial, and go from left to right. The enclosures follow the polynomial.
-/

namespace Summand.Term

/-! ### Sums and matrices -/

/-- The sum of numbers from left to right. -/
def sumOf (numbers : List Float) : Float := numbers.foldl (· + ·) 0.0

/-- The square matrix with one number on its diagonal and zeros elsewhere. -/
def diagonal (n : Nat) (value : Float) : List (List Float) :=
  (List.range n).map fun i ↦ (List.range n).map fun j ↦ if i = j then value else 0.0

/-! ### Sums of squares -/

/-- The sum of the squares of a vector's entries. -/
def squareValue (arguments : List (List Float)) : Float :=
  sumOf ((arguments.headD []).map fun t ↦ t * t)

def squareGradient (arguments : List (List Float)) : List (List Float) :=
  [(arguments.headD []).map fun t ↦ 2.0 * t]

def squareEnclosure (box : List (List Interval)) : Except Failure Enclosed :=
  enclosedBy ((box.headD []).foldlM
    (fun (sum side : Interval) ↦ do sum.add (← side.powerNat 2)) ⟨0.0, 0.0⟩)

/-- The sum of the squares of a vector's entries. -/
def square (id : Nat) (dimension : Int) : Term Float :=
  total id "SquareTerm" [dimension] squareValue squareGradient
    (fun _ ↦ [[diagonal dimension.toNat 2.0]]) squareEnclosure

/-- The squared distance of a number and a vector's first entry, plus the square of the vector's
second entry. -/
def coupled (id : Nat) : Term Float :=
  let second (arguments : List (List Float)) : Float := (arguments.getD 1 []).getD 1 0.0
  let difference (arguments : List (List Float)) : Float := first arguments 0 - first arguments 1
  total id "CoupledTerm" [1, 2]
    (fun arguments ↦
      difference arguments * difference arguments + second arguments * second arguments)
    (fun arguments ↦
      [[2.0 * difference arguments], [-2.0 * difference arguments, 2.0 * second arguments]])
    (fun _ ↦ [[[[2.0]], [[-2.0, 0.0]]], [[[-2.0], [0.0]], [[2.0, 0.0], [0.0, 2.0]]]])
    (fun box ↦ do
      let a ← side box 0 0
      let b0 ← side box 1 0
      let square ← (do (← a.sub b0).powerNat 2).mapError Failure.interval
      let b1 ← side box 1 1
      enclosedBy do square.add (← b1.powerNat 2))

/-- The valley `(1 - x)² + 100 (y - x²)²`. -/
def rosenbrock (id : Nat) : Term Float :=
  let height (arguments : List (List Float)) : Float :=
    first arguments 1 - first arguments 0 * first arguments 0
  total id "RosenbrockTerm" [1, 1]
    (fun arguments ↦
      let p := 1.0 - first arguments 0
      let q := height arguments
      p * p + 100.0 * (q * q))
    (fun arguments ↦
      let x := first arguments 0
      let q := height arguments
      [[-2.0 * (1.0 - x) - 400.0 * x * q], [200.0 * q]])
    (fun arguments ↦
      let x := first arguments 0
      let y := first arguments 1
      [[[[2.0 - 400.0 * y + 1200.0 * (x * x)]], [[-400.0 * x]]], [[[-400.0 * x]], [[200.0]]]])
    (fun box ↦ do
      let x ← side box 0 0
      let y ← side box 1 0
      enclosedBy do
        let p ← Interval.numberSub (.int 1) x
        let q ← y.sub (← x.powerNat 2)
        (← p.powerNat 2).add (← (← q.powerNat 2).mulNumber (.int 100)))

/-! ### Products -/

/-- The product of two numbers. -/
def product (id : Nat) : Term Float :=
  total id "ProductTerm" [1, 1] (fun arguments ↦ first arguments 0 * first arguments 1)
    (fun arguments ↦ [[first arguments 1], [first arguments 0]])
    (fun _ ↦ [[[[0.0]], [[1.0]]], [[[1.0]], [[0.0]]]])
    (fun box ↦ do
      let x ← side box 0 0
      enclosedBy (x.mul (← side box 1 0)))

/-- The value of an affine form. The constant alone is returned as it is. -/
def affineValue (coefficients : List (List Number)) (constant : Number)
    (arguments : List (List Float)) : Except Failure (Outcome Float) :=
  match (List.zipWith List.zip coefficients arguments).flatten, constant with
  | [], .int n => .ok (.integer n)
  | [], .real x => .ok (.real x)
  | products, _ => do
    let start ← constant.double
    .real <$> products.foldlM (fun sum (c, t) ↦ do return sum + (← c.double) * t) start

/-- The derivatives of an affine form, added to zeros. -/
def affineGradient (coefficients : List (List Number)) : Except Failure (List (List Float)) :=
  coefficients.mapM fun row ↦ row.mapM fun c ↦ do return 0.0 + (← c.double)

/-- A constant plus a linear form of any number of vectors. -/
def affine (id : Nat) (coefficients : List (List Number)) (constant : Number) : Term Float :=
  let value := affineValue coefficients constant
  let firstOrder (arguments buffers : List (List Float)) : FirstOrder Float :=
    match affineGradient coefficients with
    | .error failure => ⟨buffers, .error failure⟩
    | .ok gradient => ⟨gradient, value arguments⟩
  { id
    name := "AffineTerm"
    dimensions := coefficients.map fun row ↦ Int.ofNat row.length
    value
    firstOrder
    secondOrder := fun arguments buffers blocks ↦
      let first := firstOrder arguments buffers
      ⟨first.gradient, blocks, first.value⟩
    enclosure := fun box ↦ enclosedBy do
      let start ← Interval.ofNumber constant
      let products := (List.zipWith List.zip coefficients box).flatten
      products.foldlM (fun sum (c, side) ↦ do sum.add (← side.mulNumber c)) start }

end Summand.Term
