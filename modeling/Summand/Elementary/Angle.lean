import Summand.Elementary.Exponential

/-!
# Sine, cosine and their inverses

The angle functions in fixed point. Sine and cosine reduce their argument by quarter turns, with as
many places of `π` as the argument's exponent asks for. The arc tangent halves the angle three
times before its series, and the arc sine is an arc tangent. Small results keep their relative
precision because the number of places grows with the distance to one.
-/

namespace Summand.Elementary

open Float.Model (UnpackedFloat)
open Binary64 (Enclosure scaleInt)
open Binary64.Enclosure (correctlyRounded)

/-! ### Arc tangent -/

/-- Half of the angle whose tangent is `z · 2^-bits`, again as a tangent: `z / (1 + √(1 + z²))`. -/
def halfAngle (bits : Nat) (z : Nat) : Nat :=
  z * Nat.pow 2 bits / (Nat.pow 2 bits + Nat.sqrt (Nat.pow 2 (2 * bits) + z * z))

/-- The arc tangent of a scaled tangent of at most one. -/
def arctanUnit (bits : Nat) (z : Nat) : Int :=
  let small := halfAngle bits (halfAngle bits (halfAngle bits z))
  8 * oddSeries true ((small * small : Int) / Int.pow 2 bits) bits small 0 0 (bits + 2)

/-- `π` with `bits` binary places: sixteen times the arc tangent of a fifth less four times that
of `1/239`. -/
def pi (bits : Nat) : Int :=
  let arctanInverse (n : Int) : Int :=
    oddSeries true (Int.pow 2 bits / (n * n)) bits (Int.pow 2 bits / n) 0 0 (bits + 2)
  16 * arctanInverse 5 - 4 * arctanInverse 239

/-- The angle in the first quadrant, between `0` and `π/2`, whose tangent is `y / x`. -/
def arctanRatio (y x : Nat) (bits : Nat) : Int :=
  if y ≤ x then arctanUnit bits (y * Nat.pow 2 bits / x)
  else pi bits / 2 - arctanUnit bits (x * Nat.pow 2 bits / y)

/-- Places that a ratio below one needs beyond the wanted precision. -/
def leadingZeros (y x : Nat) : Nat :=
  Nat.log2 x - Nat.log2 y

/-- Two positive doubles on one scale. -/
def commonScale (m : Nat) (e : Int) (n : Nat) (f : Int) : Nat × Nat :=
  (m * Nat.pow 2 (e - f).toNat, n * Nat.pow 2 (f - e).toNat)

/-- The angle of the point `(x, y)` measured from the positive `x` axis, for finite coordinates
that are not zero. -/
def angleEnclosure (negative : Bool) (y : Nat) (behind : Bool) (x : Nat)
    (precision : Nat) : Enclosure :=
  let bits := precision + 32 + leadingZeros y x
  let first := arctanRatio y x bits
  let angle := if behind then pi bits - first else first
  let enclosure := Enclosure.around angle slack (-bits)
  if negative then enclosure.neg else enclosure

/-- The double nearest to `numerator · π / denominator`. -/
def multipleOfPi (negative : Bool) (numerator denominator : Nat) : Float :=
  correctlyRounded fun precision ↦
    let bits := precision + 32
    let enclosure := Enclosure.around (pi bits * numerator / denominator) slack (-bits)
    if negative then enclosure.neg else enclosure

/-- The correctly rounded angle of the point `(x, y)`, in the half-open turn from `-π` to `π`, with
the signs of zeros telling the two sides of the cut apart. -/
def atan2 (y x : Float) : Float :=
  let negative := Binary64.isNegative y
  match Binary64.unpack y, Binary64.unpack x with
  | .notANumber, _ => Binary64.notANumber
  | _, .notANumber => Binary64.notANumber
  | .infinity _, .infinity .positive => multipleOfPi negative 1 4
  | .infinity _, .infinity .negative => multipleOfPi negative 3 4
  | .infinity _, _ => multipleOfPi negative 1 2
  | .zero _, _ =>
    if Binary64.isNegative x then multipleOfPi negative 1 1 else y
  | .finite _ _ _ _, .infinity .positive => if negative then -0.0 else 0.0
  | .finite _ _ _ _, .infinity .negative => multipleOfPi negative 1 1
  | .finite _ _ _ _, .zero _ => multipleOfPi negative 1 2
  | .finite _ m e _, .finite s n f _ =>
    let (y', x') := commonScale m e n f
    correctlyRounded (angleEnclosure negative y' (s == .negative) x')

/-! ### Arc sine -/

/-- An enclosure of the arc sine of `m · 2^e` for a value between zero and one: the arc tangent of
`x / √(1 - x²)`. -/
def asinEnclosure (negative : Bool) (m : Nat) (e : Int) (precision : Nat) : Enclosure :=
  let bits := precision + 32 + 2 * (-(e + Nat.log2 m)).toNat + 64
  let sine := (scaleInt m e bits).toNat
  let cosine := Nat.sqrt (Nat.pow 2 (2 * bits) - sine * sine)
  let enclosure := Enclosure.around (arctanRatio sine cosine bits) slack (-bits)
  if negative then enclosure.neg else enclosure

/-- The correctly rounded arc sine; not a number outside of `[-1, 1]`. -/
def asin (x : Float) : Float :=
  match Binary64.unpack x with
  | .zero _ => x
  | .finite s m e _ =>
    if x < -1.0 || 1.0 < x then Binary64.notANumber
    else correctlyRounded (asinEnclosure (s == .negative) m e)
  | _ => Binary64.notANumber

/-! ### Sine and cosine -/

/-- `∑ (-1)^k r^(2k+j) / (2k+j)!` from its first term. -/
def alternatingSeries (square : Int) (bits : Nat) (term : Int) (n : Nat) (sum : Int) : Nat → Int
  | 0 => sum
  | fuel + 1 =>
    if term = 0 then sum
    else
      alternatingSeries square bits
        (-(Int.tdiv (term * square) (Int.pow 2 bits * ((n + 1) * (n + 2))))) (n + 2) (sum + term)
        fuel

/-- An enclosure of the sine of `v · 2^e` after `quarters` further quarter turns. -/
def sineEnclosure (v : Int) (e : Int) (quarters : Int) (precision : Nat) : Enclosure :=
  let magnitude := e + Nat.log2 v.natAbs
  let bits := precision + 32 + magnitude.natAbs
  let quarter := pi bits / 2
  let x := scaleInt v e bits
  let turns := Int.fdiv (2 * x + quarter) (2 * quarter)
  let r := x - turns * quarter
  let square := Int.tdiv (r * r) (Int.pow 2 bits)
  let sine := alternatingSeries square bits r 1 0 (bits + 2)
  let cosine := alternatingSeries square bits (Int.pow 2 bits) 0 0 (bits + 2)
  let value :=
    match (turns + quarters) % 4 with
    | 0 => sine
    | 1 => cosine
    | 2 => -sine
    | _ => -cosine
  .around value (slack * Nat.pow 2 magnitude.toNat) (-bits)

/-- The correctly rounded sine. -/
def sin (x : Float) : Float :=
  match Binary64.unpack x with
  | .zero _ => x
  | .finite s m e _ => correctlyRounded (sineEnclosure (s.apply m) e 0)
  | _ => Binary64.notANumber

/-- The correctly rounded cosine: the sine a quarter turn further. -/
def cos (x : Float) : Float :=
  match Binary64.unpack x with
  | .zero _ => 1.0
  | .finite s m e _ => correctlyRounded (sineEnclosure (s.apply m) e 1)
  | _ => Binary64.notANumber

end Summand.Elementary
