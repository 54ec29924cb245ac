import Summand.Binary64.Enclosure

/-!
# Exponential and natural logarithm

Both are computed in fixed point from a power series after the argument has been reduced by a
multiple of `log 2`, and rounded through an enclosure. The slack of `2^24` units covers the
truncations of every series used at the precisions tried, with room to spare.
-/

namespace Summand.Elementary

open Float.Model (UnpackedFloat)
open Binary64 (Enclosure scaleInt)
open Binary64.Enclosure (correctlyRounded)

/-- Units by which a truncated series may be off in its last place. -/
def slack : Nat := Nat.pow 2 24

/-! ### Series -/

/-- `∑ z^(2k+1) / (2k+1)` from a running odd power, for a scaled `z` with square `square`; with
`alternating` the signs alternate. The terms shrink to zero before the fuel runs out. -/
def oddSeries (alternating : Bool) (square : Int) (bits : Nat) (power : Int) (k : Nat)
    (sum : Int) : Nat → Int
  | 0 => sum
  | fuel + 1 =>
    if power = 0 then sum
    else
      let term := Int.tdiv power (2 * k + 1)
      let next := Int.tdiv (power * square) (Int.pow 2 bits)
      oddSeries alternating square bits next (k + 1)
        (if alternating && k % 2 == 1 then sum - term else sum + term) fuel

/-- The inverse hyperbolic tangent of `z · 2^-bits`, for `|z|` at most a third. -/
def artanh (z : Int) (bits : Nat) : Int :=
  oddSeries false (Int.tdiv (z * z) (Int.pow 2 bits)) bits z 0 0 (bits + 2)

/-- `∑ r^k / k!` from a running term. -/
def expSeries (r : Int) (bits : Nat) (term : Int) (k : Nat) (sum : Int) : Nat → Int
  | 0 => sum
  | fuel + 1 =>
    if term = 0 then sum
    else
      expSeries r bits (Int.tdiv (term * r) (Int.pow 2 bits * (k + 1))) (k + 1) (sum + term) fuel

/-- `log 2` with `bits` binary places. -/
def logTwo (bits : Nat) : Int :=
  2 * artanh (Int.pow 2 bits / 3) bits

/-! ### The functions -/

/-- An enclosure of `exp (v · 2^e)`, for arguments whose exponential is near the range of
doubles. -/
def expEnclosure (v : Int) (e : Int) (precision : Nat) : Enclosure :=
  let bits := precision + 32
  let x := scaleInt v e bits
  let unit := logTwo bits
  let k := Int.fdiv x unit
  let r := x - k * unit
  .around (expSeries r bits (Int.pow 2 bits) 0 0 (bits + 2)) slack (k - bits)

/-- The correctly rounded exponential. From `710` on it overflows and below `-750` it is zero. -/
def exp (x : Float) : Float :=
  match Binary64.unpack x with
  | .notANumber => x
  | .infinity .positive => x
  | .infinity .negative => 0.0
  | .zero _ => 1.0
  | .finite s m e _ =>
    if 710.0 ≤ x then Binary64.positiveInfinity
    else if x ≤ -750.0 then 0.0
    else correctlyRounded (expEnclosure (s.apply m) e)

/-- An enclosure of `log (m · 2^e)` for positive `m`: with `m` between `2/3 · 2^k` and `4/3 · 2^k`
it is `(k + e) log 2 + 2 artanh ((m - 2^k) / (m + 2^k))`. -/
def logEnclosure (m : Nat) (e : Int) (precision : Nat) : Enclosure :=
  let bits := precision + 32
  let low := Nat.log2 m
  let k := if 3 * m > 4 * Nat.pow 2 low then low + 1 else low
  let z := Int.tdiv ((m - Int.pow 2 k : Int) * Int.pow 2 bits) (m + Int.pow 2 k : Int)
  .around ((k + e) * logTwo bits + 2 * artanh z bits) slack (-bits)

/-- The correctly rounded natural logarithm: negative infinity at zero and not a number below. -/
def log (x : Float) : Float :=
  match Binary64.unpack x with
  | .notANumber => x
  | .infinity .positive => x
  | .zero _ => Binary64.negativeInfinity
  | .finite .positive m e _ => if x == 1.0 then 0.0 else correctlyRounded (logEnclosure m e)
  | _ => Binary64.notANumber

end Summand.Elementary
