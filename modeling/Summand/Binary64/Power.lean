import Summand.Binary64.Enclosure

/-!
# Integer powers of doubles

`power x n` is the double nearest to `x^n`, infinite on overflow. A power of two has a single bit,
and a small power of any mantissa is computed exactly. Any other power is enclosed by squaring with
both bounds kept to a fixed number of bits; such a power has more bits than a double or a midpoint
of two doubles, so some precision tells on which side of every midpoint it lies. Should none of the
precisions tried decide, the exact power is rounded.

A power can lie halfway between two doubles. Which of these it is taken for is left to the machine,
whose own power is asked then; it decides nothing but that.

The exponent of an interval power is converted to a double before it is used, which
`toExponent?` makes explicit: from `2^53` on it is rounded.
-/

namespace Summand.Binary64

open Float.Model (UnpackedFloat)

/-- The integer that the nearest double to `n` denotes, or nothing when there is none. -/
def toExponent? (n : Nat) : Option Nat :=
  (ofInt? n).map fun x ↦
    match unpack x with
    | .finite _ m e _ => wholePart m e
    | _ => 0

/-! ### Halfway cases -/

/-- Whether `m · 2^e`, with odd `m`, lies halfway between two doubles: whether its last bit is the
first one that a double has no place for. -/
def isHalfway (m : Nat) (e : Int) : Bool := e + 1 = max (Nat.log2 m + e - 52) (-1074)

/-- The double nearest to `m · 2^e` with odd `m`. Of two that are equally near it is a favored one,
if that is one of them. -/
def nearestFavoring (favored : Float) (m : Nat) (e : Int) : Float :=
  let isNeighbor : Bool :=
    favored == roundScaled false (m - 1) e || favored == roundScaled false (m + 1) e
  if isHalfway m e && isNeighbor then favored else roundScaled false m e

/-! ### Enclosing a power -/

/-- Natural bounds of a positive number, on the scale `2^exponent`. -/
structure Bounds where
  lower : Nat
  upper : Nat
  exponent : Int

namespace Bounds

/-- Drops the places beyond `bits`, the lower bound downward and the upper bound upward. -/
def shorten (bits : Nat) (r : Bounds) : Bounds :=
  let drop := Nat.log2 r.upper - bits
  ⟨r.lower / Nat.pow 2 drop, (r.upper + Nat.pow 2 drop - 1) / Nat.pow 2 drop, r.exponent + drop⟩

def mul (r s : Bounds) : Bounds :=
  ⟨r.lower * s.lower, r.upper * s.upper, r.exponent + s.exponent⟩

/-- Bounds of `(m · 2^e)^n` by squaring. -/
def power (bits : Nat) (m : Nat) (e : Int) (n : Nat) : Bounds :=
  if n = 0 then ⟨1, 1, 0⟩
  else
    let root := power bits m e (n / 2)
    let square := (root.mul root).shorten bits
    if n % 2 = 0 then square else (square.mul ⟨m, m, e⟩).shorten bits
termination_by n
decreasing_by omega

def toEnclosure (r : Bounds) : Enclosure :=
  ⟨r.lower, r.upper, r.exponent⟩

end Bounds

/-- The nearest double to `(m · 2^e)^n` found by enclosure, trying each precision in turn. -/
def powerByBounds? (m : Nat) (e : Int) (n : Nat) : List Nat → Option Float
  | [] => none
  | bits :: rest =>
    match (Bounds.power bits m e n).toEnclosure.rounded? with
    | some x => some x
    | none => powerByBounds? m e n rest

/-- The double nearest to `(m · 2^e)^n` with odd `m`, and a favored one of two that are equally
near. -/
def powerMagnitude (favored : Float) (m : Nat) (e : Int) (n : Nat) : Float :=
  if m = 1 then nearestFavoring favored 1 (e * n)
  else if n ≤ 64 then nearestFavoring favored (m.pow n) (e * n)
  else
    match powerByBounds? m e n [128, 256, 512, 1024, 2048] with
    | some x => x
    | none => roundScaled false (m.pow n) (e * n)

/-- Halves an even mantissa until it is odd, which leaves the number unchanged. -/
def oddMantissa (m : Nat) (e : Int) : Nat × Int :=
  if m ≠ 0 ∧ m % 2 = 0 then oddMantissa (m / 2) (e + 1) else (m, e)
termination_by m
decreasing_by omega

/-- The double nearest to `x^n` for `n` at least one; odd powers keep the sign. -/
def power (x : Float) (n : Nat) : Float :=
  match unpack x with
  | .notANumber => x
  | .infinity _ | .zero _ => if n % 2 = 1 then x else x.abs
  | .finite s m e _ =>
    let (m', e') := oddMantissa m e
    let r := powerMagnitude (x.abs.pow (ofInt n)) m' e' n
    if s == .negative && n % 2 == 1 then -r else r

end Summand.Binary64
