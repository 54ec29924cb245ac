import Summand.Binary64.Basic

/-!
# Decimal digits of doubles

A positive double is a ratio of two naturals, and its decimal digits are found in exact integer
arithmetic. `shortest` takes the fewest digits that read back as the same double and of those the
nearest to it. `significant` and `places` round to a given number of digits or of places, a half to
the even neighbour.
-/

namespace Summand.Decimal

open Float.Model (UnpackedFloat)

/-- The number `0.d₁d₂… · 10^point`, where `d₁d₂…` are the `count` digits of `coefficient`. -/
structure Digits where
  coefficient : Nat
  count : Nat
  point : Int
  deriving Repr, DecidableEq

/-- A positive number as a ratio of naturals. -/
structure Ratio where
  numerator : Nat
  denominator : Nat

namespace Ratio

/-- `m · 2^e`. -/
def ofScaled (m : Nat) (e : Int) : Ratio :=
  if 0 ≤ e then ⟨m * Nat.pow 2 e.toNat, 1⟩ else ⟨m, Nat.pow 2 (-e).toNat⟩

/-- The ratio times a power of ten. -/
def timesTenTo (r : Ratio) (k : Int) : Ratio :=
  if 0 ≤ k then ⟨r.numerator * Nat.pow 10 k.toNat, r.denominator⟩
  else ⟨r.numerator, r.denominator * Nat.pow 10 (-k).toNat⟩

def floor (r : Ratio) : Nat := r.numerator / r.denominator

/-- The nearest natural number, a half to the even neighbour. -/
def round (r : Ratio) : Nat :=
  let q := r.floor
  let rest := 2 * (r.numerator % r.denominator)
  if rest < r.denominator || (rest == r.denominator && q % 2 == 0) then q else q + 1

/-- Whether the ratio is less than one. -/
def belowOne (r : Ratio) : Bool := r.numerator < r.denominator

/-- The `k` with `10^(k-1) ≤ r < 10^k`, by steps from a first guess. -/
def decimalPoint (r : Ratio) : Int :=
  let bits : Int := (Nat.log2 r.numerator : Int) - Nat.log2 r.denominator
  let guess : Int := Int.fdiv (bits * 30103) 100000
  let climb (k : Int) : Int := if (r.timesTenTo (-k)).belowOne then k else k + 1
  climb (climb (climb (guess - 1)))

end Ratio

/-! ### Shortest digits -/

/-- The numbers that round to a double, on the scale `2^exponent`: between `lower` and `upper`, and
the ends themselves when the double's mantissa is even. -/
structure Basin where
  lower : Nat
  upper : Nat
  exponent : Int
  closed : Bool

/-- The basin of `m · 2^e`. Below a power of two the doubles are twice as dense, except at the
bottom of the range. -/
def basin (m : Nat) (e : Int) : Basin :=
  let below := if m = Nat.pow 2 52 && e > -1074 then 1 else 2
  ⟨4 * m - below, 4 * m + 2, e - 2, m % 2 == 0⟩

namespace Basin

/-- Whether the ratio lies in the basin. -/
def contains (b : Basin) (r : Ratio) : Bool :=
  let low := Ratio.ofScaled b.lower b.exponent
  let high := Ratio.ofScaled b.upper b.exponent
  let left := low.numerator * r.denominator
  let left' := r.numerator * low.denominator
  let right := r.numerator * high.denominator
  let right' := high.numerator * r.denominator
  if b.closed then left ≤ left' && right ≤ right' else left < left' && right < right'

end Basin

/-- The grid of `count` digits around `value`, whose decimal point is `point`: the neighbour of the
value that lies in the basin, the nearer of two. -/
def onGrid? (value : Ratio) (b : Basin) (point : Int) (count : Nat) : Option Digits :=
  let scaled := value.timesTenTo (count - point)
  let low := scaled.floor
  let hit (c : Nat) : Bool := b.contains ((Ratio.mk c 1).timesTenTo (point - count))
  let choice :=
    match hit low, hit (low + 1) with
    | true, true => some scaled.round
    | true, false => some low
    | false, true => some (low + 1)
    | false, false => none
  choice.map fun c ↦ ⟨c, count, point⟩

/-- The first grid with a point in the basin; seventeen digits always have one. -/
def firstGrid (value : Ratio) (b : Basin) (point : Int) (count : Nat) : Nat → Digits
  | 0 => ⟨(value.timesTenTo (count - point)).round, count, point⟩
  | fuel + 1 =>
    match onGrid? value b point count with
    | some digits => digits
    | none => firstGrid value b point (count + 1) fuel

/-- A coefficient that rounding has carried to one digit more stands for the power of ten with the
point one place further. -/
def Digits.carried (d : Digits) : Digits :=
  if d.coefficient = Nat.pow 10 d.count then ⟨Nat.pow 10 (d.count - 1), d.count, d.point + 1⟩
  else d

/-- The fewest digits that read back as `m · 2^e`. -/
def shortest (m : Nat) (e : Int) : Digits :=
  let value := Ratio.ofScaled m e
  (firstGrid value (basin m e) value.decimalPoint 1 16).carried

/-! ### Given numbers of digits -/

/-- `count` significant digits of `m · 2^e`. -/
def significant (count : Nat) (m : Nat) (e : Int) : Digits :=
  let value := Ratio.ofScaled m e
  let point := value.decimalPoint
  Digits.carried ⟨(value.timesTenTo (count - point)).round, count, point⟩

/-- `m · 2^e` rounded to a whole number of units of the last of `count` decimal places. -/
def places (count : Nat) (m : Nat) (e : Int) : Nat :=
  ((Ratio.ofScaled m e).timesTenTo count).round

end Summand.Decimal
