import Summand.Binary64.Power
import Summand.Elementary.Exponential

/-!
# Powers of doubles with any exponent

Square roots of the base are taken as long as they are exact and the exponent is a fraction. If that
makes the exponent a natural number, the power is that of `Binary64.Power`. Any other power of a
positive double is the exponential of the exponent times a logarithm, unless the base is a power of
two and so is the result; both are enclosed, with places to spare for the size of the product. Such
a power is no double and lies halfway between no two of them, so some precision decides how it is
rounded. A negative double has powers with integral exponents only.
-/

namespace Summand.Elementary

open Float.Model (UnpackedFloat)
open Binary64 (Enclosure)
open Binary64.Enclosure (correctlyRounded)

/-! ### Positive doubles -/

/-- The enclosure from the lower end of one to the upper end of another. -/
def spanned (r s : Enclosure) : Enclosure :=
  let exponent := min r.exponent s.exponent
  let scaled (v e : Int) : Int := v * Int.pow 2 (e - exponent).toNat
  ⟨scaled r.lower r.exponent, scaled s.upper s.exponent, exponent⟩

/-- An enclosure of `(m · 2^e) ^ (w · 2^f)` for positive `m`, if the power is near the range of
doubles. -/
def powerEnclosure (m : Nat) (e w f : Int) (precision : Nat) : Enclosure :=
  let logarithm := logEnclosure m e (precision + 128)
  let exponential (v : Int) : Enclosure :=
    expEnclosure (w * v) (f + logarithm.exponent) precision
  if 0 ≤ w then spanned (exponential logarithm.lower) (exponential logarithm.upper)
  else spanned (exponential logarithm.upper) (exponential logarithm.lower)

/-- The power `(m · 2^e) ^ (w · 2^f)` of a positive double by enclosure. Where the exponent times
the logarithm is `711` or more it overflows, and below `-751` it is zero. -/
def enclosedPower (m : Nat) (e w f : Int) : Float :=
  let logarithm := logEnclosure m e 128
  let product := Binary64.Enclosure.nearest (w * logarithm.lower) (f + logarithm.exponent)
  if 711.0 ≤ product then Binary64.positiveInfinity
  else if product ≤ -751.0 then 0.0
  else correctlyRounded (powerEnclosure m e w f)

/-- The power to the `2^f` of a positive number, as another power to a power of two: with square
roots of odd `m` and of `2^e` in the place of these as long as they are exact and `f` is
negative. -/
def rooted (m : Nat) (e f : Int) : Nat × Int × Int :=
  let root := Nat.sqrt m
  if f < 0 ∧ e % 2 = 0 ∧ root * root = m then rooted root (e / 2) (f + 1) else (m, e, f)
termination_by (-f).toNat

/-- The power of `m · 2^e` to `± w · 2^f` for positive `m` and `w`, correctly rounded, and a favored
one of two doubles that are equally near. -/
def positivePower (favored : Float) (m : Nat) (e : Int) (negative : Bool) (w : Nat) (f : Int) :
    Float :=
  let (m, e) := Binary64.oddMantissa m e
  let (w, f) := Binary64.oddMantissa w f
  let (m, e, f) := rooted m e f
  let exponent : Int := if negative then -w else w
  if 0 ≤ f && m = 1 then Binary64.nearestFavoring favored 1 (e * (exponent * Int.pow 2 f.toNat))
  else if 0 ≤ f && !negative then Binary64.powerMagnitude favored m e (w * Nat.pow 2 f.toNat)
  else enclosedPower m e exponent f

/-! ### All doubles -/

/-- Whether a double is an odd integer. -/
def isOdd (x : Float) : Bool := (Binary64.toInt? x).any fun n ↦ n % 2 == 1

/-- The power of a finite double other than zero, of which a negative one needs an integral
exponent. -/
def finitePower (x y : Float) : Float :=
  let size : Float :=
    match Binary64.unpack x, Binary64.unpack y with
    | .finite _ m e _, .finite s w f _ => positivePower (x.abs.pow y) m e (s == .negative) w f
    | _, _ => Binary64.notANumber
  if x < 0.0 && isOdd y then -size else size

/-- The power of any double to any exponent, if it is real. Whatever the base, the power to zero is
one, and a power to an infinite exponent tells whether the base is within one of zero. -/
def power (x y : Float) : Float :=
  if y == 0.0 || x == 1.0 then 1.0
  else if x.isNaN then x
  else if y.isNaN then y
  else if y.isInf then
    if x == -1.0 then 1.0
    else if decide (0.0 < y) == decide (1.0 < x.abs) then Binary64.positiveInfinity
    else 0.0
  else if x.isInf || x == 0.0 then
    let size : Float := if decide (0.0 < y) == x.isInf then Binary64.positiveInfinity else 0.0
    if Binary64.isNegative x && isOdd y then -size else size
  else finitePower x y

end Summand.Elementary
