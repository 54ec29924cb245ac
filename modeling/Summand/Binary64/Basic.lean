/-!
# Doubles as exact numbers

A finite double is `± m · 2^e` with natural `m`. `unpack` reads a double that way and `pack` writes
it back; `roundScaled` is the one place where an exact number becomes a double, rounded to the
nearest one with ties to even. The adjacent doubles are found by stepping the bit pattern, which
orders the non-negative doubles. An integer and a double are compared exactly, without rounding
the integer first.
-/

namespace Summand.Binary64

open Float.Model (UnpackedFloat Format)

/-! ### Decoding and rounding -/

/-- The sign, mantissa and exponent of a double, or which special value it is. -/
def unpack (x : Float) : UnpackedFloat :=
  UnpackedFloat.unpack Format.binary64 x.toBits.toBitVec

/-- The double with the given sign, mantissa and exponent. -/
def pack (u : UnpackedFloat) : Float :=
  Float.ofBits (.ofBitVec (UnpackedFloat.pack Format.binary64 u))

def positiveInfinity : Float := Float.ofBits 0x7FF0000000000000

def negativeInfinity : Float := Float.ofBits 0xFFF0000000000000

def notANumber : Float := Float.ofBits 0x7FF8000000000000

/-- The sign as the core library's model of doubles spells it. -/
def signOf (negative : Bool) : UnpackedFloat.Sign :=
  if negative then .negative else .positive

/-- The double nearest to `± m · 2^e`, ties to even. Magnitudes from `2^1024` on are infinite and
those below `2^-1075` are zero, which is decided from the exponents before anything is shifted. -/
def roundScaled (negative : Bool) (m : Nat) (e : Int) : Float :=
  if m = 0 then pack (.zero (signOf negative))
  else if (Nat.log2 m : Int) + e ≥ 1024 then pack (.infinity (signOf negative))
  else if (Nat.log2 m : Int) + e < -1075 then pack (.zero (signOf negative))
  else pack (UnpackedFloat.round Format.binary64 (signOf negative) m e)

/-- The double nearest to an integer, infinite when the integer exceeds every finite double. -/
def ofInt (n : Int) : Float := roundScaled (decide (n < 0)) n.natAbs 0

/-- The double nearest to an integer, or nothing when the integer exceeds every finite double. -/
def ofInt? (n : Int) : Option Float :=
  let x := ofInt n
  if x.isInf then none else some x

/-- The whole part of `m · 2^e`. -/
def wholePart (m : Nat) (e : Int) : Nat :=
  if 0 ≤ e then m * Nat.pow 2 e.toNat else m / Nat.pow 2 (-e).toNat

/-- Whether the sign bit is set, which tells `-0.0` from `0.0`. -/
def isNegative (x : Float) : Bool :=
  match unpack x with
  | .infinity .negative | .zero .negative | .finite .negative _ _ _ => true
  | _ => false

/-! ### Adjacent doubles -/

/-- The least double above `x`; a NaN and positive infinity stay as they are. -/
def nextUp (x : Float) : Float :=
  let bits := x.toBits
  if x.isNaN || bits == 0x7FF0000000000000 then x
  else if bits == 0x8000000000000000 then Float.ofBits 1
  else if bits < 0x8000000000000000 then Float.ofBits (bits + 1)
  else Float.ofBits (bits - 1)

/-- The greatest double below `x`, by symmetry. -/
def nextDown (x : Float) : Float :=
  -(nextUp (-x))

/-! ### Comparing with integers -/

/-- The order of the exact value `± m · 2^e` and the integer `n`. -/
def compareScaled (negative : Bool) (m : Nat) (e : Int) (n : Int) : Ordering :=
  let v : Int := if negative then -m else m
  if 0 ≤ e then compare (v * Int.pow 2 e.toNat) n else compare v (n * Int.pow 2 (-e).toNat)

/-- The order of a double and an integer, taken exactly; a NaN has none. -/
def compareInt? (x : Float) (n : Int) : Option Ordering :=
  match unpack x with
  | .notANumber => none
  | .infinity .positive => some .gt
  | .infinity .negative => some .lt
  | .zero _ => some (compare 0 n)
  | .finite s m e _ => some (compareScaled (s == .negative) m e n)

/-- The integer that a double is, if it is one. -/
def toInt? (x : Float) : Option Int :=
  match unpack x with
  | .zero _ => some 0
  | .finite s m e _ =>
    if e < 0 && m % Nat.pow 2 (-e).toNat != 0 then none else some (s.apply (wholePart m e))
  | _ => none

/-! ### Quotients -/

/-- The double nearest to a quotient of naturals. The quotient is cut after enough places for a
double, and one more place tells whether anything was cut off. -/
def roundQuotient (negative : Bool) (m n : Nat) : Float :=
  let places := 66 + Nat.log2 n - Nat.log2 m
  let scaled := m * Nat.pow 2 places
  let rest : Nat := if scaled % n = 0 then 0 else 1
  roundScaled negative (2 * (scaled / n) + rest) (-(places + 1 : Nat))

end Summand.Binary64
