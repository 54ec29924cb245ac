import Summand.Binary64.Basic

/-!
# Rounding to narrower formats

Storing a double in a single or half precision cell keeps the nearest number of that format, ties
to even, with overflow to infinity. The value goes through the packed form of the narrow format
and comes back as the double it denotes.
-/

namespace Summand.Binary64

open Float.Model (UnpackedFloat Format)

/-- The format of half precision cells: ten stored mantissa bits and five exponent bits. -/
def half : Format := Format.mk 10 (by decide) 5 (by decide)

/-- The format of single precision cells. -/
def single : Format := Format.binary32

/-- The double that a decoded number of any format denotes. -/
def widen : UnpackedFloat → Float
  | .notANumber => notANumber
  | .infinity s => pack (.infinity s)
  | .zero s => pack (.zero s)
  | .finite s m e _ => roundScaled (s == .negative) m e

/-- The double that a decoded number denotes after it has been packed in `format`. -/
def repack (format : Format) (u : UnpackedFloat) : Float :=
  widen (UnpackedFloat.unpack format (UnpackedFloat.pack format u))

/-- The double that the nearest number of `format` to `x` denotes. -/
def through (format : Format) (x : Float) : Float :=
  match unpack x with
  | .finite s m e _ => repack format (UnpackedFloat.round format s m e)
  | _ => x

def toSingle (x : Float) : Float := through single x

def toHalf (x : Float) : Float := through half x

/-- The double that the single precision number nearest to an integer denotes. -/
def singleOfInt (n : Int) : Float :=
  if n = 0 then 0.0
  else
    repack single (UnpackedFloat.round single (signOf (decide (n < 0))) n.natAbs 0)

end Summand.Binary64
