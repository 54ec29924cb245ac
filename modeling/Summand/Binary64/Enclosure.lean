import Summand.Binary64.Basic

/-!
# Rounding from enclosures

An elementary function is computed by enclosing its exact value between two scaled integers and
rounding both ends. When both round to one double, rounding being monotone, that double is the
correctly rounded value; otherwise the enclosure is computed again with more bits.
-/

namespace Summand.Binary64

/-- The numbers between `lower · 2^exponent` and `upper · 2^exponent`. -/
structure Enclosure where
  lower : Int
  upper : Int
  exponent : Int

namespace Enclosure

/-- The enclosure of all numbers within `slack` units of `value · 2^exponent`. -/
def around (value : Int) (slack : Nat) (exponent : Int) : Enclosure :=
  ⟨value - slack, value + slack, exponent⟩

def neg (r : Enclosure) : Enclosure :=
  ⟨-r.upper, -r.lower, r.exponent⟩

/-- The double nearest to `v · 2^e`. -/
def nearest (v : Int) (e : Int) : Float :=
  roundScaled (decide (v < 0)) v.natAbs e

/-- The one double that every number of the enclosure rounds to, if there is one. -/
def rounded? (r : Enclosure) : Option Float :=
  let lower := nearest r.lower r.exponent
  let upper := nearest r.upper r.exponent
  if lower.toBits == upper.toBits then some lower else none

/-- Tries the precisions in turn; the last one is final, decided or not. -/
def settle (enclose : Nat → Enclosure) (bits : Nat) : List Nat → Float
  | [] => nearest (enclose bits).lower (enclose bits).exponent
  | more :: rest =>
    match (enclose bits).rounded? with
    | some x => x
    | none => settle enclose more rest

/-- The correctly rounded value of a function given by its enclosures. The precisions are counted
in bits; an argument that needs more than a few hundred is not to be expected. -/
def correctlyRounded (enclose : Nat → Enclosure) : Float :=
  settle enclose 128 [256, 512, 1024, 2048, 4096]

end Enclosure

/-- `v · 2^e` as an integer with `bits` binary places, rounded toward negative infinity. -/
def scaleInt (v : Int) (e : Int) (bits : Nat) : Int :=
  let shift := e + bits
  if 0 ≤ shift then v * Int.pow 2 shift.toNat else Int.fdiv v (Int.pow 2 (-shift).toNat)

end Summand.Binary64
