import Summand.Decimal.Digits

/-!
# Writing doubles

A `Layout` says how digits become text: which decimal exponents are written positionally, whether
zeros at the end of the fraction are kept away, whether a whole number shows its point, and how the
values that are not finite are spelled. Exponents have a sign and at least two digits.
-/

namespace Summand.Decimal

open Float.Model (UnpackedFloat)

/-- The decisions of an output format. -/
structure Layout where
  /-- The least exponent of the first digit that is written positionally. -/
  leastPositional : Int
  /-- The greatest exponent of the first digit that is written positionally. -/
  greatestPositional : Int
  /-- Whether a whole number written positionally ends in a point and a zero. -/
  showsPoint : Bool
  notANumber : String
  infinity : String

/-- The digits of a natural number, most significant first, led by zeros up to `width` of them. -/
def padded (width n : Nat) : List Char :=
  (List.range width).reverse.map fun k ↦ Nat.digitChar (n / Nat.pow 10 k % 10)

/-- The digits without the zeros at the end. -/
def withoutTrailingZeros (digits : List Char) : List Char :=
  (digits.reverse.dropWhile (· == '0')).reverse

/-- A whole part and a fraction joined by a point, if there is a fraction. -/
def withFraction (whole fraction : List Char) : List Char :=
  if fraction.isEmpty then whole else whole ++ '.' :: fraction

/-- The exponent part, as in `e-05` and `e+16`. -/
def exponentText (k : Int) : List Char :=
  'e' :: (if k < 0 then '-' else '+') ::
    if k.natAbs < 10 then padded 2 k.natAbs else (toString k.natAbs).toList

/-- The text of a positive number given by its digits. -/
def Layout.digitsText (layout : Layout) (d : Digits) : List Char :=
  let digits := withoutTrailingZeros (padded d.count d.coefficient)
  let exponent := d.point - 1
  if layout.leastPositional ≤ exponent && exponent ≤ layout.greatestPositional then
    if d.point ≤ 0 then '0' :: '.' :: (List.replicate (-d.point).toNat '0' ++ digits)
    else
      let whole := digits.take d.point.toNat
      let whole := whole ++ List.replicate (d.point.toNat - whole.length) '0'
      let fraction := digits.drop d.point.toNat
      withFraction whole (if fraction.isEmpty && layout.showsPoint then ['0'] else fraction)
  else withFraction (digits.take 1) (digits.drop 1) ++ exponentText exponent

/-- The text of a double whose digits `digits` finds from its mantissa and exponent. -/
def Layout.text (layout : Layout) (digits : Nat → Int → Digits) (x : Float) : String :=
  let signed (s : UnpackedFloat.Sign) (text : List Char) : String :=
    String.ofList (if s == .negative then '-' :: text else text)
  match Binary64.unpack x with
  | .notANumber => layout.notANumber
  | .infinity s => signed s layout.infinity.toList
  | .zero s => signed s (if layout.showsPoint then ['0', '.', '0'] else ['0'])
  | .finite s m e _ => signed s (layout.digitsText (digits m e))

/-! ### The formats in use -/

/-- Numbers in messages: the shortest digits that read back, positional from `0.0001` up to `10^16`,
always with a point or an exponent. -/
def plain : Layout := ⟨-4, 15, true, "nan", "inf"⟩

/-- Numbers in reports: six significant digits, positional from `0.0001` up to a million. -/
def brief : Layout := ⟨-4, 5, false, "nan", "inf"⟩

/-- A double as messages show it. -/
def plainText (x : Float) : String := plain.text shortest x

/-- A double as reports show it. -/
def briefText (x : Float) : String := brief.text (significant 6) x

/-- A double with a fixed number of decimal places. -/
def fixedText (count : Nat) (x : Float) : String :=
  let signed (s : UnpackedFloat.Sign) (text : List Char) : String :=
    String.ofList (if s == .negative then '-' :: text else text)
  let units (n : Nat) : List Char :=
    withFraction (toString (n / Nat.pow 10 count)).toList (padded count n)
  match Binary64.unpack x with
  | .notANumber => plain.notANumber
  | .infinity s => signed s plain.infinity.toList
  | .zero s => signed s (units 0)
  | .finite s m e _ => signed s (units (places count m e))

end Summand.Decimal
