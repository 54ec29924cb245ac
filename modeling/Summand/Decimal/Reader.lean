import Summand.Binary64.Basic
import Summand.Text.Blank
import Summand.Text.Digit

/-!
# Reading decimals

A decimal text gives an integer coefficient and a power of ten; the double it denotes is the
nearest one. Powers far outside the range of doubles are settled before they are computed. `real?`
reads a whole text as a number: the digits of any script count, single underscores may stand
between digits, and the values that are not finite have names.
-/

namespace Summand.Decimal

/-! ### From digits to doubles -/

/-- The double nearest to `coefficient · 10^exponent`. -/
def nearest (coefficient : Nat) (exponent : Int) : Float :=
  let digits : Int := (toString coefficient).length
  if coefficient = 0 then 0.0
  else if digits + exponent > 310 then Binary64.positiveInfinity
  else if digits + exponent < -400 then 0.0
  else if exponent < 0 then Float.ofScientific coefficient true exponent.natAbs
  else Float.ofScientific coefficient false exponent.toNat

/-- The double nearest to `± coefficient · 10^exponent`; a negative zero keeps its sign. -/
def signedNearest (negative : Bool) (coefficient : Nat) (exponent : Int) : Float :=
  if negative then -(nearest coefficient exponent) else nearest coefficient exponent

/-! ### Parts of a written number -/

/-- The digits at the front of a text, and the rest. -/
def spanDigits : List Char → List Char × List Char
  | [] => ([], [])
  | c :: rest =>
    if c.isDigit then
      let (digits, rest) := spanDigits rest
      (c :: digits, rest)
    else ([], c :: rest)

/-- The number that a run of digits denotes. -/
def digitsValue (digits : List Char) : Nat :=
  digits.foldl (fun n c ↦ 10 * n + (c.toNat - 48)) 0

/-- The exponent part, if the text begins with one: its value and the rest. -/
def exponent? : List Char → Option (Int × List Char)
  | c :: rest =>
    if c = 'e' || c = 'E' then
      let (negative, rest) :=
        match rest with
        | '-' :: rest => (true, rest)
        | '+' :: rest => (false, rest)
        | rest => (false, rest)
      let (digits, rest) := spanDigits rest
      if digits.isEmpty then none
      else
        let n : Int := digitsValue digits
        some (if negative then -n else n, rest)
    else none
  | [] => none

/-! ### Whole texts -/

/-- The text without the underscores between its digits; an underscore anywhere else spoils it. -/
def withoutUnderscores? : List Char → Option (List Char)
  | [] => some []
  | a :: '_' :: b :: rest =>
    if a.isDigit && b.isDigit then (withoutUnderscores? (b :: rest)).map (a :: ·) else none
  | a :: rest => if a = '_' then none else (withoutUnderscores? rest).map (a :: ·)

/-- A digit of any script as a basic one; other characters stay. -/
def basicDigit (c : Char) : Char :=
  (Text.digitValue? c).elim c Nat.digitChar

/-- Splits a sign off a text. -/
def splitSign : List Char → Bool × List Char
  | '-' :: rest => (true, rest)
  | '+' :: rest => (false, rest)
  | rest => (false, rest)

/-- The number that digits with a point and an exponent denote, if nothing follows them. -/
def unsigned? (negative : Bool) (text : List Char) : Option Float :=
  let (whole, rest) := spanDigits text
  let (fraction, rest) :=
    match rest with
    | '.' :: rest => spanDigits rest
    | rest => ([], rest)
  if whole.isEmpty && fraction.isEmpty then none
  else
    let number (power : Int) : Float :=
      signedNearest negative (digitsValue (whole ++ fraction)) (power - fraction.length)
    match rest with
    | [] => some (number 0)
    | rest =>
      match exponent? rest with
      | some (power, []) => some (number power)
      | _ => none

/-- The names of the values that are not finite. -/
def names : List (String × Float) :=
  [("inf", Binary64.positiveInfinity), ("infinity", Binary64.positiveInfinity),
    ("nan", Binary64.notANumber)]

/-- The double that a text denotes. -/
def real? (text : String) : Option Float := do
  let characters := (Text.trim Text.isNumberBlank text.toList).map basicDigit
  let (negative, rest) := splitSign (← withoutUnderscores? characters)
  match names.find? fun entry ↦ entry.1.toList == rest.map Char.toLower with
  | some (_, value) => return if negative then -value else value
  | none => unsigned? negative rest

end Summand.Decimal
