import Summand.Decimal.Layout
import Summand.Text.Row

/-!
# Columns of doubles

The entries of a vector are written in a form that suits all of them and aligned at their decimal
points. They are written with exponents as soon as one of them is far from one or two of them are
far from each other. A fraction has at most eight places. Without exponents it has no zeros at its
end; with exponents all fractions have as many places as the longest one needs.
-/

namespace Summand.Decimal

open Float.Model (UnpackedFloat)

/-- The most places that the fraction of an entry has. -/
def vectorPlaces : Nat := 8

/-- A written entry: what stands before its point, after it, and its exponent part. A name has no
point. -/
inductive Entry where
  | number (whole fraction exponent : List Char)
  | name (text : List Char)

/-! ### Single entries -/

/-- The digits before and after the point of a positive number written without an exponent. -/
def positionalParts (m : Nat) (e : Int) : List Char × List Char :=
  let d := shortest m e
  let n := places vectorPlaces m e
  if d.count ≤ d.point + vectorPlaces then
    let text := { plain with leastPositional := -400, greatestPositional := 400 }.digitsText d
    (text.takeWhile (· != '.'), withoutTrailingZeros ((text.dropWhile (· != '.')).drop 1))
  else
    ((toString (n / Nat.pow 10 vectorPlaces)).toList, withoutTrailingZeros (padded vectorPlaces n))

/-- The digits and the exponent of a positive number written with an exponent and so many places. -/
def exponentParts (count m : Nat) (e : Int) : List Char × List Char × List Char :=
  let d := significant (count + 1) m e
  let digits := padded d.count d.coefficient
  (digits.take 1, digits.drop 1, exponentText (d.point - 1))

/-- An entry with so many places and an exponent, or without an exponent. -/
def entryOf (exponentPlaces : Option Nat) (x : Float) : Entry :=
  let signed (s : UnpackedFloat.Sign) (text : List Char) : List Char :=
    if s == .negative then '-' :: text else text
  match Binary64.unpack x, exponentPlaces with
  | .notANumber, _ => .name plain.notANumber.toList
  | .infinity s, _ => .name (signed s plain.infinity.toList)
  | .zero s, none => .number (signed s ['0']) [] []
  | .zero s, some count =>
    .number (signed s ['0']) (List.replicate count '0') (exponentText 0)
  | .finite s m e _, none =>
    let (whole, fraction) := positionalParts m e
    .number (signed s whole) fraction []
  | .finite s m e _, some count =>
    let (whole, fraction, exponent) := exponentParts count m e
    .number (signed s whole) fraction exponent

/-! ### Forms -/

/-- Whether the entries of a vector are written with exponents. -/
def needsExponents (v : List Float) : Bool :=
  let sizes := (v.filter fun x ↦ x.isFinite && x != 0.0).map Float.abs
  match sizes with
  | [] => false
  | x :: rest =>
    let greatest := rest.foldl (fun a b ↦ if a < b then b else a) x
    let least := rest.foldl (fun a b ↦ if b < a then b else a) x
    1e8 ≤ greatest || least < 1e-4 || 1000.0 < greatest / least

/-- The places that the fraction of an entry needs before an exponent: those of the shortest digits
that read back, unless there are too many. -/
def placesNeeded (x : Float) : Nat :=
  match Binary64.unpack x with
  | .finite _ m e _ =>
    let d := shortest m e
    let d := if d.count ≤ vectorPlaces + 1 then d else significant (vectorPlaces + 1) m e
    (withoutTrailingZeros (padded d.count d.coefficient)).length - 1
  | _ => 0

/-- The places that the entries of a vector have before their exponents, if they have exponents. -/
def exponentPlaces (v : List Float) : Option Nat :=
  if needsExponents v then some (v.foldl (fun n x ↦ max n (placesNeeded x)) 0) else none

/-! ### Alignment -/

/-- The greatest length that a part of the entries has. -/
def widest (part : Entry → List Char) (entries : List Entry) : Nat :=
  entries.foldl (fun n entry ↦ max n (part entry).length) 0

namespace Entry

def whole : Entry → List Char
  | .number whole _ _ => whole
  | .name _ => []

def fraction : Entry → List Char
  | .number _ fraction _ => fraction
  | .name _ => []

def exponent : Entry → List Char
  | .number _ _ exponent => exponent
  | .name _ => []

def nameText : Entry → List Char
  | .number _ _ _ => []
  | .name text => text

/-- An exponent part with zeros after its sign up to a width. -/
def widened (width : Nat) (exponent : List Char) : List Char :=
  exponent.take 2 ++ List.replicate (width - exponent.length) '0' ++ exponent.drop 2

/-- An entry in a column of numbers with given numbers of characters before the point, after it and
in the exponent part. Fractions are filled up with blanks. -/
def aligned (left right exponentWidth : Nat) : Entry → List Char
  | .number whole fraction exponent =>
    Text.indentTo left whole ++ '.' :: fraction ++
      List.replicate (right - fraction.length) ' ' ++ widened exponentWidth exponent
  | .name text => Text.indentTo (left + right + exponentWidth + 1) text

end Entry

/-- The texts of the entries of a vector, aligned with each other. -/
def alignedTexts (v : List Float) : List (List Char) :=
  let entries := v.map (entryOf (exponentPlaces v))
  let right := widest Entry.fraction entries
  let exponentWidth := widest Entry.exponent entries
  let left := max (widest Entry.whole entries)
    (widest Entry.nameText entries - (right + exponentWidth + 1))
  entries.map fun entry ↦ entry.aligned left right exponentWidth

end Summand.Decimal
