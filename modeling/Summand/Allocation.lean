import Summand.Decimal.Digits
import Summand.Failure
import Summand.Number.Form

/-!
# Allocation limits

The sizes of an array and its number of bytes fit into a machine word, and no size is below zero. Of
those, arrays of more than `2^47` bytes cannot be allocated. The message of a failed allocation
gives the size in the greatest binary unit below it, with three significant digits.
-/

namespace Summand.Allocation

/-- The most bytes that one array may take. -/
def byteLimit : Nat := Nat.pow 2 47

/-- The greatest integer of a machine word, which bounds sizes and numbers of bytes. -/
def wordLimit : Nat := Nat.pow 2 63 - 1

/-- The failure of taking too large an integer for a machine word. -/
def noWord : Failure := .raised "OverflowError" "Python int too large to convert to C long"

/-- The units of size, each a multiple of the one before by `2^10`. -/
def units : List String := ["bytes", "KiB", "MiB", "GiB", "TiB", "PiB", "EiB"]

/-- A ratio from one up to `1024` with three significant digits, or with all digits before the point
if these are more. The point stays if nothing is behind it. -/
def threeDigits (r : Decimal.Ratio) : String :=
  let rounded (places : Nat) : Nat := (r.timesTenTo places).round
  let places : Nat := if rounded 2 < 1000 then 2 else if rounded 1 < 1000 then 1 else 0
  let scaled := rounded places
  let fraction := toString (scaled % Nat.pow 10 places)
  let padding := String.ofList (List.replicate (places - fraction.length) '0')
  toString (scaled / Nat.pow 10 places) ++ "." ++ (if places = 0 then "" else padding ++ fraction)

/-- A number of bytes in a unit, rounded to a double. -/
def inUnit (bytes unit : Nat) : Decimal.Ratio :=
  match Binary64.unpack (Binary64.roundScaled false bytes (-(10 * unit : Nat))) with
  | .finite _ m e _ => .ofScaled m e
  | _ => ⟨0, 1⟩

/-- A number of bytes in words. -/
def sizeText (bytes : Nat) : String :=
  let unit := min (Nat.log2 bytes / 10) 6
  let unit := if (inUnit bytes unit).round = 1024 && unit < 6 then unit + 1 else unit
  threeDigits (inUnit bytes unit) ++ " " ++ units.getD unit ""

/-- The types of allocated numbers, all of eight bytes. -/
inductive Kind where
  | real
  | integer
  deriving Repr, DecidableEq

def Kind.name : Kind → String
  | .real => "float64"
  | .integer => "int64"

/-- Why an array cannot be allocated. -/
inductive Fault where
  /-- A size does not fit into a machine word. -/
  | sizeTooLarge
  /-- A size is below zero. -/
  | negativeSize
  /-- The number of bytes exceeds a machine word. -/
  | tooManyBytes
  /-- There is no room for so many bytes. -/
  | noRoom (kind : Kind) (shape : List Nat)

/-- The failure that a fault is reported as. -/
def Fault.failure : Fault → Failure
  | .sizeTooLarge => .raised "ValueError" "Maximum allowed dimension exceeded"
  | .negativeSize => .raised "ValueError" "negative dimensions are not allowed"
  | .tooManyBytes =>
    .raised "ValueError"
      ("array is too big; `arr.size * arr.dtype.itemsize` is larger than the maximum " ++
        "possible size.")
  | .noRoom kind shape =>
    .outOfMemory ("Unable to allocate " ++ sizeText (8 * shape.foldl (· * ·) 1) ++
      " for an array with shape " ++ Text.shape (shape.map Int.ofNat) ++ " and data type " ++
      kind.name)

/-- The number of bytes of the sizes other than zero. -/
def spannedBytes (shape : List Nat) : Nat := (shape.filter (0 < ·)).foldl (· * ·) 8

/-- Why an array of the given shape cannot be allocated, if it cannot. -/
def fault? (kind : Kind) (shape : List Int) : Option Fault :=
  let sizes := shape.map Int.toNat
  if !shape.all Number.fitsWord then some .sizeTooLarge
  else if shape.any (· < 0) then some .negativeSize
  else if wordLimit < spannedBytes sizes then some .tooManyBytes
  else if byteLimit < 8 * sizes.foldl (· * ·) 1 then some (.noRoom kind sizes)
  else none

/-- Fails if an array of the given shape cannot be allocated. -/
def check (kind : Kind) (shape : List Int) : Except Failure Unit :=
  match fault? kind shape with
  | none => .ok ()
  | some fault => .error fault.failure

/-- Fails if an array of doubles of the given shape cannot be allocated; a lack of room is reported
as another failure. -/
def checkOr (noRoom : Failure) (shape : List Int) : Except Failure Unit :=
  match fault? .real shape with
  | none => .ok ()
  | some (.noRoom _ _) => .error noRoom
  | some fault => .error fault.failure

end Summand.Allocation
