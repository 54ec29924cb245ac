import Summand.Text.Blank
import Summand.Text.Digit

/-!
# Reading integers

An integer is written as blanks, an optional sign, digits of any script and blanks again. Single
underscores may stand between digits. Texts of more than 4300 digits are refused, which bounds the
cost of reading untrusted settings.
-/

namespace Summand.Text

/-- The most digits that a written integer may have. -/
def digitLimit : Nat := 4300

/-- Why a text denotes no integer. -/
inductive IntegerFault where
  | malformed
  | tooLong (digits : Nat)

/-- The text of a fault of too many digits. -/
def tooLongMessage (digits : Nat) : String :=
  "Exceeds the limit (" ++ toString digitLimit ++
    " digits) for integer string conversion: value has " ++ toString digits ++
    " digits; use sys.set_int_max_str_digits() to increase the limit"

/-- The text of the failure of writing an integer of too many digits. -/
def unwritableMessage : String :=
  "Exceeds the limit (" ++ toString digitLimit ++
    " digits) for integer string conversion; use sys.set_int_max_str_digits() to increase the limit"

/-- The digits that a text begins with, without the single underscores between them, and what
follows. -/
def leadingDigits : List Char → List Nat × List Char
  | [] => ([], [])
  | c :: '_' :: d :: rest =>
    match digitValue? c, digitValue? d with
    | none, _ => ([], c :: '_' :: d :: rest)
    | some x, none => ([x], '_' :: d :: rest)
    | some x, some _ =>
      let (digits, rest) := leadingDigits (d :: rest)
      (x :: digits, rest)
  | c :: rest =>
    match digitValue? c with
    | none => ([], c :: rest)
    | some x =>
      let (digits, rest) := leadingDigits rest
      (x :: digits, rest)

/-- The number that decimal digits, the first most significant, denote. -/
def ofDigits (digits : List Nat) : Nat :=
  digits.foldl (fun n d ↦ 10 * n + d) 0

/-- The natural number that a text denotes. The digits are counted before what follows them is
looked at, unless that is an underscore. -/
def readNatural (text : List Char) : Except IntegerFault Nat :=
  let (digits, rest) := leadingDigits text
  if rest.head? = some '_' then .error .malformed
  else if digitLimit < digits.length then .error (.tooLong digits.length)
  else if digits.isEmpty || !rest.isEmpty then .error .malformed
  else .ok (ofDigits digits)

/-- The integer that a text denotes. -/
def readInteger (text : List Char) : Except IntegerFault Int :=
  match trim isNumberBlank text with
  | '-' :: rest => (readNatural rest).map fun n ↦ -(n : Int)
  | '+' :: rest => (readNatural rest).map Int.ofNat
  | rest => (readNatural rest).map Int.ofNat

end Summand.Text
