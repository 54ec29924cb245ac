import Summand.Json.Basic
import Summand.Decimal.Layout
import Summand.Text.Integer
import Summand.Text.Quoted

/-!
# Writing JSON

`line` writes a value on one line and `indented` one item per line, each level two columns further
in. Text is written in ASCII: all other characters are escaped by their sixteen-bit units. The
doubles that are not finite are written by name, and the others with the fewest digits that read
back. Integers of too many digits are not written (`withinLimit`). `shown` is the form in which
messages mention a value.
-/

namespace Summand.Json

/-! ### Leaves -/

/-- What stands in a JSON text for one unit. -/
def escapeUnit (unit : Nat) : List Char :=
  match unit with
  | 0x22 => ['\\', '"']
  | 0x5C => ['\\', '\\']
  | 0x0A => ['\\', 'n']
  | 0x0D => ['\\', 'r']
  | 0x09 => ['\\', 't']
  | 0x0C => ['\\', 'f']
  | 0x08 => ['\\', 'b']
  | _ =>
    if 32 ≤ unit && unit ≤ 126 then [Char.ofNat unit]
    else '\\' :: 'u' :: Text.hexadecimal 4 unit

/-- A text between double quotes. -/
def textChars (s : String) : List Char :=
  '"' :: (Text.units s.toList).flatMap escapeUnit ++ ['"']

/-- How doubles are written: as in messages, but for the names of those that are not finite. -/
def realLayout : Decimal.Layout :=
  { Decimal.plain with notANumber := "NaN", infinity := "Infinity" }

def realChars (x : Float) : List Char :=
  (realLayout.text Decimal.shortest x).toList

/-! ### Values -/

/-- The line break before an item at a depth. -/
def lineBreak (depth : Nat) : List Char :=
  '\n' :: List.replicate (2 * depth) ' '

mutual

/-- A value with one item per line, nested `depth` levels deep. -/
def indentedChars (depth : Nat) : Json → List Char
  | .null => ['n', 'u', 'l', 'l']
  | .bool true => ['t', 'r', 'u', 'e']
  | .bool false => ['f', 'a', 'l', 's', 'e']
  | .int n => (toString n).toList
  | .real x => realChars x
  | .text s => textChars s
  | .list [] => ['[', ']']
  | .list (item :: rest) =>
    '[' :: lineBreak (depth + 1) ++ indentedChars (depth + 1) item ++
      indentedItems depth rest ++ lineBreak depth ++ [']']
  | .object [] => ['\x7b', '\x7d']
  | .object ((name, item) :: rest) =>
    '\x7b' :: lineBreak (depth + 1) ++ textChars name ++ ':' :: ' ' ::
      indentedChars (depth + 1) item ++ indentedFields depth rest ++ lineBreak depth ++ ['\x7d']

/-- The further items of a list. -/
def indentedItems (depth : Nat) : List Json → List Char
  | [] => []
  | item :: rest =>
    ',' :: lineBreak (depth + 1) ++ indentedChars (depth + 1) item ++ indentedItems depth rest

/-- The further fields of an object. -/
def indentedFields (depth : Nat) : List (String × Json) → List Char
  | [] => []
  | (name, item) :: rest =>
    ',' :: lineBreak (depth + 1) ++ textChars name ++ ':' :: ' ' ::
      indentedChars (depth + 1) item ++ indentedFields depth rest

end

mutual

/-- A value on one line. -/
def lineChars : Json → List Char
  | .null => ['n', 'u', 'l', 'l']
  | .bool true => ['t', 'r', 'u', 'e']
  | .bool false => ['f', 'a', 'l', 's', 'e']
  | .int n => (toString n).toList
  | .real x => realChars x
  | .text s => textChars s
  | .list items => '[' :: lineItems items ++ [']']
  | .object fields => '\x7b' :: lineFields fields ++ ['\x7d']

def lineItems : List Json → List Char
  | [] => []
  | [item] => lineChars item
  | item :: rest => lineChars item ++ ',' :: ' ' :: lineItems rest

def lineFields : List (String × Json) → List Char
  | [] => []
  | [(name, item)] => textChars name ++ ':' :: ' ' :: lineChars item
  | (name, item) :: rest =>
    textChars name ++ ':' :: ' ' :: lineChars item ++ ',' :: ' ' :: lineFields rest

end

mutual

/-- Whether no integer of a value has more digits than may be written. -/
def withinLimit : Json → Bool
  | .int n => n.natAbs < Nat.pow 10 Text.digitLimit
  | .list items => itemsWithinLimit items
  | .object fields => fieldsWithinLimit fields
  | .null | .bool _ | .real _ | .text _ => true

def itemsWithinLimit : List Json → Bool
  | [] => true
  | item :: rest => withinLimit item && itemsWithinLimit rest

def fieldsWithinLimit : List (String × Json) → Bool
  | [] => true
  | (_, item) :: rest => withinLimit item && fieldsWithinLimit rest

end

/-- The text of a value with one item per line. -/
def indented (value : Json) : String := String.ofList (indentedChars 0 value)

/-- The text of a value on one line. -/
def line (value : Json) : String := String.ofList (lineChars value)

/-! ### Values in messages -/

mutual

/-- A value as messages mention it. -/
def shown : Json → String
  | .null => "None"
  | .bool true => "True"
  | .bool false => "False"
  | .int n => toString n
  | .real x => Decimal.plainText x
  | .text s => Text.quoted s
  | .list items => "[" ++ shownItems items ++ "]"
  | .object fields => "\x7b" ++ shownFields fields ++ "\x7d"

def shownItems : List Json → String
  | [] => ""
  | [item] => shown item
  | item :: rest => shown item ++ ", " ++ shownItems rest

def shownFields : List (String × Json) → String
  | [] => ""
  | [(name, item)] => Text.quoted name ++ ": " ++ shown item
  | (name, item) :: rest => Text.quoted name ++ ": " ++ shown item ++ ", " ++ shownFields rest

end

/-- The name of a value's type as messages mention it. -/
def typeName : Json → String
  | .null => "NoneType"
  | .bool _ => "bool"
  | .int _ => "int"
  | .real _ => "float"
  | .text _ => "str"
  | .list _ => "list"
  | .object _ => "dict"

/-- A value as text: a text itself, and any other value as messages mention it. -/
def plain : Json → String
  | .text s => s
  | other => other.shown

end Summand.Json
